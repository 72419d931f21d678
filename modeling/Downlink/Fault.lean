import Downlink.Number
import Downlink.Text.Quoted
import Downlink.ResourceUnit.Basic
import Downlink.Packet.State

/-!
What can go wrong, by cause. A set-up fault is a broken experiment, a solve fault leaves one horizon
without a plan, a desynchronisation means that the queues no longer agree with the active schedule;
the rest are faults of single values. `message` words each of them.
-/

namespace Downlink

open Text (decimal quoted bracketed)

inductive NumberFault where
  | notInteger (text : String)
  | notReal (text : String)
  | nanToInteger
  | wrongKind (integer : Bool) (kind : String)
  | tooLarge
  deriving DecidableEq

inductive ItemFault where
  | missing (field : String)
  | number (cause : NumberFault)
  deriving DecidableEq

inductive SetupFault where
  | noStations
  | negativeStation (id : Int)
  | shortPeriod (id period : Int)
  | negativeDeadline (id deadline : Int)
  | negativePenalty (id penalty : Int)
  | repeatedStation (id : Int)
  | noPeriods
  | shortPeriods (periods : List Int)
  | horizonTooLong (periods : List Int) (rounds cap : Int)
  | unsupportedWidth (width : Int)
  | unfitting (type : RuType) (width : Width)
  | unknownTones (tones : Int)
  | typeIndexOutOfRange (index tones : Int)
  | valueCount (packets : Int) (found : Nat)
  | lossRate (rate : Number)
  | unknownBackend (name : String)
  | unsupportedFallback (name : String)
  | backendSetting (name : String)
  | timeoutSetting
  | fallbackSetting
  | roundsSetting
  | schedulerSetting (name : String)
  | capSetting
  | ruTypeSetting (tones : Int)
  | creditSetting
  | lossSetting
  | station (index : Nat) (cause : ItemFault)
  | notAMapping (file : String)
  | noScheduler

inductive SolveFault where
  | indexOutside (index : Int) (count : Nat)
  | roundOutside (index round low high : Int)
  | overfull (round : Int) (load : Nat) (capacity : Int)
  | malformedLine (line : Nat) (raw : String)
  | nonInteger (line : Nat) (raw : String)
  | indexOutOfRange (line : Nat) (index : Int)
  | mappedTwice (line : Nat) (index : Int)
  | timedOut (limit : Option Number)
  | notStarted (reason : String)
  | exited (code : Int) (complaint : String)
  | noOutput
  | noMipBackend
  | notOptimal (status : Int)
  | reported (text : String)

inductive DesyncFault where
  | illegalMove (packet station : Int) (source target : PacketState)
  | runExhausted (station start stop : Int)
  | reentered (round : Int)
  | outsideHorizon (station packet arrival : Int)
  | misaligned (station packet arrival index entryStation entryArrival : Int)
  | overCapacity (round : Int) (capacity : Nat)
  | noEntry (station packet arrival : Int)
  deriving DecidableEq

inductive ValueFault where
  | deadlineBeforeArrival
  | negativeStart
  | cursorOutsideRun
  | tooManyDigits
  | negativeSeed
  | unknownRuType (tones : Int)
  | unknownDropReason (name : String)
  | number (cause : NumberFault)
  | unknownLogLevel (name : String)
  deriving DecidableEq

inductive Key where
  | whole (n : Int)
  | text (s : String)
  deriving DecidableEq

inductive Fault where
  | setup (cause : SetupFault)
  | solve (cause : SolveFault)
  | desync (cause : DesyncFault)
  | value (cause : ValueFault)
  | missing (key : Key)
  | wrongKind
  | noField
  | outOfRange
  | division
  | overflow
  | notADocument
  | noFile

abbrev Attempt (σ α : Type) := EStateM.Result Fault σ α

namespace NumberFault

def quotedLimit : Nat := 200

def message : NumberFault → String
  | notInteger s =>
    "invalid literal for int() with base 10: " ++
      String.ofList ((quoted s).toList.take quotedLimit)
  | notReal s => "could not convert string to float: " ++ quoted s
  | nanToInteger => "cannot convert float NaN to integer"
  | wrongKind true kind =>
    s!"int() argument must be a string, a bytes-like object or a real number, not '{kind}'"
  | wrongKind false kind => s!"float() argument must be a string or a real number, not '{kind}'"
  | tooLarge => "number too large to convert"

end NumberFault

def ItemFault.message : ItemFault → String
  | missing field => "KeyError(" ++ quoted field ++ ")"
  | number (.wrongKind integer kind) =>
    "TypeError(" ++ quoted (NumberFault.wrongKind integer kind).message ++ ")"
  | number cause => "ValueError(" ++ quoted cause.message ++ ")"

def intList (xs : List Int) : String := bracketed (xs.map decimal)

def SetupFault.message : SetupFault → String
  | noStations => "At least one station is required."
  | negativeStation id => s!"station_id must be >= 0 (got {id})."
  | shortPeriod id period => s!"STA_{id}: period must be >= 1 (got {period})."
  | negativeDeadline id deadline => s!"STA_{id}: deadline must be >= 0 (got {deadline})."
  | negativePenalty id penalty => s!"STA_{id}: penalty must be >= 0 (got {penalty})."
  | repeatedStation id => s!"Duplicate station_id {id}."
  | noPeriods => "Cannot compute a horizon without stations."
  | shortPeriods periods => s!"Periods must be >= 1 (got {intList periods})."
  | horizonTooLong periods rounds cap =>
    s!"LCM of periods {intList periods} is {rounds} rounds, above the cap of {cap}. " ++
      "Pick commensurate periods."
  | unsupportedWidth width =>
    s!"Only 20 MHz and 40 MHz are supported by the deadline schedulers (got {width})."
  | unfitting type width => s!"{type.name} does not fit in a {width.megahertz} MHz channel."
  | unknownTones tones => s!"Unsupported totalTones {tones} (expected 242 or 484)."
  | typeIndexOutOfRange index tones => s!"ruTypeIndex {index} out of range for {tones} tones."
  | valueCount packets found =>
    s!"expected {3 * packets} schedule values for {packets} packets, got {found}"
  | lossRate rate => s!"error_rate must be in [0,1] (got {rate.text})."
  | unknownBackend name =>
    s!"Unknown solver backend {quoted name} (expected one of ('matching', 'ilp'))."
  | unsupportedFallback name => s!"Unsupported ILP fallback {quoted name} (only 'matching')."
  | backendSetting name =>
    s!"solver.backend must be one of ('matching', 'ilp') (got {quoted name})."
  | timeoutSetting => "solver.timeout_s must be > 0."
  | fallbackSetting => "solver.fallback must be 'matching' or null."
  | roundsSetting => "n_rounds must be >= 1."
  | schedulerSetting name => s!"scheduler must be one of ('DA', 'DRR') (got {quoted name})."
  | capSetting => "max_rounds_per_schedule must be >= 1."
  | ruTypeSetting tones =>
    s!"ru_type must be one of {intList (RuType.all.map RuType.tones)} tones (got {tones})."
  | creditSetting => "round_duration_us and max_credits_us must be > 0."
  | lossSetting => "error_rate must be in [0,1]."
  | station index cause => s!"stations[{index}]: " ++ cause.message
  | notAMapping file => s!"{file}: top level must be a mapping."
  | noScheduler => "No valid schedulers found in `schedulers_compared` (check config)."

def outputFile : String := "ilp.output"

def SolveFault.message : SolveFault → String
  | indexOutside index count => s!"packet index {index} outside [0, {count})"
  | roundOutside index round low high =>
    s!"packet {index} mapped to round {round}, outside its window [{low}, {high}]"
  | overfull round load capacity =>
    s!"round {round} carries {load} packets but only {capacity} RUs"
  | malformedLine line raw =>
    s!"{outputFile}:{line}: expected 'packetIndex,round', got {quoted raw}"
  | nonInteger line raw => s!"{outputFile}:{line}: non-integer field in {quoted raw}"
  | indexOutOfRange line index => s!"{outputFile}:{line}: packet index {index} out of range"
  | mappedTwice line index => s!"{outputFile}:{line}: packet {index} mapped twice"
  | timedOut none => "ILP process timed out after Nones"
  | timedOut (some limit) => s!"ILP process timed out after {limit.text}s"
  | notStarted reason => s!"could not start ILP process: {reason}"
  | exited code complaint => s!"ILP process exited with {code}: {complaint}"
  | noOutput => s!"ILP process did not write {outputFile}"
  | noMipBackend => "OR-Tools offers none of the MIP backends ('SCIP', 'CBC')"
  | notOptimal status => s!"ILP did not reach optimality (status {status})"
  | reported text => text

def DesyncFault.message : DesyncFault → String
  | illegalMove packet station source target =>
    s!"Packet {packet} (STA_{station}): illegal transition {source.name} -> {target.name}"
  | runExhausted station start stop =>
    s!"STA_{station}: more packets than schedule entries (run [{start}, {stop}) exhausted)"
  | reentered round => s!"horizon solve re-entered in round {round}"
  | outsideHorizon station packet arrival =>
    s!"STA_{station} packet {packet} (arrival {arrival}) does not belong to the active horizon"
  | misaligned station packet arrival index entryStation entryArrival =>
    s!"STA_{station} packet {packet} arrived in round {arrival} but the cursor points at entry " ++
      s!"{index} (STA_{entryStation}, arrival {entryArrival})"
  | overCapacity round capacity => s!"round {round}: more packets due than {capacity} RUs"
  | noEntry station packet arrival =>
    s!"STA_{station} packet {packet} (arrival {arrival}) has no entry in the active packet schedule"

def ValueFault.message : ValueFault → String
  | deadlineBeforeArrival => "arrival_round must be <= deadline_round"
  | negativeStart => "start_round must be >= 0"
  | cursorOutsideRun => "cursor position outside its run"
  | tooManyDigits =>
    s!"Exceeds the limit ({Text.digitLimit} digits) for integer string conversion; " ++
      "use sys.set_int_max_str_digits() to increase the limit"
  | negativeSeed => "expected non-negative integer"
  | unknownRuType tones => s!"{tones} is not a valid RuType"
  | unknownDropReason name => quoted name ++ " is not a valid DropReason"
  | number cause => cause.message
  | unknownLogLevel name => "Unknown level: " ++ quoted name

def Key.shown : Key → String
  | whole n => decimal n
  | text s => quoted s

/-- Messages are worded when a fault is raised; one that shows a number of too many digits cannot be
worded, which is a fault of its own. -/
def Fault.showing (numbers : List Int) (f : Fault) : Fault :=
  if numbers.all Text.isWritable then f else .value .tooManyDigits

def NumberFault.fault : NumberFault → Fault
  | wrongKind _ _ => .wrongKind
  | tooLarge => .overflow
  | cause => .value (.number cause)

def Fault.message? : Fault → Option String
  | setup cause => some cause.message
  | solve cause => some cause.message
  | desync cause => some cause.message
  | value cause => some cause.message
  | missing key => some key.shown
  | _ => none

end Downlink
