import Downlink.Settings.Basic
import Downlink.Text.Path

/-!
Settings out of a document. Fields that are missing have defaults, numbers may be written as texts,
and a scenario overrides the settings of the document field by field.
-/

namespace Downlink

open Value (Fields)

namespace Settings

def toInt (v : Value) : Except Fault Int := v.toInt.mapError NumberFault.fault

def toReal (v : Value) : Except Fault Float := v.toReal.mapError NumberFault.fault

def itemFault (index : Nat) : NumberFault → Fault
  | .tooLarge => .overflow
  | cause => .setup (.station index (.number cause))

def itemInt (index : Nat) (v : Value) : Except Fault Int := v.toInt.mapError (itemFault index)

def readStation (index : Nat) (item : Value) : Except Fault Station := do
  let fs ← item.fields
  let id ← itemInt index (Fields.getD fs "station_id" (.whole index))
  match Fields.get? fs "period" with
  | none => .error (.setup (.station index (.missing "period")))
  | some v =>
    let period ← itemInt index v
    let deadline ← itemInt index (Fields.getD fs "deadline" (.whole 0))
    let penalty ← itemInt index (Fields.getD fs "penalty" (.whole 1))
    .ok ⟨id, period, deadline, penalty⟩

def readStationsFrom (index : Nat) : List Value → Except Fault (List Station)
  | [] => .ok []
  | item :: rest =>
    match readStation index item with
    | .error e => .error e
    | .ok s => (readStationsFrom (index + 1) rest).map (s :: ·)

def readStations (v : Value) : Except Fault (List Station) := do
  let items ← v.members
  readStationsFrom 0 items

def defaultStations : List Station := [⟨0, 1, 0, 5⟩, ⟨1, 2, 0, 10⟩, ⟨2, 4, 0, 15⟩]

/-- A command is a text of words or a list; an empty one counts as missing. -/
def readCommand : Value → Except Fault (Option (List String))
  | .text s =>
    let ws := (Text.words s.toList).map String.ofList
    .ok (if ws.isEmpty then none else some ws)
  | v =>
    if v.isPresent then v.members.map fun items => some (items.map Value.shown) else .ok none

def readSolver (v : Value) : Except Fault SolverSettings := do
  let fs ← if v.isPresent then v.fields else .ok []
  let command ← readCommand (Fields.getD fs "command" .null)
  let timeout ← toReal (Fields.getD fs "timeout_s" (.number (.real 60)))
  .ok { backend := (Fields.getD fs "backend" (.text "matching")).shown
        command := command
        workdir := Fields.getD fs "workdir" .null
        timeout := some (.real timeout)
        fallback := Fields.getD fs "fallback" (.text "matching") }

def readRuType : Option Value → Except Fault (Option Int)
  | none => .ok none
  | some v => if v.isNull then .ok none else (toInt v).map some

def readUnchecked (fs : Fields) (scheduler : Option String) : Except Fault Settings := do
  let int (name : String) (default : Int) := toInt (Fields.getD fs name (.whole default))
  let real (name : String) (default : Float) :=
    toReal (Fields.getD fs name (.number (.real default)))
  let listed := Fields.getD fs "stations" .null
  let stations ← if listed.isPresent then readStations listed else .ok defaultStations
  let width ← int "channel_width" 40
  let rounds ← int "n_rounds" 60
  let named := (Fields.getD fs "scheduler" (.text "DA")).shown
  let cap ← int "max_rounds_per_schedule" defaultCap
  let ruType ← readRuType (Fields.get? fs "ru_type")
  let roundDuration ← real "round_duration_us" 10000
  let maxCredit ← real "max_credits_us" 1000000
  let lossRate ← real "error_rate" 0
  let seed ← int "seed" 42
  let solver ← readSolver (Fields.getD fs "solver" .null)
  .ok { stations := stations
        width := width
        rounds := rounds
        scheduler := match scheduler with
          | none => named
          | some s => if s.isEmpty then named else s
        cap := cap
        ruType := ruType
        roundDuration := .real roundDuration
        maxCredit := .real maxCredit
        lossRate := .real lossRate
        seed := seed
        solver := solver }

def read (v : Value) (scheduler : Option String) : Except Fault Settings := do
  let fs ← v.fields
  let s ← readUnchecked fs scheduler
  s.check
  .ok s

def readSchedulers (fs : Fields) : Except Fault (List String) :=
  let requested := Fields.getD fs "schedulers_compared" .null
  if requested.isNull then .ok schedulers
  else
    match requested.members with
    | .error e => .error e
    | .ok items =>
      if items.any fun v => !v.isScalar then .error .wrongKind
      else
        let chosen := schedulers.filter fun s => items.any (Value.sameKey (.text s))
        if chosen.isEmpty then .error (.setup .noScheduler) else .ok chosen

/-- One field of a scenario: a solver given as a mapping is merged into the solver of the document,
anything else replaces what the document says. -/
def override (merged : Fields) (key value : Value) : Except Fault Fields :=
  match value with
  | .mapping fs =>
    if Value.sameKey key (.text "solver") then
      let base := Fields.getD merged "solver" .null
      if base.isPresent then
        match base with
        | .mapping gs => .ok (Fields.set merged (.text "solver") (.mapping (Fields.union gs fs)))
        | _ => .error .wrongKind
      else .ok (Fields.set merged (.text "solver") (.mapping fs))
    else .ok (Fields.set merged key value)
  | _ => .ok (Fields.set merged key value)

def overrideAll (merged : Fields) : Fields → Except Fault Fields
  | [] => .ok merged
  | (key, value) :: rest =>
    match override merged key value with
    | .error e => .error e
    | .ok merged => overrideAll merged rest

def readOverrides (v : Value) : Except Fault Fields := if v.isPresent then v.fields else .ok []

def scenariosFrom (base : Fields) : Fields → Except Fault (List (String × Fields))
  | [] => .ok []
  | (name, overrides) :: rest => do
    let fs ← readOverrides overrides
    let merged ← overrideAll base fs
    let others ← scenariosFrom base rest
    .ok ((name.shown, merged) :: others)

/-- The scenarios of a document, each the settings of the top level with its overrides. A document
without scenarios is the single scenario `default`. -/
def readScenarios (fs : Fields) : Except Fault (List (String × Fields)) :=
  let base := Fields.without fs ["scenarios", "schedulers_compared", "run_name"]
  let listed := Fields.getD fs "scenarios" .null
  if listed.isPresent then
    match listed.fields with
    | .error e => .error e
    | .ok scenarios => scenariosFrom base scenarios
  else .ok [("default", base)]

/-- The name of a file without its last extension; a dot at either end opens none. -/
def stem (file : String) : String :=
  let name := (Text.Path.ofText file).name
  let cs := name.toList
  match cs.reverse.dropWhile (· ≠ '.') with
  | [] => name
  | _ :: before =>
    if before.isEmpty || before.length + 1 = cs.length then name else String.ofList before.reverse

def readDocument (file : String) (document : Value) : Except Fault Fields :=
  if document.isPresent then
    match document with
    | .mapping fs =>
      .ok (if (Fields.get? fs "run_name").isSome then fs
        else fs ++ [(.text "run_name", .text (stem file))])
    | _ => .error (.setup (.notAMapping file))
  else .ok [(.text "run_name", .text (stem file))]

end Settings

end Downlink
