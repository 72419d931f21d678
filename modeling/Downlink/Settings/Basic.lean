import Downlink.Station
import Downlink.ResourceUnit.Sizing
import Downlink.Value

/-!
Settings of a simulation and of the solver behind its deadline-aware scheduler, with the checks that
a run makes before it starts. The first broken setting is the one that is named.
-/

namespace Downlink

/-- The solver's settings; `fallback` and `workdir` stay as they were written until they are used.
-/
structure SolverSettings where
  backend : String := "matching"
  command : Option (List String) := none
  workdir : Value := .null
  timeout : Option Number := some (.real 60)
  fallback : Value := .text "matching"

namespace SolverSettings

def backends : List String := ["matching", "ilp"]

def fallbackAllowed : Value → Bool
  | .null => true
  | .text s => s = "matching"
  | _ => false

def check (s : SolverSettings) : Except Fault Unit :=
  if s.backend ∉ backends then .error (.setup (.backendSetting s.backend))
  else
    match s.timeout with
    | none => .error .wrongKind
    | some t =>
      if t.notPositive then .error (.setup .timeoutSetting)
      else if !fallbackAllowed s.fallback then .error (.setup .fallbackSetting)
      else .ok ()

end SolverSettings

def defaultCap : Int := 1024

structure Settings where
  stations : List Station
  width : Int := 40
  rounds : Int := 60
  scheduler : String := "DA"
  cap : Int := defaultCap
  ruType : Option Int := none
  roundDuration : Number := .real 10000
  maxCredit : Number := .real 1000000
  lossRate : Number := .real 0
  seed : Int := 42
  solver : SolverSettings := {}

namespace Settings

def schedulers : List String := ["DA", "DRR"]

def checkRuType : Option Int → Except Fault Unit
  | none => .ok ()
  | some tones =>
    if (RuType.ofTones? tones).isSome then .ok ()
    else .error (.showing [tones] (.setup (.ruTypeSetting tones)))

def checkRest (s : Settings) : Except Fault Unit :=
  if s.roundDuration.notPositive || s.maxCredit.notPositive then .error (.setup .creditSetting)
  else if !s.lossRate.isProbability then .error (.setup .lossSetting)
  else s.solver.check

def check (s : Settings) : Except Fault Unit :=
  match Station.checkAll s.stations with
  | .error e => .error e
  | .ok () =>
    match Width.check s.width with
    | .error e => .error e
    | .ok _ =>
      if s.rounds < 1 then .error (.setup .roundsSetting)
      else if s.scheduler ∉ schedulers then .error (.setup (.schedulerSetting s.scheduler))
      else if s.cap < 1 then .error (.setup .capSetting)
      else
        match checkRuType s.ruType with
        | .error e => .error e
        | .ok () => s.checkRest

end Settings

end Downlink
