import Downlink.Engine
import Downlink.Settings.Basic
import Downlink.Solver

/-!
A simulation: settings are checked, traffic, scheduler and channel are set up in this order, and the
round loop runs. What comes from outside, the channel's draws and the solver's process, is given by
an environment, so that a run is a function of settings and environment.
-/

namespace Downlink

structure Environment where
  /-- The k-th draw, between zero and one, for a seed. -/
  draw : Int → Nat → Float
  /-- How the k-th call of a command with its arguments goes. -/
  process : Nat → List String → List String → ProcessOutcome
  /-- The command that starts the external solver where settings name none. -/
  launcher : List String

def Environment.after (env : Environment) (calls : Nat) : Environment :=
  { env with process := fun k => env.process (calls + k) }

structure RunResult where
  rounds : Int
  backend : String
  policy : String
  packets : List Packet
  rows : List RoundRow
  horizons : List HorizonRecord
  ruType : RuType
  perRound : Int
  horizonRounds : Int
  lastRound : Int

namespace Simulation

def fallbackName : Value → Option String
  | .null => none
  | v => some v.shown

def solver (launcher : List String) (s : SolverSettings) : Except Fault Solver :=
  Solver.make launcher s.backend s.command s.timeout (fallbackName s.fallback)

/-- Whether a working directory can be opened: one that is named has to be named by a text. -/
def opens : Value → Bool
  | .null => true
  | .text _ => true
  | _ => false

def stranded : Planner := ⟨External.name, fun _ _ _ => .raise .wrongKind⟩

def planner (env : Environment) (workdir : Value) : Solver → Planner
  | .matching => Planner.matching
  | .external x =>
    if opens workdir then Planner.external x env.process fun _ => ⟨none⟩ else stranded

def cell (s : Settings) : Except Fault Cell :=
  (RuType.checkPinned s.ruType).bind fun t => Cell.make s.stations s.width s.cap t

def roundRobin (s : Settings) (t : Traffic) (c : Cell) : Except Fault Scheduler :=
  match s.roundDuration.toReal?, s.maxCredit.toReal? with
  | some duration, some most => .ok (.roundRobin (RoundRobin.make c t duration most))
  | _, _ => .error .overflow

def scheduler (env : Environment) (s : Settings) (t : Traffic) : Except Fault Scheduler :=
  if s.scheduler = DeadlineAware.name then
    match solver env.launcher s.solver with
    | .error e => .error e
    | .ok solver => (cell s).map fun c =>
      .deadlineAware (DeadlineAware.make c t (planner env s.solver.workdir solver))
  else (cell s).bind (roundRobin s t)

def channel (env : Environment) (s : Settings) : Except Fault Channel :=
  (Channel.make s.lossRate (env.draw s.seed)).bind (Channel.seeded s.seed)

def engine (env : Environment) (s : Settings) : Except Fault Engine :=
  match Traffic.ofStations s.stations with
  | .error e => .error e
  | .ok t =>
    match scheduler env s t with
    | .error e => .error e
    | .ok sch => (channel env s).map (Engine.make sch)

def result (s : Settings) (e : Engine) (last : Int) : RunResult where
  rounds := s.rounds
  backend := s.solver.backend
  policy := e.scheduler.name
  packets := e.traffic.packets.toList
  rows := e.rows
  horizons := e.scheduler.horizons
  ruType := e.scheduler.sizing.ruType
  perRound := e.scheduler.sizing.perRound
  horizonRounds := e.scheduler.book.cell.horizonRounds
  lastRound := last

def run (env : Environment) (s : Settings) : Except Fault RunResult :=
  match s.check with
  | .error e => .error e
  | .ok () =>
    match engine env s with
    | .error e => .error e
    | .ok e =>
      match e.run s.rounds with
      | .error fault _ => .error fault
      | .ok last e => .ok (result s e last)

def commandLines (launcher : List String) (s : Settings) (r : RunResult) : List (List String) :=
  match solver launcher s.solver, cell s with
  | .ok (.external x), .ok c =>
    if r.policy = DeadlineAware.name then
      r.horizons.filterMap fun h =>
        ((c.schedule h.start).bind fun sch => x.commandLine sch c.sizing).toOption
    else []
  | _, _ => []

end Simulation

end Downlink
