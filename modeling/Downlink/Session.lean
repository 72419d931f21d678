import Downlink.Engine

/-!
Sessions: a scheduler in the hands of a caller who asks for anything in any order, with any rounds,
and goes on after a fault. A planner that is consulted meanwhile may first ask its scheduler for
things as well; then it replies. Every assignment that either of them was given is kept.
-/

namespace Downlink

/-- What can be asked. The first four concern the traffic alone, and `halt` ends it; `stop` ends the
horizons. -/
inductive Call where
  | generate (round : Int)
  | emit (station round : Int)
  | report (reports : List TxReport)
  | halt
  | select (round : Int)
  | assign (round : Int)
  | stop
  deriving DecidableEq, Repr

inductive Answer where
  | packets (ids : List Nat)
  | packet (id : Nat)
  | format (f : TxFormat)
  | assignment (a : RoundAssignment)
  | done
  deriving DecidableEq, Repr

def Answer.assignments : Answer → List RoundAssignment
  | assignment a => [a]
  | _ => []

def Attempt.state {σ α : Type} : Attempt σ α → σ
  | .ok _ s => s
  | .error _ s => s

namespace Scheduler

def answer (s : Scheduler) : Call → Attempt Scheduler Answer
  | .generate round =>
    let (ids, t) := s.traffic.generate round
    .ok (.packets ids) (s.withTraffic t)
  | .emit station round =>
    match s.traffic.emit station round with
    | .error e => .error e s
    | .ok (id, t) => .ok (.packet id) (s.withTraffic t)
  | .report reports => .ok .done (s.withTraffic (Engine.record s.traffic reports))
  | .halt => .ok .done (s.withTraffic s.traffic.stop)
  | .select round =>
    match s.select round with
    | .error e s => .error e s
    | .ok f s => .ok (.format f) s
  | .assign round =>
    match s.assign round with
    | .error e s => .error e s
    | .ok a s => .ok (.assignment a) s
  | .stop => .ok .done s.stop

end Scheduler

namespace DeadlineAware

def consults (round : Int) (d : DeadlineAware) : Bool :=
  !(Book.withBacklog d.traffic d.book.cell.ids).isEmpty && d.book.startsIn round && !d.planning

/-- A selection that consults the planner, up to there. -/
def propose (round : Int) (d : DeadlineAware) : Attempt DeadlineAware Schedule :=
  let candidates := Book.withBacklog d.traffic d.book.cell.ids
  let d := { d with book := { d.book with candidates := candidates }, planning := true }
  match d.book.cell.schedule round with
  | .error e => .error e { d with planning := false }
  | .ok s =>
    match expireAll round d.book.cell.ids d with
    | .error e d => .error e { d with planning := false }
    | .ok () d => .ok s d

/-- The rest of it: the reply and what follows from it. -/
def conclude (s : Schedule) (d : DeadlineAware) : Attempt DeadlineAware TxFormat :=
  let reply := d.planner.reply d.consulted s d.book.cell.sizing
  match consult reply { d with consulted := d.consulted + 1 } with
  | .error e d => .error e { d with planning := false }
  | .ok decision d => .ok .dlMuTx { install s decision d with planning := false }

end DeadlineAware

structure Session where
  scheduler : Scheduler
  returned : List RoundAssignment

namespace Session

def ofScheduler (s : Scheduler) : Session := ⟨s, []⟩

def traffic (s : Session) : Traffic := s.scheduler.traffic

def answer (s : Session) (c : Call) : Attempt Session Answer :=
  match s.scheduler.answer c with
  | .error e scheduler => .error e { s with scheduler := scheduler }
  | .ok a scheduler => .ok a ⟨scheduler, s.returned ++ a.assignments⟩

def answerAll : List Call → Session → Session
  | [], s => s
  | c :: rest, s => answerAll rest (s.answer c).state

/-- A round robin has no planner that could reply. -/
def conclude (schedule : Schedule) (s : Session) : Attempt Session Answer :=
  match s.scheduler with
  | .roundRobin _ => .ok .done s
  | .deadlineAware d =>
    match d.conclude schedule with
    | .error e d => .error e { s with scheduler := .deadlineAware d }
    | .ok f d => .ok (.format f) { s with scheduler := .deadlineAware d }

/-- A selection in which a planner makes the calls of its k-th consultation before its k-th reply.
-/
def select (conduct : Nat → List Call) (round : Int) (s : Session) : Attempt Session Answer :=
  match s.scheduler with
  | .roundRobin _ => s.answer (.select round)
  | .deadlineAware d =>
    if d.consults round then
      match d.propose round with
      | .error e d => .error e { s with scheduler := .deadlineAware d }
      | .ok schedule d' =>
        (answerAll (conduct d.consulted) { s with scheduler := .deadlineAware d' }).conclude
          schedule
    else s.answer (.select round)

def call (conduct : Nat → List Call) (s : Session) : Call → Attempt Session Answer
  | .select round => s.select conduct round
  | c => s.answer c

def run (conduct : Nat → List Call) : List Call → Session → Session
  | [], s => s
  | c :: rest, s => run conduct rest (s.call conduct c).state

end Session

end Downlink
