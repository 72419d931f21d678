import Downlink.Scheduler.DeadlineAware
import Downlink.Scheduler.RoundRobin

/-!
The schedulers under one roof. A scheduler holds the traffic that it serves.
-/

namespace Downlink

inductive Scheduler where
  | deadlineAware (d : DeadlineAware)
  | roundRobin (d : RoundRobin)

namespace Scheduler

def lift {σ τ α : Type} (f : σ → τ) : Attempt σ α → Attempt τ α
  | .ok a s => .ok a (f s)
  | .error e s => .error e (f s)

def name : Scheduler → String
  | deadlineAware _ => DeadlineAware.name
  | roundRobin _ => RoundRobin.name

def book : Scheduler → Book
  | deadlineAware d => d.book
  | roundRobin d => d.book

def traffic : Scheduler → Traffic
  | deadlineAware d => d.traffic
  | roundRobin d => d.traffic

def withTraffic (t : Traffic) : Scheduler → Scheduler
  | deadlineAware d => deadlineAware { d with traffic := t }
  | roundRobin d => roundRobin { d with traffic := t }

def select (round : Int) : Scheduler → Attempt Scheduler TxFormat
  | deadlineAware d => lift deadlineAware (d.select round)
  | roundRobin d => lift roundRobin (d.select round)

def assign (round : Int) : Scheduler → Attempt Scheduler RoundAssignment
  | deadlineAware d => lift deadlineAware (d.assign round)
  | roundRobin d => lift roundRobin (d.assign round)

def stop : Scheduler → Scheduler
  | deadlineAware d => deadlineAware d.stop
  | roundRobin d => roundRobin d.stop

def sizing (s : Scheduler) : Sizing := s.book.cell.sizing

def horizons (s : Scheduler) : List HorizonRecord := s.book.horizons

end Scheduler

end Downlink
