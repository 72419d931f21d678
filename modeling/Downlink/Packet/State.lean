/-!
The life of a packet: it waits to be matched with the schedule, is given a round, and ends
transmitted or dropped.
-/

namespace Downlink

inductive PacketState where
  | idle
  | pending
  | scheduled
  | transmitted
  | dropped
  deriving DecidableEq, Repr

inductive DropReason where
  | unmatched
  | late
  | deadline
  | solverFailure
  deriving DecidableEq, Repr

inductive TxStatus where
  | success
  | failed
  | nack
  deriving DecidableEq, Repr

namespace PacketState

def name : PacketState → String
  | idle => "Idle"
  | pending => "PendingMatch"
  | scheduled => "Scheduled"
  | transmitted => "Transmitted"
  | dropped => "Dropped"

def all : List PacketState := [idle, pending, scheduled, transmitted, dropped]

def ofName? (s : String) : Option PacketState := all.find? fun t => t.name = s

def allows : PacketState → PacketState → Bool
  | idle, pending => true
  | pending, scheduled => true
  | pending, dropped => true
  | scheduled, transmitted => true
  | scheduled, dropped => true
  | _, _ => false

def isTerminal : PacketState → Bool
  | transmitted => true
  | dropped => true
  | _ => false

theorem allows_of_isTerminal {s t : PacketState} (h : s.isTerminal = true) :
    s.allows t = false := by
  cases s <;> cases t <;> simp_all [isTerminal, allows]

end PacketState

namespace DropReason

def all : List DropReason := [unmatched, late, deadline, solverFailure]

def name : DropReason → String
  | unmatched => "unmatched"
  | late => "late"
  | deadline => "deadline"
  | solverFailure => "solver_failure"

def ofName? (s : String) : Option DropReason := all.find? fun r => r.name = s

end DropReason

namespace TxStatus

def name : TxStatus → String
  | success => "success"
  | failed => "failed"
  | nack => "nack"

def ofName? (s : String) : Option TxStatus := [success, failed, nack].find? fun t => t.name = s

end TxStatus

end Downlink
