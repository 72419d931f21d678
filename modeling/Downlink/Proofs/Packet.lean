import Mathlib.Tactic.Common
import Downlink.Packet
import Downlink.ResourceUnit.Sizing
import Downlink.Station

/-!
# Packets

What each step of a packet's life makes of a packet whose state allows it, and when the outcome of a
packet is complete.
-/

namespace Downlink.Packet

variable {p : Packet} {index round : Int} {reason : DropReason} {ru : Ru} {x : Option TxStatus}

def noted (p : Packet) (x : Option TxStatus) : Packet := { p with txStatus := x }

@[simp]
theorem noted_state (p : Packet) (x : Option TxStatus) : (p.noted x).state = p.state := rfl

@[simp]
theorem noted_arrival (p : Packet) (x : Option TxStatus) : (p.noted x).arrival = p.arrival := rfl

@[simp]
theorem noted_assignedRound (p : Packet) (x : Option TxStatus) :
    (p.noted x).assignedRound = p.assignedRound := rfl

theorem move_ok {target : PacketState} (h : p.state.allows target = true) :
    p.move target = .ok { p with state := target } := if_pos h

theorem schedule_ok (h : p.state = .pending) : p.schedule index round =
    .ok { p with
      state := .scheduled, scheduleIndex := some index, assignedRound := some round } := by
  rw [schedule, move_ok (by rw [h]; rfl)]
  rfl

def lost (p : Packet) (round : Int) (reason : DropReason) : Packet :=
  { p with state := .dropped, dropRound := some round, dropReason := some reason }

theorem drop_ok (h : p.state = .pending ∨ p.state = .scheduled) :
    p.drop round reason = .ok (p.lost round reason) := by
  rw [drop, move_ok (by rcases h with h | h <;> rw [h] <;> rfl)]
  rfl

theorem transmit_scheduled (h : p.state = .scheduled) : p.transmit round ru =
    .ok { p with state := .transmitted, txRound := some round, ru := some ru } := by
  have hr : p.ready round = .ok p := if_neg (by simp [h])
  rw [transmit, hr]
  dsimp only
  rw [move_ok (by rw [h]; rfl)]
  rfl

theorem transmit_pending (h : p.state = .pending) : p.transmit round ru =
    .ok { p with
      state := .transmitted
      assignedRound := some round
      txRound := some round
      ru := some ru } := by
  have hr : p.ready round = .ok { p with state := .scheduled, assignedRound := some round } := by
    rw [ready, if_pos h, move_ok (by rw [h]; rfl)]
    rfl
  rw [transmit, hr]
  rfl

def Closed (p : Packet) : Prop :=
  p.state = .transmitted ∧ p.txRound.isSome ∧ p.dropReason = none ∨
    p.state = .dropped ∧ p.txRound = none ∧ p.dropReason.isSome

structure From (p : Packet) (s : Station) (a : Int) : Prop where
  station : p.station = s.id
  arrival : p.arrival = a
  deadline : p.deadline = a + s.deadline
  penalty : p.penalty = s.penalty

structure Open (p : Packet) (s : Station) (a : Int) : Prop extends p.From s a where
  state : p.state = .pending
  unsent : p.txRound = none
  kept : p.dropReason = none

structure Sent (p : Packet) (z : Sizing) (s : Station) (a : Int) : Prop extends p.From s a where
  state : p.state = .transmitted
  kept : p.dropReason = none
  slot : ∃ r u, p.txRound = some r ∧ a ≤ r ∧ r ≤ a + s.deadline ∧ p.ru = some u ∧ u ∈ z.units

structure Expired (p : Packet) (s : Station) (a : Int) : Prop extends p.From s a where
  state : p.state = .dropped
  unsent : p.txRound = none
  round : p.dropRound = some (a + s.deadline)
  reason : p.dropReason = some .deadline

def Settled (p : Packet) (z : Sizing) (s : Station) (a : Int) : Prop := p.Sent z s a ∨ p.Expired s a

variable {s : Station} {a : Int} {z : Sizing}

theorem From.noted (h : p.From s a) (x : Option TxStatus) : (p.noted x).From s a :=
  ⟨h.station, h.arrival, h.deadline, h.penalty⟩

theorem Open.noted (h : p.Open s a) (x : Option TxStatus) : (p.noted x).Open s a :=
  ⟨h.toFrom.noted x, h.state, h.unsent, h.kept⟩

theorem isResolved_of_transmitted (h : p.state = .transmitted) : p.isResolved = true := by
  rw [isResolved, h]
  rfl

theorem Closed.isResolved (h : p.Closed) : p.isResolved = true := by
  rcases h with ⟨hstate, -⟩ | ⟨hstate, -⟩
  · exact isResolved_of_transmitted hstate
  · rw [Packet.isResolved, hstate]
    rfl

theorem Open.not_closed (h : p.Open s a) : ¬ p.Closed := by
  simp [Closed, h.state]

theorem Settled.noted (h : p.Settled z s a) (x : Option TxStatus) : (p.noted x).Settled z s a :=
  h.imp (fun h => ⟨h.toFrom.noted x, h.state, h.kept, h.slot⟩)
    fun h => ⟨h.toFrom.noted x, h.state, h.unsent, h.round, h.reason⟩

theorem sent_of_noted {x : Option TxStatus} (h : (p.noted x).Sent z s a) : p.Sent z s a :=
  ⟨⟨h.station, h.arrival, h.deadline, h.penalty⟩, h.state, h.kept, h.slot⟩

theorem Settled.from (h : p.Settled z s a) : p.From s a := h.elim Sent.toFrom Expired.toFrom

theorem Settled.closed (h : p.Settled z s a) : p.Closed := by
  rcases h with h | h
  · obtain ⟨r, u, hr, -⟩ := h.slot
    exact Or.inl ⟨h.state, by rw [hr]; rfl, h.kept⟩
  · exact Or.inr ⟨h.state, h.unsent, by rw [h.reason]; rfl⟩

theorem Open.lost (h : p.Open s a) (hr : round = a + s.deadline) :
    (p.lost round .deadline).Expired s a :=
  ⟨⟨h.station, h.arrival, h.deadline, h.penalty⟩, rfl, h.unsent, congrArg some hr, rfl⟩

theorem Open.transmit (h : p.Open s a) (ha : a ≤ round) (hr : round ≤ a + s.deadline)
    (hru : ru ∈ z.units) : ∃ q, p.transmit round ru = .ok q ∧ q.Sent z s a ∧
      q.txRound = some round ∧ q.ru = some ru :=
  ⟨_, transmit_pending h.state,
    ⟨⟨h.station, h.arrival, h.deadline, h.penalty⟩, rfl, h.kept, round, ru, rfl, ha, hr, rfl, hru⟩,
    rfl, rfl⟩

end Downlink.Packet
