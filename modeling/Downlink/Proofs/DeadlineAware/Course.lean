import Downlink.Proofs.Cell
import Downlink.Proofs.Packet
import Downlink.Proofs.Schedule.Layout
import Downlink.Proofs.Traffic.Queues
import Downlink.Engine

/-!
# The course of a run

A cell, a planner and a number of rounds settle what becomes of every packet of a deadline-aware
run: the planner's decision for the packet's own horizon names a round, and the packet is sent in
that round, or dropped when it arrives, when its round has passed, or when the next horizon starts.
Here this is written down without the scheduler, packet by packet and stage by stage.
-/

namespace Downlink

structure Course where
  cell : Cell
  planner : Planner
  rounds : Nat

namespace Course

/-- How far a packet has come: just arrived, paired with its entry, or out of its queue. -/
inductive Stage where
  | fresh
  | held
  | done
  deriving DecidableEq

variable (c : Course) (k : Int) (s : Station) (a r : Int)

def length : Int := c.cell.horizonRounds

def scheduleOf : Schedule := Schedule.ofStations c.cell.stations (k * c.length) c.length

def decision : Option Assignment :=
  match c.planner.reply k.toNat (c.scheduleOf k) c.cell.sizing with
  | .plan p => some p.assignment
  | _ => none

def horizonOf : Int := a / c.length

def indexOf : Int :=
  Schedule.firstIndex c.length c.cell.stations s.id + a % c.length / s.period

def assigned? : Option Int := (c.decision (c.horizonOf a)).bind fun m => m.round? (c.indexOf s a)

def limit : Int := Station.longestDeadline c.cell.stations + c.length + 1

def expiry : Int :=
  if (c.horizonOf a + 1) * c.length < c.rounds then (c.horizonOf a + 1) * c.length
  else c.rounds + c.limit

def sends : Bool := c.assigned? s a = some r && a ≤ r && r < c.expiry a

/-- The round in which a packet leaves its queue. -/
def resolution : Int :=
  match c.assigned? s a with
  | none => a
  | some r => if r < a then a else min r (c.expiry a)

def sentIn : List Int := (Traffic.arrivals s c.rounds).filter fun a => c.sends s a r

def sentBefore : Nat :=
  ((c.cell.stations.filter fun t => t.id < s.id).map fun t => (c.sentIn t r).length).sum

def rank : Nat := c.sentBefore s r + (c.sentIn s r).idxOf a

def idOf : Nat := Traffic.idOf c.cell.stations s a

def arrived : Packet := Traffic.arriving s (c.idOf s a) a

def paired : Packet :=
  { c.arrived s a with
    horizon := some (c.horizonOf a)
    scheduleIndex := some (c.indexOf s a) }

def settled : Packet :=
  match c.decision (c.horizonOf a) with
  | none =>
    { c.paired s a with
      state := .dropped, dropRound := some a, dropReason := some .solverFailure }
  | some m =>
    match m.round? (c.indexOf s a) with
    | none =>
      { c.paired s a with state := .dropped, dropRound := some a, dropReason := some .unmatched }
    | some r => { c.paired s a with state := .scheduled, assignedRound := some r }

def finished : Packet :=
  match c.assigned? s a with
  | none => c.settled s a
  | some r =>
    if c.sends s a r then
      { c.settled s a with
        state := .transmitted
        txRound := some r
        ru := some ⟨c.cell.sizing.ruType, c.rank s a r + 1⟩ }
    else
      { c.settled s a with
        state := .dropped, dropRound := some (c.resolution s a), dropReason := some .late }

def packetAt : Stage → Packet
  | .fresh => c.arrived s a
  | .held => c.settled s a
  | .done => c.finished s a

end Course

namespace Course

variable (c : Course) (s : Station) (t : Nat) (a : Int)

def paused : Stage := if (t : Int) ≤ c.resolution s a then .held else .done

def present : Stage := if a = t then .fresh else c.paused s t a

def pruned : Stage :=
  if a = t then .fresh
  else if (t : Int) ≤ c.resolution s a ∧ (t : Int) < c.expiry a then .held else .done

def admitted : Stage := if c.pruned s t a = .done then .done else .held

/-- Up to the report of its transmission, a packet is as its stage says. -/
def Shape (stage : Stage) (p : Packet) : Prop := ∃ x, p = (c.packetAt s a stage).noted x

/-- The packets of a station from the first `n` rounds, and its queue, are as the stages say. -/
def At (c : Course) (s : Station) (tr : Traffic) (n : Nat) (stage : Int → Stage) : Prop :=
  tr.Holds c.cell.stations n s (fun a => c.Shape s a (stage a)) fun a => stage a ≠ .done

variable {c s t a} {r : Int}

theorem exists_packet {tr : Traffic} {n : Nat} {stage : Int → Stage} {live : Int → Bool}
    (h : tr.Holds c.cell.stations n s (fun a => c.Shape s a (stage a)) live)
    (ha : a ∈ Traffic.arrivals s n) {st : Stage} (hst : stage a = st) :
    ∃ x, tr.packet? (c.idOf s a) = some ((c.packetAt s a st).noted x) := by
  obtain ⟨p, hp, x, rfl⟩ := h.packet a ha
  exact ⟨x, by rw [← hst]; exact hp⟩

theorem At.congr {tr : Traffic} {n : Nat} {stage stage' : Int → Stage} (h : c.At s tr n stage)
    (he : ∀ a ∈ Traffic.arrivals s n, stage a = stage' a) : c.At s tr n stage' :=
  h.imp (fun a ha p hp => he a ha ▸ hp) fun a ha => by rw [he a ha]

theorem At.finish {tr : Traffic} {n : Nat} {stage : Int → Stage} (h : c.At s tr n stage)
    (hs : s ∈ c.cell.stations) (hst : tr.stations = c.cell.stations)
    (ha : a ∈ Traffic.arrivals s n) (x : Option TxStatus) :
    c.At s ((tr.setQueue s.id ((tr.waiting s.id).filter (· ≠ c.idOf s a))).setPacket (c.idOf s a)
      ((c.finished s a).noted x)) n fun b => if b = a then .done else stage b := by
  have hq : c.Shape s a (if a = a then .done else stage a) ((c.finished s a).noted x) :=
    ⟨x, by rw [if_pos rfl]; rfl⟩
  have hother : ∀ b ∈ Traffic.arrivals s n, b ≠ a → ∀ p, c.Shape s b (stage b) p →
      c.Shape s b (if b = a then .done else stage b) p := by
    intro b _ hb p hp
    rwa [if_neg hb]
  refine (Traffic.Holds.resolve h hs hst ha hq hother).imp (fun _ _ _ hp => hp) fun b _ => ?_
  by_cases hb : b = a
  · simp [hb]
  · simp [hb]

theorem length_pos (hc : c.cell.Sound) : 0 < c.length := hc.horizon.pos

theorem limit_pos (hc : c.cell.Sound) : 0 < c.limit := by
  have h₁ := length_pos hc
  have h₂ := Station.longestDeadline_nonneg c.cell.stations
  simp only [limit]
  omega

theorem horizonOf_bounds (hc : c.cell.Sound) (a : Int) :
    c.horizonOf a * c.length ≤ a ∧ a < (c.horizonOf a + 1) * c.length := by
  have hpos := length_pos hc
  have h₁ := Int.ediv_mul_le a hpos.ne'
  have h₂ := Int.lt_ediv_add_one_mul_self a hpos
  exact ⟨h₁, h₂⟩

theorem lt_expiry (hc : c.cell.Sound) (ha : a < c.rounds) : a < c.expiry a := by
  have h₁ := (horizonOf_bounds hc a).2
  have h₂ := limit_pos hc
  unfold expiry
  split_ifs
  · exact h₁
  · omega

theorem expiry_le (hc : c.cell.Sound) (a : Int) : c.expiry a ≤ c.rounds + c.limit := by
  have := limit_pos hc
  unfold expiry
  split_ifs
  · omega
  · exact le_rfl

theorem le_resolution (hc : c.cell.Sound) (ha : a < c.rounds) (s : Station) :
    a ≤ c.resolution s a := by
  have := lt_expiry hc ha
  unfold resolution
  split
  · exact le_rfl
  · split_ifs <;> omega

theorem resolution_le_expiry (hc : c.cell.Sound) (ha : a < c.rounds) (s : Station) :
    c.resolution s a ≤ c.expiry a := by
  have := lt_expiry hc ha
  unfold resolution
  split
  · omega
  · split_ifs <;> omega

theorem expiry_le_of_start (hc : c.cell.Sound) (hs : (t : Int) % c.length = 0)
    (ht : t < c.rounds) (ha : a < t) : c.expiry a ≤ t := by
  have hpos := length_pos hc
  obtain ⟨j, hj⟩ := Int.dvd_of_emod_eq_zero hs
  have hlt : c.horizonOf a < j := by
    rw [horizonOf]
    exact Int.ediv_lt_of_lt_mul hpos (by rw [Int.mul_comm]; omega)
  have hle : (c.horizonOf a + 1) * c.length ≤ t := by
    rw [hj, Int.mul_comm c.length j]
    exact Int.mul_le_mul_of_nonneg_right (by omega) hpos.le
  rw [expiry, if_pos (by omega)]
  exact hle

theorem lt_expiry_of_waiting (hc : c.cell.Sound) (ha : a < c.rounds)
    (hs : ¬ ((t : Int) % c.length = 0 ∧ t < c.rounds)) (ht : (t : Int) < c.rounds + c.limit)
    (hw : (t : Int) ≤ c.resolution s a) : (t : Int) < c.expiry a := by
  have hle := hw.trans (resolution_le_expiry hc ha s)
  refine lt_of_le_of_ne hle fun he => ?_
  unfold expiry at he
  split_ifs at he with hstop
  · refine hs ⟨?_, by omega⟩
    rw [he, Int.mul_emod_left]
  · omega

theorem assigned?_eq_some : c.assigned? s a = some r ↔
    ∃ m, c.decision (c.horizonOf a) = some m ∧ m.round? (c.indexOf s a) = some r := by
  rw [assigned?, Option.bind_eq_some_iff]

theorem exists_plan_of_decision {k : Int} {m : Assignment} (h : c.decision k = some m) :
    ∃ p, c.planner.reply k.toNat (c.scheduleOf k) c.cell.sizing = .plan p ∧ p.assignment = m := by
  unfold decision at h
  split at h
  · rename_i p hp
    exact ⟨p, hp, Option.some.inj h⟩
  · cases h

theorem settled_of_assigned (h : c.assigned? s a = some r) :
    c.settled s a = { c.paired s a with state := .scheduled, assignedRound := some r } := by
  obtain ⟨m, hm, hr⟩ := assigned?_eq_some.mp h
  simp only [settled, hm, hr]

theorem settled_of_failed (h : c.decision (c.horizonOf a) = none) :
    c.settled s a =
      { c.paired s a with
        state := .dropped, dropRound := some a, dropReason := some .solverFailure } := by
  simp only [settled, h]

theorem settled_of_unmatched {m : Assignment} (h : c.decision (c.horizonOf a) = some m)
    (hr : m.round? (c.indexOf s a) = none) :
    c.settled s a =
      { c.paired s a with
        state := .dropped, dropRound := some a, dropReason := some .unmatched } := by
  simp only [settled, h, hr]

theorem unassigned_cases (h : c.assigned? s a = none) :
    c.decision (c.horizonOf a) = none ∨
      ∃ m, c.decision (c.horizonOf a) = some m ∧ m.round? (c.indexOf s a) = none := by
  cases hd : c.decision (c.horizonOf a) with
  | none => exact Or.inl rfl
  | some m => exact Or.inr ⟨m, rfl, by simpa only [assigned?, hd, Option.bind_some] using h⟩

theorem state_of_unassigned (h : c.assigned? s a = none) : (c.settled s a).state = .dropped := by
  rcases unassigned_cases h with hd | ⟨m, hd, hr⟩
  · rw [settled_of_failed hd]
  · rw [settled_of_unmatched hd hr]

theorem settled_not_pending (c : Course) (s : Station) (a : Int) :
    (c.settled s a).state ≠ .pending := by
  cases h : c.assigned? s a with
  | none =>
    rw [state_of_unassigned h]
    decide
  | some r =>
    rw [settled_of_assigned h]
    simp

theorem settled_from (c : Course) (s : Station) (a : Int) : (c.settled s a).From s a := by
  unfold settled
  split
  · exact ⟨rfl, rfl, rfl, rfl⟩
  · split <;> exact ⟨rfl, rfl, rfl, rfl⟩

theorem finished_from (c : Course) (s : Station) (a : Int) : (c.finished s a).From s a := by
  have h := settled_from c s a
  unfold finished
  split
  · exact h
  · split_ifs <;> exact ⟨h.station, h.arrival, h.deadline, h.penalty⟩

theorem settled_arrival (c : Course) (s : Station) (a : Int) : (c.settled s a).arrival = a :=
  (settled_from c s a).arrival

theorem finished_arrival (c : Course) (s : Station) (a : Int) : (c.finished s a).arrival = a :=
  (finished_from c s a).arrival

theorem sends_iff : c.sends s a r = true ↔
    c.assigned? s a = some r ∧ a ≤ r ∧ r < c.expiry a := by
  simp [sends, and_assoc]

theorem finished_of_sends (h : c.sends s a r = true) : c.finished s a =
    { c.settled s a with
      state := .transmitted
      txRound := some r
      ru := some ⟨c.cell.sizing.ruType, c.rank s a r + 1⟩ } := by
  simp only [finished, (sends_iff.mp h).1, h, if_true]

theorem finished_of_late (h : c.assigned? s a = some r) (hs : c.sends s a r = false) :
    c.finished s a =
      { c.settled s a with
        state := .dropped, dropRound := some (c.resolution s a), dropReason := some .late } := by
  simp only [finished, h, hs, Bool.false_eq_true, if_false]

theorem finished_of_unassigned (h : c.assigned? s a = none) : c.finished s a = c.settled s a := by
  simp only [finished, h]

structure Waits (c : Course) (s : Station) (t a : Int) : Prop where
  arrived : a ≤ t
  unresolved : t ≤ c.resolution s a
  unexpired : t < c.expiry a

theorem resolution_of_unassigned (h : c.assigned? s a = none) : c.resolution s a = a := by
  simp only [resolution, h]

theorem resolution_of_assigned (h : c.assigned? s a = some r) :
    c.resolution s a = if r < a then a else min r (c.expiry a) := by
  simp only [resolution, h]

theorem resolution_of_sends (h : c.sends s a r = true) : c.resolution s a = r := by
  obtain ⟨h₁, h₂, h₃⟩ := sends_iff.mp h
  rw [resolution_of_assigned h₁, if_neg (by omega), min_eq_left h₃.le]

section Waits

variable {t : Int}

theorem Waits.unassigned (h : Waits c s t a) (hn : c.assigned? s a = none) :
    c.resolution s a = t := by
  have h₁ := h.unresolved
  have h₂ := h.arrived
  rw [resolution_of_unassigned hn] at h₁ ⊢
  omega

theorem Waits.due (h : Waits c s t a) (hr : c.assigned? s a = some t) :
    c.sends s a t = true ∧ c.resolution s a = t := by
  have h₁ := h.arrived
  have h₂ := h.unexpired
  refine ⟨sends_iff.mpr ⟨hr, h₁, h₂⟩, ?_⟩
  rw [resolution_of_assigned hr, if_neg (by omega), min_eq_left h₂.le]

theorem Waits.late (h : Waits c s t a) (hr : c.assigned? s a = some r) (hlt : r < t) :
    c.sends s a r = false ∧ c.resolution s a = t := by
  have h₁ := h.unresolved
  have h₂ := h.arrived
  rw [resolution_of_assigned hr] at h₁ ⊢
  have hra : r < a := by
    by_contra hge
    rw [if_neg hge] at h₁
    omega
  rw [if_pos hra] at h₁ ⊢
  refine ⟨?_, by omega⟩
  rw [Bool.eq_false_iff]
  intro hs
  have := (sends_iff.mp hs).2.1
  omega

theorem Waits.ahead (h : Waits c s t a) (hr : c.assigned? s a = some r) (hlt : t < r) :
    t + 1 ≤ c.resolution s a := by
  have h₁ := h.arrived
  have h₂ := h.unexpired
  rw [resolution_of_assigned hr, if_neg (by omega)]
  omega

theorem resolution_of_expired (hc : c.cell.Sound) (ha : a < c.rounds) (h₁ : t ≤ c.resolution s a)
    (h₂ : c.expiry a ≤ t) : ∃ r, c.assigned? s a = some r ∧ c.sends s a r = false ∧
      c.resolution s a = t := by
  have hlt := lt_expiry hc ha
  cases hr : c.assigned? s a with
  | none =>
    rw [resolution_of_unassigned hr] at h₁
    omega
  | some r =>
    have hres := resolution_le_expiry hc ha s
    refine ⟨r, rfl, ?_, by omega⟩
    rw [Bool.eq_false_iff]
    intro hs
    obtain ⟨-, hge, hex⟩ := sends_iff.mp hs
    rw [resolution_of_assigned hr, if_neg (by omega)] at h₁
    omega

end Waits

end Course

end Downlink
