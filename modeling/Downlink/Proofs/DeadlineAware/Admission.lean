import Downlink.Proofs.Assignment.Check
import Downlink.Proofs.DeadlineAware.Course

/-!
# Admission

A station's cursor stands at the entry of the station's next packet: it has moved on by the number
of packets that arrived since the horizon began. So the packet that arrives in a round is paired
with its own entry, and pairing leaves it as the course of the run has it.
-/

namespace Downlink

open DeadlineAware

namespace DeadlineAware

variable {d : DeadlineAware} {cur : Cursor} {k : Int}

theorem cursor?_setCursor_self (h : d.cursor? cur.station ≠ none) :
    (d.setCursor cur).cursor? cur.station = some cur := by
  obtain ⟨b, hb⟩ := Option.ne_none_iff_exists'.mp h
  have hst : b.station = cur.station :=
    of_decide_eq_true (List.find?_some (p := fun b : Cursor => decide (b.station = cur.station)) hb)
  have hp : (fun b : Cursor => decide (b.station = cur.station)) ∘
      (fun b => if b.station = cur.station then cur else b) =
        fun b => decide (b.station = cur.station) := by
    funext b
    simp only [Function.comp_apply]
    split_ifs with hb <;> simp [hb]
  rw [cursor?] at hb
  rw [cursor?, setCursor, List.find?_map, hp, hb, Option.map_some, if_pos hst]

theorem cursor?_setCursor_of_ne (h : k ≠ cur.station) :
    (d.setCursor cur).cursor? k = d.cursor? k := by
  have hp : (fun b : Cursor => decide (b.station = k)) ∘
      (fun b => if b.station = cur.station then cur else b) =
        fun b => decide (b.station = k) := by
    funext b
    simp only [Function.comp_apply]
    split_ifs with hb
    · simp [hb]
    · rfl
  rw [cursor?, cursor?, setCursor, List.find?_map, hp]
  cases hf : d.cursors.find? fun b => decide (b.station = k) with
  | none => rfl
  | some b =>
    have hb : b.station = k :=
      of_decide_eq_true (List.find?_some (p := fun b : Cursor => decide (b.station = k)) hf)
    rw [Option.map_some, if_neg (by rw [hb]; exact h)]

end DeadlineAware

namespace Course

variable {c : Course} {s : Station} {d : DeadlineAware} {k x p : Int} {t : Nat}

def progress (c : Course) (s : Station) (k t : Int) : Int :=
  (t - k * c.length + (s.period - 1)) / s.period

def cursorAt (c : Course) (s : Station) (k t : Int) : Cursor where
  station := s.id
  start := Schedule.firstIndex c.length c.cell.stations s.id
  stop := Schedule.firstIndex c.length c.cell.stations s.id + Schedule.packetsIn c.length s
  pos := Schedule.firstIndex c.length c.cell.stations s.id + c.progress s k t

theorem ceil_of_dvd (hp : 0 < p) (hx : x % p = 0) :
    (x + (p - 1)) / p = x / p ∧ (x + 1 + (p - 1)) / p = x / p + 1 := by
  have hd := Int.mul_ediv_add_emod x p
  rw [hx, Int.add_zero, Int.mul_comm] at hd
  rw [Int.ediv_eq_iff_of_pos hp, Int.ediv_eq_iff_of_pos hp, Int.add_mul]
  omega

theorem ceil_of_not_dvd (hp : 0 < p) (hx : x % p ≠ 0) :
    (x + 1 + (p - 1)) / p = (x + (p - 1)) / p := by
  have hd := Int.mul_ediv_add_emod x p
  have h₀ := Int.emod_nonneg x hp.ne'
  have h₁ := Int.emod_lt_of_pos x hp
  rw [Int.mul_comm] at hd
  have hceil : (x + (p - 1)) / p = x / p + 1 := by
    rw [Int.ediv_eq_iff_of_pos hp, Int.add_mul]
    omega
  rw [hceil, Int.ediv_eq_iff_of_pos hp, Int.add_mul]
  omega

theorem emod_period (hc : c.cell.Sound) (hs : s ∈ c.cell.stations) (k x : Int) :
    (x - k * c.length) % s.period = x % s.period := by
  obtain ⟨q, hq⟩ := hc.horizon.dvd s hs
  have : x - k * c.length = x - s.period * (k * q) := by
    rw [length, hq, ← Int.mul_assoc, Int.mul_comm k, Int.mul_assoc]
  rw [this, Int.sub_mul_emod_self_left]

theorem progress_start (hc : c.cell.Sound) (hs : s ∈ c.cell.stations) (k : Int) :
    c.progress s k (k * c.length) = 0 := by
  have hp := (hc.horizon.roster.valid s hs).period
  rw [progress, Int.sub_self, Int.zero_add]
  exact Int.ediv_eq_zero_of_lt (by omega) (by omega)

theorem cursorAt_succ_of_not_due (hc : c.cell.Sound) (hs : s ∈ c.cell.stations) (k : Int)
    (ht : x % s.period ≠ 0) : c.cursorAt s k (x + 1) = c.cursorAt s k x := by
  have hp := (hc.horizon.roster.valid s hs).period
  have hx : (x - k * c.length) % s.period ≠ 0 := by rwa [emod_period hc hs]
  have hceil := ceil_of_not_dvd (by omega) hx
  rw [show x - k * c.length + 1 = x + 1 - k * c.length by omega] at hceil
  simp only [cursorAt, progress, hceil]

theorem indexOf_lt (hc : c.cell.Sound) (hs : s ∈ c.cell.stations) (hdue : x % s.period = 0) :
    x % c.length / s.period < Schedule.packetsIn c.length s := by
  have := (Schedule.packet_of_due hc.horizon hs hdue).1
  rw [← length] at this
  omega

theorem advance_cursorAt (hc : c.cell.Sound) (hs : s ∈ c.cell.stations)
    (hdue : x % s.period = 0) :
    (c.cursorAt s (c.horizonOf x) x).advance =
      .ok (c.indexOf s x, c.cursorAt s (c.horizonOf x) (x + 1)) := by
  have hp := (hc.horizon.roster.valid s hs).period
  have hpos := length_pos hc
  have hmod : x - c.horizonOf x * c.length = x % c.length := by
    have := Int.ediv_mul_add_emod x c.length
    simp only [horizonOf]
    omega
  have hx : (x - c.horizonOf x * c.length) % s.period = 0 := by rwa [emod_period hc hs]
  obtain ⟨h₁, h₂⟩ := ceil_of_dvd (by omega) hx
  rw [show x - c.horizonOf x * c.length + 1 = x + 1 - c.horizonOf x * c.length by omega] at h₂
  have hlt := indexOf_lt hc hs hdue
  have hprog : c.progress s (c.horizonOf x) x = x % c.length / s.period := by
    rw [progress, h₁, hmod]
  have hnext : c.progress s (c.horizonOf x) (x + 1) = x % c.length / s.period + 1 := by
    rw [progress, h₂, hmod]
  simp only [Cursor.advance, Cursor.current, cursorAt, hprog, hnext, indexOf]
  rw [if_neg (by omega), Int.add_assoc]
  rfl

structure Installed (c : Course) (k : Int) (d : DeadlineAware) : Prop where
  schedule : d.book.schedule = some (c.scheduleOf k)
  index : d.book.lastIndex = k
  assignment : d.assignment = (c.decision k).getD []
  failed : d.horizonFailed = (c.decision k).isNone

theorem entryAt?_indexOf (hc : c.cell.Sound) (hs : s ∈ c.cell.stations)
    (hdue : x % s.period = 0) :
    (c.scheduleOf (c.horizonOf x)).entryAt? (c.indexOf s x) =
      some ⟨x, x + s.deadline, s.penalty, s.id⟩ := by
  have hp := (hc.horizon.roster.valid s hs).period
  have h₀ : 0 ≤ x % c.length / s.period :=
    Int.ediv_nonneg (Int.emod_nonneg x (length_pos hc).ne') (by omega)
  obtain ⟨hk, hpacket⟩ := Schedule.packet_of_due hc.horizon hs hdue
  have he := Schedule.getElem?_entries hc.horizon.roster hs hk (c.horizonOf x * c.length)
  rw [Assignment.entryAt?_of_nonneg (by simp only [indexOf]; omega), scheduleOf, indexOf,
    show (Schedule.firstIndex c.length c.cell.stations s.id + x % c.length / s.period).toNat =
      Schedule.firstIndex c.length c.cell.stations s.id + (x % c.length / s.period).toNat by omega]
  exact he.trans (congrArg some hpacket)

theorem settle_arrived (hi : Installed c (c.horizonOf x) d) (status : Option TxStatus) :
    d.settle x (c.indexOf s x) ((c.arrived s x).noted status) =
      .ok ((c.settled s x).noted status) := by
  have hpending : (c.arrived s x).state = .pending := rfl
  unfold settle settled
  rw [hi.failed, hi.assignment, hi.index]
  cases hd : c.decision (c.horizonOf x) with
  | none => exact Packet.drop_ok (Or.inl hpending)
  | some m =>
    dsimp only [Option.isNone_some, Option.getD_some]
    rw [if_neg (by decide)]
    cases hr : m.round? (c.indexOf s x) with
    | none => exact Packet.drop_ok (Or.inl hpending)
    | some r => exact Packet.schedule_ok hpending

theorem Installed.of_eq {d' : DeadlineAware} (h : Installed c k d)
    (hs : d'.book.schedule = d.book.schedule) (hh : d'.book.horizons = d.book.horizons)
    (ha : d'.assignment = d.assignment) (hf : d'.horizonFailed = d.horizonFailed) :
    Installed c k d' where
  schedule := hs.trans h.schedule
  index := by rw [Book.lastIndex, hh]; exact h.index
  assignment := ha.trans h.assignment
  failed := hf.trans h.failed

def enrolled (c : Course) (s : Station) (x : Int) (status : Option TxStatus) (d : DeadlineAware) :
    DeadlineAware :=
  { d.setCursor (c.cursorAt s (c.horizonOf x) (x + 1)) with
    traffic := d.traffic.setPacket (c.idOf s x) ((c.settled s x).noted status) }

theorem enroll_arrived (hc : c.cell.Sound) (hs : s ∈ c.cell.stations) (hdue : x % s.period = 0)
    (hi : Installed c (c.horizonOf x) d)
    (hcur : d.cursor? s.id = some (c.cursorAt s (c.horizonOf x) x)) {status : Option TxStatus}
    (hp : d.traffic.packet? (c.idOf s x) = some ((c.arrived s x).noted status)) :
    enroll x (c.idOf s x) ((c.arrived s x).noted status) d =
      .ok () (c.enrolled s x status d) := by
  have hcontains : (c.scheduleOf (c.horizonOf x)).contains x = true := by
    have hb := horizonOf_bounds hc x
    rw [Int.add_mul] at hb
    simp only [Schedule.contains, Schedule.stop, scheduleOf, Schedule.ofStations, Bool.and_eq_true]
    exact ⟨decide_eq_true hb.1, decide_eq_true (by omega)⟩
  have hi' : Installed c (c.horizonOf x) (d.setCursor (c.cursorAt s (c.horizonOf x) (x + 1))) :=
    hi.of_eq rfl rfl rfl rfl
  have hupdate := Traffic.update_ok hp (settle_arrived (s := s) hi' status)
  have hstation : ((c.arrived s x).noted status).station = s.id := rfl
  have harrival : (c.arrived s x).arrival = x := rfl
  unfold enroll
  simp only [hi.schedule, hstation, hcur, Packet.noted_arrival, harrival, hcontains, Bool.not_true,
    Bool.false_eq_true, if_false, advance_cursorAt hc hs hdue, entryAt?_indexOf hc hs hdue, ne_eq,
    not_true_eq_false]
  rw [show (d.setCursor (c.cursorAt s (c.horizonOf x) (x + 1))).traffic = d.traffic from rfl,
    hupdate]
  rfl

theorem enrollAll_append {round : Int} {ids : List Nat}
    (h : ∀ id ∈ ids, ∃ p, d.traffic.packet? id = some p ∧ p.state ≠ .pending) (rest : List Nat) :
    enrollAll round (ids ++ rest) d = enrollAll round rest d := by
  induction ids with
  | nil => rfl
  | cons id ids ih =>
    obtain ⟨p, hp, hn⟩ := h id List.mem_cons_self
    rw [List.cons_append, enrollAll, hp]
    dsimp only
    rw [if_neg hn]
    exact ih fun i hi => h i (List.mem_cons_of_mem id hi)

theorem enrollAll_of_not_pending {round : Int} {ids : List Nat}
    (h : ∀ id ∈ ids, ∃ p, d.traffic.packet? id = some p ∧ p.state ≠ .pending) :
    enrollAll round ids d = .ok () d := by
  rw [← List.append_nil ids, enrollAll_append h]
  rfl

structure Admitted (c : Course) (s : Station) (t n : Nat) (d d' : DeadlineAware) : Prop where
  same : d' = { d with traffic := d'.traffic, cursors := d'.cursors }
  holds : d'.traffic.Holds c.cell.stations n s (fun a => c.Shape s a (c.admitted s t a))
    fun a => c.pruned s t a ≠ .done
  apart : Traffic.Apart c.cell.stations n s d.traffic d'.traffic
  cursor : t < c.rounds → d'.cursor? s.id = some (c.cursorAt s (c.horizonOf t) (t + 1))
  cursors : ∀ k, k ≠ s.id → d'.cursor? k = d.cursor? k

theorem pruned_of_ne {a : Int} (hne : a ≠ t) (hlive : c.pruned s t a ≠ .done) :
    c.pruned s t a = .held := by
  unfold pruned at hlive ⊢
  rw [if_neg hne] at hlive ⊢
  split_ifs at hlive ⊢ with hw
  · rfl
  · exact absurd rfl hlive

theorem pruned_eq_admitted {a : Int} (h : a ≠ t) : c.pruned s t a = c.admitted s t a := by
  unfold admitted
  split_ifs with hdone
  · exact hdone
  · exact pruned_of_ne h hdone

theorem exists_settled {n : Nat} {a : Int} (hat : c.At s d.traffic n (c.pruned s t))
    (ha : a ∈ Traffic.arrivals s n) (hne : a ≠ t) (hlive : c.pruned s t a ≠ .done) :
    ∃ p, d.traffic.packet? (c.idOf s a) = some p ∧ p.state ≠ .pending := by
  obtain ⟨x, hp⟩ := exists_packet hat ha (pruned_of_ne hne hlive)
  exact ⟨_, hp, settled_not_pending c s a⟩

theorem enrollAll_due (hc : c.cell.Sound) (hs : s ∈ c.cell.stations)
    (hdue : (t : Int) % s.period = 0) (hat : c.At s d.traffic (t + 1) (c.pruned s t))
    (hi : Installed c (c.horizonOf t) d)
    (hcur : d.cursor? s.id = some (c.cursorAt s (c.horizonOf t) t)) :
    ∃ d', enrollAll t (d.traffic.waiting s.id) d = .ok () d' ∧ Admitted c s t (t + 1) d d' := by
  have hmem : (t : Int) ∈ Traffic.arrivals s (t + 1) :=
    Traffic.mem_arrivals.mpr ⟨by omega, hdue⟩
  have hfresh : c.pruned s t t = .fresh := if_pos rfl
  obtain ⟨x, hp⟩ := exists_packet hat hmem hfresh
  have hwaiting : d.traffic.waiting s.id = ((Traffic.arrivals s t).filter fun a =>
      c.pruned s t a ≠ .done).map (c.idOf s) ++ [c.idOf s t] := by
    rw [hat.queue, Traffic.arrivals_succ, if_pos hdue, List.filter_append, List.map_append]
    simp [hfresh, idOf]
  have henroll : enroll t (c.idOf s t) ((c.packetAt s t .fresh).noted x) d =
      .ok () (c.enrolled s t x d) := enroll_arrived hc hs hdue hi hcur hp
  have hself : (d.setCursor (c.cursorAt s (c.horizonOf t) (t + 1))).cursor? s.id =
      some (c.cursorAt s (c.horizonOf t) (t + 1)) := by
    refine cursor?_setCursor_self ?_
    change d.cursor? s.id ≠ none
    rw [hcur]
    simp
  refine ⟨c.enrolled s t x d, ?_, rfl, ?_, ?_, ?_, ?_⟩
  · rw [hwaiting, enrollAll_append]
    · have hpending : ((c.packetAt s t .fresh).noted x).state = .pending := rfl
      simp only [enrollAll, hp, hpending, if_true]
      rw [henroll]
    · intro id hid
      obtain ⟨a, ha, rfl⟩ := List.mem_map.mp hid
      obtain ⟨ha, hlive⟩ := List.mem_filter.mp ha
      have hlt := Traffic.mem_arrivals.mp ha
      apply exists_settled hat
      · exact Traffic.mem_arrivals.mpr ⟨by omega, hlt.2⟩
      · omega
      · exact of_decide_eq_true hlive
  · refine Traffic.Holds.setPacket hat hs hmem ⟨x, ?_⟩ ?_
    · rw [admitted, if_neg (by rw [hfresh]; decide)]
      rfl
    · intro a ha hne p hp
      rwa [← pruned_eq_admitted hne]
  · exact Traffic.Apart.setPacket hs hmem _ _
  · exact fun _ => hself
  · exact fun k hk => cursor?_setCursor_of_ne hk

theorem enrollAll_idle {n : Nat} (hc : c.cell.Sound) (hs : s ∈ c.cell.stations)
    (hne : ∀ a ∈ Traffic.arrivals s n, a ≠ t) (hat : c.At s d.traffic n (c.pruned s t))
    (hi : t < c.rounds → ¬(t : Int) % s.period = 0 ∧
      d.cursor? s.id = some (c.cursorAt s (c.horizonOf t) t)) :
    ∃ d', enrollAll t (d.traffic.waiting s.id) d = .ok () d' ∧ Admitted c s t n d d' := by
  refine ⟨d, ?_, rfl, ?_, Traffic.Apart.refl _ _ _ _, ?_, fun _ _ => rfl⟩
  · apply enrollAll_of_not_pending
    intro id hid
    rw [hat.queue] at hid
    obtain ⟨a, ha, rfl⟩ := List.mem_map.mp hid
    obtain ⟨ha, hlive⟩ := List.mem_filter.mp ha
    exact exists_settled hat ha (hne a ha) (of_decide_eq_true hlive)
  · refine hat.imp (fun a ha p hp => ?_) fun a ha => rfl
    rwa [← pruned_eq_admitted (hne a ha)]
  · intro hlt
    obtain ⟨hdue, hcur⟩ := hi hlt
    rw [hcur, cursorAt_succ_of_not_due hc hs _ hdue]

theorem enrollAll_waiting {n : Nat} (hc : c.cell.Sound) (hs : s ∈ c.cell.stations)
    (hn : n = min (t + 1) c.rounds) (hat : c.At s d.traffic n (c.pruned s t))
    (hi : t < c.rounds → Installed c (c.horizonOf t) d ∧
      d.cursor? s.id = some (c.cursorAt s (c.horizonOf t) t)) :
    ∃ d', enrollAll t (d.traffic.waiting s.id) d = .ok () d' ∧ Admitted c s t n d d' := by
  by_cases hdue : t < c.rounds ∧ (t : Int) % s.period = 0
  · obtain ⟨hlt, hdue⟩ := hdue
    obtain ⟨hinst, hcur⟩ := hi hlt
    obtain rfl : n = t + 1 := by omega
    exact enrollAll_due hc hs hdue hat hinst hcur
  · apply enrollAll_idle hc hs _ hat
    · intro hlt
      exact ⟨fun he => hdue ⟨hlt, he⟩, (hi hlt).2⟩
    · intro a ha he
      obtain ⟨⟨-, hlt⟩, hp⟩ := Traffic.mem_arrivals.mp ha
      exact hdue ⟨by omega, he ▸ hp⟩

end Course

end Downlink
