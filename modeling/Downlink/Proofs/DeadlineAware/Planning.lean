import Downlink.Proofs.DeadlineAware.Service
import Downlink.Proofs.Engine

/-!
# Planning

In the first round of a horizon the packets left over from the last one are given up, the planner is
consulted once, and its decision is installed together with fresh cursors. In the other rounds the
selection of the format changes nothing but the list of stations with something queued.
-/

namespace Downlink

open DeadlineAware

namespace Course

variable {c : Course} {s : Station} {d d' : DeadlineAware} {t n m : Nat} {a k : Int} {L : List Int}

def Settles (c : Course) : Prop :=
  ∀ k : Nat, k * c.length < c.rounds →
    (∃ plan, c.planner.reply k (c.scheduleOf k) c.cell.sizing = .plan plan) ∨
      ∃ cause, c.planner.reply k (c.scheduleOf k) c.cell.sizing = .fail cause

def Raised (c : Course) (f : Fault) : Prop :=
  ∃ k : Nat, k * c.length < c.rounds ∧
    c.planner.reply k (c.scheduleOf k) c.cell.sizing = .raise f

/-- The planner never calls back: it settles the horizon or raises a fault. -/
def Answers (c : Course) : Prop :=
  ∀ k : Nat, k * c.length < c.rounds →
    (∃ plan, c.planner.reply k (c.scheduleOf k) c.cell.sizing = .plan plan) ∨
      (∃ cause, c.planner.reply k (c.scheduleOf k) c.cell.sizing = .fail cause) ∨
        ∃ f, c.planner.reply k (c.scheduleOf k) c.cell.sizing = .raise f

theorem Settles.answers (h : c.Settles) : c.Answers :=
  fun k hk => (h k hk).imp_right Or.inl

theorem Settles.not_raised (h : c.Settles) (f : Fault) : ¬ c.Raised f := by
  intro hraised
  obtain ⟨k, hk, hr⟩ := hraised
  rcases h k hk with ⟨plan, he⟩ | ⟨cause, he⟩
  · rw [he] at hr
    cases hr
  · rw [he] at hr
    cases hr

structure Cleared (c : Course) (s : Station) (n : Nat) (L : List Int) (stage : Int → Stage)
    (d d' : DeadlineAware) : Prop where
  same : d' = { d with traffic := d'.traffic, unreported := d'.unreported }
  reached : c.At s d'.traffic n fun a => if a ∈ L then .done else stage a
  apart : Traffic.Apart c.cell.stations n s d.traffic d'.traffic

theorem expire_cleared {stage : Int → Stage} (hc : c.cell.Sound) (hs : s ∈ c.cell.stations)
    (hL : L.Nodup)
    (hmem : ∀ a ∈ L, a ∈ Traffic.arrivals s n ∧ stage a = .held ∧ a < c.rounds ∧
      t ≤ c.resolution s a ∧ c.expiry a ≤ t)
    (hst : d.traffic.stations = c.cell.stations) (hat : c.At s d.traffic n stage) :
    ∃ d', expire t s.id (L.map (c.idOf s)) d = .ok () d' ∧ Cleared c s n L stage d d' := by
  induction L generalizing d stage with
  | nil =>
    exact ⟨d, rfl, rfl, hat.congr fun a _ => (if_neg List.not_mem_nil).symm,
      Traffic.Apart.refl _ _ _ _⟩
  | cons a L ih =>
    obtain ⟨haL, hnd⟩ := List.nodup_cons.mp hL
    obtain ⟨ha, hheld, har, hres, hexp⟩ := hmem a List.mem_cons_self
    obtain ⟨r, hr, hnot, hres'⟩ := resolution_of_expired hc har hres hexp
    obtain ⟨x, hp⟩ := exists_packet hat ha hheld
    have hscheduled : ((c.settled s a).noted x).state = .scheduled :=
      (settled_of_assigned_state hr).1
    have hlate : ((c.settled s a).noted x).drop t .late = .ok ((c.finished s a).noted x) := by
      rw [Packet.drop_ok (Or.inr hscheduled), finished_of_late hr hnot, hres']
      rfl
    have hne : ∀ b ∈ L, b ≠ a := fun b hb he => haL (he ▸ hb)
    let tr := d.traffic.setQueue s.id ((d.traffic.waiting s.id).filter (· ≠ c.idOf s a))
    have hupdate : (tr.update (c.idOf s a) fun p => p.drop t .late) =
        .ok (tr.setPacket (c.idOf s a) ((c.finished s a).noted x)) := Traffic.update_ok hp hlate
    obtain ⟨d₂, hd₂, h₂⟩ := ih (d := { d with
        traffic := tr.setPacket (c.idOf s a) ((c.finished s a).noted x)
        unreported := d.unreported ++ [c.idOf s a] }) hnd
      (fun b hb => by rw [if_neg (hne b hb)]; exact hmem b (List.mem_cons_of_mem a hb))
      (by simp [tr, hst]) (hat.finish hs hst ha x)
    refine ⟨d₂, ?_, ?_, ?_, ?_⟩
    · simp only [List.map_cons, expire]
      rw [hupdate]
      exact hd₂
    · rw [h₂.same]
    · refine h₂.reached.congr fun b _ => ?_
      by_cases hb : b = a
      · simp [hb]
      · simp [hb]
    · refine Traffic.Apart.trans ?_ h₂.apart
      exact (Traffic.Apart.setQueue hc.horizon.roster hs n _ _).trans
        (Traffic.Apart.setPacket hs ha _ _)

def leftIn (c : Course) (s : Station) (t n : Nat) : List Int :=
  (Traffic.arrivals s n).filter fun a => c.present s t a ≠ .done && a < t

theorem mem_leftIn : a ∈ c.leftIn s t n ↔
    a ∈ Traffic.arrivals s n ∧ c.present s t a ≠ .done ∧ a < t := by
  simp [leftIn]

theorem leftIn_nodup (c : Course) (s : Station) (t n : Nat) : (c.leftIn s t n).Nodup :=
  (Traffic.arrivals_nodup s n).filter _

theorem stale_eq (hat : c.At s d.traffic n (c.present s t)) :
    stale d.traffic s.id t = (c.leftIn s t n).map (c.idOf s) := by
  rw [stale, hat.queue, List.filter_map, List.filter_filter, leftIn]
  congr 1
  refine List.filter_congr fun a ha => ?_
  obtain ⟨x, hp⟩ := exists_packet hat ha rfl
  have harrival : (c.packetAt s a (c.present s t a)).arrival = a := by
    cases c.present s t a with
    | fresh => rfl
    | held => exact settled_arrival c s a
    | done => exact finished_arrival c s a
  have hp' : d.traffic.packet? (Traffic.idOf c.cell.stations s a) = _ := hp
  simp only [Function.comp_apply, hp', Packet.noted_arrival, harrival]
  rw [Bool.and_comm]

theorem present_of_lt (ha : a < t) (hlive : c.present s t a ≠ .done) :
    c.present s t a = .held ∧ (t : Int) ≤ c.resolution s a := by
  unfold present paused at hlive ⊢
  rw [if_neg ha.ne] at hlive ⊢
  split_ifs at hlive ⊢ with hle
  · exact ⟨rfl, hle⟩
  · exact absurd rfl hlive

theorem expire_station (hc : c.cell.Sound) (hs : s ∈ c.cell.stations)
    (hn : n = min (t + 1) c.rounds) (hstart : (t : Int) % c.length = 0 ∧ t < c.rounds)
    (hst : d.traffic.stations = c.cell.stations) (hat : c.At s d.traffic n (c.present s t)) :
    ∃ d', expire t s.id (stale d.traffic s.id t) d = .ok () d' ∧
      d' = { d with traffic := d'.traffic, unreported := d'.unreported } ∧
      c.At s d'.traffic n (c.pruned s t) ∧
        Traffic.Apart c.cell.stations n s d.traffic d'.traffic := by
  have hmem : ∀ a ∈ c.leftIn s t n, a ∈ Traffic.arrivals s n ∧ c.present s t a = .held ∧
      a < c.rounds ∧ t ≤ c.resolution s a ∧ c.expiry a ≤ t := by
    intro a ha
    obtain ⟨ha, hlive, hlt⟩ := mem_leftIn.mp ha
    obtain ⟨hheld, hres⟩ := present_of_lt hlt hlive
    exact ⟨ha, hheld, by omega, hres, expiry_le_of_start hc hstart.1 hstart.2 hlt⟩
  obtain ⟨d', hd', h⟩ :=
    expire_cleared hc hs (leftIn_nodup c s t n) hmem hst hat
  refine ⟨d', ?_, h.same, h.reached.congr fun a ha => ?_, h.apart⟩
  · rw [stale_eq hat]
    exact hd'
  · have hlt := (Traffic.mem_arrivals.mp ha).1.2
    by_cases hat : a = t
    · subst hat
      rw [if_neg fun hm => lt_irrefl _ (mem_leftIn.mp hm).2.2, present, pruned, if_pos rfl,
        if_pos rfl]
    · have hexp := expiry_le_of_start hc hstart.1 hstart.2 (show a < t by omega)
      have hdone : c.pruned s t a = .done := by
        rw [pruned, if_neg hat, if_neg]
        omega
      rw [hdone]
      split_ifs with hm
      · rfl
      · by_contra hlive
        exact hm (mem_leftIn.mpr ⟨ha, hlive, by omega⟩)

theorem expireAll_pruned (hc : c.cell.Sound) (hn : n = min (t + 1) c.rounds)
    (hstart : (t : Int) % c.length = 0 ∧ t < c.rounds) {before rest : List Station}
    (hsplit : c.cell.stations = before ++ rest) (hst : d.traffic.stations = c.cell.stations)
    (hbefore : ∀ s ∈ before, c.At s d.traffic n (c.pruned s t))
    (hrest : ∀ s ∈ rest, c.At s d.traffic n (c.present s t)) :
    ∃ d', expireAll t (rest.map Station.id) d = .ok () d' ∧
      d' = { d with traffic := d'.traffic, unreported := d'.unreported } ∧
      d'.traffic.stations = d.traffic.stations ∧
      d'.traffic.generating = d.traffic.generating ∧
      d'.traffic.packets.size = d.traffic.packets.size ∧
      ∀ s ∈ c.cell.stations, c.At s d'.traffic n (c.pruned s t) := by
  induction rest generalizing before d with
  | nil =>
    rw [List.append_nil] at hsplit
    exact ⟨d, rfl, rfl, rfl, rfl, rfl, hsplit ▸ hbefore⟩
  | cons s rest ih =>
    obtain ⟨hs, hpast, hfuture, hsplit'⟩ := hc.horizon.roster.turn hsplit
    obtain ⟨d₁, hexpire, hsame, hat₁, hapart⟩ :=
      expire_station hc hs hn hstart hst (hrest s List.mem_cons_self)
    obtain ⟨d₂, hd₂, hsame₂, hst₂, hgen₂, hsize₂, hat₂⟩ := ih hsplit' (hapart.served.trans hst)
      (by
        intro u hu
        rcases List.mem_append.mp hu with hu | hu
        · exact (hbefore u hu).apart hapart (hpast u hu).1 (hpast u hu).2
        · exact List.mem_singleton.mp hu ▸ hat₁)
      (fun u hu => (hrest u (List.mem_cons_of_mem s hu)).apart hapart (hfuture u hu).1
        (hfuture u hu).2)
    refine ⟨d₂, ?_, ?_, hst₂.trans hapart.served, hgen₂.trans hapart.generating,
      hsize₂.trans hapart.size, hat₂⟩
    · rw [List.map_cons, expireAll, hexpire]
      exact hd₂
    · rw [hsame₂, hsame]

/-- The horizons that began before round `m`, as the scheduler remembers them. -/
structure Ledger (c : Course) (m : Nat) (d : DeadlineAware) : Prop where
  cell : d.book.cell = c.cell
  planner : d.planner = c.planner
  planning : d.planning = false
  consulted : d.consulted = d.book.horizons.length
  covered : (m : Int) ≤ d.book.horizons.length * c.length
  tight : d.book.horizons.length * c.length < m + c.length
  idle : d.book.horizons.length = 0 → d.book.schedule = none
  installed : 0 < d.book.horizons.length → Installed c d.book.lastIndex d
  records : ∀ (j : Nat) (r : HorizonRecord), d.book.horizons[j]? = some r → r.index = j ∧
    r.start = j * c.length ∧ r.rounds = c.length ∧ r.packets = (c.scheduleOf j).entries.length
  unraised : ∀ (j : Nat) f, j < d.book.horizons.length →
    c.planner.reply j (c.scheduleOf j) c.cell.sizing ≠ .raise f

theorem Ledger.of_same (h : Ledger c m d) (hsame : d' = { d with
    traffic := d'.traffic, cursors := d'.cursors, unreported := d'.unreported }) :
    Ledger c m d' := by
  rw [hsame]
  exact ⟨h.cell, h.planner, h.planning, h.consulted, h.covered, h.tight, h.idle,
    fun hlt => (h.installed hlt).of_eq rfl rfl rfl rfl, h.records, h.unraised⟩

theorem Ledger.lastIndex_of_not_start (h : Ledger c t d) (hc : c.cell.Sound)
    (hstart : (t : Int) % c.length ≠ 0) :
    0 < d.book.horizons.length ∧ d.book.lastIndex = c.horizonOf t ∧
      (t : Int) + 1 ≤ d.book.horizons.length * c.length := by
  have hpos := length_pos hc
  have h₁ := h.covered
  have h₂ := h.tight
  have hne : (t : Int) ≠ d.book.horizons.length * c.length := by
    intro he
    rw [he, Int.mul_emod_left] at hstart
    exact hstart rfl
  refine ⟨?_, ?_, by omega⟩
  · by_contra hzero
    have : (d.book.horizons.length : Int) = 0 := by omega
    rw [this] at h₁ hne
    omega
  · rw [Book.lastIndex, horizonOf, eq_comm, Int.ediv_eq_iff_of_pos hpos, Int.sub_mul]
    omega

theorem Ledger.length_of_start (h : Ledger c t d) (hc : c.cell.Sound)
    (hstart : (t : Int) % c.length = 0) :
    (d.book.horizons.length : Int) * c.length = t ∧
      (d.book.horizons.length : Int) = c.horizonOf t := by
  have hpos := length_pos hc
  have h₁ := h.covered
  have h₂ := h.tight
  obtain ⟨q, hq⟩ := Int.dvd_of_emod_eq_zero hstart
  rw [Int.mul_comm] at hq
  have hlen : (d.book.horizons.length : Int) = q := by
    rw [hq] at h₁ h₂
    have h₃ := Int.le_of_mul_le_mul_right h₁ hpos
    have h₄ : (d.book.horizons.length : Int) * c.length < (q + 1) * c.length := by
      rw [Int.add_mul]
      omega
    have h₅ := Int.lt_of_mul_lt_mul_right h₄ hpos.le
    omega
  refine ⟨by rw [hlen, hq], ?_⟩
  rw [hlen, horizonOf, hq, Int.mul_ediv_cancel _ hpos.ne']

theorem consult_decision (hp : c.Answers) (h₀ : 0 ≤ k) (hk : k * c.length < c.rounds)
    (d : DeadlineAware) :
    (∃ decision, consult (c.planner.reply k.toNat (c.scheduleOf k) c.cell.sizing) d =
        .ok decision d ∧ decision.assignment = (c.decision k).getD [] ∧
      decision.failure.isSome = (c.decision k).isNone ∧
      ∀ f, c.planner.reply k.toNat (c.scheduleOf k) c.cell.sizing ≠ .raise f) ∨
      ∃ f, c.Raised f ∧
        consult (c.planner.reply k.toNat (c.scheduleOf k) c.cell.sizing) d = .error f d := by
  obtain ⟨j, rfl⟩ := Int.eq_ofNat_of_zero_le h₀
  unfold decision
  rcases hp j hk with ⟨plan, hr⟩ | ⟨cause, hr⟩ | ⟨f, hr⟩
  · rw [Int.toNat_natCast, hr]
    exact Or.inl ⟨_, rfl, rfl, rfl, fun f => Reply.noConfusion⟩
  · rw [Int.toNat_natCast, hr]
    exact Or.inl ⟨_, rfl, rfl, rfl, fun f => Reply.noConfusion⟩
  · rw [Int.toNat_natCast, hr]
    exact Or.inr ⟨f, ⟨j, hk, hr⟩, rfl⟩

theorem cursor?_cursorsOf (hc : c.cell.Sound) (hs : s ∈ c.cell.stations)
    (h : d.cursors = cursorsOf (c.scheduleOf k)) :
    d.cursor? s.id = some (c.cursorAt s k (k * c.length)) := by
  have hr := hc.horizon.roster
  have hrun := Schedule.run?_ofStations hr hs (k * c.length) c.length
  rw [cursor?, h, cursorsOf, List.find?_map]
  rw [Schedule.run?] at hrun
  have hp : (fun b : Cursor => decide (b.station = s.id)) ∘
      (fun r : Run => Cursor.atStart r.station r.start r.stop) =
        fun r : Run => decide (r.station = s.id) := rfl
  rw [hp, scheduleOf, hrun]
  simp only [Option.map_some, cursorAt, progress_start hc hs, Schedule.runOf, Cursor.atStart,
    Int.add_zero, Nat.cast_add]

theorem scheduleOf_eq (h : k * c.length = t) :
    c.scheduleOf k = Schedule.ofStations c.cell.stations t c.cell.horizonRounds := by
  rw [scheduleOf, h]
  rfl

def begun (c : Course) (t : Nat) (decision : Decision) (tr : Traffic) (ids : List Nat)
    (d : DeadlineAware) : DeadlineAware :=
  install (c.scheduleOf (c.horizonOf t)) decision
    { d with planning := true, traffic := tr, unreported := ids, consulted := d.consulted + 1 }

theorem begun_ledger (hc : c.cell.Sound) (hstart : (t : Int) % c.length = 0)
    (h : Ledger c t d) {decision : Decision} {tr : Traffic} {ids : List Nat}
    (hassign : decision.assignment = (c.decision (c.horizonOf t)).getD [])
    (hfail : decision.failure.isSome = (c.decision (c.horizonOf t)).isNone)
    (hreply : ∀ f, c.planner.reply (c.horizonOf t).toNat (c.scheduleOf (c.horizonOf t))
      c.cell.sizing ≠ .raise f) :
    Ledger c (t + 1) { c.begun t decision tr ids d with planning := false } ∧
      Installed c (c.horizonOf t) (c.begun t decision tr ids d) := by
  have hpos := length_pos hc
  obtain ⟨hlen, hk⟩ := h.length_of_start hc hstart
  have hinst : Installed c (c.horizonOf t) (c.begun t decision tr ids d) := by
    refine ⟨rfl, ?_, hassign, hfail⟩
    simp only [begun, install, Book.begin, Book.lastIndex, List.length_append,
      List.length_singleton, Nat.cast_add, Nat.cast_one, Int.add_sub_cancel]
    exact hk
  refine ⟨⟨h.cell, h.planner, rfl, ?_, ?_, ?_, ?_, fun _ => ?_, ?_, fun j f hj => ?_⟩, hinst⟩
  · simp only [begun, install, Book.begin, List.length_append, List.length_singleton, h.consulted]
  · simp only [begun, install, Book.begin, List.length_append, List.length_singleton, Nat.cast_add,
      Nat.cast_one, Int.add_mul]
    omega
  · simp only [begun, install, Book.begin, List.length_append, List.length_singleton, Nat.cast_add,
      Nat.cast_one, Int.add_mul]
    omega
  · simp only [begun, install, Book.begin, List.length_append, List.length_singleton]
    omega
  · exact hinst.index.symm ▸ hinst.of_eq rfl rfl rfl rfl
  · intro j r hr
    simp only [begun, install, Book.begin] at hr
    rw [List.getElem?_append] at hr
    split_ifs at hr with hj
    · exact h.records j r hr
    · obtain rfl : j = d.book.horizons.length := by
        have := (List.getElem?_eq_some_iff.mp hr).1
        simp only [List.length_singleton] at this
        omega
      simp only [Nat.sub_self, List.getElem?_cons_zero, Option.some.injEq] at hr
      subst hr
      rw [hk]
      exact ⟨hk, rfl, rfl, rfl⟩
  · simp only [begun, install, Book.begin, List.length_append, List.length_singleton] at hj
    by_cases hlt : j < d.book.horizons.length
    · exact h.unraised j f hlt
    · obtain rfl : j = d.book.horizons.length := by omega
      rw [← hk, Int.toNat_natCast] at hreply
      exact hreply f

section PlanHorizon

variable {sch : Schedule} {decision : Decision} {round : Int} {f : Fault} {e : DeadlineAware}

theorem planHorizon_decided (hs : d.book.cell.schedule round = .ok sch)
    (hx : expireAll round d.book.cell.ids d = .ok () d')
    (hd : consult (d'.planner.reply d'.consulted sch d'.book.cell.sizing)
      { d' with consulted := d'.consulted + 1 } = .ok decision e) :
    planHorizon round d = .ok () (install sch decision e) := by
  simp only [planHorizon, hs, hx, hd]

theorem planHorizon_raised (hs : d.book.cell.schedule round = .ok sch)
    (hx : expireAll round d.book.cell.ids d = .ok () d')
    (hf : consult (d'.planner.reply d'.consulted sch d'.book.cell.sizing)
      { d' with consulted := d'.consulted + 1 } = .error f e) :
    planHorizon round d = .error f e := by
  simp only [planHorizon, hs, hx, hf]

end PlanHorizon

structure Arrived (c : Course) (t n : Nat) (d : DeadlineAware) : Prop where
  ledger : Ledger c (min t c.rounds) d
  stations : d.traffic.stations = c.cell.stations
  present : ∀ s ∈ c.cell.stations, c.At s d.traffic n (c.present s t)
  pointing : t < c.rounds → (t : Int) % c.length ≠ 0 → ∀ s ∈ c.cell.stations,
    d.cursor? s.id = some (c.cursorAt s (c.horizonOf t) t)

structure Selected (c : Course) (t n : Nat) (d d' : DeadlineAware) : Prop where
  ledger : Ledger c (min (t + 1) c.rounds) d'
  serving : Serving c t n [] c.cell.stations d'
  traffic : d'.traffic.generating = d.traffic.generating
  book : d'.book.generating = d.book.generating
  size : d'.traffic.packets.size = d.traffic.packets.size
  candidates : d'.book.candidates = d.book.candidates

theorem startHorizon_selected (hc : c.cell.Sound) (hp : c.Answers)
    (hn : n = min (t + 1) c.rounds) (hstart : (t : Int) % c.length = 0 ∧ t < c.rounds)
    (h : Arrived c t n d) :
    (∃ d', startHorizon t d = .ok () d' ∧ Selected c t n d d') ∨
      ∃ f d', c.Raised f ∧ startHorizon t d = .error f d' := by
  have hl : Ledger c t d := by
    have := h.ledger
    rwa [min_eq_left (by omega)] at this
  obtain ⟨hlen, hk⟩ := hl.length_of_start hc hstart.1
  have hsch : d.book.cell.schedule t = .ok (c.scheduleOf (c.horizonOf t)) := by
    rw [hl.cell, hc.schedule t (by omega), scheduleOf_eq (by rw [← hk, hlen])]
  have hnone : ∀ s ∈ ([] : List Station), c.At s d.traffic n (c.pruned s t) := by simp
  obtain ⟨d₁, hexpire, hsame, hst, hgen, hsize, hat⟩ := expireAll_pruned hc hn hstart
    (d := { d with planning := true }) (List.nil_append _).symm h.stations hnone h.present
  obtain ⟨tr, ids, rfl⟩ : ∃ tr ids,
      d₁ = { d with planning := true, traffic := tr, unreported := ids } := ⟨_, _, hsame⟩
  have hbegins : c.horizonOf t * c.length < c.rounds := by
    rw [← hk, hlen]
    omega
  have hreply : d.planner.reply d.consulted (c.scheduleOf (c.horizonOf t)) d.book.cell.sizing =
      c.planner.reply (c.horizonOf t).toNat (c.scheduleOf (c.horizonOf t)) c.cell.sizing := by
    rw [hl.planner, hl.cell, hl.consulted, ← hk, Int.toNat_natCast]
  rw [← Cell.ids, ← hl.cell] at hexpire
  obtain ⟨decision, hdecision, hassign, hfail, hnot⟩ | ⟨f, hraised, hfault⟩ :=
    consult_decision hp (by omega) hbegins
      { d with planning := true, traffic := tr, unreported := ids, consulted := d.consulted + 1 }
  case inr =>
    refine Or.inr ⟨f, { d with
      planning := false, traffic := tr, unreported := ids, consulted := d.consulted + 1 },
      hraised, ?_⟩
    rw [← hreply] at hfault
    have hplan := planHorizon_raised (d := { d with planning := true }) hsch hexpire hfault
    rw [startHorizon, hl.planning, hplan]
    rfl
  obtain ⟨hledger, hinst⟩ : Ledger c (t + 1)
      { c.begun t decision tr ids d with planning := false } ∧
      _ := begun_ledger hc hstart.1 hl hassign hfail hnot
  refine Or.inl
    ⟨{ c.begun t decision tr ids d with planning := false }, ?_, ?_, ?_, hgen, rfl, hsize, rfl⟩
  · rw [← hreply] at hdecision
    have hplan := planHorizon_decided (d := { d with planning := true }) hsch hexpire hdecision
    rw [startHorizon, hl.planning, hplan]
    rfl
  · rwa [min_eq_left (by omega)]
  · have hcursors : ∀ s ∈ c.cell.stations, (c.begun t decision tr ids d).cursor? s.id =
        some (c.cursorAt s (c.horizonOf t) t) := by
      intro s hs
      rw [cursor?_cursorsOf hc hs rfl, ← hk, hlen]
    exact ⟨hl.cell, hst.trans h.stations, fun _ => hinst.of_eq rfl rfl rfl rfl, by simp, by simp,
      hat, fun _ => hcursors⟩

def withCandidates (d : DeadlineAware) (ids : List Int) : DeadlineAware :=
  { d with book := { d.book with candidates := ids } }

theorem Ledger.withCandidates (h : Ledger c m d) (ids : List Int) :
    Ledger c m (withCandidates d ids) :=
  ⟨h.cell, h.planner, h.planning, h.consulted, h.covered, h.tight, h.idle,
    fun hlt => (h.installed hlt).of_eq rfl rfl rfl rfl, h.records, h.unraised⟩

theorem Arrived.withCandidates (h : Arrived c t n d) (ids : List Int) :
    Arrived c t n (withCandidates d ids) :=
  ⟨h.ledger.withCandidates ids, h.stations, h.present, h.pointing⟩

def noted (d : DeadlineAware) (id : Int) : Bool := !(d.traffic.waiting id).isEmpty

def notedIds (c : Course) (d : DeadlineAware) : List Int :=
  (c.cell.stations.map Station.id).filter (noted d)

theorem queued_eq_nil (hs : s ∈ c.cell.stations) (h : Arrived c t n d)
    (hnot : noted d s.id = false) : c.queued s t n = [] := by
  have hempty : d.traffic.waiting s.id = [] := by simpa [noted] using hnot
  rw [(h.present s hs).queue, List.map_eq_nil_iff, List.filter_eq_nil_iff] at hempty
  rw [queued, List.filter_eq_nil_iff]
  intro a ha hlive
  have hdone : c.present s t a = .done := by
    by_contra hne
    exact hempty a ha (decide_eq_true hne)
  refine of_decide_eq_true hlive ?_
  unfold present paused at hdone
  split_ifs at hdone with hat hle
  rw [pruned, if_neg hat, if_neg fun hw => hle hw.1]

theorem noted_of_start (hc : c.cell.Sound) (hn : n = min (t + 1) c.rounds)
    (hstart : (t : Int) % c.length = 0 ∧ t < c.rounds) (hs : s ∈ c.cell.stations)
    (h : Arrived c t n d) : noted d s.id = true := by
  have hdvd : s.period ∣ c.length := hc.horizon.dvd s hs
  have hdue : (t : Int) % s.period = 0 :=
    Int.emod_eq_zero_of_dvd (hdvd.trans (Int.dvd_of_emod_eq_zero hstart.1))
  have hmem : (t : Int) ∈ Traffic.arrivals s n := Traffic.mem_arrivals.mpr ⟨by omega, hdue⟩
  by_contra hnot
  have hidle := queued_eq_nil hs h (Bool.eq_false_iff.mpr hnot)
  have hlive : c.pruned s t t ≠ .done := by
    rw [pruned, if_pos rfl]
    decide
  have := mem_queued.mpr ⟨hmem, hlive⟩
  rw [hidle] at this
  cases this

theorem not_active_of_start (hc : c.cell.Sound) (hstart : (t : Int) % c.length = 0)
    (h : Ledger c t d) : d.book.active t = false := by
  obtain ⟨hlen, hk⟩ := h.length_of_start hc hstart
  unfold Book.active
  by_cases hzero : d.book.horizons.length = 0
  · rw [h.idle hzero]
  · have hi := h.installed (by omega)
    rw [hi.schedule]
    have hlast : d.book.lastIndex * c.length = t - c.length := by
      rw [Book.lastIndex, Int.sub_mul, hlen, Int.one_mul]
    simp only [Schedule.contains, Schedule.stop, scheduleOf, Schedule.ofStations, hlast]
    have : ¬ (t : Int) < t - c.length + c.length := by omega
    simp only [this, decide_false, Bool.and_false]

theorem Arrived.serving (hc : c.cell.Sound) (hn : n = min (t + 1) c.rounds)
    (hstart : ¬ ((t : Int) % c.length = 0 ∧ t < c.rounds)) (ht : (t : Int) < c.rounds + c.limit)
    (h : Arrived c t n d) :
    Ledger c (min (t + 1) c.rounds) d ∧ Serving c t n [] c.cell.stations d := by
  have hahead : ∀ s ∈ c.cell.stations, c.At s d.traffic n (c.pruned s t) := by
    intro s hs
    refine (h.present s hs).congr fun a ha => ?_
    have hlt := (Traffic.mem_arrivals.mp ha).1.2
    unfold Course.present paused pruned
    split_ifs with hat hle hw hw
    · rfl
    · rfl
    · exact absurd ⟨hle, lt_expiry_of_waiting hc (by omega) hstart ht hle⟩ hw
    · exact absurd hw.1 hle
    · rfl
  have hlast : t < c.rounds → 0 < d.book.horizons.length ∧ d.book.lastIndex = c.horizonOf t ∧
      (t : Int) + 1 ≤ d.book.horizons.length * c.length := by
    intro hlt
    have hl := h.ledger
    rw [min_eq_left hlt.le] at hl
    exact hl.lastIndex_of_not_start hc fun he => hstart ⟨he, hlt⟩
  have hl := h.ledger
  refine ⟨⟨hl.cell, hl.planner, hl.planning, hl.consulted, ?_, ?_, hl.idle, hl.installed,
    hl.records, hl.unraised⟩, hl.cell, h.stations, ?_, by simp, by simp, hahead, ?_⟩
  · by_cases hlt : t < c.rounds
    · have := (hlast hlt).2.2
      omega
    · have := hl.covered
      omega
  · have := hl.tight
    omega
  · intro hlt
    obtain ⟨hpos, hindex, -⟩ := hlast hlt
    exact hindex ▸ hl.installed hpos
  · intro hlt
    exact h.pointing hlt fun he => hstart ⟨he, hlt⟩

theorem select_eq (hcell : d.book.cell = c.cell) :
    select t d =
      let d₁ := withCandidates d (c.notedIds d)
      if (c.notedIds d).isEmpty then .ok .noTx d₁
      else if d₁.book.startsIn t then
        match startHorizon t d₁ with
        | .error e d => .error e d
        | .ok () d => .ok .dlMuTx d
      else .ok .dlMuTx d₁ := by
  have hids : Book.withBacklog d.traffic d.book.cell.ids = c.notedIds d := by
    rw [hcell]
    rfl
  rw [select, selectWith, hids]
  rfl

theorem notedIds_ne_nil (hc : c.cell.Sound) (hn : n = min (t + 1) c.rounds)
    (hstart : (t : Int) % c.length = 0 ∧ t < c.rounds) (h : Arrived c t n d) :
    c.notedIds d ≠ [] := by
  obtain ⟨s, hs⟩ := List.exists_mem_of_ne_nil _ hc.horizon.roster.nonempty
  have hmem : s.id ∈ c.notedIds d :=
    List.mem_filter.mpr ⟨List.mem_map_of_mem hs, noted_of_start hc hn hstart hs h⟩
  exact List.ne_nil_of_mem hmem

theorem Arrived.startsIn (hc : c.cell.Sound) (hgen : Engine.Phase c.rounds t d.book.generating)
    (h : Arrived c t n d) :
    d.book.startsIn t = true ↔ (t : Int) % c.length = 0 ∧ t < c.rounds := by
  have hmod : (t : Int) % d.book.cell.horizonRounds = (t : Int) % c.length := by
    rw [h.ledger.cell]
    rfl
  rcases hgen with ⟨hlt, hflag⟩ | ⟨hge, hflag⟩
  · have hl := h.ledger
    rw [min_eq_left hlt.le] at hl
    simp only [Book.startsIn, hflag, hmod, Bool.true_and, Bool.and_eq_true, decide_eq_true_eq,
      Bool.not_eq_true', hlt, and_true]
    exact ⟨fun hs => hs.1, fun hz => ⟨hz, not_active_of_start hc hz hl⟩⟩
  · simp only [Book.startsIn, hflag, Bool.false_and, Bool.false_eq_true, false_iff]
    omega

theorem select_selected (hc : c.cell.Sound) (hp : c.Answers)
    (hn : n = min (t + 1) c.rounds) (hgen : Engine.Phase c.rounds t d.book.generating)
    (ht : (t : Int) < c.rounds + c.limit) (h : Arrived c t n d) :
    (∃ f d', select t d = .ok f d' ∧
      Selected c t n (withCandidates d (c.notedIds d)) d' ∧
      (f = .noTx → c.notedIds d = [])) ∨
      ∃ f d', c.Raised f ∧ select t d = .error f d' := by
  have h₁ := h.withCandidates (c.notedIds d)
  have hstarts := h₁.startsIn hc (d := withCandidates d (c.notedIds d)) hgen
  have hselect := select_eq (t := t) h.ledger.cell
  by_cases hstart : (t : Int) % c.length = 0 ∧ t < c.rounds
  · have hne := List.isEmpty_eq_false_iff.mpr (notedIds_ne_nil hc hn hstart h)
    rcases startHorizon_selected hc hp hn hstart h₁ with ⟨d', hd', hsel⟩ | ⟨f, d', hf, hd'⟩
    · refine Or.inl ⟨.dlMuTx, d', ?_, hsel, fun he => by cases he⟩
      rw [hselect]
      simp only [hne, Bool.false_eq_true, if_false, hstarts.mpr hstart, if_true, hd']
    · refine Or.inr ⟨f, d', hf, ?_⟩
      rw [hselect]
      simp only [hne, Bool.false_eq_true, if_false, hstarts.mpr hstart, if_true, hd']
  · have hnot := Bool.eq_false_iff.mpr (mt hstarts.mp hstart)
    obtain ⟨hledger, hserving⟩ := h₁.serving hc hn hstart ht
    by_cases hempty : (c.notedIds d).isEmpty = true
    · refine Or.inl ⟨.noTx, _, ?_, ⟨hledger, hserving, rfl, rfl, rfl, rfl⟩,
        fun _ => List.isEmpty_iff.mp hempty⟩
      rw [hselect]
      simp only [hempty, if_true]
    · refine Or.inl
        ⟨.dlMuTx, _, ?_, ⟨hledger, hserving, rfl, rfl, rfl, rfl⟩, fun he => by cases he⟩
      rw [hselect]
      simp only [hempty, if_false, hnot, Bool.false_eq_true]

end Course

end Downlink
