import Downlink.Proofs.RoundRobin.Round

/-!
# Runs of the round robin

The schedule of a horizon is generated in its first round, since every station has a packet then,
and stays active until the next one. So no round ever fails. In the end every packet was sent within
its window or dropped in its deadline round, and nothing is left for the end of the drain to drop.
-/

namespace Downlink.RoundRobin

open Engine

variable {c : Cell} {s : Station} {n m t : Nat} {d d' : RoundRobin} {e e' : Engine} {flag : Bool}

structure Scheduled (c : Cell) (m : Nat) (d : RoundRobin) : Prop where
  none : m = 0 → d.book.schedule = none
  some : ∀ k : Nat, m = k + 1 → d.book.schedule = some (scheduleIn c k)

theorem Scheduled.of_eq (h : Scheduled c m d) (hb : d'.book.schedule = d.book.schedule) :
    Scheduled c m d' :=
  ⟨fun hm => hb.trans (h.none hm), fun k hk => hb.trans (h.some k hk)⟩

theorem contains_scheduleIn (hpos : 0 < c.horizonRounds) (k t : Int) :
    (scheduleIn c k).contains t = true ↔ t / c.horizonRounds = k / c.horizonRounds := by
  rw [Schedule.contains, Bool.and_eq_true, decide_eq_true_eq, decide_eq_true_eq,
    Int.ediv_eq_iff_of_pos hpos]
  simp only [Schedule.stop, scheduleIn, Schedule.ofStations]

theorem scheduleIn_of_start (h : (t : Int) % c.horizonRounds = 0) :
    scheduleIn c t = Schedule.ofStations c.stations t c.horizonRounds := by
  have hsum := Int.ediv_mul_add_emod (t : Int) c.horizonRounds
  rw [scheduleIn, show (t : Int) / c.horizonRounds * c.horizonRounds = t by omega]

theorem ediv_pred {H k : Int} (hpos : 0 < H) :
    (k + 1) / H = k / H ↔ (k + 1) % H ≠ 0 := by
  have h₁ := Int.ediv_mul_add_emod (k + 1) H
  have h₂ := Int.emod_nonneg (k + 1) hpos.ne'
  have h₃ := Int.emod_lt_of_pos (k + 1) hpos
  constructor
  · intro he hzero
    have h₄ := Int.ediv_mul_le k hpos.ne'
    rw [← he] at h₄
    omega
  · intro hne
    symm
    rw [Int.ediv_eq_iff_of_pos hpos]
    omega

theorem Scheduled.active (hc : c.Sound) (h : Scheduled c t d) :
    d.book.active t = true ↔ (t : Int) % c.horizonRounds ≠ 0 := by
  have hpos := hc.horizon.pos
  unfold Book.active
  cases t with
  | zero =>
    rw [h.none rfl]
    simp
  | succ k =>
    rw [h.some k rfl]
    dsimp only
    rw [contains_scheduleIn hpos]
    push_cast
    exact ediv_pred hpos

theorem Scheduled.next (hc : c.Sound) (h : Scheduled c t d)
    (ht : (t : Int) % c.horizonRounds ≠ 0) : d.book.schedule = .some (scheduleIn c t) := by
  cases t with
  | zero => exact absurd (Int.zero_emod _) ht
  | succ k =>
    rw [h.some k rfl, scheduleIn, scheduleIn]
    push_cast at ht ⊢
    rw [(ediv_pred hc.horizon.pos).mpr ht]

/-- The scheduler between rounds, when the rounds before `t` are over. -/
structure Resting (c : Cell) (n t : Nat) (d : RoundRobin) : Prop where
  cell : d.book.cell = c
  stations : d.traffic.stations = c.stations
  order : d.order.Perm c.ids
  size : d.traffic.packets.size = (Traffic.emissions c.stations (min t n)).length
  kept : AllKept c.sizing c.stations (min t n) (fun _ => t) d
  slots : d.traffic.Slots t []
  scheduled : Scheduled c (min t n) d

structure Arrived (c : Cell) (n t : Nat) (d : RoundRobin) : Prop where
  cell : d.book.cell = c
  stations : d.traffic.stations = c.stations
  order : d.order.Perm c.ids
  present : ∀ s ∈ c.stations, ∃ live, Present c.sizing c.stations (min (t + 1) n) t s live d
  slots : d.traffic.Slots t []
  scheduled : Scheduled c (min t n) d

theorem Present.of_eq {z : Sizing} {stations : List Station} {live : Int → Bool} {r : Int}
    (h : Present z stations n r s live d) (ht : d'.traffic = d.traffic)
    (he : d'.entries = d.entries) : Present z stations n r s live d' := by
  have hentry : ∀ i, d'.cached? i = d.cached? i := fun i => by rw [cached?, he, cached?]
  exact ⟨ht ▸ h.holds, fun a ha hlive hne => by rw [hentry]; exact h.cached a ha hlive hne,
    fun m a ha e hsome => h.labelled m a ha e ((hentry _).symm.trans hsome), h.timely⟩

theorem Resting.emitted (hc : c.Sound) (h : Resting c n t d) (hlt : t < n)
    (hflag : d.traffic.generating = true) :
    Arrived c n t { d with traffic := (d.traffic.generate t).2 } ∧
      Traffic.Emitted c.stations (Traffic.dueIn c.stations t) t d.traffic
        (d.traffic.generate t).2 := by
  have hn : min (t + 1) n = t + 1 := by omega
  have ht : min t n = t := by omega
  have hsize := h.size
  have hkept := h.kept
  rw [ht] at hsize hkept
  have he := Traffic.generate_emitted hc.horizon.roster h.stations hflag hsize
  refine ⟨⟨h.cell, he.served.trans h.stations, h.order, fun s hs => ?_,
    h.slots.still (Traffic.Still.generate _ _), h.scheduled.of_eq rfl⟩, he⟩
  obtain ⟨live, hs'⟩ := hkept s hs
  have hg := Traffic.Holds.generate hs'.holds hc.horizon.roster hs h.stations hflag hsize
  rw [hn]
  have hv := (hc.horizon.roster.valid s hs).deadline
  refine ⟨fun a => if a = t then true else live a, hg.imp (fun a ha p hp => ?_) fun _ _ => rfl,
    fun a ha hlive hne => ?_, hs'.labelled, fun a ha hlive => ?_⟩
  · by_cases hat : a = t
    · subst hat
      rw [if_pos rfl] at hp
      subst hp
      rw [Fate, if_pos rfl, if_pos rfl]
      exact ⟨⟨rfl, rfl, rfl, rfl⟩, rfl, rfl, rfl⟩
    · rw [if_neg hat] at hp
      simpa [Fate, hat] using hp
  · rw [if_neg hne] at hlive
    have := Traffic.mem_arrivals.mp ha
    exact hs'.cached a (Traffic.mem_arrivals.mpr ⟨by omega, this.2⟩) hlive
  · by_cases hat : a = t
    · omega
    · rw [if_neg hat] at hlive
      have := Traffic.mem_arrivals.mp ha
      exact hs'.timely a (Traffic.mem_arrivals.mpr ⟨by omega, this.2⟩) hlive

theorem Resting.drained (h : Resting c n t d) (hge : n ≤ t) : Arrived c n t d := by
  refine ⟨h.cell, h.stations, h.order, fun s hs => ?_, h.slots, h.scheduled⟩
  obtain ⟨live, hs'⟩ := h.kept s hs
  rw [show min (t + 1) n = min t n by omega]
  exact ⟨live, hs'.holds, fun a ha hlive _ => hs'.cached a ha hlive, hs'.labelled, hs'.timely⟩

theorem Resting.arrived (hc : c.Sound) (h : Resting c n t d)
    (hphase : Phase n t d.traffic.generating) :
    Arrived c n t { d with traffic := (d.traffic.generate t).2 } ∧
      (d.traffic.generate t).2.generating = d.traffic.generating ∧
      (d.traffic.generate t).2.packets.size =
        (Traffic.emissions c.stations (min (t + 1) n)).length ∧
      (t < n → ∀ s ∈ c.stations, (t : Int) % s.period = 0 →
        (d.traffic.generate t).2.waiting s.id ≠ []) := by
  have hsize := h.size
  rcases hphase with ⟨hlt, hflag⟩ | ⟨hge, hflag⟩
  · obtain ⟨harrived, he⟩ := h.emitted hc hlt hflag
    refine ⟨harrived, he.generating, ?_, fun _ s hs hdue => ?_⟩
    · rw [he.size, hsize, show min (t + 1) n = t + 1 by omega, show min t n = t by omega,
        Traffic.length_emissions_succ]
    · rw [he.waiting s hs, if_pos (Traffic.mem_dueIn.mpr ⟨hs, hdue⟩)]
      simp
  · have hsame : (d.traffic.generate t).2 = d.traffic := by
      simp only [Traffic.generate, Traffic.due, hflag]
      rfl
    rw [hsame]
    refine ⟨h.drained hge, rfl, ?_, fun hlt => by omega⟩
    rw [hsize, show min (t + 1) n = min t n by omega]

theorem mem_candidates (h : Arrived c n t d) {k : Int} :
    k ∈ Book.withBacklog d.traffic d.order ↔
      (∃ s ∈ c.stations, s.id = k) ∧ d.traffic.waiting k ≠ [] := by
  rw [Book.withBacklog, List.mem_filter, h.order.mem_iff, Cell.ids, List.mem_map]
  simp

theorem candidates_nodup (hc : c.Sound) (h : Arrived c n t d) :
    (Book.withBacklog d.traffic d.order).Nodup := by
  apply List.Nodup.filter
  rw [h.order.nodup_iff]
  exact hc.horizon.roster.ids_nodup

theorem Arrived.startsIn (hc : c.Sound) (h : Arrived c n t d)
    (hphase : Phase n t d.book.generating) :
    d.book.startsIn t = true ↔ t < n ∧ (t : Int) % c.horizonRounds = 0 := by
  rcases hphase with ⟨hlt, hflag⟩ | ⟨hge, hflag⟩
  · have hs := h.scheduled
    rw [min_eq_left hlt.le] at hs
    have hactive := hs.active hc
    simp only [Book.startsIn, hflag, h.cell, Bool.true_and, Bool.and_eq_true, decide_eq_true_eq,
      Bool.not_eq_true', hlt, true_and]
    constructor
    · exact fun hstart => hstart.1
    · intro hmod
      refine ⟨hmod, ?_⟩
      rw [Bool.eq_false_iff]
      exact fun hact => hactive.mp hact hmod
  · simp only [Book.startsIn, hflag, Bool.false_and, Bool.false_eq_true, false_iff]
    omega

theorem Arrived.schedule_next (hc : c.Sound) (h : Arrived c n t d)
    (hstart : ¬ (t < n ∧ (t : Int) % c.horizonRounds = 0)) :
    Scheduled c (min (t + 1) n) d := by
  by_cases hlt : t < n
  · have hs := h.scheduled
    rw [min_eq_left hlt.le] at hs
    refine ⟨fun hm => by omega, fun k hk => ?_⟩
    obtain rfl : k = t := by omega
    exact hs.next hc fun he => hstart ⟨hlt, he⟩
  · rw [show min (t + 1) n = min t n by omega]
    exact h.scheduled

theorem candidates_ne_nil (hc : c.Sound) (h : Arrived c n t d)
    (hdue : ∀ s ∈ c.stations, (t : Int) % s.period = 0 → d.traffic.waiting s.id ≠ [])
    (hstart : (t : Int) % c.horizonRounds = 0) : Book.withBacklog d.traffic d.order ≠ [] := by
  obtain ⟨s, hs⟩ := List.exists_mem_of_ne_nil _ hc.horizon.roster.nonempty
  have hmod : (t : Int) % s.period = 0 :=
    Int.emod_eq_zero_of_dvd ((hc.horizon.dvd s hs).trans (Int.dvd_of_emod_eq_zero hstart))
  exact List.ne_nil_of_mem ((mem_candidates h).mpr ⟨⟨s, hs, rfl⟩, hdue s hs hmod⟩)

theorem select_scheduled (hc : c.Sound) (hphase : Phase n t d.book.generating)
    (h : Arrived c n t d)
    (hdue : t < n → ∀ s ∈ c.stations, (t : Int) % s.period = 0 → d.traffic.waiting s.id ≠ []) :
    ∃ f b, select t d = .ok f { d with book := b } ∧ b.cell = c ∧
      b.generating = d.book.generating ∧
      b.candidates = Book.withBacklog d.traffic d.order ∧
      Scheduled c (min (t + 1) n) { d with book := b } ∧ (f = .noTx → b.candidates = []) := by
  let b := { d.book with candidates := Book.withBacklog d.traffic d.order }
  have hb : Arrived c n t { d with book := b } :=
    ⟨h.cell, h.stations, h.order, fun s hs => (h.present s hs).imp fun _ hp => hp.of_eq rfl rfl,
      h.slots, h.scheduled.of_eq rfl⟩
  have hiff := hb.startsIn hc hphase
  by_cases hstart : t < n ∧ (t : Int) % c.horizonRounds = 0
  · have hne := List.isEmpty_eq_false_iff.mpr (candidates_ne_nil hc h (hdue hstart.1) hstart.2)
    have hsch : b.cell.schedule t = .ok (scheduleIn c t) := by
      rw [show b.cell = c from h.cell, hc.schedule t (by omega), scheduleIn_of_start hstart.2]
    have hselect : select t d =
        .ok .dlMuTx { d with book := b.begin (scheduleIn c t) noBackend 0 0 none } := by
      rw [select]
      simp only [hne, Bool.false_eq_true, if_false]
      rw [if_pos (hiff.mpr hstart), startHorizon]
      simp only [b] at hsch
      rw [hsch]
    refine ⟨_, _, hselect, h.cell, rfl, rfl, ⟨fun hm => by omega, fun k hk => ?_⟩,
      fun he => by cases he⟩
    obtain rfl : k = t := by omega
    rfl
  · have hnot : b.startsIn t = false := Bool.eq_false_iff.mpr (mt hiff.mp hstart)
    have hscheduled := hb.schedule_next hc hstart
    by_cases hempty : (Book.withBacklog d.traffic d.order).isEmpty = true
    · refine ⟨.noTx, b, ?_, h.cell, rfl, rfl, hscheduled, fun _ => List.isEmpty_iff.mp hempty⟩
      rw [select]
      simp only [hempty, if_true]
      rfl
    · refine ⟨.dlMuTx, b, ?_, h.cell, rfl, rfl, hscheduled, fun he => by cases he⟩
      rw [select]
      simp only [hempty, if_false, Bool.false_eq_true]
      exact if_neg (by rw [hnot]; exact Bool.false_ne_true)

theorem kept_of_idle (h : Arrived c n t d) (hidle : Book.withBacklog d.traffic d.order = []) :
    AllKept c.sizing c.stations (min (t + 1) n) (fun _ => (t + 1 : Nat)) d := by
  intro s hs
  obtain ⟨live, hp⟩ := h.present s hs
  have hdead : ∀ a ∈ Traffic.arrivals s (min (t + 1) n), live a = true → False := by
    intro a ha hlive
    have hmem : s.id ∈ Book.withBacklog d.traffic d.order := by
      refine (mem_candidates h).mpr ⟨⟨s, hs, rfl⟩, ?_⟩
      rw [hp.holds.queue]
      exact List.ne_nil_of_mem (List.mem_map_of_mem (List.mem_filter.mpr ⟨ha, hlive⟩))
    rw [hidle] at hmem
    cases hmem
  exact ⟨live, hp.holds, fun a ha hlive => (hdead a ha hlive).elim, hp.labelled,
    fun a ha hlive => (hdead a ha hlive).elim⟩

theorem decide_resting (hc : c.Sound) (hphase : Phase n t d.book.generating)
    (h : Arrived c n t d)
    (hdue : t < n → ∀ s ∈ c.stations, (t : Int) % s.period = 0 → d.traffic.waiting s.id ≠ [])
    (hsize : d.traffic.packets.size = (Traffic.emissions c.stations (min (t + 1) n)).length) :
    ∃ x d', Engine.decide t (.roundRobin d) = .ok x (.roundRobin d') ∧ Resting c n (t + 1) d' ∧
      d'.traffic.generating = d.traffic.generating ∧ d'.book.generating = d.book.generating := by
  obtain ⟨f, b, hselect, hcell, hgen, hcand, hscheduled, hnoTx⟩ :=
    select_scheduled hc hphase h hdue
  cases f with
  | noTx =>
    have hidle : Book.withBacklog d.traffic d.order = [] := hcand ▸ hnoTx rfl
    have hdecide : Engine.decide t (.roundRobin d) =
        .ok (.noTx, RoundAssignment.empty t b.cell.sizing.ruType)
          (.roundRobin { d with book := b }) := by
      simp only [Engine.decide, Scheduler.select, hselect, Scheduler.lift]
      rfl
    have hslots : d.traffic.Slots (t + 1 : Nat) [] := h.slots.next
    refine ⟨_, _, hdecide, ⟨hcell, h.stations, h.order, hsize, fun s hs => ?_, hslots, hscheduled⟩,
      rfl, hgen⟩
    obtain ⟨live, hkept⟩ := kept_of_idle h hidle s hs
    exact ⟨live, hkept.of_eq rfl rfl⟩
  | dlMuTx =>
    obtain ⟨out, d', hassign, hkept, hslots, hsame⟩ := assign_kept (t := t) (m := n)
      (d := { d with book := b }) hc.horizon hcell h.stations
      (fun k => by rw [hcand]; exact mem_candidates h) (hcand ▸ candidates_nodup hc h)
      (fun s hs => (h.present s hs).imp fun _ hp => hp.of_eq rfl rfl) h.slots
      (fun hlt => hscheduled.some t (by omega)) (min_le_right _ _) (min_le_left _ _)
    have hdecide : Engine.decide t (.roundRobin d) = .ok (.dlMuTx, out) (.roundRobin d') := by
      simp only [Engine.decide, Scheduler.select, hselect, Scheduler.lift, Scheduler.assign,
        hassign]
    refine ⟨_, d', hdecide, ⟨?_, hsame.stations.trans h.stations, List.Perm.trans hsame.order
      h.order, hsame.size.trans hsize, hkept, hslots, hscheduled.of_eq (by rw [hsame.book])⟩,
      hsame.generating, ?_⟩
    · rw [hsame.book]
      exact hcell
    · rw [hsame.book]
      exact hgen

theorem Resting.record (h : Resting c n t d) (reports : List TxReport) :
    Resting c n t { d with traffic := record d.traffic reports } := by
  obtain ⟨hst, -, hsize, hwaiting, hpacket⟩ := record_noted d.traffic reports
  refine ⟨h.cell, hst.trans h.stations, h.order, hsize.trans h.size, fun s hs => ?_,
    h.slots.still (record_still d.traffic reports), h.scheduled.of_eq rfl⟩
  obtain ⟨live, hkept⟩ := h.kept s hs
  refine ⟨live, ⟨fun a ha => ?_, (hwaiting s.id).trans hkept.holds.queue⟩, hkept.cached,
    hkept.labelled, hkept.timely⟩
  obtain ⟨p, hp, hfate⟩ := hkept.holds.packet a ha
  obtain ⟨x, hx⟩ := hpacket _ p hp
  refine ⟨_, hx, ?_⟩
  unfold Fate at hfate ⊢
  split_ifs at hfate ⊢
  · exact hfate.noted x
  · exact hfate.noted x

def Between (c : Cell) (n t : Nat) (flag : Bool) (e : Engine) : Prop :=
  ∃ d, e.scheduler = .roundRobin d ∧ Resting c n t d ∧ d.traffic.generating = flag ∧
    d.book.generating = flag

theorem step_between (hc : c.Sound) (hphase : Phase n t flag) (h : Between c n t flag e) :
    ∃ out e', Engine.step t e = .ok out e' ∧ Between c n (t + 1) flag e' := by
  obtain ⟨d, he, hresting, hgt, hgb⟩ := h
  obtain ⟨harrived, hg, hsize, hdue⟩ := hresting.arrived hc (hgt ▸ hphase)
  have htraffic : e.traffic = d.traffic := by rw [Engine.traffic, he]; rfl
  have hwith : e.scheduler.withTraffic (e.traffic.generate t).2 =
      .roundRobin { d with traffic := (d.traffic.generate t).2 } := by
    rw [he, htraffic]
    rfl
  obtain ⟨⟨f, out⟩, d₁, hdecide, h₁, hgt₁, hgb₁⟩ := decide_resting
    (d := { d with traffic := (d.traffic.generate t).2 }) hc (hgb ▸ hphase) harrived hdue hsize
  let reports := (e.channel.transmit t out.allocations).1
  obtain ⟨-, hgr, -⟩ := record_noted d₁.traffic reports
  have hstep : ∃ e', Engine.step t e = .ok out e' ∧
      e'.scheduler = .roundRobin { d₁ with traffic := Engine.record d₁.traffic reports } := by
    simp only [Engine.step, hwith, hdecide]
    exact ⟨_, rfl, rfl⟩
  obtain ⟨e', hstep, hscheduler⟩ := hstep
  exact ⟨out, e', hstep, _, hscheduler, h₁.record reports,
    hgr.trans (hgt₁.trans (hg.trans hgt)), hgb₁.trans hgb⟩

structure Over (c : Cell) (n : Nat) (d : RoundRobin) : Prop where
  cell : d.book.cell = c
  size : d.traffic.packets.size = (Traffic.emissions c.stations n).length
  settled : ∀ s ∈ c.stations, ∀ a ∈ Traffic.arrivals s n, ∃ p,
    d.traffic.packet? (Traffic.idOf c.stations s a) = .some p ∧ p.Settled c.sizing s a
  slots : ∃ t, d.traffic.Slots t []

theorem Over.exists_settled {p : Packet} (hc : c.Sound) (h : Over c n d)
    (hp : p ∈ d.traffic.packets.toList) :
    ∃ s ∈ c.stations, ∃ a ∈ Traffic.arrivals s n, p.Settled c.sizing s a := by
  obtain ⟨s, hs, a, ha, hpacket⟩ := Traffic.exists_emission hc.horizon.roster.nodup h.size hp
  obtain ⟨q, hq, hsettled⟩ := h.settled s hs a ha
  exact ⟨s, hs, a, ha, Option.some.inj (hq.symm.trans hpacket) ▸ hsettled⟩

theorem over_of_idle (ht : n ≤ t) (h : Between c n t false e)
    (hidle : e.traffic.hasBacklog = false) : ∃ d, e.scheduler = .roundRobin d ∧ Over c n d := by
  obtain ⟨d, he, hresting, -, -⟩ := h
  have hsize := hresting.size
  have hkept := hresting.kept
  rw [min_eq_right ht] at hsize hkept
  have htraffic : e.traffic = d.traffic := by rw [Engine.traffic, he]; rfl
  refine ⟨d, he, hresting.cell, hsize, fun s hs a ha => ?_, t, hresting.slots⟩
  obtain ⟨live, hlive⟩ := hkept s hs
  have hempty := Traffic.waiting_of_not_hasBacklog (htraffic ▸ hidle) s.id
  rw [hlive.holds.queue, List.map_eq_nil_iff, List.filter_eq_nil_iff] at hempty
  obtain ⟨p, hp, hfate⟩ := hlive.holds.packet a ha
  exact ⟨p, hp, by simpa [Fate, hempty a ha] using hfate⟩

theorem idle_of_late (hc : c.Sound) (ht : n + Station.longestDeadline c.stations ≤ t)
    (h : Between c n t false e) : e.traffic.hasBacklog = false := by
  obtain ⟨d, he, hresting, -, -⟩ := h
  have hdeadline := Station.longestDeadline_nonneg c.stations
  have hkept := hresting.kept
  rw [min_eq_right (by omega)] at hkept
  have htraffic : e.traffic = d.traffic := by rw [Engine.traffic, he]; rfl
  rw [htraffic]
  refine Traffic.hasBacklog_eq_false (hresting.stations ▸ hc.horizon.roster) fun s hs => ?_
  rw [hresting.stations] at hs
  obtain ⟨live, hlive⟩ := hkept s hs
  rw [hlive.holds.queue, List.map_eq_nil_iff, List.filter_eq_nil_iff]
  intro a ha hwaits
  have hlt := (Traffic.mem_arrivals.mp ha).1.2
  have hdue : (t : Int) ≤ a + s.deadline := hlive.timely a ha hwaits
  have hlongest := Station.le_longestDeadline hs
  omega

def limit (c : Cell) : Int := Station.longestDeadline c.stations + c.horizonRounds + 1

theorem limit_pos (hc : c.Sound) : 0 < limit c := by
  have h₁ := Station.longestDeadline_nonneg c.stations
  have h₂ := hc.horizon.pos
  rw [limit]
  omega

theorem loop (hc : c.Sound) (n : Nat) : Loop n (limit c) (Between c n) (fun _ => False)
    fun e => ∃ d, e.scheduler = .roundRobin d ∧ Over c n d where
  step _ _ _ _ hphase h := Or.inl (step_between hc hphase h)
  positive := limit_pos hc
  drainLimit e h := by
    obtain ⟨d, he, hresting, -, -⟩ := h
    have hst : e.quiet.traffic.stations = d.traffic.stations := by
      rw [Engine.quiet, Engine.traffic, Engine.traffic, he]
      rfl
    have hcell : e.quiet.scheduler.book.cell = d.book.cell := by
      rw [Engine.quiet, Engine.traffic, he]
      rfl
    rw [Engine.drainLimit, hst, hcell, hresting.stations, hresting.cell]
    rfl
  quiet e h := by
    obtain ⟨d, he, hresting, -, -⟩ := h
    refine ⟨RoundRobin.stop { d with traffic := d.traffic.stop }, ?_, ?_, rfl, rfl⟩
    · simp only [Engine.quiet, Engine.traffic, he]
      rfl
    · refine ⟨hresting.cell, hresting.stations, hresting.order, hresting.size, fun s hs => ?_,
        ⟨hresting.slots.past, hresting.slots.separate⟩, hresting.scheduled.of_eq rfl⟩
      obtain ⟨live, hkept⟩ := hresting.kept s hs
      exact ⟨live, ⟨hkept.holds.packet, hkept.holds.queue⟩, hkept.cached, hkept.labelled,
        hkept.timely⟩
  idle _ _ ht h hidle := over_of_idle ht h hidle
  late t e ht h := by
    have hpos := hc.horizon.pos
    have hdeadline := Station.longestDeadline_nonneg c.stations
    rw [limit] at ht
    have hidle := idle_of_late hc (by omega) h
    exact ⟨e, discardAll_of_idle hidle _ _, over_of_idle (by omega) h hidle⟩

theorem between_make (c : Cell) (n : Nat) (roundDuration maxCredit : Float) (channel : Channel) :
    Between c n 0 true (Engine.make
      (.roundRobin (RoundRobin.make c (Traffic.fresh c.stations) roundDuration maxCredit))
      channel) := by
  refine ⟨_, rfl, ⟨rfl, Traffic.stations_fresh _, ?_, ?_, fun s _ => ?_,
    Traffic.slots_fresh _ _, ?_⟩, rfl, rfl⟩
  · rw [order, RoundRobin.make, List.map_map]
    exact List.Perm.of_eq (List.map_id _)
  · rw [Nat.zero_min]
    rfl
  · rw [Nat.zero_min]
    refine ⟨fun _ => false, ⟨fun a ha => absurd ha List.not_mem_nil, Traffic.waiting_fresh _ _⟩,
      fun a ha => absurd ha List.not_mem_nil, fun m a ha e he => ?_,
      fun a ha => absurd ha List.not_mem_nil⟩
    cases he
  · exact ⟨fun _ => rfl, fun k hk => by omega⟩

theorem run_over (hc : c.Sound) (roundDuration maxCredit : Float) (channel : Channel)
    (rounds : Int) :
    ∃ last e' d, (Engine.make (.roundRobin
        (RoundRobin.make c (Traffic.fresh c.stations) roundDuration maxCredit))
          channel).run rounds = .ok last e' ∧
        e'.scheduler = .roundRobin d ∧ Over c rounds.toNat d := by
  rcases (loop hc rounds.toNat).run rfl (between_make c _ roundDuration maxCredit channel)
    (Traffic.hasBacklog_stop_fresh _) with ⟨last, e', hrun, d, he, hover⟩ | ⟨f, e', hf, -⟩
  · exact ⟨last, e', d, hrun, he, hover⟩
  · exact hf.elim

end Downlink.RoundRobin
