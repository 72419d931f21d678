import Downlink.Proofs.DeadlineAware.Outcome
import Downlink.Proofs.Plan

/-!
# Execution

With a planner that keeps to windows and capacities, queues, cursors and horizon changes together do
nothing but carry out the plans: every packet is sent in the round, and on the unit, that the plan
of its horizon gives its entry, or dropped on arrival.
-/

namespace Downlink

open Engine

namespace Course

variable {c : Course} {s : Station} {d : DeadlineAware} {p : Packet} {a r : Int}

/-- For every horizon the planner replies with a plan within windows and capacity or fails. -/
def Respected (c : Course) : Prop :=
  ∀ k : Nat, k * c.length < c.rounds →
    (∃ cause, c.planner.reply k (c.scheduleOf k) c.cell.sizing = .fail cause) ∨
      ∃ plan, c.planner.reply k (c.scheduleOf k) c.cell.sizing = .plan plan ∧
        plan.assignment.Distinct ∧
        plan.assignment.Feasible (c.scheduleOf k) c.cell.sizing.perRound

theorem Respected.settles (h : c.Respected) : c.Settles := by
  intro k hk
  rcases h k hk with hfail | ⟨plan, hplan, -⟩
  · exact Or.inr hfail
  · exact Or.inl ⟨plan, hplan⟩

theorem Respected.feasible (h : c.Respected) : c.Feasible := by
  intro k m hk hm
  rw [decision, Int.toNat_natCast] at hm
  rcases h k hk with ⟨cause, hr⟩ | ⟨plan, hr, -, hf⟩
  · rw [hr] at hm
    cases hm
  · rw [hr] at hm
    cases hm
    exact hf

/-- What becomes of a packet of a station, as the decision for its horizon has it; `packets` are all
packets of the run. -/
structure Follows (c : Course) (packets : List Packet) (s : Station) (p : Packet) : Prop where
  station : p.station = s.id
  horizon : p.horizon = some (c.horizonOf p.arrival)
  index : p.scheduleIndex = some (c.indexOf s p.arrival)
  failed : c.decision (c.horizonOf p.arrival) = none →
    p.state = .dropped ∧ p.dropReason = some .solverFailure ∧ p.dropRound = some p.arrival
  served : ∀ m r, c.decision (c.horizonOf p.arrival) = some m →
    m.round? (c.indexOf s p.arrival) = some r →
      p.state = .transmitted ∧ p.assignedRound = some r ∧ p.txRound = some r ∧
        p.ru = some ⟨c.cell.sizing.ruType,
          1 + packets.countP fun q => q.assignedRound = some r ∧ q.Precedes p⟩
  unserved : ∀ m, c.decision (c.horizonOf p.arrival) = some m →
    m.round? (c.indexOf s p.arrival) = none →
      p.state = .dropped ∧ p.dropReason = some .unmatched ∧ p.dropRound = some p.arrival

theorem Over.exists_finished (hc : c.cell.Sound) (h : Over c d)
    (hp : p ∈ d.traffic.packets.toList) :
    ∃ s ∈ c.cell.stations, ∃ a ∈ Traffic.arrivals s c.rounds, p.noted none = c.finished s a := by
  have hmem := List.mem_map_of_mem (f := fun p => p.noted none) hp
  rw [h.packets hc] at hmem
  obtain ⟨⟨s, a⟩, he, hf⟩ := List.mem_map.mp hmem
  obtain ⟨hs, ha⟩ := Traffic.mem_emissions.mp he
  exact ⟨s, hs, a, ha, hf.symm⟩

theorem Over.exists_packet (hc : c.cell.Sound) (h : Over c d) (hs : s ∈ c.cell.stations)
    (ha : a ∈ Traffic.arrivals s c.rounds) :
    ∃ p ∈ d.traffic.packets.toList, p.noted none = c.finished s a := by
  have hmem := List.mem_map_of_mem (f := fun e : Station × Int => c.finished e.1 e.2)
    (Traffic.mem_emissions.mpr ⟨hs, ha⟩)
  rw [← h.packets hc] at hmem
  exact List.mem_map.mp hmem

theorem Over.countP_precedes (hc : c.cell.Sound) (hf : c.Feasible) (h : Over c d)
    (hs : s ∈ c.cell.stations) (ha : a ∈ c.sentIn s r) (hp : p.noted none = c.finished s a) :
    (d.traffic.packets.toList.countP fun q => q.assignedRound = some r ∧ q.Precedes p) =
      c.rank s a r := by
  have hstation : p.station = s.id :=
    (congrArg Packet.station hp).trans (finished_fields c s a).1
  have harrival : p.arrival = a := (congrArg Packet.arrival hp).trans (finished_arrival c s a)
  have hunreported : (d.traffic.packets.toList.countP
      fun q => q.assignedRound = some r ∧ q.Precedes p) =
        (d.traffic.packets.toList.map fun q => q.noted none).countP
          fun q => q.assignedRound = some r ∧ q.Precedes p := by
    rw [List.countP_map]
    rfl
  rw [hunreported, h.packets hc, List.countP_map, rank_eq_countP hc hs ha]
  refine List.countP_congr fun e he => ?_
  obtain ⟨u, b⟩ := e
  obtain ⟨hu, hb⟩ := Traffic.mem_emissions.mp he
  obtain ⟨h₁, -, -, h₂, -⟩ := finished_fields c u b
  have hsends : c.assigned? u b = some r ↔ c.sends u b r = true :=
    ⟨fun hr => hf.sends hc hu hb hr, fun hsends => (sends_iff.mp hsends).1⟩
  refine decide_eq_true_iff.trans (Iff.trans ?_ decide_eq_true_iff.symm)
  rw [Packet.Precedes, SentBefore, h₁, h₂, finished_arrival, hstation, harrival, hsends]

theorem Over.follows (hc : c.cell.Sound) (hf : c.Feasible) (h : Over c d)
    (hp : p ∈ d.traffic.packets.toList) :
    ∃ s ∈ c.cell.stations, c.Follows d.traffic.packets.toList s p := by
  obtain ⟨s, hs, a, ha, he⟩ := h.exists_finished hc hp
  obtain ⟨hstation, hhorizon, hindex, hround, -⟩ := finished_fields c s a
  obtain rfl : p.arrival = a := (congrArg Packet.arrival he).trans (finished_arrival c s a)
  refine ⟨s, hs, (congrArg Packet.station he).trans hstation,
    (congrArg Packet.horizon he).trans hhorizon,
    (congrArg Packet.scheduleIndex he).trans hindex, fun hd => ?_, fun m r hd hr => ?_,
    fun m hd hr => ?_⟩
  · have hnone : c.assigned? s p.arrival = none := by rw [assigned?, hd, Option.bind_none]
    rw [finished_of_unassigned hnone, settled_of_failed hd] at he
    exact ⟨congrArg Packet.state he, congrArg Packet.dropReason he, congrArg Packet.dropRound he⟩
  · have hassigned : c.assigned? s p.arrival = some r := assigned?_eq_some.mpr ⟨m, hd, hr⟩
    have hsends := hf.sends hc hs ha hassigned
    have hcount := h.countP_precedes hc hf hs (mem_sentIn.mpr ⟨ha, hsends⟩) he
    rw [finished_of_sends hsends] at he
    refine ⟨congrArg Packet.state he, ?_, congrArg Packet.txRound he, ?_⟩
    · exact (congrArg Packet.assignedRound he).trans
        ((settled_fields c s _).2.2.2.1.trans hassigned)
    · rw [hcount, Int.add_comm]
      exact congrArg Packet.ru he
  · have hnone : c.assigned? s p.arrival = none := by rw [assigned?, hd, Option.bind_some, hr]
    rw [finished_of_unassigned hnone, settled_of_unmatched hd hr] at he
    exact ⟨congrArg Packet.state he, congrArg Packet.dropReason he, congrArg Packet.dropRound he⟩

def ofHorizon (packets : List Packet) (k : Int) : List Packet :=
  (packets.map fun p => p.noted none).filter fun p => p.horizon = some k

theorem Over.ofHorizon_withPlanner {q : Planner} {d' : DeadlineAware} {k : Int}
    (hc : c.cell.Sound) (h : Over c d) (h' : Over (c.withPlanner q) d')
    (hk : (c.withPlanner q).decision k = c.decision k) :
    ofHorizon d'.traffic.packets.toList k = ofHorizon d.traffic.packets.toList k := by
  have hother : d'.traffic.packets.toList.map (fun p => p.noted none) =
      (Traffic.emissions c.cell.stations c.rounds).map
        fun e => (c.withPlanner q).finished e.1 e.2 := h'.packets hc
  have hhorizon : ∀ e : Station × Int, (c.finished e.1 e.2).horizon = some (c.horizonOf e.2) ∧
      ((c.withPlanner q).finished e.1 e.2).horizon = some (c.horizonOf e.2) := fun e =>
    ⟨(finished_fields c e.1 e.2).2.1, (finished_fields (c.withPlanner q) e.1 e.2).2.1⟩
  rw [ofHorizon, ofHorizon, hother, h.packets hc, List.filter_map, List.filter_map]
  simp only [Function.comp_def, (hhorizon _).1, (hhorizon _).2]
  refine List.map_congr_left fun e he => ?_
  obtain ⟨hmem, hsame⟩ := List.mem_filter.mp he
  obtain ⟨-, ha⟩ := Traffic.mem_emissions.mp hmem
  have hek : c.horizonOf e.2 = k := by simpa using hsame
  exact finished_withPlanner hc (Traffic.mem_arrivals.mp ha).1.2 (hek ▸ hk) e.1

/-- For every horizon the planner reads back some heaviest matching. -/
def Exact (c : Course) : Prop :=
  ∀ k : Nat, k * c.length < c.rounds →
    ∃ M, SlotGraph.Heaviest (c.scheduleOf k) c.cell.sizing.perRound M ∧
      c.planner.reply k (c.scheduleOf k) c.cell.sizing =
        .ofExcept (Plan.ofMatching (c.scheduleOf k) c.cell.sizing M)

theorem Exact.plan (hc : c.cell.Sound) (h : c.Exact) {k : Nat} (hk : k * c.length < c.rounds) :
    ∃ p, c.planner.reply k (c.scheduleOf k) c.cell.sizing = .plan p ∧
      p.Optimal (c.scheduleOf k) c.cell.sizing := by
  obtain ⟨M, hM, hreply⟩ := h k hk
  obtain ⟨p, hp, hopt⟩ := Plan.finish_optimal hc.horizon Plan.matchingName hM.best
  refine ⟨p, hreply.trans ?_, hopt⟩
  rw [show Plan.ofMatching (c.scheduleOf k) c.cell.sizing M = .ok p from hp]
  rfl

theorem Exact.respected (hc : c.cell.Sound) (h : c.Exact) : c.Respected := by
  intro k hk
  obtain ⟨p, hp, hopt⟩ := h.plan hc hk
  exact Or.inr ⟨p, hp, hopt.best.distinct, hopt.best.feasible⟩

theorem matching_exact {cell : Cell} (hc : cell.Sound) (n : Nat) :
    (Course.mk cell Planner.matching n).Exact := by
  intro k _
  obtain ⟨M, hM, hplan⟩ := Plan.byMatching_eq hc.horizon cell.sizing (k * cell.horizonRounds)
  refine ⟨M, hM, ?_⟩
  simp only [Planner.matching, scheduleOf, length, hplan]

theorem matching_respected {cell : Cell} (hc : cell.Sound) (n : Nat) :
    (Course.mk cell Planner.matching n).Respected :=
  (matching_exact hc n).respected hc

end Course

/-- A run carries out the plans of its horizons, each without regard to the others. -/
theorem DeadlineAware.run_follows_plans {stations : List Station} {width cap : Int}
    {pinned : Option RuType} {cell : Cell} {tr : Traffic}
    (hcell : Cell.make stations width cap pinned = .ok cell)
    (htr : Traffic.ofStations stations = .ok tr) (n : Int) {planner : Planner}
    (hp : (Course.mk cell planner n.toNat).Respected) (channel : Channel) :
    let c := Course.mk cell planner n.toNat
    let begin := fun p => Engine.make (.deadlineAware (DeadlineAware.make cell tr p))
    ∃ last e, (begin planner channel).run n = .ok last e ∧
      (∀ s ∈ stations, ∀ a, 0 ≤ a → a < n → a % s.period = 0 →
        ∃ p ∈ e.traffic.packets.toList, p.station = s.id ∧ p.arrival = a) ∧
      (∀ p ∈ e.traffic.packets.toList, ∃ s ∈ stations, c.Follows e.traffic.packets.toList s p) ∧
      ∀ other channel' k, (c.withPlanner other).Respected →
        (c.withPlanner other).decision k = c.decision k →
          ∃ last' e', (begin other channel').run n = .ok last' e' ∧
            Course.ofHorizon e'.traffic.packets.toList k =
              Course.ofHorizon e.traffic.packets.toList k := by
  intro c begin
  obtain ⟨hc, hstations, -⟩ := Cell.make_eq_ok hcell
  have hmem : ∀ {s}, s ∈ stations ↔ s ∈ cell.stations := by
    intro s
    rw [hstations, Station.mem_inOrder]
  have htr' : tr = Traffic.fresh cell.stations := by rw [hstations, Traffic.ofStations_eq_ok htr]
  have hrun : ∀ p ch, (c.withPlanner p).Respected → ∃ last e d,
      (begin p ch).run n = .ok last e ∧ e.traffic = d.traffic ∧ (c.withPlanner p).Over d := by
    intro p ch hp
    obtain ⟨last, e, d, hrun, he, hover⟩ := Course.run_completes (c := c.withPlanner p) hc
      hp.settles (hp.feasible.not_overfull hc) ch rfl
    refine ⟨last, e, d, ?_, by rw [Engine.traffic, he]; rfl, hover⟩
    rw [← hrun]
    simp only [begin, htr']
    rfl
  obtain ⟨last, e, d, hok, htraffic, hover⟩ := hrun planner channel hp
  refine ⟨last, e, hok, fun s hs a h₀ hlt hdue => ?_, fun p hp' => ?_, fun q ch k hq hk => ?_⟩
  · rw [htraffic]
    have ha : a ∈ Traffic.arrivals s c.rounds :=
      Traffic.mem_arrivals.mpr ⟨⟨h₀, by simp only [c]; omega⟩, hdue⟩
    obtain ⟨p, hp', he⟩ := hover.exists_packet hc (hmem.mp hs) ha
    exact ⟨p, hp', (congrArg Packet.station he).trans (Course.finished_fields _ s a).1,
      (congrArg Packet.arrival he).trans (Course.finished_arrival _ s a)⟩
  · rw [htraffic] at hp' ⊢
    obtain ⟨s, hs, hf⟩ := hover.follows hc hp.feasible hp'
    exact ⟨s, hmem.mpr hs, hf⟩
  · obtain ⟨last', e', d', hok', htraffic', hover'⟩ := hrun q ch hq
    refine ⟨last', e', hok', ?_⟩
    rw [htraffic, htraffic']
    exact Course.Over.ofHorizon_withPlanner hc hover hover' hk

theorem DeadlineAware.run_follows_plans_two_stations :
    let stations : List Station := [⟨1, 2, 0, 5⟩, ⟨2, 1, 1, 10⟩]
    let cell : Cell := ⟨stations, 1024, 2, 3, ⟨.mhz20, .tones242, 1, 3, 242⟩⟩
    let planner : Planner := ⟨"matching", fun k s z =>
      if k = 1 then .fail .noOutput else Planner.matching.reply k s z⟩
    let start := Engine.make
      (.deadlineAware (DeadlineAware.make cell (Traffic.fresh stations) planner)) .ideal
    ∃ last e, start.run 5 = .ok last e ∧
      (∀ s ∈ stations, ∀ a, 0 ≤ a → a < 5 → a % s.period = 0 →
        ∃ p ∈ e.traffic.packets.toList, p.station = s.id ∧ p.arrival = a) ∧
      ∀ p ∈ e.traffic.packets.toList, ∃ s ∈ stations,
        (Course.mk cell planner 5).Follows e.traffic.packets.toList s p := by
  intro stations cell planner start
  have horder : Station.inOrder stations = stations := List.mergeSort_of_pairwise (by decide)
  have hcell : Cell.make stations 20 1024 (some .tones242) = .ok cell := by
    rw [Cell.make, horder]
    rfl
  have htr : Traffic.ofStations stations = .ok (Traffic.fresh stations) := by
    rw [Traffic.ofStations, horder]
    rfl
  have hp : (Course.mk cell planner (5 : Int).toNat).Respected := by
    intro k hk
    by_cases h : k = 1
    · exact Or.inl ⟨.noOutput, if_pos h⟩
    · rcases Course.matching_respected (Cell.make_eq_ok hcell).1 _ k hk
        with ⟨cause, hr⟩ | ⟨plan, hr, hf⟩
      · exact Or.inl ⟨cause, (if_neg h).trans hr⟩
      · exact Or.inr ⟨plan, (if_neg h).trans hr, hf⟩
  obtain ⟨last, e, hrun, hemitted, hfollows, -⟩ :=
    DeadlineAware.run_follows_plans hcell htr 5 hp .ideal
  exact ⟨last, e, hrun, hemitted, hfollows⟩

end Downlink
