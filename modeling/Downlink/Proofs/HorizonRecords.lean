import Mathlib.Data.Rat.Floor
import Downlink.Proofs.Assignment.Shift
import Downlink.Proofs.Comparison
import Downlink.Proofs.DeadlineAware.Records

/-!
# What the records of the horizons say

With exact plans the horizons of a run are alike in all numbers that are recorded of them, although
their plans need not be. In a horizon that is not cut short these numbers are those of its packets:
what was planned is what was sent. So a run of whole horizons loses the same weight in each of them.
-/

namespace Downlink

namespace RunResult

def ofHorizon (r : RunResult) (k : Int) : List Packet :=
  r.packets.filter fun p => p.horizon = some k

def sentOfHorizon (r : RunResult) (k : Int) : List Packet :=
  (r.ofHorizon k).filter fun p => p.state = .transmitted

/-- The records of the horizons agree with each other and with the packets of the run. -/
structure Truthful (r : RunResult) : Prop where
  count : (r.horizons.length : Int) = ⌈(r.rounds : ℚ) / r.horizonRounds⌉
  place : ∀ (k : Nat) (h : HorizonRecord), r.horizons[k]? = some h →
    h.index = k ∧ h.start = k * r.horizonRounds ∧ h.rounds = r.horizonRounds
  alike : ∀ h ∈ r.horizons, ∀ h' ∈ r.horizons, h.rounds = h'.rounds ∧ h.packets = h'.packets ∧
    h.matched = h'.matched ∧ h.totalWeight = h'.totalWeight ∧ h.maxWeight = h'.maxWeight
  members : ∀ h ∈ r.horizons, ∀ p ∈ r.packets,
    p.horizon = some h.index ↔ h.start ≤ p.arrival ∧ p.arrival < h.start + h.rounds
  complete : ∀ h ∈ r.completeHorizons, h.packets = (r.ofHorizon h.index).length ∧
    h.matched = (r.sentOfHorizon h.index).length ∧
      h.totalWeight = weight (r.sentOfHorizon h.index) ∧
      h.maxWeight = weight (r.ofHorizon h.index)
  lost : ∀ k : Int, r.rounds = k * r.horizonRounds → ∀ h ∈ r.horizons,
    r.lostWeight = k * (h.maxWeight - h.totalWeight)

end RunResult

namespace Course

variable {c : Course} {s : Station} {d : DeadlineAware} {tr : Traffic} {hs : List HorizonRecord}
  {r : HorizonRecord} {p p' : Plan} {a k : Int} {i j : Nat}

theorem scheduleOf_shift (c : Course) (i j : Int) :
    c.scheduleOf j = (c.scheduleOf i).shift ((j - i) * c.length) := by
  rw [scheduleOf, scheduleOf, ← Schedule.ofStations_shift, Int.sub_mul]
  congr 1
  omega

theorem optimal_alike (h : p.Optimal (c.scheduleOf i) c.cell.sizing)
    (h' : p'.Optimal (c.scheduleOf j) c.cell.sizing) :
    p'.totalWeight = p.totalWeight ∧ p'.assignment.length = p.assignment.length := by
  have hbest := h'.best
  rw [h.total, h'.total, scheduleOf_shift c i j] at *
  exact h.best.shift_eq hbest

theorem Exact.record (hc : c.cell.Sound) (hexact : c.Exact) (hrecorded : c.Recorded hs)
    (hj : j * c.length < c.rounds) (hr : hs[j]? = some r) :
    ∃ p : Plan, c.decision j = some p.assignment ∧ p.Optimal (c.scheduleOf j) c.cell.sizing ∧
      r = c.recordOf j ⟨p.assignment, p.totalWeight, none⟩ := by
  obtain ⟨p, hp, hopt⟩ := hexact.plan hc hj
  obtain ⟨decision, hdecides, rfl⟩ := hrecorded j r hr
  refine ⟨p, ?_, hopt, ?_⟩
  · rw [Course.decision, Int.toNat_natCast, hp]
  · rw [Decides, hp] at hdecides
    rw [← Option.some.inj hdecides]

theorem Feasible.finished_state (hc : c.cell.Sound) (hf : c.Feasible) (hs : s ∈ c.cell.stations)
    (ha : a ∈ Traffic.arrivals s c.rounds) :
    (c.finished s a).state = .transmitted ↔ (c.assigned? s a).isSome := by
  cases hr : c.assigned? s a with
  | some r => simp [(hf.finished_sent hc hs ha hr).1.state]
  | none => simp [finished_of_unassigned hr, state_of_unassigned hr]

theorem Over.map_filter {β : Type} (hc : c.cell.Sound) (h : Over c d) (q : Packet → Bool)
    (f : Packet → β) (hq : ∀ p, q (p.noted none) = q p) (hf : ∀ p, f (p.noted none) = f p) :
    (d.traffic.packets.toList.filter q).map f =
      ((Traffic.emissions c.cell.stations c.rounds).filter fun e => q (c.finished e.1 e.2)).map
        fun e => f (c.finished e.1 e.2) := by
  have hnoted : ((d.traffic.packets.toList.map fun p => p.noted none).filter q).map f =
      (d.traffic.packets.toList.filter q).map f := by
    rw [List.filter_map, List.map_map]
    simp only [Function.comp_def, hq, hf]
  rw [← hnoted, h.packets hc, List.filter_map, List.map_map]
  rfl

theorem Over.penalties_of_horizon (hc : c.cell.Sound) (h : Over c d) (k : Int) :
    (d.traffic.packets.toList.filter fun p => p.horizon = some k).map Packet.penalty =
      (c.emittedIn k).map fun e => e.1.penalty := by
  rw [h.map_filter hc _ _ (fun _ => rfl) fun _ => rfl]
  simp only [(finished_fields c _ _).2.1, Option.some.injEq, (finished_from c _ _).penalty]
  rfl

theorem Over.penalties_of_sent (hc : c.cell.Sound) (hf : c.Feasible) (h : Over c d) (k : Int) :
    ((d.traffic.packets.toList.filter fun p => p.horizon = some k).filter
      fun p => p.state = .transmitted).map Packet.penalty =
        ((c.emittedIn k).filter fun e => (d.traffic.sentAt c.cell.stations e).isSome).map
          fun e => e.1.penalty := by
  rw [List.filter_filter, h.map_filter hc _ _ (fun _ => rfl) fun _ => rfl, emittedIn,
    List.filter_filter]
  simp only [(finished_fields c _ _).2.1, Option.some.injEq, (finished_from c _ _).penalty]
  congr 1
  refine List.filter_congr fun e he => ?_
  obtain ⟨hs, ha⟩ := Traffic.mem_emissions.mp he
  simp [h.sentAt hc hf hs ha, hf.finished_state hc hs ha]

theorem length_served (tr : Traffic) (k : Int) : (c.served tr k).length =
    ((c.emittedIn k).filter fun e => (tr.sentAt c.cell.stations e).isSome).length := by
  rw [served, List.length_filterMap_eq_countP, List.countP_eq_length_filter]
  simp only [Option.isSome_map]

theorem total_emittedIn (hc : c.cell.Sound) (h₀ : 0 ≤ k) (hk : (k + 1) * c.length ≤ c.rounds) :
    total ((c.emittedIn k).map fun e => e.1.penalty) = (c.scheduleOf k).totalPenalty := by
  rw [← Assignment.total_indices, ← total_perm ((claimed_perm hc h₀ hk).map _), claimed_eq,
    List.map_map]
  congr 1
  refine List.map_congr_left fun e he => ?_
  obtain ⟨⟨hs, ha⟩, rfl⟩ := mem_emittedIn.mp he
  simp [Assignment.penaltyAt, entryAt?_indexOf hc hs (Traffic.mem_arrivals.mp ha).2]

theorem Over.horizon_iff (hc : c.cell.Sound) (h : Over c d) {p : Packet}
    (hp : p ∈ d.traffic.packets.toList) (k : Int) :
    p.horizon = some k ↔ k * c.length ≤ p.arrival ∧ p.arrival < k * c.length + c.length := by
  obtain ⟨s, -, a, -, he⟩ := h.exists_finished hc hp
  have hhorizon : p.horizon = some (c.horizonOf a) :=
    (congrArg Packet.horizon he).trans (finished_fields c s a).2.1
  have harrival : p.arrival = a := (congrArg Packet.arrival he).trans (finished_arrival c s a)
  rw [hhorizon, harrival, Option.some.injEq, horizonOf, Int.ediv_eq_iff_of_pos (length_pos hc)]

theorem Ledger.begins_before {m : Nat} (hc : c.cell.Sound) (h : Ledger c m d)
    (hj : j < d.book.horizons.length) : j * c.length < m := by
  have hle : ((j : Int) + 1) * c.length ≤ d.book.horizons.length * c.length :=
    Int.mul_le_mul_of_nonneg_right (by omega) (length_pos hc).le
  have htight := h.tight
  rw [Int.add_mul] at hle
  omega

theorem Ledger.length_eq_ceil {m : Nat} (hc : c.cell.Sound) (h : Ledger c m d) :
    (d.book.horizons.length : Int) = ⌈((m : Int) : ℚ) / c.length⌉ := by
  have hpos : (0 : ℚ) < c.length := by exact_mod_cast length_pos hc
  have hcovered := h.covered
  have htight := h.tight
  rw [eq_comm, Int.ceil_eq_iff, lt_div_iff₀ hpos, div_le_iff₀ hpos, sub_mul, one_mul,
    sub_lt_iff_lt_add]
  exact ⟨by exact_mod_cast htight, by exact_mod_cast hcovered⟩

theorem Over.complete (hc : c.cell.Sound) (hf : c.Feasible) (h : Over c d)
    (hk : (j + 1) * c.length ≤ c.rounds) (hm : c.decision j = some p.assignment)
    (hopt : p.Optimal (c.scheduleOf j) c.cell.sizing) :
    let packets := d.traffic.packets.toList.filter fun q => q.horizon = some (j : Int)
    let sent := packets.filter fun q => q.state = .transmitted
    (c.scheduleOf j).entries.length = packets.length ∧ p.assignment.length = sent.length ∧
      p.totalWeight = RunResult.weight sent ∧
        (c.scheduleOf j).totalPenalty = RunResult.weight packets := by
  intro packets sent
  have hpackets : packets.map Packet.penalty = _ := h.penalties_of_horizon hc j
  have hsent : sent.map Packet.penalty = _ := h.penalties_of_sent hc hf j
  have hclaimed := (claimed_perm hc (Int.natCast_nonneg j) hk).length_eq
  have hserved := h.served_perm hc hf (Int.natCast_nonneg j) hk hm hopt.best.distinct
    hopt.best.feasible
  rw [claimed_eq, List.length_map, Assignment.indices, List.length_map, List.length_range]
    at hclaimed
  refine ⟨?_, ?_, ?_, ?_⟩
  · simpa [hclaimed] using (congrArg List.length hpackets).symm
  · simpa [← hserved.length_eq, length_served] using (congrArg List.length hsent).symm
  · rw [RunResult.weight, hsent, total_map_filter, ← served_weight hc, hopt.total]
    exact (total_perm (hserved.map _)).symm
  · rw [RunResult.weight, hpackets, total_emittedIn hc (Int.natCast_nonneg j) hk]

theorem Over.loss_eq (hc : c.cell.Sound) (hexact : c.Exact) (h : Over c d) {n : Int}
    (hn : c.rounds = n * c.length) (hopt : p.Optimal (c.scheduleOf j) c.cell.sizing) :
    total (d.traffic.packets.toList.map Packet.loss) =
      n * ((c.scheduleOf j).totalPenalty - p.totalWeight) := by
  have hpos := length_pos hc
  have hnodup := hc.horizon.roster.nodup
  have hn₀ : 0 ≤ n := by
    by_contra hneg
    have := Int.mul_neg_of_neg_of_pos (by omega : n < 0) hpos
    omega
  rw [h.ended.loss hnodup]
  refine total_map_eq_mul_of_classes (Traffic.emissions_nodup hnodup _) (fun e => c.horizonOf e.2)
    hn₀ (fun e he => ?_) fun i h₀ hi => ?_
  · obtain ⟨⟨h₀, hlt⟩, -⟩ := Traffic.mem_arrivals.mp (Traffic.mem_emissions.mp he).2
    refine ⟨Int.ediv_nonneg h₀ hpos.le, Int.ediv_lt_of_lt_mul hpos ?_⟩
    rwa [← hn]
  · obtain ⟨i, rfl⟩ := Int.eq_ofNat_of_zero_le h₀
    have hend : ((i : Int) + 1) * c.length ≤ c.rounds := by
      rw [hn]
      exact Int.mul_le_mul_of_nonneg_right (by omega) hpos.le
    have hbegins : i * c.length < c.rounds := by
      rw [Int.add_mul] at hend
      omega
    obtain ⟨q, hq, hoptq⟩ := hexact.plan hc hbegins
    have hdecision : c.decision i = some q.assignment := by rw [decision, Int.toNat_natCast, hq]
    have hserved := h.served_perm hc (hexact.respected hc).feasible h₀ hend hdecision
      hoptq.best.distinct hoptq.best.feasible
    have hweight : (c.served d.traffic i).weight (c.scheduleOf i) = q.totalWeight := by
      rw [hoptq.total]
      exact total_perm (hserved.map _)
    have hsum := lost_add_saved hc d.traffic i
    rw [hweight, (optimal_alike hopt hoptq).1, total_emittedIn hc h₀ hend, scheduleOf_shift c j i,
      Schedule.totalPenalty_shift] at hsum
    exact eq_sub_of_add_eq hsum

theorem Over.truthful (hc : c.cell.Sound) (hexact : c.Exact) (h : Over c d)
    (hrecorded : c.Recorded d.book.horizons) {res : RunResult}
    (hpackets : res.packets = d.traffic.packets.toList) (hhorizons : res.horizons = d.book.horizons)
    (hrounds : res.rounds = c.rounds) (hlength : res.horizonRounds = c.length) : res.Truthful := by
  have hfeasible := (hexact.respected hc).feasible
  have hrecord : ∀ {h}, h ∈ res.horizons → ∃ (j : Nat) (p : Plan), j * c.length < c.rounds ∧
      c.decision j = some p.assignment ∧ p.Optimal (c.scheduleOf j) c.cell.sizing ∧
        h = c.recordOf j ⟨p.assignment, p.totalWeight, none⟩ := by
    intro r hr
    rw [hhorizons] at hr
    obtain ⟨j, hj⟩ := List.getElem?_of_mem hr
    have hbegins := h.ledger.begins_before hc (List.getElem?_eq_some_iff.mp hj).1
    obtain ⟨p, hm, hopt, he⟩ := hexact.record hc hrecorded hbegins hj
    exact ⟨j, p, hbegins, hm, hopt, he⟩
  refine ⟨?_, fun k r hr => ?_, fun r hr r' hr' => ?_, fun r hr p hp => ?_, fun r hr => ?_,
    fun n hn r hr => ?_⟩
  · rw [hhorizons, hrounds, hlength]
    exact h.ledger.length_eq_ceil hc
  · rw [hhorizons] at hr
    obtain ⟨hindex, hstart, hrounds, -⟩ := h.ledger.records k r hr
    rw [hlength]
    exact ⟨hindex, hstart, hrounds⟩
  · obtain ⟨i, p, -, -, hopt, rfl⟩ := hrecord hr
    obtain ⟨j, p', -, -, hopt', rfl⟩ := hrecord hr'
    obtain ⟨hweight, hmatched⟩ := optimal_alike hopt hopt'
    simp only [recordOf, hweight, hmatched, scheduleOf_shift c i j, Schedule.totalPenalty_shift,
      Schedule.length_entries_shift, and_self]
  · obtain ⟨j, p', -, -, -, rfl⟩ := hrecord hr
    rw [hpackets] at hp
    exact h.horizon_iff hc hp j
  · obtain ⟨hr, hend⟩ := List.mem_filter.mp hr
    obtain ⟨j, p, -, hm, hopt, rfl⟩ := hrecord hr
    have hend : ((j : Int) + 1) * c.length ≤ c.rounds := by
      rw [Int.add_mul, Int.one_mul, ← hrounds]
      exact of_decide_eq_true hend
    obtain ⟨h₁, h₂, h₃, h₄⟩ := h.complete hc hfeasible hend hm hopt
    simp only [RunResult.sentOfHorizon, RunResult.ofHorizon, hpackets]
    exact ⟨congrArg Nat.cast h₁, congrArg Nat.cast h₂, h₃, h₄⟩
  · obtain ⟨j, p, -, -, hopt, rfl⟩ := hrecord hr
    rw [RunResult.lostWeight_eq, hpackets]
    rw [hrounds, hlength] at hn
    exact h.loss_eq hc hexact hn hopt

end Course

namespace Simulation

variable {s : Settings}

/-- The records of a deadline-aware run with exact plans are truthful, and so are those of every run
that is planned for in its own process. -/
theorem records_truthful (hcheck : s.check = .ok ()) :
    (∀ cell tr planner channel, Simulation.cell s = .ok cell →
      Traffic.ofStations s.stations = .ok tr →
        (Course.mk cell planner s.rounds.toNat).Exact →
          ∃ last e, (Engine.make (.deadlineAware (DeadlineAware.make cell tr planner)) channel).run
            s.rounds = .ok last e ∧ (result s e last).Truthful) ∧
    ∀ env start, s.scheduler = DeadlineAware.name → s.solver.backend = Plan.matchingName →
      engine env s = .ok start → ∃ r, run env s = .ok r ∧ r.Truthful := by
  have hrounds : ((s.rounds.toNat : Nat) : Int) = s.rounds := by
    have := rounds_of_check hcheck
    omega
  have hplanned : ∀ cell planner channel, Simulation.cell s = .ok cell →
      (Course.mk cell planner s.rounds.toNat).Exact →
        ∃ last e,
          ((Course.mk cell planner s.rounds.toNat).engine channel).run s.rounds = .ok last e ∧
          (result s e last).Truthful := by
    intro cell planner channel hcell hexact
    have hc := (cell_sound hcell).1
    have hplans := hexact.respected hc
    obtain ⟨last, e, d, hrun, he, hover⟩ :=
      Course.run_completes hc hplans.settles (hplans.feasible.not_overfull hc) channel rfl
    have hrecorded := Course.run_recorded (c := Course.mk cell planner s.rounds.toNat) hc
      hplans.settles.answers hplans.feasible (by rwa [hrounds]) he
    refine ⟨last, e, hrun, hover.truthful hc hexact hrecorded (packets_of_planned s he last) ?_
      hrounds.symm ?_⟩
    · rw [result, he]
      rfl
    · rw [result, he]
      exact congrArg Cell.horizonRounds hover.ledger.cell
  constructor
  · intro cell tr planner channel hcell htr hexact
    rw [fresh_of_ofStations hcell htr]
    exact hplanned cell planner channel hcell hexact
  · intro env start hname hbackend hengine
    obtain ⟨cell, solver, channel, hcell, hsolver, rfl⟩ := engine_deadlineAware hengine hname
    obtain rfl := solver_of_matching hbackend hsolver
    obtain ⟨last, e, hrun, htruthful⟩ := hplanned cell Planner.matching channel hcell
      (Course.matching_exact (cell_sound hcell).1 _)
    exact ⟨_, run_ok hcheck hengine hrun, htruthful⟩

theorem records_truthful_two_stations :
    let s : Settings :=
      { stations := [⟨1, 2, 0, 5⟩, ⟨2, 1, 1, 10⟩]
        width := 20
        rounds := 5
        ruType := some 242
        roundDuration := .whole 10000
        maxCredit := .whole 1000000
        lossRate := .whole 0
        solver := { timeout := some (.whole 60) } }
    let cell : Cell := ⟨s.stations, 1024, 2, 3, ⟨.mhz20, .tones242, 1, 3, 242⟩⟩
    let env : Environment := ⟨fun _ _ => 0.5, fun _ _ _ => .timedOut, []⟩
    (∃ last e, (Engine.make (.deadlineAware (DeadlineAware.make cell (Traffic.fresh s.stations)
        Planner.matching)) .ideal).run s.rounds = .ok last e ∧ (result s e last).Truthful) ∧
      ∃ r, run env s = .ok r ∧ r.Truthful := by
  intro s cell env
  obtain ⟨hcell, htr⟩ := set_up_two_stations (s := s) rfl rfl rfl rfl
  have hengine : ∃ start, engine env s = .ok start := by
    simp only [engine, htr, scheduler, hcell]
    exact ⟨_, rfl⟩
  obtain ⟨start, hengine⟩ := hengine
  obtain ⟨hplanned, hrun⟩ := records_truthful (s := s) rfl
  exact ⟨hplanned cell _ _ .ideal hcell htr (Course.matching_exact (cell_sound hcell).1 _),
    hrun env start rfl rfl hengine⟩

end Simulation

end Downlink
