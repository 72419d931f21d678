import Downlink.Proofs.SlotGraph

/-!
# Plans from matchings

Whatever heaviest matching of the slot graph is read back, finishing it never fails and gives a plan
that saves the largest penalty and serves the most packets at that penalty. The planner's own plan
is finished from such a matching.
-/

namespace Downlink.Plan

variable {stations : List Station} {start H cap : Int} {z : Sizing} {m : Assignment}

structure Optimal (s : Schedule) (z : Sizing) (p : Plan) : Prop where
  best : Assignment.Best s z.perRound p.assignment
  total : p.totalWeight = p.assignment.weight s

theorem finish_ok (h : Horizon stations H) (backend : String) (hd : m.Distinct)
    (hf : m.Feasible (Schedule.ofStations stations start H) z.perRound) :
    let s := Schedule.ofStations stations start H
    finish s z backend m =
      .ok ⟨Assignment.redeal s m, (Assignment.redeal s m).weight s, backend⟩ := by
  have hcheck := Assignment.check_eq_ok_iff_feasible.mpr (Assignment.redeal_feasible h hd hf)
  simp only [finish, hcheck]

theorem finish_optimal (h : Horizon stations H) (backend : String)
    (hb : Assignment.Best (Schedule.ofStations stations start H) z.perRound m) :
    ∃ p, finish (Schedule.ofStations stations start H) z backend m = .ok p ∧
      Optimal (Schedule.ofStations stations start H) z p :=
  ⟨_, finish_ok h backend hb.distinct hb.feasible, hb.redeal h, rfl⟩

theorem penalty_nonneg (h : Horizon stations H) {e : Entry}
    (he : e ∈ (Schedule.ofStations stations start H).entries) : 0 ≤ e.penalty := by
  obtain ⟨s, hs, he⟩ := List.mem_flatMap.mp he
  obtain ⟨k, -, rfl⟩ := List.mem_map.mp he
  exact (h.roster.valid s hs).penalty

theorem generated_heaviest_best (h : Horizon stations H) (start : Int) (capacity : Nat) :
    let s := Schedule.ofStations stations start H
    Assignment.Best s capacity (heaviest s capacity) :=
  heaviest_best (fun _ he => penalty_nonneg h he) capacity

theorem byMatching_eq (h : Horizon stations H) (z : Sizing) (start : Int) :
    let s := Schedule.ofStations stations start H
    ∃ M, SlotGraph.Heaviest s z.perRound M ∧ byMatching s z = ofMatching s z M := by
  intro s
  have hb := generated_heaviest_best h start z.perRound
  refine ⟨_, SlotGraph.heaviest_seat hb, ?_⟩
  rw [ofMatching, SlotGraph.readBack_seat fun p hp => (hb.feasible.index p hp).1]
  rfl

/-- On a generated schedule every heaviest matching yields an optimal plan, and so does the
planner. -/
theorem generated_matching_optimal (hne : stations ≠ []) (hv : ∀ s ∈ stations, s.Valid)
    (hd : (stations.map Station.id).Nodup) (hs : 0 ≤ start)
    (hl : lcmOfPeriods (stations.map Station.period) = .ok H) (hc : H ≤ cap) (z : Sizing) :
    ∃ s, Schedule.generate stations start cap = .ok s ∧
      (∀ M, SlotGraph.Heaviest s z.perRound M → ∃ p, ofMatching s z M = .ok p ∧ p.Optimal s z) ∧
      ∃ M, SlotGraph.Heaviest s z.perRound M ∧ byMatching s z = ofMatching s z M := by
  obtain ⟨hg, hh⟩ := Schedule.generate_ok hne hv hd hs hl hc
  refine ⟨_, hg, ?_, byMatching_eq hh z start⟩
  intro M hM
  exact finish_optimal hh matchingName hM.best

theorem generated_matching_optimal_three_stations :
    let stations := [⟨0, 1, 0, 5⟩, ⟨1, 2, 0, 10⟩, ⟨2, 4, 0, 15⟩]
    let z : Sizing := ⟨.mhz20, .tones242, 1, 3, 242⟩
    ∃ s, Schedule.generate stations 4 1024 = .ok s ∧
      (∀ M, SlotGraph.Heaviest s z.perRound M → ∃ p, ofMatching s z M = .ok p ∧ p.Optimal s z) ∧
      ∃ M, SlotGraph.Heaviest s z.perRound M ∧ byMatching s z = ofMatching s z M := by
  intro stations z
  obtain ⟨hne, hv, hd⟩ := Station.checkAll_eq_ok_iff.mp (rfl : Station.checkAll stations = .ok ())
  have hl : lcmOfPeriods (stations.map Station.period) = .ok 4 := rfl
  exact generated_matching_optimal hne hv hd (by decide) hl (by decide) z

end Downlink.Plan
