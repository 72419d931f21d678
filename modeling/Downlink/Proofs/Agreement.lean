import Downlink.Proofs.Placement.Sweep
import Downlink.Proofs.Plan

/-!
# Agreement of the solvers

The integer program, the flow network and the slot graph of a horizon describe the same placements
with the same weights, so that exact solvers of the three reach the same weight. Rounds are counted
from the start of the horizon in the first two and from zero in the last.
-/

namespace Downlink

open Placement

variable {jobs jobs' : List Job} {capacity : Nat} {b m : Placement} {s : Schedule} {d : Int}

namespace Placement

def shift (d : Int) (b : Placement) : Placement := b.map fun p => (p.1, p.2 + d)

structure Shifted (d : Int) (jobs jobs' : List Job) : Prop where
  window : ∀ i r, r ∈ roundsOf jobs.toArray i ↔ r + d ∈ roundsOf jobs'.toArray i
  weight : ∀ i, weightOf jobs i = weightOf jobs' i

theorem served_shift (d : Int) (b : Placement) : (shift d b).served = b.served := by
  rw [served, shift, List.map_map]
  rfl

theorem load_shift (d : Int) (b : Placement) (r : Int) : (shift d b).load r = b.load (r - d) := by
  rw [load, load, shift, List.countP_map]
  apply List.countP_congr
  intro p _
  simp only [Function.comp_apply, decide_eq_true_eq]
  omega

theorem Shifted.symm (h : Shifted d jobs jobs') : Shifted (-d) jobs' jobs := by
  constructor
  · intro i r
    rw [h.window, Int.neg_add_cancel_right]
  · intro i
    exact (h.weight i).symm

theorem Shifted.fits (h : Shifted d jobs jobs') (hb : Fits jobs capacity b) :
    Fits jobs' capacity (shift d b) := by
  refine ⟨?_, ?_, ?_⟩
  · rw [served_shift]
    exact hb.distinct
  · intro p hp
    obtain ⟨q, hq, rfl⟩ := List.mem_map.mp hp
    exact (h.window q.1 q.2).mp (hb.inWindow q hq)
  · intro r
    rw [load_shift]
    exact hb.load_le (r - d)

theorem Shifted.weight_eq (h : Shifted d jobs jobs') (b : Placement) :
    Placement.weight jobs' (shift d b) = Placement.weight jobs b := by
  rw [Placement.weight, Placement.weight, served_shift]
  congr 1
  apply List.map_congr_left
  intro i _
  exact (h.weight i).symm

theorem Shifted.heaviest (h : Shifted d jobs jobs') (hm : Heaviest jobs capacity m) :
    Heaviest jobs' capacity (shift d m) := by
  refine ⟨h.fits hm.fits, ?_⟩
  intro b hb
  rw [h.weight_eq, ← h.symm.weight_eq b]
  exact hm.weight_le _ (h.symm.fits hb)

end Placement

def Schedule.triples (s : Schedule) : List Triple :=
  s.entries.map fun e => ⟨e.arrival - s.start, e.deadline - s.start, e.penalty⟩

theorem Plan.jobs_shifted (s : Schedule) :
    Shifted (-s.start) (Plan.jobs s) (Program.jobs s.rounds s.triples) := by
  have hjob : ∀ i : Nat, (Program.jobs s.rounds s.triples)[i]? = s.entries[i]?.map fun e : Entry =>
      Triple.job s.rounds ⟨e.arrival - s.start, e.deadline - s.start, e.penalty⟩ := by
    intro i
    rw [Program.jobs, Schedule.triples, List.map_map, List.getElem?_map]
    rfl
  constructor
  · intro i r
    rw [mem_roundsOf, mem_roundsOf, Plan.getElem?_jobs, hjob]
    cases s.entries[i]? with
    | none => simp
    | some e =>
      simp only [Option.map_some, Option.some.injEq, exists_eq_left', Plan.jobOf, Schedule.clip,
        Triple.job, Schedule.stop]
      omega
  · intro i
    rw [weightOf, weightOf, Plan.getElem?_jobs, hjob]
    cases s.entries[i]? <;> rfl

theorem Assignment.Best.placed_heaviest {a : Assignment} (h : Assignment.Best s capacity a) :
    Heaviest (Plan.jobs s) capacity (Plan.placed a) := by
  have hnonneg : ∀ p ∈ a, 0 ≤ p.1 := fun p hp => (h.feasible.index p hp).1
  refine ⟨Plan.placed_fits h.distinct h.feasible, ?_⟩
  intro b hb
  rw [← Plan.assigned_weight, ← Plan.assigned_weight, Plan.assigned_placed hnonneg]
  exact h.heaviest _ (Plan.assigned_distinct hb.distinct) (Plan.assigned_feasible hb)

theorem Plan.Optimal.totalWeight_eq {z : Sizing} {p : Plan} (hp : p.Optimal s z)
    (hm : Heaviest (Program.jobs s.rounds s.triples) z.perRound m) :
    p.totalWeight = weight (Program.jobs s.rounds s.triples) m := by
  have hnonneg : ∀ q ∈ p.assignment, 0 ≤ q.1 := fun q hq => (hp.best.feasible.index q hq).1
  have hshift := Plan.jobs_shifted s
  rw [hp.total, ← Plan.assigned_placed hnonneg, Plan.assigned_weight, ← hshift.weight_eq]
  exact (hshift.heaviest hp.best.placed_heaviest).weight_eq hm

theorem Plan.ofMatching_totalWeight {stations : List Station} {H start : Int} {z : Sizing}
    (h : Horizon stations H) {M : List SlotEdge}
    (hm : Heaviest (Program.jobs H (Schedule.ofStations stations start H).triples) z.perRound m)
    (hM : SlotGraph.Heaviest (Schedule.ofStations stations start H) z.perRound M) :
    ∃ p, Plan.ofMatching (Schedule.ofStations stations start H) z M = .ok p ∧
      p.totalWeight = weight (Program.jobs H (Schedule.ofStations stations start H).triples) m := by
  obtain ⟨p, hp, hopt⟩ := Plan.finish_optimal h Plan.matchingName hM.best
  exact ⟨p, hp, hopt.totalWeight_eq hm⟩

/-- Exact solvers of the integer program, of the flow networks and of the slot graph agree, and so
do those of the library. -/
theorem solvers_agree {rounds capacity : Int} (hr : 0 ≤ rounds) (hc : 1 ≤ capacity)
    (triples : List Triple) {mip : BinaryProgram (Nat × Int) → Except Int (Nat × Int → Bool)}
    {simplex : FlowNetwork → Option Route}
    (hmip : (Program.build rounds capacity triples).Answers
      (mip (Program.build rounds capacity triples)))
    (hsimplex : ∀ supply : Int, 1 ≤ supply → supply ≤ triples.length →
      (FlowNetwork.build rounds capacity triples supply).Answers
        (simplex (FlowNetwork.build rounds capacity triples supply))) :
    let swept := (Flow.sweepBy simplex rounds capacity triples).totalWeight
    (∃ m, Program.solveBy mip rounds capacity triples = .ok m ∧ m.served.Nodup ∧
      Program.value rounds triples m = swept) ∧
    (∀ available, available ≠ [] → ∃ m,
      Program.solve available none rounds capacity triples = .ok m ∧
        Program.value rounds triples m = swept) ∧
    (Flow.sweepAll rounds capacity triples).totalWeight = swept ∧
    ∀ stations start cap s (z : Sizing), Schedule.generate stations start cap = .ok s →
      rounds = s.rounds → capacity = z.perRound → triples = s.triples →
        (∀ M, SlotGraph.Heaviest s z.perRound M → ∃ p, Plan.ofMatching s z M = .ok p ∧
          p.totalWeight = swept) ∧
        ∃ p, Plan.byMatching s z = .ok p ∧ p.totalWeight = swept := by
  intro swept
  obtain ⟨m, hsolve, hm⟩ := Program.solveBy_heaviest (by omega) hmip
  obtain ⟨m', hoptimum, hm'⟩ : ∃ m', Program.optimum rounds capacity triples = .ok m' ∧
      Heaviest (Program.jobs rounds triples) capacity.toNat m' :=
    Program.optimum_heaviest (by omega)
  have hswept : swept = weight (Program.jobs rounds triples) m := by
    apply Flow.sweepOf_weight _ hm
    intro supply h₁ hlen
    exact Flow.solveBy_level hr hc (hsimplex supply h₁ hlen)
  refine ⟨⟨m, hsolve, hm.fits.distinct, hswept.symm⟩, ?_, ?_, ?_⟩
  · intro available hne
    refine ⟨m', ?_, (hm'.weight_eq hm).trans hswept.symm⟩
    rw [Program.solve, if_neg (mt List.isEmpty_iff.mp hne)]
    exact hoptimum
  · rw [hswept, Flow.sweepAll_eq]
    apply Flow.sweepOf_weight _ hm
    intro supply _ _
    exact Flow.solve_level hr hc supply
  · intro stations start cap s z hgen hrounds hcap htriples
    subst hrounds hcap htriples
    obtain ⟨-, H, -, hh, rfl⟩ := Schedule.generate_eq_ok hgen
    rw [hswept]
    constructor
    · intro M hM
      exact Plan.ofMatching_totalWeight hh hm hM
    · obtain ⟨M, hM, heq⟩ := Plan.byMatching_eq hh z start
      rw [heq]
      exact Plan.ofMatching_totalWeight hh hm hM

theorem solvers_agree_two_stations :
    let stations : List Station := [⟨1, 1, 0, 5⟩, ⟨2, 2, 0, 10⟩]
    let z : Sizing := ⟨.mhz20, .tones242, 1, 3, 242⟩
    let s := Schedule.ofStations stations 4 2
    let mip : BinaryProgram (Nat × Int) → Except Int (Nat × Int → Bool) :=
      fun _ => .ok (· ∈ best (Program.jobs 2 s.triples) 1 3 fun j => 0 < j.weight)
    let simplex : FlowNetwork → Option Route := fun g =>
      FlowNetwork.heaviestRoute 2 1 s.triples
        (-((g.nodes.find? fun n => n.1 = 0).bind Prod.snd).getD 0)
    let swept := (Flow.sweepBy simplex 2 1 s.triples).totalWeight
    (Program.build 2 1 s.triples).Answers (mip (Program.build 2 1 s.triples)) ∧
      (∀ supply : Int, 1 ≤ supply → supply ≤ s.triples.length →
        (FlowNetwork.build 2 1 s.triples supply).Answers
          (simplex (FlowNetwork.build 2 1 s.triples supply))) ∧
      (∃ m, Program.solveBy mip 2 1 s.triples = .ok m ∧ m.served.Nodup ∧
        Program.value 2 s.triples m = swept) ∧
      ∃ p, Plan.byMatching s z = .ok p ∧ p.totalWeight = swept := by
  intro stations z s mip simplex swept
  have horder : Station.inOrder stations = stations := List.mergeSort_of_pairwise (by decide)
  have hgen : Schedule.generate stations 4 1024 = .ok s := by
    rw [Schedule.generate, horder]
    rfl
  have hmip : (Program.build 2 1 s.triples).Answers (mip (Program.build 2 1 s.triples)) :=
    Program.optimum_of_heaviest (by decide) (heaviest_best (Program.jobs 2 s.triples) 1)
  have hsimplex : ∀ supply : Int, 1 ≤ supply → supply ≤ s.triples.length →
      (FlowNetwork.build 2 1 s.triples supply).Answers
        (simplex (FlowNetwork.build 2 1 s.triples supply)) := by
    intro supply _ _
    have hsource := FlowNetwork.find?_source (by decide : (0 : Int) ≤ 2) (by decide : (1 : Int) ≤ 1)
      s.triples supply
    simp only [simplex, hsource, Option.bind_some, Option.getD_some, Int.neg_neg]
    exact FlowNetwork.heaviestRoute_answers (by decide) (by decide) s.triples supply
  have hrounds : 2 = s.rounds := rfl
  clear_value s
  obtain ⟨hsolved, -, -, hplans⟩ :=
    solvers_agree (by decide) (by decide) s.triples hmip hsimplex
  exact ⟨hmip, hsimplex, hsolved, (hplans stations 4 1024 s z hgen hrounds rfl rfl).2⟩

end Downlink
