import Downlink.Proofs.Placement.Flow

/-!
# The sweep over supplies

A cheapest flow of a supply weighs as much as the heaviest placements of as many packets, and no
flow has the supply if there are none. A sweep over all supplies therefore ends at the weight of the
heaviest placements, whatever solver answers for each supply.
-/

namespace Downlink.Flow

open Placement Program FlowNetwork

variable {rounds capacity supply : Int} {triples : List Triple} {m : Placement}
  {simplex : FlowNetwork → Option Route} {answer : Int → Option FlowResult} {best : FlowResult}
  {supplies : List Int}

def assignments (capacity : Int) (packets : Nat) (g : FlowNetwork) (f : Route) : List (Int × Int) :=
  let paid := g.arcs.filter fun a =>
    1 ≤ a.tail && a.tail ≤ Int.ofNat packets && 0 < f a.tail a.head && a.cost < 0
  (paid.map fun a => (a.tail - 1, roundAt capacity packets a.head)).mergeSort
    fun p q => p.1 < q.1 || p.1 = q.1 && p.2 ≤ q.2

def solveBy (simplex : FlowNetwork → Option Route) (rounds capacity : Int) (triples : List Triple)
    (supply : Int) : Option FlowResult :=
  let g := FlowNetwork.build rounds capacity triples supply
  (simplex g).map fun f =>
    { FlowResult.zero rounds capacity triples with
      cost := g.cost f
      supply := supply
      assignments := assignments capacity triples.length g f }

def sweepOf (answer : Int → Option FlowResult) (rounds capacity : Int) (triples : List Triple) :
    FlowResult :=
  (span 1 triples.length).foldl (fun best s => better best (answer s))
    (FlowResult.zero rounds capacity triples)

def sweepBy (simplex : FlowNetwork → Option Route) (rounds capacity : Int) (triples : List Triple) :
    FlowResult :=
  sweepOf (solveBy simplex rounds capacity triples) rounds capacity triples

theorem sweepAll_eq (rounds capacity : Int) (triples : List Triple) :
    sweepAll rounds capacity triples =
      sweepOf (solve rounds capacity triples) rounds capacity triples := rfl

structure Level (rounds capacity : Int) (triples : List Triple) (supply : Int)
    (r : Option FlowResult) : Prop where
  attained : ∀ f, r = some f → ∃ b, Fits (jobs rounds triples) capacity.toNat b ∧
    (b.length : Int) = supply ∧ weight (jobs rounds triples) b = f.totalWeight
  weight_le : ∀ b, Fits (jobs rounds triples) capacity.toNat b → (b.length : Int) = supply →
    ∃ f, r = some f ∧ weight (jobs rounds triples) b ≤ f.totalWeight

theorem solveBy_level (hr : 0 ≤ rounds) (hc : 1 ≤ capacity)
    (h : (FlowNetwork.build rounds capacity triples supply).Answers
      (simplex (FlowNetwork.build rounds capacity triples supply))) :
    Level rounds capacity triples supply (solveBy simplex rounds capacity triples supply) := by
  unfold solveBy
  dsimp only
  cases hs : simplex (FlowNetwork.build rounds capacity triples supply) with
  | none =>
    rw [hs] at h
    refine ⟨fun f hf => (by cases hf), fun b hb hlen => ?_⟩
    exact absurd (routes_seated hr hc hb hlen).1 (h _)
  | some f =>
    rw [hs] at h
    constructor
    · intro r he
      cases he
      exact h.routes.placement hr hc
    · intro b hb hlen
      obtain ⟨hroutes, hw⟩ := routes_seated hr hc hb hlen
      refine ⟨_, rfl, ?_⟩
      have := h.cost_le _ hroutes
      simp only [FlowResult.totalWeight]
      omega

theorem jobs_rounds_eq_nil {j : Job} (hj : j ∈ jobs 0 triples) : j.rounds = [] := by
  obtain ⟨t, -, rfl⟩ := List.mem_map.mp hj
  apply List.eq_nil_iff_forall_not_mem.mpr
  intro r hr
  have := Job.mem_rounds.mp hr
  simp only [Triple.job] at this
  omega

theorem solve_level_rounds (hpos : 0 < rounds) (hc : 1 ≤ capacity) (supply : Int) :
    Level rounds capacity triples supply (solve rounds capacity triples supply) := by
  unfold solve
  have hslots : (decide (0 < rounds) && decide (0 < capacity)) = true := by
    simp only [Bool.and_eq_true, decide_eq_true_eq]
    omega
  rw [if_pos hslots]
  split_ifs with hneg
  · exact ⟨fun f hf => (by cases hf), fun b hb hlen => by omega⟩
  · dsimp only
    have hfits := best_fits (jobs rounds triples) capacity.toNat supply.toNat fun _ => true
    split_ifs with hlen
    · constructor
      · intro f hf
        cases hf
        refine ⟨_, hfits, by simp only [jobs]; omega, ?_⟩
        simp only [FlowResult.totalWeight, ofPlacement, Int.neg_neg, jobs]
      · intro b hb hb'
        refine ⟨_, rfl, ?_⟩
        simp only [FlowResult.totalWeight, ofPlacement, Int.neg_neg]
        exact (best_exactly hb (by omega)).2
    · refine ⟨fun f hf => (by cases hf), fun b hb hb' => ?_⟩
      exact absurd (best_exactly hb (by omega)).1 hlen

theorem solve_level_no_rounds (capacity supply : Int) :
    Level 0 capacity triples supply (solve 0 capacity triples supply) := by
  unfold solve
  have hslots : ¬(decide ((0 : Int) < 0) && decide (0 < capacity)) = true := by simp
  rw [if_neg hslots]
  have hsupply : withoutSlots 0 capacity triples supply = decide (supply = 0) := by
    have hsink : ¬sink 0 capacity triples ≤ triples.length := by
      simp only [sink]
      omega
    simp [withoutSlots, hsink]
  rw [hsupply]
  split_ifs with hs
  · have hs := of_decide_eq_true hs
    constructor
    · intro f hf
      cases hf
      exact ⟨[], fits_nil _ _, hs.symm, rfl⟩
    · intro b hb _
      rw [hb.eq_nil fun j hj => jobs_rounds_eq_nil hj]
      exact ⟨_, rfl, le_rfl⟩
  · refine ⟨fun f hf => (by cases hf), fun b hb hlen => absurd (decide_eq_true ?_) hs⟩
    rw [hb.eq_nil fun j hj => jobs_rounds_eq_nil hj] at hlen
    exact hlen.symm

theorem solve_level (hr : 0 ≤ rounds) (hc : 1 ≤ capacity) (supply : Int) :
    Level rounds capacity triples supply (solve rounds capacity triples supply) := by
  by_cases hpos : 0 < rounds
  · exact solve_level_rounds hpos hc supply
  · obtain rfl : rounds = 0 := by omega
    exact solve_level_no_rounds capacity supply

theorem foldl_better (answer : Int → Option FlowResult) (supplies : List Int) (best : FlowResult) :
    let last := supplies.foldl (fun best s => better best (answer s)) best
    (last = best ∨ ∃ s ∈ supplies, answer s = some last) ∧ last.cost ≤ best.cost ∧
      ∀ s ∈ supplies, ∀ f, answer s = some f → last.cost ≤ f.cost := by
  induction supplies generalizing best with
  | nil => exact ⟨Or.inl rfl, le_rfl, by simp⟩
  | cons s supplies ih =>
    obtain ⟨hlast, hle, hall⟩ := ih (better best (answer s))
    have hstep : (better best (answer s) = best ∨ answer s = some (better best (answer s))) ∧
        (better best (answer s)).cost ≤ best.cost ∧
          ∀ f, answer s = some f → (better best (answer s)).cost ≤ f.cost := by
      cases hs : answer s with
      | none => exact ⟨Or.inl rfl, le_rfl, by simp⟩
      | some f =>
        simp only [better]
        split_ifs with hlt
        · exact ⟨Or.inr rfl, hlt.le, fun f' he => (Option.some.inj he) ▸ le_rfl⟩
        · exact ⟨Or.inl rfl, le_rfl, fun f' he => (Option.some.inj he) ▸ not_lt.mp hlt⟩
    obtain ⟨hcase, hbest, hanswer⟩ := hstep
    refine ⟨?_, hle.trans hbest, ?_⟩
    · rcases hlast with h | ⟨u, hu, h⟩
      · rcases hcase with hc | hc
        · exact Or.inl (h.trans hc)
        · exact Or.inr ⟨s, List.mem_cons_self, hc.trans (congrArg some h.symm)⟩
      · exact Or.inr ⟨u, List.mem_cons_of_mem s hu, h⟩
    · intro u hu f hf
      rcases List.mem_cons.mp hu with rfl | hu
      · exact hle.trans (hanswer f hf)
      · exact hall u hu f hf

theorem sweepOf_weight
    (h : ∀ s : Int, 1 ≤ s → s ≤ triples.length → Level rounds capacity triples s (answer s))
    (hm : Heaviest (jobs rounds triples) capacity.toNat m) :
    (sweepOf answer rounds capacity triples).totalWeight = weight (jobs rounds triples) m := by
  obtain ⟨hlast, hzero, hall⟩ := foldl_better answer (span 1 triples.length)
    (FlowResult.zero rounds capacity triples)
  apply le_antisymm
  · rcases hlast with hlast | ⟨s, hs, hlast⟩
    · rw [sweepOf, hlast]
      exact hm.weight_le [] (fits_nil _ _)
    · have hs := mem_span.mp hs
      obtain ⟨b, hb, -, hw⟩ := (h s (by omega) (by omega)).attained _ hlast
      rw [sweepOf, ← hw]
      exact hm.weight_le b hb
  · have hlen := hm.fits.length_le
    rw [jobs, List.length_map] at hlen
    by_cases hnil : m = []
    · rw [hnil]
      have : (FlowResult.zero rounds capacity triples).cost = 0 := rfl
      simp only [FlowResult.totalWeight, sweepOf, weight, served, List.map_nil, total]
      omega
    · have hpos := List.length_pos_iff.mpr hnil
      obtain ⟨f, hf, hw⟩ := (h m.length (by omega) (by omega)).weight_le m hm.fits rfl
      have hle := hall m.length (mem_span.mpr (by omega)) f hf
      simp only [FlowResult.totalWeight, sweepOf] at hw ⊢
      omega

end Downlink.Flow
