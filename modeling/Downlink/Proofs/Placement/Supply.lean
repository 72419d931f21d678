import Downlink.Proofs.Placement.Decoding

/-!
# One supply

The answer for one supply tells all there is to know about assignments of as many packets: there is
none exactly if there is no such assignment, and otherwise it has the weight of the heaviest of them
and lists the packets of one with this weight, but for those without a gain.
-/

namespace Downlink.Flow

open Placement Program FlowNetwork

variable {rounds capacity supply : Int} {triples : List Triple} {b : Placement}
  {simplex : FlowNetwork → Option Route} {r : Option FlowResult} {f : FlowResult} {a : Assignment}

structure Supplied (rounds capacity : Int) (triples : List Triple) (supply : Int)
    (a : Assignment) : Prop where
  allowed : Allowed rounds capacity triples a
  size : (a.length : Int) = supply

structure Largest (rounds capacity : Int) (triples : List Triple) (supply : Int)
    (f : FlowResult) : Prop where
  supplied : f.supply = supply
  attained : ∃ a, Supplied rounds capacity triples supply a ∧
    weightOfAll triples a = f.totalWeight ∧
      f.assignments.Perm (a.filter fun p => 0 < weightAt triples p.1)
  weight_le : ∀ a, Supplied rounds capacity triples supply a →
    weightOfAll triples a ≤ f.totalWeight
  allowed : Allowed rounds capacity triples f.assignments
  weight : weightOfAll triples f.assignments = f.totalWeight

structure Exact (rounds capacity : Int) (triples : List Triple) (supply : Int)
    (r : Option FlowResult) : Prop where
  none_iff : r = none ↔ ¬∃ a, Supplied rounds capacity triples supply a
  largest : ∀ f, r = some f → Largest rounds capacity triples supply f

theorem Supplied.fits_placed (h : Supplied rounds capacity triples supply a) :
    Fits (jobs rounds triples) capacity.toNat (Plan.placed a) ∧
      ((Plan.placed a).length : Int) = supply := by
  refine ⟨h.allowed.fits_placed, ?_⟩
  rw [Plan.placed, List.length_map]
  exact h.size

theorem Decodes.supplied (hc : 1 ≤ capacity) (h : Decodes rounds capacity triples f b) :
    Supplied rounds capacity triples f.supply (Plan.assigned b) where
  allowed := allowed_assigned (by omega) h.fits
  size := by
    rw [Plan.assigned, List.length_map]
    exact h.length

theorem assigned_paid (rounds : Int) (triples : List Triple) (b : Placement) :
    Plan.assigned (paid (jobs rounds triples) b) =
      (Plan.assigned b).filter fun p => 0 < weightAt triples p.1 := by
  rw [Plan.assigned, Plan.assigned, List.filter_map, paid]
  congr 1
  refine List.filter_congr fun p _ => ?_
  rw [weightOf_eq_weightAt, Function.comp_apply, Int.ofNat_eq_natCast]

theorem Allowed.filter (h : Allowed rounds capacity triples a) (p : Int × Int → Bool) :
    Allowed rounds capacity triples (a.filter p) where
  distinct := h.distinct.sublist (List.filter_sublist.map _)
  window q hq := h.window q (List.mem_of_mem_filter hq)
  load r := by
    have hle := (List.filter_sublist (p := p) (l := a)).map Prod.snd |>.count_le r
    have hload := h.load r
    simp only [Assignment.rounds] at hload ⊢
    omega

theorem weightAt_nonneg (h : ∀ t ∈ triples, 0 ≤ t.weight) (packet : Int) :
    0 ≤ weightAt triples packet := by
  rw [weightAt]
  cases ht : triples[packet.toNat]? with
  | none => exact le_rfl
  | some t => exact h t (List.mem_of_getElem? ht)

theorem weightOfAll_filter (h : ∀ t ∈ triples, 0 ≤ t.weight) (a : Assignment) :
    weightOfAll triples (a.filter fun p => 0 < weightAt triples p.1) = weightOfAll triples a := by
  rw [weightOfAll, total_map_filter, weightOfAll]
  congr 1
  refine List.map_congr_left fun p _ => ?_
  have := weightAt_nonneg h p.1
  simp only [decide_eq_true_eq]
  split_ifs with hpaid
  · rfl
  · omega

theorem Level.none_iff (hc : 1 ≤ capacity) (h : Level rounds capacity triples supply r) :
    r = none ↔ ¬∃ a, Supplied rounds capacity triples supply a := by
  constructor
  · rintro rfl ⟨a, ha⟩
    obtain ⟨hfits, hsize⟩ := ha.fits_placed
    obtain ⟨f, hf, -⟩ := h.weight_le _ hfits hsize
    cases hf
  · intro hnot
    refine Option.eq_none_iff_forall_ne_some.mpr fun f hf => hnot ?_
    obtain ⟨b, hb, hsize, -⟩ := h.attained f hf
    refine ⟨Plan.assigned b, allowed_assigned (by omega) hb, ?_⟩
    rw [Plan.assigned, List.length_map]
    exact hsize

theorem Level.largest (hc : 1 ≤ capacity) (hweight : ∀ t ∈ triples, 0 ≤ t.weight)
    (h : Level rounds capacity triples supply (some f)) (hsupply : f.supply = supply)
    (hb : Decodes rounds capacity triples f b) : Largest rounds capacity triples supply f := by
  have hsupplied := hsupply ▸ hb.supplied hc
  have hperm := assigned_paid rounds triples b ▸ hb.assignments
  have htotal : weightOfAll triples (Plan.assigned b) = f.totalWeight :=
    (weightOfAll_assigned rounds triples b).trans hb.weight
  refine ⟨hsupply, ⟨_, hsupplied, htotal, hperm⟩, fun a ha => ?_,
    (hsupplied.allowed.filter _).perm hperm, ?_⟩
  · obtain ⟨hfits, hsize⟩ := ha.fits_placed
    obtain ⟨f', hf', hle⟩ := h.weight_le _ hfits hsize
    rwa [← Option.some.inj hf', ha.allowed.weight_placed] at hle
  · rw [← htotal, ← weightOfAll_filter hweight (Plan.assigned b), weightOfAll, weightOfAll]
    exact total_perm (hperm.map _)

theorem Level.exact (hc : 1 ≤ capacity) (hweight : ∀ t ∈ triples, 0 ≤ t.weight)
    (h : Level rounds capacity triples supply r)
    (hdecodes : ∀ f, r = some f → f.supply = supply ∧ ∃ b, Decodes rounds capacity triples f b) :
    Exact rounds capacity triples supply r where
  none_iff := h.none_iff hc
  largest f hf := by
    obtain ⟨hsupply, b, hb⟩ := hdecodes f hf
    exact (hf ▸ h).largest hc hweight hsupply hb

/-- The answer for one supply is exact, whether an exact solver gives it or the library does. -/
theorem supply_exact (hr : 0 ≤ rounds) (hc : 1 ≤ capacity) (hweight : ∀ t ∈ triples, 0 ≤ t.weight)
    (supply : Int) (hsimplex : (FlowNetwork.build rounds capacity triples supply).Answers
      (simplex (FlowNetwork.build rounds capacity triples supply))) :
    Exact rounds capacity triples supply (solveBy simplex rounds capacity triples supply) ∧
      Exact rounds capacity triples supply (solve rounds capacity triples supply) := by
  constructor
  · exact (solveBy_level hr hc hsimplex).exact hc hweight fun _ => solveBy_decodes hr hc hsimplex
  · exact (solve_level hr hc supply).exact hc hweight fun _ => solve_decodes hr hc

theorem supply_exact_three_of_four :
    let triples : List Triple := [⟨0, 0, 5⟩, ⟨0, 1, 10⟩, ⟨1, 1, 0⟩, ⟨0, 0, 7⟩]
    let simplex : FlowNetwork → Option Route := fun g =>
      FlowNetwork.heaviestRoute 2 2 triples
        (-((g.nodes.find? fun n => n.1 = 0).bind Prod.snd).getD 0)
    (∀ t ∈ triples, 0 ≤ t.weight) ∧
      (FlowNetwork.build 2 2 triples 3).Answers (simplex (FlowNetwork.build 2 2 triples 3)) ∧
      Exact 2 2 triples 3 (solveBy simplex 2 2 triples 3) ∧
        Exact 2 2 triples 3 (solve 2 2 triples 3) := by
  intro triples simplex
  have hweight : ∀ t ∈ triples, 0 ≤ t.weight := by decide
  have hsimplex : ∀ supply : Int, (FlowNetwork.build 2 2 triples supply).Answers
      (simplex (FlowNetwork.build 2 2 triples supply)) := by
    intro supply
    have hsource := FlowNetwork.find?_source (by decide : (0 : Int) ≤ 2) (by decide : (1 : Int) ≤ 2)
      triples supply
    simp only [simplex, hsource, Option.bind_some, Option.getD_some, Int.neg_neg]
    exact FlowNetwork.heaviestRoute_answers (by decide) (by decide) triples supply
  clear_value simplex triples
  exact ⟨hweight, hsimplex 3, supply_exact (by decide) (by decide) hweight 3 (hsimplex 3)⟩

end Downlink.Flow
