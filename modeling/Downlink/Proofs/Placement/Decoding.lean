import Downlink.Proofs.Assignment.Best
import Downlink.Proofs.Placement.Sweep

/-!
# The packets of a flow

What is decoded from a cheapest flow is the part of a heaviest placement that has a gain. The sweep
keeps the first supply that reaches the largest weight. There no packet can be spared, so every
packet has a gain and the decoded assignments are the whole placement.
-/

namespace Downlink.Flow

open Placement Program FlowNetwork

variable {rounds capacity supply : Int} {triples : List Triple} {m b : Placement}
  {simplex : FlowNetwork → Option Route} {answer : Int → Option FlowResult} {f : FlowResult}
  {a : Assignment} {f' : Route}

/-- Some packets of a list of triples in rounds of a horizon: each at most once and in its window,
and no more than `capacity` in a round. -/
structure Allowed (rounds capacity : Int) (triples : List Triple) (a : Assignment) : Prop where
  distinct : a.Distinct
  window : ∀ p ∈ a, 0 ≤ p.1 ∧ ∃ t, triples[p.1.toNat]? = some t ∧
    (t.arrival ≤ p.2 ∧ p.2 ≤ t.deadline) ∧ 0 ≤ p.2 ∧ p.2 < rounds
  load : ∀ r, (a.rounds.count r : Int) ≤ capacity

def weightAt (triples : List Triple) (packet : Int) : Int :=
  ((triples[packet.toNat]?).map Triple.weight).getD 0

def weightOfAll (triples : List Triple) (a : Assignment) : Int :=
  total (a.map fun p => weightAt triples p.1)

theorem weightOf_eq_weightAt (rounds : Int) (triples : List Triple) (i : Nat) :
    weightOf (jobs rounds triples) i = weightAt triples i := by
  rw [weightOf, weightAt, jobs, List.getElem?_map, Int.toNat_natCast]
  cases triples[i]? <;> rfl

theorem weightOfAll_assigned (rounds : Int) (triples : List Triple) (b : Placement) :
    weightOfAll triples (Plan.assigned b) = weight (jobs rounds triples) b := by
  rw [weightOfAll, weight, served, Plan.assigned, List.map_map, List.map_map]
  congr 1
  apply List.map_congr_left
  intro p _
  exact (weightOf_eq_weightAt rounds triples p.1).symm

theorem mem_window {i : Nat} {r : Int} : r ∈ roundsOf (jobs rounds triples).toArray i ↔
    ∃ t, triples[i]? = some t ∧ (t.arrival ≤ r ∧ r ≤ t.deadline) ∧ 0 ≤ r ∧ r < rounds := by
  rw [mem_roundsOf, jobs, List.getElem?_map]
  cases triples[i]? with
  | none => simp
  | some t =>
    simp only [Option.map_some, Option.some.injEq, exists_eq_left', Triple.job]
    omega

theorem allowed_assigned (hc : 0 ≤ capacity) (h : Fits (jobs rounds triples) capacity.toNat b) :
    Allowed rounds capacity triples (Plan.assigned b) := by
  refine ⟨Plan.assigned_distinct h.distinct, ?_, ?_⟩
  · intro p hp
    obtain ⟨q, hq, rfl⟩ := List.mem_map.mp hp
    exact ⟨Int.natCast_nonneg q.1, mem_window.mp (h.inWindow q hq)⟩
  · intro r
    have hload := h.load_le r
    rw [load] at hload
    rw [Plan.assigned_rounds, Plan.count_rounds]
    omega

theorem Allowed.assigned_placed (h : Allowed rounds capacity triples a) :
    Plan.assigned (Plan.placed a) = a := Plan.assigned_placed fun p hp => (h.window p hp).1

theorem Allowed.fits_placed (h : Allowed rounds capacity triples a) :
    Fits (jobs rounds triples) capacity.toNat (Plan.placed a) := by
  have hback := h.assigned_placed
  refine ⟨?_, ?_, ?_⟩
  · have hd := h.distinct
    rw [← hback, Assignment.Distinct, Plan.assigned, List.map_map] at hd
    apply List.Nodup.of_map Int.ofNat
    rw [served, List.map_map]
    exact hd
  · intro p hp
    obtain ⟨q, hq, rfl⟩ := List.mem_map.mp hp
    exact mem_window.mpr (h.window q hq).2
  · intro r
    have hload := h.load r
    rw [← hback, Plan.assigned_rounds, Plan.count_rounds] at hload
    rw [Placement.load]
    omega

theorem Allowed.weight_placed (h : Allowed rounds capacity triples a) :
    weight (jobs rounds triples) (Plan.placed a) = weightOfAll triples a := by
  rw [← weightOfAll_assigned, h.assigned_placed]

theorem Allowed.perm {a' : Assignment} (h : Allowed rounds capacity triples a) (hp : a'.Perm a) :
    Allowed rounds capacity triples a' := by
  refine ⟨?_, fun p hp' => h.window p (hp.mem_iff.mp hp'), fun r => ?_⟩
  · exact (hp.map Prod.fst).nodup_iff.mpr h.distinct
  · have hcount := (hp.map Prod.snd).count_eq r
    have hload := h.load r
    simp only [Assignment.rounds] at hload ⊢
    rwa [hcount]

def paid (jobs : List Job) (b : Placement) : Placement := b.filter fun p => 0 < weightOf jobs p.1

structure Decodes (rounds capacity : Int) (triples : List Triple) (f : FlowResult)
    (b : Placement) : Prop where
  fits : Fits (jobs rounds triples) capacity.toNat b
  length : (b.length : Int) = f.supply
  weight : weight (jobs rounds triples) b = f.totalWeight
  assignments : f.assignments.Perm (Plan.assigned (paid (jobs rounds triples) b))

structure Sweeps (rounds capacity : Int) (triples : List Triple)
    (answer : Int → Option FlowResult) : Prop where
  level : ∀ s : Int, 1 ≤ s → s ≤ triples.length → Level rounds capacity triples s (answer s)
  decodes : ∀ s : Int, 1 ≤ s → s ≤ triples.length → ∀ f, answer s = some f →
    f.supply = s ∧ ∃ b, Decodes rounds capacity triples f b

theorem filter_arcs_eq (hc : 1 ≤ capacity) (supply : Int) :
    ((build rounds capacity triples supply).arcs.filter fun a =>
      1 ≤ a.tail && a.tail ≤ Int.ofNat triples.length && 0 < f' a.tail a.head && a.cost < 0) =
      (used f' (serving rounds capacity triples)).filter fun a => a.cost < 0 := by
  have hnone : ∀ {L : List Arc}, (∀ a ∈ L, ¬(1 ≤ a.tail ∧ a.tail ≤ triples.length)) →
      (L.filter fun a => 1 ≤ a.tail && a.tail ≤ Int.ofNat triples.length &&
        0 < f' a.tail a.head && a.cost < 0) = [] := by
    intro L hL
    apply List.filter_eq_nil_iff.mpr
    intro a ha
    have := hL a ha
    simp only [Bool.and_eq_true, decide_eq_true_eq, Int.ofNat_eq_natCast]
    omega
  have hsource := hnone (L := fromSource triples) fun a ha => by
    have := fromSource_bounds ha
    omega
  have hsink := hnone (L := toSink rounds capacity triples) fun a ha => by
    have := toSink_bounds ha
    omega
  rw [build_arcs hc, List.filter_append, List.filter_append, hsource, hsink, List.append_nil,
    List.append_nil, used, List.filter_filter]
  apply List.filter_congr
  intro a ha
  have := (serving_bounds hc ha).1
  simp only [Int.ofNat_eq_natCast, this.1, this.2, decide_true, Bool.true_and, Bool.and_comm]

theorem paid_placement (hc : 1 ≤ capacity) {L : List Arc}
    (hL : ∀ a ∈ L, a ∈ serving rounds capacity triples) :
    paid (jobs rounds triples) (placement capacity triples.length L) =
      placement capacity triples.length (L.filter fun a => a.cost < 0) := by
  rw [paid, placement, List.filter_map, placement]
  congr 1
  apply List.filter_congr
  intro a ha
  obtain ⟨i, htail, -, hcost, -⟩ := (mem_serving hc).mp (hL a ha)
  have hi : (a.tail - 1).toNat = i := by omega
  simp only [Function.comp_apply, hi, hcost, decide_eq_decide]
  omega

theorem assigned_placement (hc : 1 ≤ capacity) {L : List Arc}
    (hL : ∀ a ∈ L, a ∈ serving rounds capacity triples) :
    Plan.assigned (placement capacity triples.length L) =
      L.map fun a => (a.tail - 1, roundAt capacity triples.length a.head) := by
  rw [Plan.assigned, placement, List.map_map]
  apply List.map_congr_left
  intro a ha
  have := (serving_bounds hc (hL a ha)).1
  simp only [Function.comp_apply, Int.ofNat_eq_natCast, Prod.mk.injEq, and_true]
  omega

theorem assignments_perm (hc : 1 ≤ capacity) (supply : Int) :
    (assignments capacity triples.length (build rounds capacity triples supply) f').Perm
      (Plan.assigned (paid (jobs rounds triples)
        (placement capacity triples.length (used f' (serving rounds capacity triples))))) := by
  have hused : ∀ a ∈ used f' (serving rounds capacity triples),
      a ∈ serving rounds capacity triples := fun a ha => mem_used ha
  rw [assignments, filter_arcs_eq hc, paid_placement hc hused,
    assigned_placement hc fun a ha => hused a (List.mem_of_mem_filter ha)]
  exact List.mergeSort_perm _ _

theorem solveBy_decodes (hr : 0 ≤ rounds) (hc : 1 ≤ capacity)
    (h : (FlowNetwork.build rounds capacity triples supply).Answers
      (simplex (FlowNetwork.build rounds capacity triples supply)))
    (hf : solveBy simplex rounds capacity triples supply = some f) :
    f.supply = supply ∧ ∃ b, Decodes rounds capacity triples f b := by
  unfold solveBy at hf
  obtain ⟨route, hroute, rfl⟩ := Option.map_eq_some_iff.mp hf
  rw [hroute] at h
  have hserves := h.routes.serves hr hc
  refine ⟨rfl, placement capacity triples.length (used route (serving rounds capacity triples)),
    hserves.fits hc, ?_, ?_, assignments_perm hc supply⟩
  · rw [FlowNetwork.placement, List.length_map]
    exact h.routes.length_served hr hc
  · rw [Serves.weight_eq hc hserves.arc, ← h.routes.cost_eq hc]
    rfl

theorem solve_decodes (hr : 0 ≤ rounds) (hc : 1 ≤ capacity)
    (hf : solve rounds capacity triples supply = some f) :
    f.supply = supply ∧ ∃ b, Decodes rounds capacity triples f b := by
  unfold solve at hf
  split_ifs at hf with hslots hneg hsupply
  · dsimp only at hf
    split_ifs at hf with hlen
    cases hf
    have hfits := best_fits (jobs rounds triples) capacity.toNat supply.toNat fun _ => true
    refine ⟨rfl, _, hfits, ?_, ?_, .refl _⟩
    · simp only [ofPlacement, jobs]
      omega
    · simp only [FlowResult.totalWeight, ofPlacement, Int.neg_neg, jobs]
  · cases hf
    -- there are rounds only if the supply was served above
    obtain rfl : rounds = 0 := by
      simp only [Bool.and_eq_true, decide_eq_true_eq] at hslots
      omega
    have hsink : ¬sink 0 capacity triples ≤ triples.length := by
      simp only [sink]
      omega
    have hzero : supply = 0 := by simpa [withoutSlots, hsink] using hsupply
    exact ⟨rfl, [], fits_nil _ _, hzero.symm, rfl, .nil⟩

theorem solveBy_sweeps (hr : 0 ≤ rounds) (hc : 1 ≤ capacity)
    (h : ∀ supply : Int, 1 ≤ supply → supply ≤ triples.length →
      (FlowNetwork.build rounds capacity triples supply).Answers
        (simplex (FlowNetwork.build rounds capacity triples supply))) :
    Sweeps rounds capacity triples (solveBy simplex rounds capacity triples) :=
  ⟨fun s h₁ hn => solveBy_level hr hc (h s h₁ hn),
    fun s h₁ hn _ hf => solveBy_decodes hr hc (h s h₁ hn) hf⟩

theorem solve_sweeps (hr : 0 ≤ rounds) (hc : 1 ≤ capacity) (triples : List Triple) :
    Sweeps rounds capacity triples (solve rounds capacity triples) :=
  ⟨fun s _ _ => solve_level hr hc s, fun _ _ _ _ hf => solve_decodes hr hc hf⟩

theorem better_cases (f : FlowResult) (next : Option FlowResult) :
    (better f next = f ∨ next = some (better f next) ∧ (better f next).cost < f.cost) ∧
      ∀ g, next = some g → (better f next).cost ≤ g.cost := by
  cases next with
  | none => exact ⟨Or.inl rfl, by simp⟩
  | some g =>
    simp only [better]
    split_ifs with hlt
    · exact ⟨Or.inr ⟨rfl, hlt⟩, fun g' he => (Option.some.inj he) ▸ le_rfl⟩
    · exact ⟨Or.inl rfl, fun g' he => (Option.some.inj he) ▸ not_lt.mp hlt⟩

theorem foldl_better_first (answer : Int → Option FlowResult) (supplies : List Int)
    (f : FlowResult) :
    let last := supplies.foldl (fun best s => better best (answer s)) f
    last = f ∨ ∃ before s after, supplies = before ++ s :: after ∧ answer s = some last ∧
      last.cost < f.cost ∧ ∀ u ∈ before, ∀ g, answer u = some g → last.cost < g.cost := by
  induction supplies generalizing f with
  | nil => exact Or.inl rfl
  | cons u supplies ih =>
    obtain ⟨hcase, hle⟩ := better_cases f (answer u)
    rw [List.foldl_cons]
    rcases ih (better f (answer u)) with hlast | ⟨before, s, after, hs, hanswer, hlt, hall⟩
    · simp only [hlast]
      rcases hcase with hsame | ⟨hnew, hlt⟩
      · exact Or.inl hsame
      · exact Or.inr ⟨[], u, supplies, rfl, hnew, hlt, by simp⟩
    · right
      refine ⟨u :: before, s, after, by rw [hs]; rfl, hanswer, ?_, ?_⟩
      · rcases hcase with hsame | ⟨-, hlt'⟩
        · exact hlt.trans_le (congrArg FlowResult.cost hsame).le
        · exact hlt.trans hlt'
      · intro v hv g hg
        rcases List.mem_cons.mp hv with rfl | hv
        · exact hlt.trans_le (hle g hg)
        · exact hall v hv g hg

theorem mem_before_of_lt {low high s x : Int} {before after : List Int}
    (hs : span low high = before ++ s :: after) (hx : x ∈ span low high) (hlt : x < s) :
    x ∈ before := by
  have hsorted := span_increasing low high
  rw [hs] at hx hsorted
  refine (List.mem_append.mp hx).resolve_right fun hlater => ?_
  rcases List.mem_cons.mp hlater with rfl | hlater
  · exact lt_irrefl x hlt
  · have := List.rel_of_pairwise_cons (List.pairwise_append.mp hsorted).2.1 hlater
    exact lt_asymm hlt this

theorem sweepOf_first (h : Sweeps rounds capacity triples answer) :
    sweepOf answer rounds capacity triples = FlowResult.zero rounds capacity triples ∨
      ∃ b, Decodes rounds capacity triples (sweepOf answer rounds capacity triples) b ∧
        ∀ b', Fits (jobs rounds triples) capacity.toNat b' → b'.length < b.length →
          weight (jobs rounds triples) b' < weight (jobs rounds triples) b := by
  rcases foldl_better_first answer (span 1 triples.length)
    (FlowResult.zero rounds capacity triples) with
      hzero | ⟨before, s, after, hs, hanswer, hlt, hall⟩
  · exact Or.inl hzero
  right
  have hmem : s ∈ span 1 triples.length := hs ▸ List.mem_append_right before List.mem_cons_self
  have hbounds := mem_span.mp hmem
  obtain ⟨hsupply, b, hb⟩ := h.decodes s (by omega) (by omega) _ hanswer
  refine ⟨b, hb, fun b' hb' hlen => ?_⟩
  have hweight := hb.weight
  have hsize := hb.length
  rw [hsupply] at hsize
  rw [FlowResult.totalWeight] at hweight
  have hstart : (FlowResult.zero rounds capacity triples).cost = 0 := rfl
  by_cases hnil : b' = []
  · subst hnil
    have : weight (jobs rounds triples) [] = 0 := rfl
    omega
  · have hpos := List.length_pos_iff.mpr hnil
    obtain ⟨g, hg, hle⟩ := (h.level b'.length (by omega) (by omega)).weight_le b' hb' rfl
    have hearlier : (b'.length : Int) ∈ before :=
      mem_before_of_lt hs (mem_span.mpr (by omega)) (by omega)
    have := hall _ hearlier g hg
    simp only [FlowResult.totalWeight] at hle
    omega

theorem paid_of_fewest (hb : Fits (jobs rounds triples) capacity.toNat b)
    (h : ∀ b', Fits (jobs rounds triples) capacity.toNat b' → b'.length < b.length →
      weight (jobs rounds triples) b' < weight (jobs rounds triples) b) :
    ∀ p ∈ b, 0 < weightOf (jobs rounds triples) p.1 := by
  rintro ⟨i, r⟩ hp
  have hless := h (b.remove i) (hb.sublist (remove_sublist b i)) (length_remove_lt hp)
  rw [weight_perm (perm_remove hb.distinct hp)] at hless
  simp only [weight, served, List.map_cons, total] at hless ⊢
  omega

/-- A result whose assignments are allowed, all with a gain, as many as it supplies, of the largest
weight of all, and the fewest of this weight. -/
structure Consistent (rounds capacity : Int) (triples : List Triple) (f : FlowResult) : Prop where
  allowed : Allowed rounds capacity triples f.assignments
  supplied : (f.assignments.length : Int) = f.supply
  gains : ∀ p ∈ f.assignments, 0 < weightAt triples p.1
  weight : weightOfAll triples f.assignments = f.totalWeight
  largest : ∀ a, Allowed rounds capacity triples a → weightOfAll triples a ≤ f.totalWeight
  fewest : ∀ a, Allowed rounds capacity triples a → weightOfAll triples a = f.totalWeight →
    f.supply ≤ a.length

theorem Sweeps.largest (h : Sweeps rounds capacity triples answer)
    (ha : Allowed rounds capacity triples a) :
    weightOfAll triples a ≤ (sweepOf answer rounds capacity triples).totalWeight := by
  have hbest := heaviest_best (jobs rounds triples) capacity.toNat
  rw [sweepOf_weight h.level hbest, ← ha.weight_placed]
  exact hbest.weight_le _ ha.fits_placed

theorem Sweeps.consistent (hc : 1 ≤ capacity) (h : Sweeps rounds capacity triples answer) :
    Consistent rounds capacity triples (sweepOf answer rounds capacity triples) := by
  have hlargest := fun a ha => h.largest (a := a) ha
  rcases sweepOf_first h with hzero | ⟨b, hb, hfewest⟩
  · rw [hzero] at hlargest ⊢
    exact ⟨allowed_assigned (by omega) (fits_nil _ _), rfl, by simp [FlowResult.zero], rfl,
      hlargest, fun a _ _ => Int.natCast_nonneg a.length⟩
  · have hpaid := paid_of_fewest hb.fits hfewest
    have hall : paid (jobs rounds triples) b = b :=
      List.filter_eq_self.mpr fun p hp => decide_eq_true (hpaid p hp)
    have hperm := hb.assignments
    rw [hall] at hperm
    refine ⟨(allowed_assigned (by omega) hb.fits).perm hperm, ?_, ?_, ?_, hlargest, ?_⟩
    · rw [hperm.length_eq, Plan.assigned, List.length_map]
      exact hb.length
    · intro p hp
      obtain ⟨q, hq, rfl⟩ := List.mem_map.mp (hperm.mem_iff.mp hp)
      rw [Int.ofNat_eq_natCast, ← weightOf_eq_weightAt rounds]
      exact hpaid q hq
    · rw [weightOfAll, total_perm (hperm.map _), ← hb.weight]
      exact weightOfAll_assigned rounds triples b
    · intro a ha hw
      have hlen := hb.length
      by_contra hless
      have hplaced : (Plan.placed a).length < b.length := by
        rw [Plan.placed, List.length_map]
        omega
      have := hfewest _ ha.fits_placed hplaced
      rw [ha.weight_placed, hw, hb.weight] at this
      exact lt_irrefl _ this

/-- The sweep over all supplies finds the largest weight with the fewest packets and lists them,
whether an exact solver answers for the supplies or the library does. -/
theorem sweep_consistent (hr : 0 ≤ rounds) (hc : 1 ≤ capacity) (triples : List Triple)
    {simplex : FlowNetwork → Option Route}
    (hsimplex : ∀ supply : Int, 1 ≤ supply → supply ≤ triples.length →
      (FlowNetwork.build rounds capacity triples supply).Answers
        (simplex (FlowNetwork.build rounds capacity triples supply))) :
    Consistent rounds capacity triples (sweepBy simplex rounds capacity triples) ∧
      Consistent rounds capacity triples (sweepAll rounds capacity triples) := by
  constructor
  · exact (solveBy_sweeps hr hc hsimplex).consistent hc
  · rw [sweepAll_eq]
    exact (solve_sweeps hr hc triples).consistent hc

theorem sweep_consistent_four_packets :
    let triples : List Triple := [⟨0, 0, 5⟩, ⟨0, 1, 10⟩, ⟨1, 1, 0⟩, ⟨0, 1, -3⟩]
    let simplex : FlowNetwork → Option Route := fun g =>
      FlowNetwork.heaviestRoute 2 2 triples
        (-((g.nodes.find? fun n => n.1 = 0).bind Prod.snd).getD 0)
    (∀ supply : Int, 1 ≤ supply → supply ≤ triples.length →
      (FlowNetwork.build 2 2 triples supply).Answers
        (simplex (FlowNetwork.build 2 2 triples supply))) ∧
      Consistent 2 2 triples (sweepBy simplex 2 2 triples) ∧
        Consistent 2 2 triples (sweepAll 2 2 triples) := by
  intro triples simplex
  have hsimplex : ∀ supply : Int, 1 ≤ supply → supply ≤ triples.length →
      (FlowNetwork.build 2 2 triples supply).Answers
        (simplex (FlowNetwork.build 2 2 triples supply)) := by
    intro supply _ _
    have hsource := FlowNetwork.find?_source (by decide : (0 : Int) ≤ 2) (by decide : (1 : Int) ≤ 2)
      triples supply
    simp only [simplex, hsource, Option.bind_some, Option.getD_some, Int.neg_neg]
    exact FlowNetwork.heaviestRoute_answers (by decide) (by decide) triples supply
  clear_value simplex triples
  exact ⟨hsimplex, sweep_consistent (by decide) (by decide) triples hsimplex⟩

end Downlink.Flow
