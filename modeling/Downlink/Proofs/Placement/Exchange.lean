import Mathlib.Algebra.BigOperators.Group.Finset.Piecewise
import Mathlib.Algebra.Order.BigOperators.Group.Finset
import Downlink.Proofs.Placement.Augment

/-!
# The exchange property

The sets of jobs that can be served together behave like the independent sets of a matroid: a
smaller one can be enlarged by a job of a larger one. The reason is counted in the rounds that
failed searches return: they are full, so no placement can serve more jobs inside them.
-/

open scoped BigOperators

namespace Downlink.Placement

variable {window : Nat → List Int} {capacity : Nat} {m b : Placement} {j : Nat}

def Servable (window : Nat → List Int) (capacity : Nat) (S : Finset Nat) : Prop :=
  ∃ m, Admissible window capacity m ∧ m.served.toFinset = S

theorem Admissible.servable (hm : Admissible window capacity m) :
    Servable window capacity m.served.toFinset :=
  ⟨m, hm, rfl⟩

theorem length_eq_card (hm : Admissible window capacity m) :
    m.length = m.served.toFinset.card := by
  rw [List.toFinset_card_of_nodup hm.distinct, served, List.length_map]

theorem countP_mem_eq_sum_load (m : Placement) (R : Finset Int) :
    m.countP (fun p => p.2 ∈ R) = ∑ r ∈ R, m.load r := by
  induction m with
  | nil => simp [load]
  | cons p m ih =>
    have hl : ∀ r, load (p :: m) r = load m r + if p.2 = r then 1 else 0 := by
      intro r
      simp [load, List.countP_cons]
    simp only [List.countP_cons, ih, hl, Finset.sum_add_distrib, Finset.sum_ite_eq,
      decide_eq_true_eq]

theorem length_le_of_saturated (hb : Admissible window capacity b)
    (h : ∀ j ∈ b.served, j ∉ m.served → ∃ R, Saturated window capacity m [] R ∧ window j ⊆ R) :
    b.length ≤ m.length := by
  choose! R hsat hsub using h
  let U : Finset Int :=
    (b.served.toFinset.filter fun j => j ∉ m.served).biUnion fun j => (R j).toFinset
  have hmemU : ∀ r, r ∈ U ↔ ∃ j ∈ b.served, j ∉ m.served ∧ r ∈ R j := by
    intro r
    simp [U, and_assoc]
  have hfull : ∀ r ∈ U, capacity ≤ m.load r := by
    intro r hr
    obtain ⟨j, hj, hn, hrj⟩ := (hmemU r).mp hr
    exact (hsat j hj hn).full r hrj (by simp)
  have hinside : b.countP (fun p => p.2 ∈ U) ≤ m.countP (fun p => p.2 ∈ U) := by
    rw [countP_mem_eq_sum_load, countP_mem_eq_sum_load]
    exact Finset.sum_le_sum fun r hr => (hb.load_le r).trans (hfull r hr)
  -- a job that `b` serves outside `U` is served by `m`, and outside `U` as well
  have houtside : ((b.filter fun p => p.2 ∉ U).map Prod.fst).length ≤
      ((m.filter fun p => p.2 ∉ U).map Prod.fst).length := by
    refine (List.subperm_of_subset (hb.distinct.sublist (List.filter_sublist.map _)) ?_).length_le
    intro j hj
    obtain ⟨⟨i, r⟩, hp, rfl⟩ := List.mem_map.mp hj
    obtain ⟨hp, hr⟩ := List.mem_filter.mp hp
    simp only [decide_eq_true_eq] at hr
    have hi : i ∈ b.served := mem_served.mpr ⟨r, hp⟩
    have hwin := hb.inWindow _ hp
    have him : i ∈ m.served := by
      by_contra hn
      exact hr ((hmemU r).mpr ⟨i, hi, hn, hsub i hi hn hwin⟩)
    obtain ⟨q, hq⟩ := mem_served.mp him
    have hqU : q ∉ U := by
      intro hqU
      obtain ⟨k, hk, hn, hqk⟩ := (hmemU q).mp hqU
      have hclosed := (hsat k hk hn).closed q hqk (by simp) i (mem_jobsIn.mpr hq)
      exact hr ((hmemU r).mpr ⟨k, hk, hn, hclosed hwin⟩)
    exact List.mem_map.mpr ⟨(i, q), List.mem_filter.mpr ⟨hq, by simpa using hqU⟩, rfl⟩
  simp only [List.length_map, ← List.countP_eq_length_filter] at houtside
  have hb' := List.length_eq_countP_add_countP (fun p : Nat × Int => p.2 ∈ U) (l := b)
  have hm' := List.length_eq_countP_add_countP (fun p : Nat × Int => p.2 ∈ U) (l := m)
  simp only [decide_not, decide_eq_true_eq] at hb' hm' houtside
  omega

theorem extend_cases (hm : Admissible window capacity m) (hj : j ∉ m.served) :
    (Admissible window capacity (extend window capacity m j) ∧
        (extend window capacity m j).served.Perm (j :: m.served)) ∨
      (extend window capacity m j = m ∧
        ∃ R, Saturated window capacity m [] R ∧ window j ⊆ R) := by
  unfold extend
  cases h : augment window capacity (m.length + 1) m j [] with
  | ok m' =>
    have hx := augment_extended hm hj h
    exact Or.inl ⟨hx.admissible, hx.served⟩
  | error R => exact Or.inr ⟨rfl, R, augment_saturated hm.distinct (Nat.lt_succ_self _) h⟩

theorem toFinset_of_perm {m' : Placement} (h : m'.served.Perm (j :: m.served)) :
    m'.served.toFinset = insert j m.served.toFinset := by
  rw [List.toFinset_eq_of_perm _ _ h, List.toFinset_cons]

theorem not_servable_of_saturated (hm : Admissible window capacity m) (hj : j ∉ m.served)
    {R : List Int} (hR : Saturated window capacity m [] R) (hsub : window j ⊆ R) :
    ¬ Servable window capacity (insert j m.served.toFinset) := by
  rintro ⟨b, hb, hS⟩
  have hle : b.length ≤ m.length := by
    refine length_le_of_saturated hb ?_
    intro i hi hn
    have hij : i = j := by
      have hi' : i ∈ insert j m.served.toFinset := hS ▸ List.mem_toFinset.mpr hi
      simpa [hn] using hi'
    exact ⟨R, hR, hij ▸ hsub⟩
  rw [length_eq_card hb, hS, Finset.card_insert_of_notMem (by simpa using hj),
    ← length_eq_card hm] at hle
  omega

namespace Servable

variable {S T : Finset Nat}

theorem subset (hT : Servable window capacity T) (hST : S ⊆ T) : Servable window capacity S := by
  obtain ⟨m, hm, rfl⟩ := hT
  refine ⟨m.filter fun p => p.1 ∈ S, hm.sublist List.filter_sublist, ?_⟩
  ext j
  simp only [List.mem_toFinset, mem_served, List.mem_filter, decide_eq_true_eq]
  constructor
  · rintro ⟨r, -, hj⟩
    exact hj
  · intro hj
    obtain ⟨r, hr⟩ := mem_served.mp (List.mem_toFinset.mp (hST hj))
    exact ⟨r, hr, hj⟩

theorem exchange (hS : Servable window capacity S) (hT : Servable window capacity T)
    (hlt : S.card < T.card) : ∃ j ∈ T, j ∉ S ∧ Servable window capacity (insert j S) := by
  obtain ⟨m, hm, rfl⟩ := hS
  obtain ⟨b, hb, rfl⟩ := hT
  by_contra hno
  refine absurd (length_le_of_saturated (m := m) hb ?_) ?_
  · intro j hjb hjm
    rcases extend_cases hm hjm with ⟨ha, hp⟩ | ⟨-, R⟩
    · refine absurd ⟨j, by simpa using hjb, by simpa using hjm, ?_⟩ hno
      exact ⟨_, ha, toFinset_of_perm hp⟩
    · exact R
  · rw [length_eq_card hm, length_eq_card hb]
    omega

theorem enlarge (hS : Servable window capacity S) (hT : Servable window capacity T)
    (hle : S.card ≤ T.card) :
    ∃ V, Servable window capacity V ∧ S ⊆ V ∧ V ⊆ S ∪ T ∧ V.card = T.card := by
  induction hn : T.card - S.card generalizing S with
  | zero => exact ⟨S, hS, Finset.Subset.refl S, Finset.subset_union_left, by omega⟩
  | succ n ih =>
    obtain ⟨j, hjT, hjS, hj⟩ := hS.exchange hT (by omega)
    have hcard := Finset.card_insert_of_notMem hjS
    obtain ⟨V, hV, hSV, hVT, hc⟩ := ih hj (by omega) (by omega)
    refine ⟨V, hV, (Finset.subset_insert j S).trans hSV, hVT.trans ?_, hc⟩
    rw [Finset.insert_union]
    exact Finset.insert_subset (Finset.mem_union_right S hjT) (Finset.Subset.refl _)

theorem swap (hT : Servable window capacity T) (hST : S ⊆ T) (hlt : S.card < T.card) (hj : j ∉ T)
    (hjS : Servable window capacity (insert j S)) :
    ∃ k ∈ T, k ∉ S ∧ insert j S ⊆ insert j (T.erase k) ∧
      Servable window capacity (insert j (T.erase k)) := by
  have hjS' : j ∉ S := fun h => hj (hST h)
  have hcard := Finset.card_insert_of_notMem hjS'
  obtain ⟨V, hV, hSV, hVT, hc⟩ := hjS.enlarge hT (by omega)
  have hjV : j ∈ V := hSV (Finset.mem_insert_self j S)
  have hsub : V.erase j ⊆ T := by
    intro i hi
    obtain ⟨hij, hiV⟩ := Finset.mem_erase.mp hi
    have := hVT hiV
    simp only [Finset.mem_union, Finset.mem_insert, hij, false_or] at this
    exact this.elim (fun h => hST h) id
  have hcV := Finset.card_erase_add_one hjV
  obtain ⟨k, hk, hT'⟩ := Finset.exists_eq_insert_iff.mpr ⟨hsub, by omega⟩
  have hTk : T.erase k = V.erase j := by rw [← hT', Finset.erase_insert hk]
  have hVj : insert j (T.erase k) = V := by rw [hTk, Finset.insert_erase hjV]
  refine ⟨k, hT' ▸ Finset.mem_insert_self k _, ?_, hVj ▸ hSV, hVj ▸ hV⟩
  intro hkS
  have hkj : k ≠ j := ne_of_mem_of_not_mem hkS hjS'
  exact hk (Finset.mem_erase.mpr ⟨hkj, hSV (Finset.mem_insert_of_mem hkS)⟩)

end Servable

end Downlink.Placement
