import Downlink.Proofs.Placement.Greedy

/-!
# The best placement

`best` is exact for each of its uses: without a limit it is heaviest and fullest at once, with only
the jobs of positive weight it is heaviest among all placements, and with a limit it is heaviest
among the placements of exactly that size, or falls short of the limit when there are none.
-/

open scoped BigOperators

namespace Downlink.Placement

variable {jobs : List Job} {capacity limit : Nat} {admits : Job → Bool} {m b : Placement}

abbrev Fits (jobs : List Job) (capacity : Nat) (m : Placement) : Prop :=
  Admissible (roundsOf jobs.toArray) capacity m

theorem mem_roundsOf {i : Nat} {r : Int} :
    r ∈ roundsOf jobs.toArray i ↔ ∃ j, jobs[i]? = some j ∧ j.low ≤ r ∧ r ≤ j.high := by
  unfold roundsOf
  rw [List.getElem?_toArray]
  cases jobs[i]? with
  | none => simp
  | some j => simp [Job.mem_rounds]

theorem Fits.job (h : Fits jobs capacity m) {i : Nat} {r : Int} (hm : (i, r) ∈ m) :
    ∃ j, jobs[i]? = some j ∧ j.low ≤ r ∧ r ≤ j.high :=
  mem_roundsOf.mp (h.inWindow _ hm)

def order (jobs : List Job) (admits : Job → Bool) : List Nat :=
  ((byWeight jobs).filter fun p => admits p.2).map Prod.fst

theorem byWeight_perm (jobs : List Job) :
    (byWeight jobs).Perm (jobs.zipIdx.map fun p => (p.2, p.1)) :=
  List.mergeSort_perm _ _

theorem byWeight_nodup (jobs : List Job) : ((byWeight jobs).map Prod.fst).Nodup := by
  rw [((byWeight_perm jobs).map Prod.fst).nodup_iff, List.map_map]
  have h : (Prod.fst ∘ fun p : Job × Nat => (p.2, p.1)) = Prod.snd := rfl
  rw [h, List.zipIdx_map_snd]
  exact List.nodup_range'

theorem mem_byWeight {i : Nat} {j : Job} : (i, j) ∈ byWeight jobs ↔ jobs[i]? = some j := by
  rw [(byWeight_perm jobs).mem_iff, List.mem_map]
  constructor
  · rintro ⟨⟨j', i'⟩, h, he⟩
    cases he
    simpa using List.mem_zipIdx_iff_getElem?.mp h
  · intro h
    exact ⟨(j, i), List.mem_zipIdx_iff_getElem?.mpr (by simpa using h), rfl⟩

theorem byWeight_sorted (jobs : List Job) :
    (byWeight jobs).Pairwise fun a b => b.2.weight ≤ a.2.weight := by
  have h := @List.pairwise_mergeSort _ (fun a b : Nat × Job => decide (b.2.weight ≤ a.2.weight))
    (fun a b c hab hbc => by simp only [decide_eq_true_eq] at *; omega)
    (fun a b => by simp only [Bool.or_eq_true, decide_eq_true_eq]; omega)
    (jobs.zipIdx.map fun p => (p.2, p.1))
  exact h.imp fun h => by simpa using h

theorem order_nodup (jobs : List Job) (admits : Job → Bool) : (order jobs admits).Nodup :=
  (byWeight_nodup jobs).sublist (List.filter_sublist.map _)

theorem mem_order {i : Nat} : i ∈ order jobs admits ↔ ∃ j, jobs[i]? = some j ∧ admits j = true := by
  simp [order, mem_byWeight]

theorem weightOf_eq {i : Nat} {j : Job} (h : jobs[i]? = some j) : weightOf jobs i = j.weight := by
  simp [weightOf, h]

theorem order_sorted (jobs : List Job) (admits : Job → Bool) :
    (order jobs admits).Pairwise fun i k => weightOf jobs k ≤ weightOf jobs i := by
  refine List.pairwise_map.mpr (((byWeight_sorted jobs).filter _).imp_of_mem ?_)
  rintro ⟨i, j⟩ ⟨k, j'⟩ hi hk h
  rw [weightOf_eq (mem_byWeight.mp (List.mem_filter.mp hi).1),
    weightOf_eq (mem_byWeight.mp (List.mem_filter.mp hk).1)]
  exact h

theorem order_weight_nonneg (hw : ∀ j ∈ jobs, admits j = true → 0 ≤ j.weight) :
    ∀ i ∈ order jobs admits, 0 ≤ weightOf jobs i := by
  intro i hi
  obtain ⟨j, hj, ha⟩ := mem_order.mp hi
  rw [weightOf_eq hj]
  exact hw j (List.mem_of_getElem? hj) ha

def chosen (jobs : List Job) (capacity limit : Nat) (admits : Job → Bool) : Placement :=
  choose (roundsOf jobs.toArray) capacity limit (order jobs admits) []

theorem best_perm (jobs : List Job) (capacity limit : Nat) (admits : Job → Bool) :
    (best jobs capacity limit admits).Perm (chosen jobs capacity limit admits) :=
  List.mergeSort_perm _ _

theorem fits_nil (jobs : List Job) (capacity : Nat) : Fits jobs capacity [] := admissible_nil

theorem chosen_admissible (jobs : List Job) (capacity limit : Nat) (admits : Job → Bool) :
    Fits jobs capacity (chosen jobs capacity limit admits) ∧
      ∀ i ∈ (chosen jobs capacity limit admits).served, i ∈ order jobs admits := by
  obtain ⟨h, hs⟩ : Fits jobs capacity (chosen jobs capacity limit admits) ∧ _ :=
    choose_admissible (fits_nil jobs capacity) (order_nodup jobs admits) (by simp [served])
  exact ⟨h, fun i hi => (hs i hi).resolve_left (by simp [served])⟩

theorem best_fits (jobs : List Job) (capacity limit : Nat) (admits : Job → Bool) :
    Fits jobs capacity (best jobs capacity limit admits) :=
  (chosen_admissible jobs capacity limit admits).1.perm (best_perm jobs capacity limit admits).symm

theorem length_best_le (jobs : List Job) (capacity limit : Nat) (admits : Job → Bool) :
    (best jobs capacity limit admits).length ≤ limit := by
  rw [(best_perm jobs capacity limit admits).length_eq]
  exact length_choose_le admissible_nil (order_nodup jobs admits) (by simp [served]) (by simp)

theorem weight_perm (h : m.Perm b) : weight jobs m = weight jobs b :=
  total_perm ((h.map Prod.fst).map _)

theorem weight_eq_sum (h : m.served.Nodup) :
    weight jobs m = ∑ i ∈ m.served.toFinset, weightOf jobs i :=
  total_map_eq_sum_toFinset h _

theorem best_dominates (hb : Fits jobs capacity b) (ha : ∀ i ∈ b.served, i ∈ order jobs admits)
    (hlim : b.length ≤ limit) :
    b.length ≤ (best jobs capacity limit admits).length ∧
      ((b.length = limit ∨ ∀ i ∈ order jobs admits, 0 ≤ weightOf jobs i) →
        weight jobs b ≤ weight jobs (best jobs capacity limit admits)) := by
  have hd : Dominates (weightOf jobs) limit (order jobs admits) (chosen jobs capacity limit admits)
      b.served.toFinset :=
    choose_dominates (fits_nil jobs capacity) (order_nodup jobs admits) (by simp [served])
      (order_sorted jobs admits) ⟨hb.servable, by simp [served],
        fun i hi => Or.inr (ha i (List.mem_toFinset.mp hi)), by rwa [← length_eq_card hb]⟩
  have hperm := best_perm jobs capacity limit admits
  have hlen := length_eq_card hb
  refine ⟨?_, fun hc => ?_⟩
  · rw [hperm.length_eq, hlen]
    exact hd.card_le
  · rw [weight_perm hperm, weight_eq_sum hb.distinct,
      weight_eq_sum (chosen_admissible jobs capacity limit admits).1.distinct]
    exact hd.sum_le (hlen ▸ hc)

theorem mem_order_of_served (hb : Fits jobs capacity b) {i : Nat} (hi : i ∈ b.served)
    (ha : ∀ j, jobs[i]? = some j → admits j = true) : i ∈ order jobs admits := by
  obtain ⟨r, hr⟩ := mem_served.mp hi
  obtain ⟨j, hj, -⟩ := hb.job hr
  exact mem_order.mpr ⟨j, hj, ha j hj⟩

theorem mem_order_all (hb : Fits jobs capacity b) :
    ∀ i ∈ b.served, i ∈ order jobs fun _ => true :=
  fun _ hi => mem_order_of_served hb hi fun _ _ => rfl

theorem Fits.length_le (hb : Fits jobs capacity b) : b.length ≤ jobs.length := by
  have hsub : b.served ⊆ List.range jobs.length := by
    intro i hi
    obtain ⟨r, hr⟩ := mem_served.mp hi
    obtain ⟨j, hj, -⟩ := hb.job hr
    exact List.mem_range.mpr (List.getElem?_eq_some_iff.mp hj).1
  simpa [served] using (List.subperm_of_subset hb.distinct hsub).length_le

theorem best_all (hw : ∀ j ∈ jobs, 0 ≤ j.weight) (hb : Fits jobs capacity b) :
    weight jobs b ≤ weight jobs (best jobs capacity jobs.length fun _ => true) ∧
      b.length ≤ (best jobs capacity jobs.length fun _ => true).length := by
  have hd := best_dominates hb (mem_order_all hb) hb.length_le
  exact ⟨hd.2 (Or.inr (order_weight_nonneg fun j hj _ => hw j hj)), hd.1⟩

theorem weight_le_weight_filter (jobs : List Job) (b : Placement) :
    weight jobs b ≤ weight jobs (b.filter fun p => 0 < weightOf jobs p.1) := by
  induction b with
  | nil => exact le_rfl
  | cons p b ih =>
    simp only [List.filter_cons, decide_eq_true_eq]
    split_ifs with hp
    · simp only [weight, served, List.map_cons, total] at ih ⊢
      omega
    · simp only [weight, served, List.map_cons, total] at ih ⊢
      omega

theorem best_positive (hb : Fits jobs capacity b) :
    weight jobs b ≤ weight jobs (best jobs capacity jobs.length fun j => 0 < j.weight) := by
  have hb' := hb.sublist (List.filter_sublist (p := fun p => 0 < weightOf jobs p.1))
  refine (weight_le_weight_filter jobs b).trans ((best_dominates hb' ?_ (Fits.length_le hb')).2 ?_)
  · intro i hi
    refine mem_order_of_served hb' hi fun j hj => ?_
    obtain ⟨r, hr⟩ := mem_served.mp hi
    have hpos := (List.mem_filter.mp hr).2
    rwa [weightOf_eq hj] at hpos
  · refine Or.inr (order_weight_nonneg fun j _ hj => ?_)
    have := of_decide_eq_true hj
    omega

theorem best_exactly (hb : Fits jobs capacity b) (hlen : b.length = limit) :
    (best jobs capacity limit fun _ => true).length = limit ∧
      weight jobs b ≤ weight jobs (best jobs capacity limit fun _ => true) := by
  have hd := best_dominates hb (mem_order_all hb) hlen.le
  have hle := length_best_le jobs capacity limit fun _ => true
  exact ⟨by omega, hd.2 (Or.inl hlen)⟩

structure Heaviest (jobs : List Job) (capacity : Nat) (m : Placement) : Prop where
  fits : Fits jobs capacity m
  weight_le : ∀ b, Fits jobs capacity b → weight jobs b ≤ weight jobs m

theorem Heaviest.weight_eq (hm : Heaviest jobs capacity m) (hb : Heaviest jobs capacity b) :
    weight jobs m = weight jobs b := by
  apply le_antisymm
  · exact hb.weight_le m hm.fits
  · exact hm.weight_le b hb.fits

theorem heaviest_best (jobs : List Job) (capacity : Nat) :
    Heaviest jobs capacity (best jobs capacity jobs.length fun j => 0 < j.weight) :=
  ⟨best_fits jobs capacity jobs.length _, fun _ hb => best_positive hb⟩

theorem Fits.eq_nil (hb : Fits jobs capacity b) (h : ∀ j ∈ jobs, j.rounds = []) : b = [] := by
  apply List.eq_nil_iff_forall_not_mem.mpr
  intro p hp
  obtain ⟨j, hj, hlow, hhigh⟩ := hb.job (i := p.1) (r := p.2) hp
  have hr : p.2 ∈ j.rounds := Job.mem_rounds.mpr ⟨hlow, hhigh⟩
  rw [h j (List.mem_of_getElem? hj)] at hr
  cases hr

end Downlink.Placement
