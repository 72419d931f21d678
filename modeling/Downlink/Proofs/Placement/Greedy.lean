import Mathlib.Algebra.BigOperators.Group.Finset.Piecewise
import Downlink.Proofs.Placement.Exchange
import Downlink.Proofs.Total

/-!
# The greedy choice

Taking the jobs by decreasing weight, each when there is room, gives a heaviest placement: among all
placements of exactly so many jobs, and, where no weight is negative, among all placements of at
most so many. The induction carries a servable set around the jobs chosen so far and swaps a job of
it for the next one that is chosen.
-/

open scoped BigOperators

namespace Downlink.Placement

variable {window : Nat → List Int} {capacity limit : Nat} {m b : Placement} {i j : Nat}
variable {l : List Nat} {w : Nat → Int} {S : Finset Nat}

theorem fresh_of_perm {jobs : List Nat} (hp : jobs.Perm (i :: m.served)) (hi : i ∉ l)
    (hnew : ∀ j ∈ i :: l, j ∉ m.served) : ∀ j ∈ l, j ∉ jobs := by
  intro j hj hc
  rcases List.mem_cons.mp (hp.mem_iff.mp hc) with rfl | hc
  · exact hi hj
  · exact hnew j (List.mem_cons_of_mem i hj) hc

theorem choose_admissible (hm : Admissible window capacity m) (hl : l.Nodup)
    (hnew : ∀ j ∈ l, j ∉ m.served) :
    Admissible window capacity (choose window capacity limit l m) ∧
      ∀ j ∈ (choose window capacity limit l m).served, j ∈ m.served ∨ j ∈ l := by
  induction l generalizing m with
  | nil => exact ⟨hm, fun j hj => Or.inl hj⟩
  | cons i l ih =>
    obtain ⟨hi, hl⟩ := List.nodup_cons.mp hl
    rw [choose]
    split_ifs with hlim
    · exact ⟨hm, fun j hj => Or.inl hj⟩
    · rcases extend_cases hm (hnew i List.mem_cons_self) with ⟨ha, hp⟩ | ⟨he, -⟩
      · obtain ⟨hA, hs⟩ := ih ha hl (fresh_of_perm hp hi hnew)
        refine ⟨hA, fun j hj => ?_⟩
        rcases hs j hj with hj | hj
        · rcases List.mem_cons.mp (hp.mem_iff.mp hj) with rfl | hj
          · exact Or.inr List.mem_cons_self
          · exact Or.inl hj
        · exact Or.inr (List.mem_cons_of_mem i hj)
      · rw [he]
        obtain ⟨hA, hs⟩ := ih hm hl fun j hj => hnew j (List.mem_cons_of_mem i hj)
        exact ⟨hA, fun j hj => (hs j hj).imp_right (List.mem_cons_of_mem i)⟩

theorem length_choose_le (hm : Admissible window capacity m) (hl : l.Nodup)
    (hnew : ∀ j ∈ l, j ∉ m.served) (hlim : m.length ≤ limit) :
    (choose window capacity limit l m).length ≤ limit := by
  induction l generalizing m with
  | nil => exact hlim
  | cons i l ih =>
    obtain ⟨hi, hl⟩ := List.nodup_cons.mp hl
    rw [choose]
    split_ifs with h
    · exact hlim
    · rcases extend_cases hm (hnew i List.mem_cons_self) with ⟨ha, hp⟩ | ⟨he, -⟩
      · have hlen : (extend window capacity m i).length = m.length + 1 := by
          simpa [served] using hp.length_eq
        exact ih ha hl (fresh_of_perm hp hi hnew) (by omega)
      · rw [he]
        exact ih hm hl (fun j hj => hnew j (List.mem_cons_of_mem i hj)) hlim

structure Dominates (w : Nat → Int) (limit : Nat) (l : List Nat) (m : Placement)
    (S : Finset Nat) : Prop where
  card_le : S.card ≤ m.length
  sum_le : (S.card = limit ∨ ∀ j ∈ l, 0 ≤ w j) → ∑ i ∈ S, w i ≤ ∑ i ∈ m.served.toFinset, w i

theorem Dominates.of_le {T : Finset Nat} {l' : List Nat} (h : Dominates w limit l' m T)
    (hsub : l' ⊆ l) (hcard : S.card ≤ T.card)
    (hT : S.card = limit → T.card = limit)
    (hsum : (S.card = limit ∨ ∀ j ∈ l, 0 ≤ w j) → ∑ i ∈ S, w i ≤ ∑ i ∈ T, w i) :
    Dominates w limit l m S where
  card_le := hcard.trans h.card_le
  sum_le := fun hc => (hsum hc).trans (h.sum_le (hc.imp hT fun hw j hj => hw j (hsub hj)))

theorem Dominates.self (hm : Admissible window capacity m) :
    Dominates w limit l m m.served.toFinset :=
  ⟨(length_eq_card hm).ge, fun _ => le_rfl⟩

theorem Servable.swap_heavier {M : Finset Nat} (hS : Servable window capacity S) (hMS : M ⊆ S)
    (hlt : M.card < S.card) (hiS : i ∉ S) (hiM : Servable window capacity (insert i M))
    (hle : ∀ k ∈ S, k ∉ M → w k ≤ w i) :
    ∃ T, Servable window capacity T ∧ insert i M ⊆ T ∧ T ⊆ insert i S ∧ T.card = S.card ∧
      ∑ x ∈ S, w x ≤ ∑ x ∈ T, w x := by
  obtain ⟨k, hkS, hkM, hsub, hswap⟩ := hS.swap hMS hlt hiS hiM
  refine ⟨insert i (S.erase k), hswap, hsub, ?_, ?_, ?_⟩
  · exact Finset.insert_subset_insert i (Finset.erase_subset k S)
  · rw [Finset.card_insert_of_notMem (by simp [hiS])]
    exact Finset.card_erase_add_one hkS
  · rw [Finset.sum_insert (by simp [hiS]), ← Finset.add_sum_erase S w hkS]
    exact Int.add_le_add_right (hle k hkS hkM) _

structure Keeps (window : Nat → List Int) (capacity limit : Nat) (l : List Nat) (m : Placement)
    (S : Finset Nat) : Prop where
  servable : Servable window capacity S
  chosen : m.served.toFinset ⊆ S
  jobs : ∀ j ∈ S, j ∈ m.served ∨ j ∈ l
  card_le : S.card ≤ limit

theorem Keeps.eq_chosen (h : Keeps window capacity limit l m S)
    (hcard : S.card ≤ m.served.toFinset.card) : m.served.toFinset = S :=
  Finset.eq_of_subset_of_card_le h.chosen hcard

theorem Keeps.take {m' : Placement} (h : Keeps window capacity limit (i :: l) m S)
    (hw : ∀ j ∈ l, w j ≤ w i) (hlt : m.served.toFinset.card < limit)
    (ha : Admissible window capacity m') (hp : m'.served.Perm (i :: m.served)) :
    ∃ T, Keeps window capacity limit l m' T ∧ S.card ≤ T.card ∧
      (S.card = limit → T.card = limit) ∧
      ((S.card = limit ∨ ∀ j ∈ i :: l, 0 ≤ w j) → ∑ i ∈ S, w i ≤ ∑ i ∈ T, w i) := by
  have hset := toFinset_of_perm hp
  have hserv : Servable window capacity (insert i m.served.toFinset) := hset ▸ ha.servable
  have hjobs : ∀ j ∈ insert i S, j ∈ m'.served ∨ j ∈ l := by
    intro j hj
    rw [hp.mem_iff]
    rcases Finset.mem_insert.mp hj with rfl | hj
    · exact Or.inl List.mem_cons_self
    · rcases h.jobs j hj with hj | hj
      · exact Or.inl (List.mem_cons_of_mem i hj)
      · rcases List.mem_cons.mp hj with rfl | hj
        · exact Or.inl List.mem_cons_self
        · exact Or.inr hj
  by_cases hiS : i ∈ S
  · refine ⟨S, ⟨h.servable, ?_, ?_, h.card_le⟩, le_rfl, id, fun _ => le_rfl⟩
    · rw [hset]
      exact Finset.insert_subset hiS h.chosen
    · exact fun j hj => hjobs j (Finset.mem_insert_of_mem hj)
  · by_cases hmore : m.served.toFinset.card < S.card
    · have hle : ∀ k ∈ S, k ∉ m.served.toFinset → w k ≤ w i := by
        intro k hkS hkm
        have hki : k ≠ i := ne_of_mem_of_not_mem hkS hiS
        have := (h.jobs k hkS).resolve_left (by simpa using hkm)
        exact hw k ((List.mem_cons.mp this).resolve_left hki)
      obtain ⟨T, hT, hsub, hTS, hcard, hsum⟩ :=
        h.servable.swap_heavier h.chosen hmore hiS hserv hle
      have hkeeps : Keeps window capacity limit l m' T :=
        ⟨hT, hset ▸ hsub, fun j hj => hjobs j (hTS hj), hcard.le.trans h.card_le⟩
      exact ⟨T, hkeeps, hcard.ge, fun he => hcard.trans he, fun _ => hsum⟩
    · -- nothing but the chosen jobs: the next one is an addition
      have heq := h.eq_chosen (by omega)
      have hcard := Finset.card_insert_of_notMem hiS
      rw [heq] at hserv hset hlt
      refine ⟨insert i S, ⟨hserv, hset.le, hjobs, by omega⟩, by omega, by omega, ?_⟩
      intro hc
      rw [Finset.sum_insert hiS]
      have : 0 ≤ w i := (hc.resolve_left hlt.ne) i List.mem_cons_self
      omega

theorem Keeps.skip (h : Keeps window capacity limit (i :: l) m S) (hi : i ∉ S) :
    Keeps window capacity limit l m S where
  servable := h.servable
  chosen := h.chosen
  jobs := fun j hj => (h.jobs j hj).imp_right fun hl =>
    (List.mem_cons.mp hl).resolve_left (ne_of_mem_of_not_mem hj hi)
  card_le := h.card_le

theorem choose_dominates (hm : Admissible window capacity m) (hl : l.Nodup)
    (hnew : ∀ j ∈ l, j ∉ m.served) (hw : l.Pairwise fun i j => w j ≤ w i)
    (hS : Keeps window capacity limit l m S) :
    Dominates w limit l (choose window capacity limit l m) S := by
  have hcm := length_eq_card hm
  induction l generalizing m S with
  | nil =>
    have heq : S = m.served.toFinset := by
      refine Finset.Subset.antisymm (fun j hj => ?_) hS.chosen
      simpa using hS.jobs j hj
    rw [heq]
    exact Dominates.self hm
  | cons i l ih =>
    obtain ⟨hil, hl⟩ := List.nodup_cons.mp hl
    obtain ⟨hwi, hw⟩ := List.pairwise_cons.mp hw
    have him := hnew i List.mem_cons_self
    have hsub : l ⊆ i :: l := List.subset_cons_self i l
    rw [choose]
    split_ifs with hfull
    · -- the limit is reached, so nothing fits around the chosen jobs
      have := hS.card_le
      rw [← hS.eq_chosen (by omega)]
      exact Dominates.self hm
    · rcases extend_cases hm him with ⟨ha, hp⟩ | ⟨he, R, hR, hwin⟩
      · obtain ⟨T, hT, hcard, hlimit, hsum⟩ := hS.take hwi (by omega) ha hp
        exact (ih ha hl (fresh_of_perm hp hil hnew) hw hT (length_eq_card ha)).of_le hsub hcard
          hlimit hsum
      · rw [he]
        have hiS : i ∉ S := fun hi => not_servable_of_saturated hm him hR hwin
          (hS.servable.subset (Finset.insert_subset hi hS.chosen))
        exact (ih hm hl (fun j hj => hnew j (hsub hj)) hw (hS.skip hiS) hcm).of_le hsub le_rfl id
          fun _ => le_rfl

end Downlink.Placement
