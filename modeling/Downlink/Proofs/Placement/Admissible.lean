import Mathlib.Data.List.Nodup
import Mathlib.Data.List.Perm.Basic
import Mathlib.Tactic.Common
import Downlink.Placement.Basic

/-!
# Admissible placements

A placement is admissible when it serves every job at most once, in a round of the job's window, and
loads no round above its capacity. Taking a job away frees one place of its round and changes
nothing else; a job may be added to any round with a free place.
-/

namespace Downlink.Placement

variable {window : Nat → List Int} {capacity : Nat} {m : Placement} {j k : Nat} {r q : Int}

structure Admissible (window : Nat → List Int) (capacity : Nat) (m : Placement) : Prop where
  distinct : m.served.Nodup
  inWindow : ∀ p ∈ m, p.2 ∈ window p.1
  load_le : ∀ r, m.load r ≤ capacity

theorem mem_served : j ∈ m.served ↔ ∃ r, (j, r) ∈ m := by
  simp [served]

theorem mem_jobsIn : j ∈ m.jobsIn r ↔ (j, r) ∈ m := by
  simp only [jobsIn, List.mem_map, List.mem_filter, decide_eq_true_eq]
  constructor
  · rintro ⟨p, ⟨hp, rfl⟩, rfl⟩
    exact hp
  · intro h
    exact ⟨(j, r), ⟨h, rfl⟩, rfl⟩

theorem round_unique (hd : m.served.Nodup) (h₁ : (j, r) ∈ m) (h₂ : (j, q) ∈ m) : r = q :=
  congrArg Prod.snd (List.inj_on_of_nodup_map hd h₁ h₂ rfl)

theorem admissible_nil : Admissible window capacity [] :=
  ⟨List.nodup_nil, by simp, by simp [load]⟩

theorem Admissible.perm {m' : Placement} (h : Admissible window capacity m) (hp : m.Perm m') :
    Admissible window capacity m' where
  distinct := (hp.map Prod.fst).nodup_iff.mp h.distinct
  inWindow := fun p hm => h.inWindow p (hp.mem_iff.mpr hm)
  load_le := fun r => by
    have hc := hp.countP_eq fun p => p.2 = r
    have hl := h.load_le r
    simp only [load] at hl ⊢
    omega

theorem Admissible.sublist {m' : Placement} (h : Admissible window capacity m)
    (hs : m'.Sublist m) : Admissible window capacity m' where
  distinct := h.distinct.sublist (hs.map Prod.fst)
  inWindow := fun p hp => h.inWindow p (hs.subset hp)
  load_le := fun r => Nat.le_trans hs.countP_le (h.load_le r)

theorem remove_sublist (m : Placement) (j : Nat) : (m.remove j).Sublist m := List.filter_sublist

theorem mem_remove : (k, r) ∈ m.remove j ↔ (k, r) ∈ m ∧ k ≠ j := by
  simp [remove]

theorem served_remove (m : Placement) (j : Nat) :
    (m.remove j).served = m.served.filter (· ≠ j) := by
  simp only [served, remove, List.filter_map]
  rfl

theorem not_mem_served_remove (m : Placement) (j : Nat) : j ∉ (m.remove j).served := by
  simp [served_remove]

theorem length_remove_lt (h : (j, r) ∈ m) : (m.remove j).length < m.length := by
  apply List.length_filter_lt_length_iff_exists.mpr
  exact ⟨(j, r), h, by simp⟩

theorem perm_remove (hd : m.served.Nodup) (h : (j, r) ∈ m) : m.Perm ((j, r) :: m.remove j) := by
  have hm : m.Nodup := List.Nodup.of_map _ hd
  have hr : ((j, r) :: m.remove j).Nodup := by
    refine List.nodup_cons.mpr ⟨?_, hm.filter _⟩
    simp [remove]
  apply (List.perm_ext_iff_of_nodup hm hr).mpr
  rintro ⟨i, q⟩
  rw [List.mem_cons, mem_remove]
  constructor
  · intro hi
    by_cases hij : i = j
    · subst hij
      rw [round_unique hd hi h]
      exact Or.inl rfl
    · exact Or.inr ⟨hi, hij⟩
  · rintro (he | ⟨hi, -⟩)
    · rw [he]
      exact h
    · exact hi

theorem load_remove_self (hd : m.served.Nodup) (h : (j, r) ∈ m) :
    (m.remove j).load r + 1 = m.load r := by
  have hc := (perm_remove hd h).countP_eq fun p => p.2 = r
  simp only [List.countP_cons, decide_true, if_pos] at hc
  simp only [load]
  omega

theorem load_remove_of_ne (hd : m.served.Nodup) (h : (j, r) ∈ m) (hq : q ≠ r) :
    (m.remove j).load q = m.load q := by
  have hc := (perm_remove hd h).countP_eq fun p => p.2 = q
  simp only [List.countP_cons, decide_eq_true_eq, hq.symm, if_false] at hc
  simp only [load]
  omega

theorem load_remove_le (m : Placement) (j : Nat) (q : Int) : (m.remove j).load q ≤ m.load q :=
  (remove_sublist m j).countP_le

theorem mem_jobsIn_remove_of_ne (hd : m.served.Nodup) (h : (j, r) ∈ m) (hq : q ≠ r) :
    k ∈ (m.remove j).jobsIn q ↔ k ∈ m.jobsIn q := by
  rw [mem_jobsIn, mem_jobsIn, mem_remove, and_iff_left_iff_imp]
  rintro hk rfl
  exact hq (round_unique hd hk h)

theorem served_perm_remove (hd : m.served.Nodup) (h : (j, r) ∈ m) :
    m.served.Perm (j :: (m.remove j).served) :=
  (perm_remove hd h).map Prod.fst

theorem load_place (m : Placement) (j : Nat) (r q : Int) :
    (m.place j r).load q = m.load q + if r = q then 1 else 0 := by
  simp [load, place, List.countP_cons]

theorem Admissible.place (h : Admissible window capacity m) (hj : j ∉ m.served)
    (hr : r ∈ window j) (hl : m.load r < capacity) :
    Admissible window capacity (m.place j r) where
  distinct := List.nodup_cons.mpr ⟨hj, h.distinct⟩
  inWindow := by
    intro p hp
    rcases List.mem_cons.mp hp with rfl | hp
    · exact hr
    · exact h.inWindow p hp
  load_le := fun q => by
    rw [load_place]
    split_ifs with hq
    · subst hq
      omega
    · exact h.load_le q

end Downlink.Placement
