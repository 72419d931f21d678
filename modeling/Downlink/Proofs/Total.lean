import Mathlib.Algebra.Order.BigOperators.Group.Finset
import Mathlib.Algebra.Ring.Int.Defs
import Mathlib.Data.Int.Interval
import Downlink.Total

/-!
# Totals

A total is a sum over a list; over a list without repetitions it is a sum over a finite set, and
such totals may be taken, and compared, class by class.
-/

open scoped BigOperators

namespace Downlink

theorem total_eq_sum (xs : List Int) : total xs = xs.sum := by
  induction xs with
  | nil => rfl
  | cons x xs ih => rw [total, ih, List.sum_cons]

theorem total_perm {xs ys : List Int} (h : xs.Perm ys) : total xs = total ys := by
  rw [total_eq_sum, total_eq_sum, h.sum_eq]

theorem total_map_add {α : Type} (l : List α) (f g : α → Int) :
    total (l.map fun x => f x + g x) = total (l.map f) + total (l.map g) := by
  simp only [total_eq_sum, List.sum_map_add]

theorem total_map_eq_sum_toFinset {α : Type} [DecidableEq α] {l : List α} (hl : l.Nodup)
    (f : α → Int) : total (l.map f) = ∑ a ∈ l.toFinset, f a := by
  rw [total_eq_sum, List.sum_toFinset f hl]

theorem total_map_filter {α : Type} (l : List α) (q : α → Bool) (f : α → Int) :
    total ((l.filter q).map f) = total (l.map fun x => if q x then f x else 0) := by
  simp [total_eq_sum, List.sum_map_ite]

theorem total_map_fiberwise {α κ : Type} [DecidableEq α] [DecidableEq κ] {l : List α}
    (hl : l.Nodup) (f : α → Int) {key : α → κ} {keys : Finset κ} (h : ∀ x ∈ l, key x ∈ keys) :
    total (l.map f) = ∑ k ∈ keys, total ((l.filter fun y => key y = k).map f) := by
  rw [total_map_eq_sum_toFinset hl,
    ← Finset.sum_fiberwise_of_maps_to fun x hx => h x (List.mem_toFinset.mp hx)]
  refine Finset.sum_congr rfl fun k _ => ?_
  rw [total_map_eq_sum_toFinset (hl.filter _), List.toFinset_filter]
  simp only [decide_eq_true_eq]

theorem total_map_le_of_classes {α κ : Type} [DecidableEq α] [DecidableEq κ] {l : List α}
    (hl : l.Nodup) {f g : α → Int} (key : α → κ)
    (h : ∀ x ∈ l, total ((l.filter fun y => key y = key x).map f) ≤
      total ((l.filter fun y => key y = key x).map g)) :
    total (l.map f) ≤ total (l.map g) := by
  have hkeys : ∀ x ∈ l, key x ∈ l.toFinset.image key :=
    fun x hx => Finset.mem_image_of_mem key (List.mem_toFinset.mpr hx)
  rw [total_map_fiberwise hl f hkeys, total_map_fiberwise hl g hkeys]
  refine Finset.sum_le_sum fun k hk => ?_
  obtain ⟨x, hx, rfl⟩ := Finset.mem_image.mp hk
  exact h x (List.mem_toFinset.mp hx)

theorem total_map_eq_mul_of_classes {α : Type} [DecidableEq α] {l : List α} (hl : l.Nodup)
    {f : α → Int} (key : α → Int) {n v : Int} (hn : 0 ≤ n) (hkey : ∀ x ∈ l, 0 ≤ key x ∧ key x < n)
    (h : ∀ k, 0 ≤ k → k < n → total ((l.filter fun y => key y = k).map f) = v) :
    total (l.map f) = n * v := by
  rw [total_map_fiberwise hl f fun x hx => Finset.mem_Ico.mpr (hkey x hx)]
  have hclass : ∀ k ∈ Finset.Ico 0 n, total ((l.filter fun y => key y = k).map f) = v :=
    fun k hk => h k (Finset.mem_Ico.mp hk).1 (Finset.mem_Ico.mp hk).2
  rw [Finset.sum_congr rfl hclass, Finset.sum_const, Int.card_Ico, nsmul_eq_mul, Int.sub_zero,
    Int.toNat_of_nonneg hn]

end Downlink
