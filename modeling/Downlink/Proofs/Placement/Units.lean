import Mathlib.Data.List.Nodup
import Mathlib.Tactic.Common

/-!
# Units of a round

What shares a round is numbered from zero, from the end of a list to its head. No two items have the
same round and the same number, and the numbers of a round stay below the count of its items.
-/

namespace Downlink

variable {α : Type} {round : α → Int} {l : List α}

def numbered (round : α → Int) : List α → List (α × Nat)
  | [] => []
  | x :: rest => (x, (rest.map round).count (round x)) :: numbered round rest

theorem numbered_fst (round : α → Int) (l : List α) : (numbered round l).map Prod.fst = l := by
  induction l with
  | nil => rfl
  | cons x l ih => rw [numbered, List.map_cons, ih]

theorem mem_of_mem_numbered {p : α × Nat} (hp : p ∈ numbered round l) : p.1 ∈ l := by
  have hmem : p.1 ∈ (numbered round l).map Prod.fst := List.mem_map_of_mem hp
  rwa [numbered_fst] at hmem

theorem lt_count_of_mem_numbered {p : α × Nat} (hp : p ∈ numbered round l) :
    p.2 < (l.map round).count (round p.1) := by
  induction l with
  | nil => cases hp
  | cons x l ih =>
    rw [List.map_cons, List.count_cons]
    rcases List.mem_cons.mp hp with rfl | hp
    · simp
    · have := ih hp
      omega

theorem numbered_nodup (round : α → Int) (l : List α) :
    ((numbered round l).map fun p => (round p.1, p.2)).Nodup := by
  induction l with
  | nil => exact List.nodup_nil
  | cons x l ih =>
    rw [numbered, List.map_cons, List.nodup_cons]
    refine ⟨fun hmem => ?_, ih⟩
    obtain ⟨p, hp, he⟩ := List.mem_map.mp hmem
    have hlt := lt_count_of_mem_numbered hp
    simp only [Prod.mk.injEq] at he
    rw [he.1, he.2] at hlt
    exact Nat.lt_irrefl _ hlt

end Downlink
