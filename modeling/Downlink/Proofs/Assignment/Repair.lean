import Downlink.Proofs.Assignment.Permuted

/-!
# Repairing an assignment

Dealing the rounds of an assignment again is a repair that loses nothing and cannot be bettered: it
keeps who is served and how often each round is used, leaves its own results alone, and fits every
window as soon as any permutation of rounds within stations does.
-/

namespace Downlink.Assignment

variable {m a : Assignment} {s : Schedule} {stations : List Station} {H start cap : Int}

/-- `a` deals the rounds of `m` out in arrival order. -/
structure Repairs (s : Schedule) (m a : Assignment) : Prop where
  permuted : Permuted s m a
  loads : ∀ r, a.rounds.count r = m.rounds.count r
  weight : a.weight s = m.weight s
  ordered : Ordered s a
  settled : redeal s a = a
  windows : (∀ p ∈ a, InWindow s p.1 p.2) ↔
    ∃ m', Permuted s m m' ∧ ∀ p ∈ m', InWindow s p.1 p.2
  accepted : ∀ capacity, check s m capacity = .ok () → check s a capacity = .ok ()

theorem count_rounds_le_length (m : Assignment) (r : Int) :
    (m.rounds.count r : Int) ≤ m.length := by
  have hle : m.rounds.count r ≤ m.rounds.length := List.count_le_length
  rw [rounds, List.length_map] at hle
  exact_mod_cast hle

theorem feasible_length_iff (hi : ∀ p ∈ m, 0 ≤ p.1 ∧ p.1 < s.entries.length) :
    Feasible s m.length m ↔ ∀ p ∈ m, InWindow s p.1 p.2 := by
  constructor
  · exact Feasible.window
  · intro hw
    exact ⟨hi, hw, fun r _ => count_rounds_le_length m r⟩

theorem redeal_inWindow_iff (h : Horizon stations H) (hd : m.Distinct)
    (hi : ∀ p ∈ m, 0 ≤ p.1 ∧ p.1 < (Schedule.ofStations stations start H).entries.length) :
    (∀ p ∈ redeal (Schedule.ofStations stations start H) m,
        InWindow (Schedule.ofStations stations start H) p.1 p.2) ↔
      ∃ m', Permuted (Schedule.ofStations stations start H) m m' ∧
        ∀ p ∈ m', InWindow (Schedule.ofStations stations start H) p.1 p.2 := by
  have hindices := redeal_indices h hd hi
  have hi' : ∀ p ∈ redeal (Schedule.ofStations stations start H) m,
      0 ≤ p.1 ∧ p.1 < (Schedule.ofStations stations start H).entries.length := by
    intro p hp
    obtain ⟨q, hq, he⟩ := List.mem_map.mp (hindices.mem_iff.mp (List.mem_map_of_mem hp))
    rw [← he]
    exact hi q hq
  rw [← feasible_length_iff hi', redeal_length h hd hi, redeal_feasible_iff h hd hi]
  exact and_iff_right fun r _ => count_rounds_le_length m r

/-- On a generated schedule dealing again repairs every assignment of its entries, whatever rounds
they are given. -/
theorem redeal_repairs (hg : Schedule.generate stations start cap = .ok s) (hd : m.Distinct)
    (hi : ∀ p ∈ m, 0 ≤ p.1 ∧ p.1 < s.entries.length) : Repairs s m (redeal s m) := by
  obtain ⟨-, H, -, h, rfl⟩ := Schedule.generate_eq_ok hg
  have hpermuted := redeal_permuted h hd hi
  refine ⟨hpermuted, ?_, redeal_weight h hd hi, redeal_ordered h m, ?_, redeal_inWindow_iff h hd hi,
    ?_⟩
  · intro r
    exact (redeal_rounds h hd hi).count_eq r
  · exact (hpermuted.redeal_eq hd).symm
  · intro capacity hcheck
    rw [check_eq_ok_iff_feasible] at hcheck ⊢
    exact redeal_feasible h hd hcheck

theorem redeal_repairs_crossed :
    let s := Schedule.ofStations [⟨1, 1, 1, 5⟩, ⟨2, 2, 0, 9⟩] 4 2
    let m : Assignment := [(2, 4), (1, 4), (0, 5)]
    Schedule.generate [⟨1, 1, 1, 5⟩, ⟨2, 2, 0, 9⟩] 4 1024 = .ok s ∧ m.Distinct ∧
      (∀ p ∈ m, 0 ≤ p.1 ∧ p.1 < s.entries.length) ∧ ¬(∀ p ∈ m, InWindow s p.1 p.2) ∧
      Repairs s m (redeal s m) ∧ ∀ p ∈ redeal s m, InWindow s p.1 p.2 := by
  intro s m
  have horder : Station.inOrder [⟨1, 1, 1, 5⟩, ⟨2, 2, 0, 9⟩] = [⟨1, 1, 1, 5⟩, ⟨2, 2, 0, 9⟩] :=
    List.mergeSort_of_pairwise (by decide)
  have hg : Schedule.generate [⟨1, 1, 1, 5⟩, ⟨2, 2, 0, 9⟩] 4 1024 = .ok s := by
    rw [Schedule.generate, horder]
    rfl
  have hd : m.Distinct := by simp [Distinct, m]
  have hi : ∀ p ∈ m, 0 ≤ p.1 ∧ p.1 < s.entries.length := by decide
  have hbroken : ¬(∀ p ∈ m, InWindow s p.1 p.2) := by
    intro h
    have := h (1, 4) (by decide) ⟨5, 6, 5, 1⟩ rfl
    revert this
    decide
  have hrepairs := redeal_repairs hg hd hi
  refine ⟨hg, hd, hi, hbroken, hrepairs, hrepairs.windows.mpr ⟨[(2, 4), (1, 5), (0, 4)], ?_, ?_⟩⟩
  · exact ⟨by decide, by decide⟩
  · simp [InWindow, Schedule.entryAt?, s, Schedule.ofStations, Schedule.stationPackets,
      Schedule.clip, Schedule.stop]

end Downlink.Assignment
