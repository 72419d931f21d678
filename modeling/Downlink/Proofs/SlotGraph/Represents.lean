import Downlink.Proofs.SlotGraph

/-!
# What a slot graph represents

The matchings of a slot graph, read back, are just the feasible assignments, although a round has no
more slots than entries that reach it. The weights of the edges add up to the saved penalty scaled
by one more than the number of entries, plus the size of the matching, and compare matchings by
penalty first and by size second.
-/

namespace Downlink.SlotGraph

variable {s : Schedule} {capacity : Nat} {M N : List SlotEdge} {r : Int} {unit : Nat}

def saved (s : Schedule) (M : List SlotEdge) : Int := (readBack M).weight s

def size (M : List SlotEdge) : Nat := (readBack M).length

theorem exists_edge_iff : (∃ e ∈ edges s capacity, e.round = r ∧ e.unit = unit) ↔
    unit < min capacity (reach s r) := by
  constructor
  · intro h
    obtain ⟨e, he, rfl, rfl⟩ := h
    obtain ⟨x, -, -, hunit, -⟩ := mem_edges.mp he
    simpa [slots] using hunit
  · intro h
    have hpos : 0 < reach s r := by omega
    obtain ⟨x, hx, hr⟩ := List.countP_pos_iff.mp hpos
    obtain ⟨i, hi⟩ := List.getElem?_of_mem hx
    refine ⟨⟨i, r, unit, x.penalty * (s.entries.length + 1) + 1⟩, ?_, rfl, rfl⟩
    exact mem_edges.mpr ⟨x, hi, by simpa using hr, by simpa [slots] using h, rfl⟩

theorem Matching.size_le (h : Matching s capacity M) : size M ≤ s.entries.length := by
  rw [size, length_readBack]
  exact h.length_le

theorem Matching.weight_eq_saved (h : Matching s capacity M) :
    weight M = saved s M * (s.entries.length + 1) + size M := by
  rw [size, length_readBack]
  exact h.weight_eq

theorem Matching.weight_lt_iff (hN : Matching s capacity N) (hM : Matching s capacity M) :
    weight N < weight M ↔ saved s N < saved s M ∨ saved s N = saved s M ∧ size N < size M := by
  have hlexicographic := lexicographic (x := saved s M) (y := saved s N) (n := s.entries.length)
    (k := size M) (l := size N) ⟨Int.natCast_nonneg _, Int.ofNat_le.mpr hM.size_le⟩
    ⟨Int.natCast_nonneg _, Int.ofNat_le.mpr hN.size_le⟩
  rw [← hN.weight_eq_saved, ← hM.weight_eq_saved] at hlexicographic
  rw [← not_le, hlexicographic]
  omega

/-- The matchings of the graph with so many units in a round stand for the feasible assignments. -/
structure Represents (s : Schedule) (capacity : Nat) : Prop where
  slots : ∀ r unit, (∃ e ∈ edges s capacity, e.round = r ∧ e.unit = unit) ↔
    unit < min capacity (reach s r)
  readBack : ∀ M, Matching s capacity M →
    (readBack M).Distinct ∧ (readBack M).Feasible s capacity
  seated : ∀ a : Assignment, a.Distinct → a.Feasible s capacity →
    ∃ M, Matching s capacity M ∧ SlotGraph.readBack M = a
  weight : ∀ M, Matching s capacity M →
    weight M = saved s M * (s.entries.length + 1) + size M
  outweighs : ∀ M N, Matching s capacity M → Matching s capacity N →
    (SlotGraph.weight N < SlotGraph.weight M ↔
      saved s N < saved s M ∨ saved s N = saved s M ∧ size N < size M)

/-- Every schedule, generated or not, is represented by its slot graph. -/
theorem graph_represents (s : Schedule) (capacity : Nat) : Represents s capacity where
  slots _ _ := exists_edge_iff
  readBack _ hM := ⟨hM.distinct, hM.feasible⟩
  seated a hd hf := ⟨seat s a, seat_matching hd hf, readBack_seat fun p hp => (hf.index p hp).1⟩
  weight _ hM := hM.weight_eq_saved
  outweighs _ _ hM hN := hN.weight_lt_iff hM

/-- Two packets share a round that has two slots, though there are units for eighteen; one of them
has no penalty and counts all the same. -/
theorem graph_represents_two_stations :
    let s := Schedule.ofStations [⟨1, 1, 0, 5⟩, ⟨2, 2, 1, 0⟩] 4 2
    let a : Assignment := [(0, 4), (1, 5), (2, 5)]
    Schedule.generate [⟨1, 1, 0, 5⟩, ⟨2, 2, 1, 0⟩] 4 1024 = .ok s ∧ a.Distinct ∧
      a.Feasible s (18 : Nat) ∧ reach s 5 = 2 ∧
      ∃ M, Matching s 18 M ∧ SlotGraph.readBack M = a ∧ SlotGraph.weight M = 10 * 4 + 3 := by
  intro s a
  have horder : Station.inOrder [⟨1, 1, 0, 5⟩, ⟨2, 2, 1, 0⟩] = [⟨1, 1, 0, 5⟩, ⟨2, 2, 1, 0⟩] :=
    List.mergeSort_of_pairwise (by decide)
  have hg : Schedule.generate [⟨1, 1, 0, 5⟩, ⟨2, 2, 1, 0⟩] 4 1024 = .ok s := by
    rw [Schedule.generate, horder]
    rfl
  have hd : a.Distinct := by simp [Assignment.Distinct, a]
  have hf : a.Feasible s (18 : Nat) := Assignment.check_eq_ok_iff_feasible.mp rfl
  have hrepresents := graph_represents s 18
  obtain ⟨M, hM, hback⟩ := hrepresents.seated a hd hf
  refine ⟨hg, hd, hf, rfl, M, hM, hback, ?_⟩
  rw [hrepresents.weight M hM, saved, size, hback]
  rfl

end Downlink.SlotGraph
