import Mathlib.Tactic.Ring
import Downlink.Proofs.Assignment.Best
import Downlink.Proofs.Placement.Units
import Downlink.SlotGraph

/-!
# Matchings of a slot graph

A matching, read back, is a feasible assignment, and every feasible assignment has seats in the
graph. Since a matching has at most as many edges as there are entries, the weight of its edges
orders matchings by penalty first and by size second, so the heaviest matchings are the best
assignments.
-/

namespace Downlink.SlotGraph

variable {s : Schedule} {capacity : Nat} {M N : List SlotEdge} {a : Assignment} {r : Int}

structure Matching (s : Schedule) (capacity : Nat) (M : List SlotEdge) : Prop where
  edge : ∀ e ∈ M, e ∈ edges s capacity
  entries : (M.map SlotEdge.entry).Nodup
  slots : (M.map fun e => (e.round, e.unit)).Nodup

def weight (M : List SlotEdge) : Int := total (M.map SlotEdge.weight)

structure Heaviest (s : Schedule) (capacity : Nat) (M : List SlotEdge) : Prop where
  matching : Matching s capacity M
  weight_le : ∀ N, Matching s capacity N → weight N ≤ weight M

theorem mem_windowRounds {e : Entry} :
    r ∈ windowRounds s e ↔ (s.clip e).1 ≤ r ∧ r ≤ (s.clip e).2 :=
  Job.mem_rounds (j := Plan.jobOf s e)

theorem mem_edges {e : SlotEdge} : e ∈ edges s capacity ↔
    ∃ x, s.entries[e.entry]? = some x ∧ ((s.clip x).1 ≤ e.round ∧ e.round ≤ (s.clip x).2) ∧
      e.unit < slots s capacity e.round ∧ e.weight = x.penalty * (s.entries.length + 1) + 1 := by
  simp only [edges, entryEdges, List.mem_flatMap, List.mem_map, List.mem_range, mem_windowRounds]
  constructor
  · intro h
    obtain ⟨⟨x, i⟩, hx, r, hr, u, hu, rfl⟩ := h
    have hi := List.mem_zipIdx_iff_getElem?.mp hx
    exact ⟨x, hi, hr, hu, rfl⟩
  · intro h
    obtain ⟨x, hx, hr, hu, hw⟩ := h
    refine ⟨(x, e.entry), List.mem_zipIdx_iff_getElem?.mpr hx, e.round, hr, e.unit, hu, ?_⟩
    rw [← hw]

theorem Matching.length_le (h : Matching s capacity M) : M.length ≤ s.entries.length := by
  have hsub : M.map SlotEdge.entry ⊆ List.range s.entries.length := by
    intro i hi
    obtain ⟨e, he, rfl⟩ := List.mem_map.mp hi
    obtain ⟨x, hx, -⟩ := mem_edges.mp (h.edge e he)
    exact List.mem_range.mpr (List.getElem?_eq_some_iff.mp hx).1
  have := (List.subperm_of_subset h.entries hsub).length_le
  rwa [List.length_map, List.length_range] at this

theorem readBack_rounds (M : List SlotEdge) : (readBack M).rounds = M.map SlotEdge.round := by
  simp only [Assignment.rounds, readBack, List.map_map]
  rfl

theorem length_readBack (M : List SlotEdge) : (readBack M).length = M.length :=
  List.length_map _

theorem Matching.distinct (h : Matching s capacity M) : (readBack M).Distinct := by
  have hm : (readBack M).map Prod.fst = (M.map SlotEdge.entry).map Int.ofNat := by
    simp only [readBack, List.map_map]
    rfl
  rw [Assignment.Distinct, hm]
  exact h.entries.map Int.ofNat_injective

theorem Matching.count_round_le (h : Matching s capacity M) (r : Int) :
    (M.map SlotEdge.round).count r ≤ SlotGraph.slots s capacity r := by
  have hcount : (M.map SlotEdge.round).count r =
      ((M.filter fun e => e.round = r).map SlotEdge.unit).length := by
    rw [List.count, List.countP_map, List.countP_eq_length_filter, List.length_map]
    rfl
  have hnodup : ((M.filter fun e => e.round = r).map SlotEdge.unit).Nodup := by
    have hsub : (M.filter fun e => e.round = r).Sublist M := List.filter_sublist
    have hs := h.slots.sublist (hsub.map _)
    refine List.Nodup.of_map (fun u => (r, u)) ?_
    rw [List.map_map]
    refine (List.map_congr_left fun e he => ?_) ▸ hs
    simp only [Function.comp_apply, ← of_decide_eq_true (List.mem_filter.mp he).2]
  have hsub : (M.filter fun e => e.round = r).map SlotEdge.unit ⊆
      List.range (SlotGraph.slots s capacity r) := by
    intro u hu
    obtain ⟨e, he, rfl⟩ := List.mem_map.mp hu
    obtain ⟨hM, hr⟩ := List.mem_filter.mp he
    obtain ⟨-, -, -, hlt, -⟩ := mem_edges.mp (h.edge e hM)
    rw [of_decide_eq_true hr] at hlt
    exact List.mem_range.mpr hlt
  rw [hcount]
  have := (List.subperm_of_subset hnodup hsub).length_le
  rwa [List.length_range] at this

theorem Matching.feasible (h : Matching s capacity M) : (readBack M).Feasible s capacity := by
  have hentry : ∀ p ∈ readBack M, ∃ e ∈ M, p = (Int.ofNat e.entry, e.round) ∧
      ∃ x, s.entries[e.entry]? = some x ∧ (s.clip x).1 ≤ e.round ∧ e.round ≤ (s.clip x).2 := by
    intro p hp
    obtain ⟨e, he, rfl⟩ := List.mem_map.mp hp
    obtain ⟨x, hx, hr, -⟩ := mem_edges.mp (h.edge e he)
    exact ⟨e, he, rfl, x, hx, hr⟩
  refine ⟨?_, ?_, ?_⟩
  · intro p hp
    obtain ⟨e, -, rfl, x, hx, -⟩ := hentry p hp
    have hlt := (List.getElem?_eq_some_iff.mp hx).1
    simp only [Int.ofNat_eq_natCast]
    omega
  · intro p hp y hy
    obtain ⟨e, -, rfl, x, hx, hr⟩ := hentry p hp
    rw [Plan.entryAt?_ofNat, hx, Option.some.injEq] at hy
    exact hy ▸ hr
  · intro r _
    have hle := h.count_round_le r
    rw [readBack_rounds]
    simp only [SlotGraph.slots] at hle
    omega

theorem Matching.weight_eq (h : Matching s capacity M) :
    weight M = (readBack M).weight s * (s.entries.length + 1) + M.length := by
  have hedge := h.edge
  clear h
  induction M with
  | nil => simp [weight, readBack, Assignment.weight, total]
  | cons e M ih =>
    have hM := ih fun x hx => hedge x (List.mem_cons_of_mem e hx)
    obtain ⟨x, hx, -, -, hw⟩ := mem_edges.mp (hedge e List.mem_cons_self)
    simp only [weight, readBack, Assignment.weight, List.map_cons, total, List.length_cons,
      Plan.entryAt?_ofNat, hx, hw, Option.map_some, Option.getD_some, Nat.cast_add,
      Nat.cast_one] at hM ⊢
    rw [hM]
    ring

def seat (s : Schedule) (a : Assignment) : List SlotEdge :=
  (numbered Prod.snd a).map fun q => ⟨q.1.1.toNat, q.1.2, q.2,
    ((s.entryAt? q.1.1).map Entry.penalty).getD 0 * (s.entries.length + 1) + 1⟩

theorem length_seat (s : Schedule) (a : Assignment) : (seat s a).length = a.length := by
  rw [seat, List.length_map, ← List.length_map Prod.fst, numbered_fst]

theorem seat_slots_nodup (s : Schedule) (a : Assignment) :
    ((seat s a).map fun e => (e.round, e.unit)).Nodup := by
  rw [seat, List.map_map]
  exact numbered_nodup Prod.snd a

theorem readBack_seat (h : ∀ p ∈ a, 0 ≤ p.1) : readBack (seat s a) = a := by
  rw [readBack, seat, List.map_map]
  refine Eq.trans (List.map_congr_left fun q hq => ?_) (numbered_fst Prod.snd a)
  have hnonneg := h q.1 (mem_of_mem_numbered hq)
  simp only [Function.comp_apply, Int.ofNat_eq_natCast, Int.toNat_of_nonneg hnonneg]

theorem mem_seat {e : SlotEdge} (he : e ∈ seat s a) : ∃ p ∈ a, e.entry = p.1.toNat ∧
    e.round = p.2 ∧ e.unit < a.rounds.count e.round ∧
      e.weight = ((s.entryAt? p.1).map Entry.penalty).getD 0 * (s.entries.length + 1) + 1 := by
  obtain ⟨q, hq, rfl⟩ := List.mem_map.mp he
  exact ⟨q.1, mem_of_mem_numbered hq, rfl, rfl, lt_count_of_mem_numbered hq, rfl⟩

theorem count_rounds_le_reach (hd : a.Distinct) (hf : a.Feasible s capacity) (r : Int) :
    a.rounds.count r ≤ reach s r := by
  have hcount : a.rounds.count r = ((a.filter fun p => p.2 = r).map Prod.fst).length := by
    rw [Assignment.rounds, List.count, List.countP_map, List.countP_eq_length_filter,
      List.length_map]
    rfl
  have hreach : reach s r = (((s.entries.zipIdx.filter fun x =>
      (s.clip x.1).1 ≤ r && r ≤ (s.clip x.1).2)).map fun x => Int.ofNat x.2).length := by
    rw [List.length_map, ← List.countP_eq_length_filter, reach]
    conv_lhs => rw [← List.zipIdx_map_fst 0 s.entries]
    rw [List.countP_map]
    rfl
  have hsub : (a.filter fun p => p.2 = r).map Prod.fst ⊆
      ((s.entries.zipIdx.filter fun x =>
        (s.clip x.1).1 ≤ r && r ≤ (s.clip x.1).2)).map fun x => Int.ofNat x.2 := by
    intro i hi
    obtain ⟨p, hp, rfl⟩ := List.mem_map.mp hi
    obtain ⟨hpa, hr⟩ := List.mem_filter.mp hp
    obtain ⟨h₀, hlt⟩ := hf.index p hpa
    have hx : s.entries[p.1.toNat]? = some s.entries[p.1.toNat] :=
      List.getElem?_eq_getElem (by omega)
    have hw := hf.window p hpa _ ((Assignment.entryAt?_of_nonneg h₀).trans hx)
    rw [of_decide_eq_true hr] at hw
    refine List.mem_map.mpr ⟨(s.entries[p.1.toNat], p.1.toNat), List.mem_filter.mpr ⟨?_, ?_⟩, ?_⟩
    · exact List.mem_zipIdx_iff_getElem?.mpr hx
    · simpa using hw
    · simp only [Int.ofNat_eq_natCast]
      omega
  have hkept : (a.filter fun p => p.2 = r).Sublist a := List.filter_sublist
  have hnodup := hd.sublist (hkept.map Prod.fst)
  rw [hcount, hreach]
  exact (List.subperm_of_subset hnodup hsub).length_le

theorem seat_matching (hd : a.Distinct) (hf : a.Feasible s capacity) :
    Matching s capacity (seat s a) := by
  have hnonneg : ∀ p ∈ a, 0 ≤ p.1 := fun p hp => (hf.index p hp).1
  refine ⟨?_, ?_, seat_slots_nodup s a⟩
  · intro e he
    obtain ⟨p, hp, hi, hr, hunit, hw⟩ := mem_seat he
    obtain ⟨h₀, hlt⟩ := hf.index p hp
    have hx : s.entries[p.1.toNat]? = some s.entries[p.1.toNat] :=
      List.getElem?_eq_getElem (by omega)
    have hat := (Assignment.entryAt?_of_nonneg h₀).trans hx
    refine mem_edges.mpr ⟨s.entries[p.1.toNat], ?_, ?_, ?_, ?_⟩
    · rw [hi, hx]
    · rw [hr]
      exact hf.window p hp _ hat
    · have hmem : e.round ∈ a.rounds := hr ▸ List.mem_map_of_mem hp
      have hload := hf.load e.round hmem
      have hreach := count_rounds_le_reach hd hf e.round
      simp only [slots]
      omega
    · rw [hw, hat]
      rfl
  · refine List.Nodup.of_map Int.ofNat ?_
    have hm : ((seat s a).map SlotEdge.entry).map Int.ofNat =
        (readBack (seat s a)).map Prod.fst := by
      simp only [readBack, List.map_map]
      rfl
    rw [hm, readBack_seat hnonneg]
    exact hd

theorem lexicographic {x y n k l : Int} (hk : 0 ≤ k ∧ k ≤ n) (hl : 0 ≤ l ∧ l ≤ n) :
    x * (n + 1) + k ≤ y * (n + 1) + l ↔ x ≤ y ∧ (x = y → k ≤ l) := by
  have hgap : ∀ a b : Int, a < b → a * (n + 1) + n < b * (n + 1) := by
    intro a b hab
    have : (a + 1) * (n + 1) ≤ b * (n + 1) := Int.mul_le_mul_of_nonneg_right hab (by omega)
    rw [Int.add_mul] at this
    omega
  rcases lt_trichotomy x y with hxy | rfl | hxy
  · have := hgap x y hxy
    constructor
    · intro _
      exact ⟨hxy.le, fun he => absurd he hxy.ne⟩
    · intro _
      omega
  · simp
  · have := hgap y x hxy
    constructor
    · intro h
      omega
    · intro h
      exact absurd h.1 (not_le.mpr hxy)

theorem Heaviest.best (h : Heaviest s capacity M) :
    Assignment.Best s capacity (readBack M) := by
  have hle := h.matching.length_le
  have hlex : ∀ a : Assignment, a.Distinct → a.Feasible s capacity →
      a.weight s ≤ (readBack M).weight s ∧
        (a.weight s = (readBack M).weight s → (a.length : Int) ≤ M.length) := by
    intro a hd hf
    have hseat := seat_matching hd hf
    have hback := readBack_seat (s := s) fun p hp => (hf.index p hp).1
    have hlen := hseat.length_le
    have hw := h.weight_le _ hseat
    rw [length_seat] at hlen
    rw [hseat.weight_eq, h.matching.weight_eq, hback, length_seat] at hw
    exact (lexicographic (by omega) (by omega)).mp hw
  refine ⟨h.matching.distinct, h.matching.feasible, fun a hd hf => (hlex a hd hf).1, ?_⟩
  intro a hd hf he
  rw [length_readBack]
  exact_mod_cast (hlex a hd hf).2 he

theorem heaviest_seat (h : Assignment.Best s capacity a) : Heaviest s capacity (seat s a) := by
  have hseat := seat_matching h.distinct h.feasible
  have hback := readBack_seat (s := s) fun p hp => (h.feasible.index p hp).1
  have hlen := hseat.length_le
  refine ⟨hseat, fun N hN => ?_⟩
  have hle := h.heaviest _ hN.distinct hN.feasible
  have hfull := h.fullest _ hN.distinct hN.feasible
  have hN' := hN.length_le
  rw [length_seat] at hlen
  rw [hN.weight_eq, hseat.weight_eq, hback, length_seat]
  refine (lexicographic (by omega) (by omega)).mpr ⟨hle, fun he => ?_⟩
  rw [← length_readBack]
  exact_mod_cast hfull he

end Downlink.SlotGraph
