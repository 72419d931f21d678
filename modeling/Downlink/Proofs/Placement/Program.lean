import Downlink.Placement.Program
import Downlink.Proofs.Placement.Optimal

/-!
# The integer program

A point meets the rows of the program exactly if its variables that are one, read as a placement,
serve every packet at most once and no round beyond its capacity. Every placement is read off some
point, with its weight as the value, so that any optimum is a heaviest placement.
-/

namespace Downlink

/-- A program over variables that are zero or one. The sum of the variables of a row is bounded, and
the total gain of the variables that are one is to be as large as possible. -/
structure BinaryProgram (V : Type) where
  unknowns : List V
  rows : List (List V × Int)
  gain : V → Int

namespace BinaryProgram

variable {V : Type}

def Meets (p : BinaryProgram V) (x : V → Bool) : Prop :=
  ∀ row ∈ p.rows, (row.1.countP x : Int) ≤ row.2

def value (p : BinaryProgram V) (x : V → Bool) : Int := total ((p.unknowns.filter x).map p.gain)

structure Optimum (p : BinaryProgram V) (x : V → Bool) : Prop where
  meets : p.Meets x
  value_le : ∀ y, p.Meets y → p.value y ≤ p.value x

/-- What an exact solver answers: an optimum, or a status if no point meets the rows. -/
def Answers (p : BinaryProgram V) : Except Int (V → Bool) → Prop
  | .ok x => p.Optimum x
  | .error _ => ∀ x, ¬p.Meets x

end BinaryProgram

namespace Program

open Placement

variable {rounds capacity : Int} {triples : List Triple} {m : Placement} {x : Nat × Int → Bool}

def jobs (rounds : Int) (triples : List Triple) : List Job := triples.map (Triple.job rounds)

def unknowns (rounds : Int) (triples : List Triple) : List (Nat × Int) :=
  (jobs rounds triples).zipIdx.flatMap fun p => p.1.rounds.map fun r => (p.2, r)

/-- A packet is served at most once and a round up to its capacity; both have a row only if they
have a variable. -/
def build (rounds capacity : Int) (triples : List Triple) : BinaryProgram (Nat × Int) :=
  let all := unknowns rounds triples
  { unknowns := all
    rows :=
      ((all.map Prod.fst).dedup.map fun i => (all.filter fun v => v.1 = i, 1)) ++
        (all.map Prod.snd).dedup.map fun r => (all.filter fun v => v.2 = r, capacity)
    gain := fun v => weightOf (jobs rounds triples) v.1 }

def solveBy (mip : BinaryProgram (Nat × Int) → Except Int (Nat × Int → Bool))
    (rounds capacity : Int) (triples : List Triple) : Except Fault Placement :=
  let p := build rounds capacity triples
  if p.unknowns.isEmpty then .ok []
  else
    match mip p with
    | .error status => .error (.solve (.notOptimal status))
    | .ok x => .ok (p.unknowns.filter x)

theorem mem_unknowns {i : Nat} {r : Int} :
    (i, r) ∈ unknowns rounds triples ↔ r ∈ roundsOf (jobs rounds triples).toArray i := by
  rw [mem_roundsOf]
  simp only [unknowns, List.mem_flatMap, List.mem_map, Prod.exists, Prod.mk.injEq]
  constructor
  · intro h
    obtain ⟨j, k, hj, q, hq, rfl, rfl⟩ := h
    exact ⟨j, List.mem_zipIdx_iff_getElem?.mp hj, Job.mem_rounds.mp hq⟩
  · intro h
    obtain ⟨j, hj, hr⟩ := h
    exact ⟨j, i, List.mem_zipIdx_iff_getElem?.mpr hj, r, Job.mem_rounds.mpr hr, rfl, rfl⟩

theorem unknowns_nodup (rounds : Int) (triples : List Triple) :
    (unknowns rounds triples).Nodup := by
  apply List.nodup_flatMap.mpr
  constructor
  · intro p _
    apply List.Nodup.map
    · intro q r hqr
      exact congrArg Prod.snd hqr
    · apply List.nodup_range.map
      intro k l hkl
      simp only [Int.ofNat_eq_natCast] at hkl
      omega
  · have hidx : ((jobs rounds triples).zipIdx.map Prod.snd).Nodup := by
      rw [List.zipIdx_map_snd]
      exact List.nodup_range'
    apply (List.pairwise_map.mp hidx).imp
    intro p q hpq v hp hq
    obtain ⟨r, -, rfl⟩ := List.mem_map.mp hp
    obtain ⟨r', -, he⟩ := List.mem_map.mp hq
    exact hpq (congrArg Prod.fst he).symm

theorem count_served (all : List (Nat × Int)) (x : Nat × Int → Bool) (i : Nat) :
    (served (all.filter x)).count i = (all.filter fun v => v.1 = i).countP x := by
  rw [served, List.count, List.countP_map, List.countP_filter, List.countP_filter]
  apply List.countP_congr
  intro v _
  simp [and_comm]

theorem load_filter (all : List (Nat × Int)) (x : Nat × Int → Bool) (r : Int) :
    load (all.filter x) r = (all.filter fun v => v.2 = r).countP x := by
  rw [load, List.countP_filter, List.countP_filter]
  apply List.countP_congr
  intro v _
  simp [and_comm]

theorem countP_le_of_rows {α : Type} [DecidableEq α] {all : List (Nat × Int)} {key : Nat × Int → α}
    {n : Int} (hn : 0 ≤ n)
    (h : ∀ v ∈ all, ((all.filter fun u => key u = key v).countP x : Int) ≤ n) (a : α) :
    ((all.filter fun u => key u = a).countP x : Int) ≤ n := by
  by_cases ha : ∃ v ∈ all, key v = a
  · obtain ⟨v, hv, rfl⟩ := ha
    exact h v hv
  · have hnil : (all.filter fun u => key u = a) = [] := by
      apply List.filter_eq_nil_iff.mpr
      intro v hv he
      exact ha ⟨v, hv, of_decide_eq_true he⟩
    rw [hnil]
    exact hn

theorem meets_iff (hc : 0 ≤ capacity) : (build rounds capacity triples).Meets x ↔
    Fits (jobs rounds triples) capacity.toNat ((unknowns rounds triples).filter x) := by
  simp only [BinaryProgram.Meets, build, List.forall_mem_append, List.forall_mem_map,
    List.mem_dedup]
  constructor
  · intro h
    refine ⟨?_, ?_, ?_⟩
    · apply List.nodup_iff_count_le_one.mpr
      intro i
      rw [count_served]
      exact_mod_cast countP_le_of_rows (by omega) h.1 i
    · intro p hp
      exact mem_unknowns.mp (List.mem_filter.mp hp).1
    · intro r
      have := countP_le_of_rows hc h.2 r
      rw [load_filter]
      omega
  · intro h
    constructor
    · intro v _
      rw [← count_served]
      exact_mod_cast List.nodup_iff_count_le_one.mp h.distinct v.1
    · intro v _
      have := h.load_le v.2
      rw [load_filter] at this
      omega

theorem filter_mem_perm (h : Fits (jobs rounds triples) capacity.toNat m) :
    ((unknowns rounds triples).filter (· ∈ m)).Perm m := by
  apply (List.perm_ext_iff_of_nodup ((unknowns_nodup rounds triples).filter _)
    (List.Nodup.of_map Prod.fst h.distinct)).mpr
  intro p
  simp only [List.mem_filter, decide_eq_true_eq, and_iff_right_iff_imp]
  intro hp
  exact mem_unknowns.mpr (h.inWindow p hp)

theorem value_eq (x : Nat × Int → Bool) : (build rounds capacity triples).value x =
    weight (jobs rounds triples) ((unknowns rounds triples).filter x) := by
  rw [weight, served, List.map_map]
  rfl

theorem heaviest_of_optimum (hc : 0 ≤ capacity) (h : (build rounds capacity triples).Optimum x) :
    Heaviest (jobs rounds triples) capacity.toNat ((unknowns rounds triples).filter x) := by
  refine ⟨(meets_iff hc).mp h.meets, ?_⟩
  intro b hb
  have hperm := filter_mem_perm hb
  have hle := h.value_le _ ((meets_iff hc).mpr (hb.perm hperm.symm))
  rw [value_eq, value_eq] at hle
  rwa [weight_perm hperm] at hle

theorem optimum_of_heaviest (hc : 0 ≤ capacity)
    (h : Heaviest (jobs rounds triples) capacity.toNat m) :
    (build rounds capacity triples).Optimum (· ∈ m) := by
  have hperm := filter_mem_perm h.fits
  refine ⟨(meets_iff hc).mpr (h.fits.perm hperm.symm), ?_⟩
  intro y hy
  rw [value_eq, value_eq, weight_perm hperm]
  exact h.weight_le _ ((meets_iff hc).mp hy)

theorem heaviest_of_no_unknowns (h : unknowns rounds triples = []) :
    Heaviest (jobs rounds triples) capacity.toNat [] := by
  refine ⟨fits_nil _ _, ?_⟩
  intro b hb
  have hnil := List.nil_perm.mp ((filter_mem_perm hb).symm.trans (by rw [h]; exact .nil)).symm
  rw [hnil]

theorem solveBy_heaviest {mip : BinaryProgram (Nat × Int) → Except Int (Nat × Int → Bool)}
    (hc : 0 ≤ capacity)
    (h : (build rounds capacity triples).Answers (mip (build rounds capacity triples))) :
    ∃ m, solveBy mip rounds capacity triples = .ok m ∧
      Heaviest (jobs rounds triples) capacity.toNat m := by
  unfold solveBy
  dsimp only
  split_ifs with hempty
  · exact ⟨[], rfl, heaviest_of_no_unknowns (List.isEmpty_iff.mp hempty)⟩
  · cases hmip : mip (build rounds capacity triples) with
    | error status =>
      rw [hmip] at h
      refine absurd ((meets_iff hc).mpr ?_) (h fun _ => false)
      rw [List.filter_false]
      exact fits_nil _ _
    | ok x =>
      rw [hmip] at h
      exact ⟨_, rfl, heaviest_of_optimum hc h⟩

theorem optimum_heaviest (hc : 0 ≤ capacity) :
    ∃ m, optimum rounds capacity triples = .ok m ∧
      Heaviest (jobs rounds triples) capacity.toNat m := by
  unfold optimum
  dsimp only
  split_ifs with hempty hneg
  · refine ⟨[], rfl, fits_nil _ _, ?_⟩
    intro b hb
    have hnil := hb.eq_nil fun j hj => List.isEmpty_iff.mp (List.all_eq_true.mp hempty j hj)
    rw [hnil]
  · omega
  · exact ⟨_, rfl, heaviest_best _ _⟩

end Program

end Downlink
