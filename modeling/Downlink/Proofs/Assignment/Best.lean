import Downlink.Proofs.Assignment.Redeal
import Downlink.Proofs.Placement.Optimal
import Downlink.Plan

/-!
# Best assignments

A best assignment saves the largest penalty and, among those that save as much, serves the most
packets. Dealing the rounds of a best assignment again gives a best assignment, and the planner's
own choice is one: an assignment of a schedule and a placement of its windows are the same thing.
-/

namespace Downlink

namespace Assignment

variable {s : Schedule} {capacity : Int} {m a : Assignment}

structure Best (s : Schedule) (capacity : Int) (m : Assignment) : Prop where
  distinct : m.Distinct
  feasible : m.Feasible s capacity
  heaviest : ∀ a : Assignment, a.Distinct → a.Feasible s capacity → a.weight s ≤ m.weight s
  fullest : ∀ a : Assignment, a.Distinct → a.Feasible s capacity → a.weight s = m.weight s →
    a.length ≤ m.length

theorem Best.redeal {stations : List Station} {start H : Int} (h : Horizon stations H)
    (hb : Best (Schedule.ofStations stations start H) capacity m) :
    Best (Schedule.ofStations stations start H) capacity
      (redeal (Schedule.ofStations stations start H) m) := by
  have hw := redeal_weight h hb.distinct hb.feasible.index
  have hl := redeal_length h hb.distinct hb.feasible.index
  refine ⟨redeal_distinct h hb.distinct hb.feasible.index,
    redeal_feasible h hb.distinct hb.feasible,
    ?_, ?_⟩
  · intro a hd hf
    rw [hw]
    exact hb.heaviest a hd hf
  · intro a hd hf he
    rw [hl]
    exact hb.fullest a hd hf (he.trans hw)

end Assignment

namespace Plan

variable {s : Schedule} {capacity : Nat} {b : Placement} {a : Assignment}

def jobs (s : Schedule) : List Job := s.entries.map (jobOf s)

def assigned (b : Placement) : Assignment := b.map fun p => (Int.ofNat p.1, p.2)

def placed (a : Assignment) : Placement := a.map fun p => (p.1.toNat, p.2)

theorem heaviest_eq (s : Schedule) (capacity : Nat) : heaviest s capacity =
    assigned (Placement.best (jobs s) capacity (jobs s).length fun _ => true) := rfl

theorem getElem?_jobs (s : Schedule) (i : Nat) : (jobs s)[i]? = s.entries[i]?.map (jobOf s) :=
  List.getElem?_map

theorem entryAt?_ofNat (s : Schedule) (i : Nat) : s.entryAt? (Int.ofNat i) = s.entries[i]? :=
  Assignment.entryAt?_of_nonneg (Int.natCast_nonneg i)

theorem weightOf_jobs (s : Schedule) (i : Nat) : Placement.weightOf (jobs s) i =
    ((s.entryAt? (Int.ofNat i)).map Entry.penalty).getD 0 := by
  rw [Placement.weightOf, getElem?_jobs, entryAt?_ofNat]
  cases s.entries[i]? <;> rfl

theorem assigned_weight (s : Schedule) (b : Placement) :
    (assigned b).weight s = Placement.weight (jobs s) b := by
  simp only [Assignment.weight, Placement.weight, Placement.served, assigned, List.map_map]
  congr 1
  apply List.map_congr_left
  intro p _
  exact (weightOf_jobs s p.1).symm

theorem assigned_rounds (b : Placement) : (assigned b).rounds = b.map Prod.snd := by
  simp only [Assignment.rounds, assigned, List.map_map]
  rfl

theorem count_rounds (l : List (Nat × Int)) (r : Int) :
    (l.map Prod.snd).count r = l.countP fun p => p.2 = r := by
  rw [List.count, List.countP_map]
  congr 1

theorem assigned_distinct (hb : b.served.Nodup) : (assigned b).Distinct := by
  unfold Assignment.Distinct assigned
  rw [List.map_map]
  have h : (Prod.fst ∘ fun p : Nat × Int => (Int.ofNat p.1, p.2)) = Int.ofNat ∘ Prod.fst := rfl
  rw [h, ← List.map_map]
  exact hb.map Int.ofNat_injective

theorem assigned_feasible (hb : Placement.Fits (jobs s) capacity b) :
    (assigned b).Feasible s capacity := by
  have hentry : ∀ p ∈ b, ∃ e, s.entries[p.1]? = some e ∧
      (s.clip e).1 ≤ p.2 ∧ p.2 ≤ (s.clip e).2 := by
    intro p hp
    obtain ⟨j, hj, hw⟩ := hb.job (i := p.1) (r := p.2) hp
    rw [getElem?_jobs] at hj
    obtain ⟨e, he, rfl⟩ := Option.map_eq_some_iff.mp hj
    exact ⟨e, he, hw⟩
  refine ⟨?_, ?_, ?_⟩
  · intro p hp
    obtain ⟨q, hq, rfl⟩ := List.mem_map.mp hp
    obtain ⟨e, he, -⟩ := hentry q hq
    have hlt := (List.getElem?_eq_some_iff.mp he).1
    simp only [Int.ofNat_eq_natCast]
    omega
  · intro p hp e he
    obtain ⟨q, hq, rfl⟩ := List.mem_map.mp hp
    obtain ⟨e', he', hw⟩ := hentry q hq
    rw [entryAt?_ofNat, he', Option.some.injEq] at he
    exact he ▸ hw
  · intro r _
    rw [assigned_rounds, count_rounds]
    exact_mod_cast hb.load_le r

theorem assigned_placed (hf : ∀ p ∈ a, 0 ≤ p.1) : assigned (placed a) = a := by
  simp only [assigned, placed, List.map_map]
  refine (List.map_congr_left fun p hp => ?_).trans (List.map_id a)
  have := hf p hp
  simp only [Function.comp_apply, Int.ofNat_eq_natCast, Int.toNat_of_nonneg this, id_eq]

theorem placed_fits (hd : a.Distinct) (hf : a.Feasible s capacity) :
    Placement.Fits (jobs s) capacity (placed a) := by
  have hnonneg : ∀ p ∈ a, 0 ≤ p.1 := fun p hp => (hf.index p hp).1
  refine ⟨?_, ?_, ?_⟩
  · have hd' : ((assigned (placed a)).map Prod.fst).Nodup := by rwa [assigned_placed hnonneg]
    refine List.Nodup.of_map Int.ofNat ?_
    rw [assigned, List.map_map] at hd'
    rw [Placement.served, List.map_map]
    exact hd'
  · intro p hp
    obtain ⟨q, hq, rfl⟩ := List.mem_map.mp hp
    obtain ⟨h₀, hlt⟩ := hf.index q hq
    have he : s.entries[q.1.toNat]? = some s.entries[q.1.toNat] :=
      List.getElem?_eq_getElem (by omega)
    refine Placement.mem_roundsOf.mpr ⟨jobOf s s.entries[q.1.toNat], ?_, ?_⟩
    · rw [getElem?_jobs, he]
      rfl
    · refine hf.window q hq _ ?_
      rw [Assignment.entryAt?_of_nonneg h₀, he]
  · intro r
    have hload : (placed a).load r = a.rounds.count r := by
      rw [← assigned_placed hnonneg, assigned_rounds, count_rounds]
      rw [assigned_placed hnonneg]
      rfl
    rw [hload]
    by_cases hr : r ∈ a.rounds
    · exact_mod_cast hf.load r hr
    · rw [List.count_eq_zero_of_not_mem hr]
      exact Nat.zero_le _

theorem heaviest_best (hp : ∀ e ∈ s.entries, 0 ≤ e.penalty) (capacity : Nat) :
    Assignment.Best s capacity (heaviest s capacity) := by
  have hfits := Placement.best_fits (jobs s) capacity (jobs s).length fun _ => true
  have hw : ∀ j ∈ jobs s, 0 ≤ j.weight := by
    intro j hj
    obtain ⟨e, he, rfl⟩ := List.mem_map.mp hj
    exact hp e he
  have hbest : ∀ a : Assignment, a.Distinct → a.Feasible s capacity →
      a.weight s ≤ (heaviest s capacity).weight s ∧ a.length ≤ (heaviest s capacity).length := by
    intro a hd hf
    obtain ⟨h₁, h₂⟩ := Placement.best_all hw (placed_fits hd hf)
    rw [← assigned_weight, ← assigned_weight, assigned_placed fun p hp => (hf.index p hp).1] at h₁
    rw [heaviest_eq]
    refine ⟨h₁, ?_⟩
    simpa only [placed, assigned, List.length_map] using h₂
  rw [heaviest_eq] at hbest ⊢
  exact ⟨assigned_distinct hfits.distinct, assigned_feasible hfits,
    fun a hd hf => (hbest a hd hf).1, fun a hd hf _ => (hbest a hd hf).2⟩

end Plan

end Downlink
