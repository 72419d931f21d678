import Mathlib.Tactic.Common
import Downlink.Proofs.Assignment.Check
import Downlink.Proofs.Schedule.Horizon

/-!
# The first fault of an assignment

The check goes through the pairs of an assignment and then through the loads of its rounds. It names
the first pair, in the order of the assignment, that has no entry or lies outside of its window;
only where every pair is placed does it name an overfull round, and of several the one that appears
first.
-/

namespace Downlink

/-- The numbers that the wording of an assignment's fault shows. -/
def SolveFault.numbers : SolveFault → List Int
  | .indexOutside index count => [index, count]
  | .roundOutside index round low high => [index, round, low, high]
  | .overfull round load capacity => [round, load, capacity]
  | _ => []

namespace Assignment

variable {s : Schedule} {m : Assignment} {p : Int × Int} {capacity : Int} {f : Fault}

/-- An entry of the schedule with a round between its arrival and its deadline, both cut off at the
ends of the horizon. -/
def Placed (s : Schedule) (p : Int × Int) : Prop :=
  0 ≤ p.1 ∧ ∃ e, s.entries[p.1.toNat]? = some e ∧
    max e.arrival s.start ≤ p.2 ∧ p.2 ≤ min e.deadline (s.stop - 1)

inductive Misplaced (s : Schedule) (p : Int × Int) : SolveFault → Prop
  | index (outside : ¬(0 ≤ p.1 ∧ p.1 < s.entries.length)) :
    Misplaced s p (.indexOutside p.1 s.entries.length)
  | window {e : Entry} (nonneg : 0 ≤ p.1) (entry : s.entries[p.1.toNat]? = some e)
    (outside : ¬(max e.arrival s.start ≤ p.2 ∧ p.2 ≤ min e.deadline (s.stop - 1))) :
    Misplaced s p (.roundOutside p.1 p.2 (max e.arrival s.start) (min e.deadline (s.stop - 1)))

/-- What counts as wrong with an assignment: its first misplaced pair, or without one the first of
its rounds that carries more than the capacity. -/
inductive FirstFault (s : Schedule) (m : Assignment) (capacity : Int) : SolveFault → Prop
  | pair {before after : Assignment} {p : Int × Int} {cause : SolveFault}
    (split : m = before ++ p :: after) (earlier : ∀ q ∈ before, Placed s q)
    (fault : Misplaced s p cause) : FirstFault s m capacity cause
  | load {before after : Assignment} {p : Int × Int} (split : m = before ++ p :: after)
    (placed : ∀ q ∈ m, Placed s q) (earlier : ∀ q ∈ before, (m.rounds.count q.2 : Int) ≤ capacity)
    (overfull : capacity < m.rounds.count p.2) :
    FirstFault s m capacity (.overfull p.2 (m.rounds.count p.2) capacity)

theorem checkPair_eq_ok_iff_placed : checkPair s p = .ok () ↔ Placed s p := by
  rw [checkPair_eq_ok_iff, Placed, and_assoc]
  refine and_congr_right fun hp => ?_
  rw [InWindow, entryAt?_of_nonneg hp]
  constructor
  · rintro ⟨hlt, hwindow⟩
    have he : s.entries[p.1.toNat]? = some s.entries[p.1.toNat] :=
      List.getElem?_eq_getElem (by omega)
    exact ⟨_, he, hwindow _ he⟩
  · rintro ⟨e, he, hwindow⟩
    have hlt := (List.getElem?_eq_some_iff.mp he).1
    refine ⟨by omega, fun e' he' => ?_⟩
    obtain rfl := Option.some.inj (he.symm.trans he')
    exact hwindow

theorem checkPair_eq_error_iff : checkPair s p = .error f ↔
    ∃ cause, Misplaced s p cause ∧ f = .showing cause.numbers (.solve cause) := by
  by_cases hp : 0 ≤ p.1 ∧ p.1 < s.entries.length
  · have he : s.entries[p.1.toNat]? = some s.entries[p.1.toNat] :=
      List.getElem?_eq_getElem (by omega)
    have hwindow : s.window p.1 = .ok (s.clip s.entries[p.1.toNat]) := by
      rw [Schedule.window, entryAt?_of_nonneg hp.1, he]
    rw [checkPair, if_pos (by simpa using hp), hwindow]
    dsimp only [Schedule.clip]
    split_ifs with hin
    · simp only [Bool.and_eq_true, decide_eq_true_eq] at hin
      refine iff_of_false (by simp) ?_
      rintro ⟨cause, hcause, -⟩
      cases hcause with
      | index outside => exact outside hp
      | window _ entry outside =>
        obtain rfl := Option.some.inj (he.symm.trans entry)
        exact outside hin
    · simp only [Bool.and_eq_true, decide_eq_true_eq] at hin
      constructor
      · intro h
        exact ⟨_, .window hp.1 he hin, (Except.error.inj h).symm⟩
      · rintro ⟨cause, hcause, rfl⟩
        cases hcause with
        | index outside => exact absurd hp outside
        | window _ entry _ =>
          obtain rfl := Option.some.inj (he.symm.trans entry)
          rfl
  · rw [checkPair, if_neg (by simpa using hp)]
    constructor
    · intro h
      exact ⟨_, .index hp, (Except.error.inj h).symm⟩
    · rintro ⟨cause, hcause, rfl⟩
      cases hcause with
      | index _ => rfl
      | window nonneg entry _ =>
        have hlt := (List.getElem?_eq_some_iff.mp entry).1
        exact absurd ⟨nonneg, by omega⟩ hp

theorem checkPairs_eq_error_iff : checkPairs s m = .error f ↔ ∃ before p after,
    m = before ++ p :: after ∧ (∀ q ∈ before, Placed s q) ∧ checkPair s p = .error f := by
  induction m with
  | nil => simp [checkPairs]
  | cons q m ih =>
    rw [checkPairs]
    cases hq : checkPair s q with
    | error g =>
      constructor
      · intro h
        exact ⟨[], q, m, rfl, by simp, hq.trans h⟩
      · rintro ⟨before, p, after, hsplit, hearlier, hp⟩
        cases before with
        | nil =>
          obtain ⟨rfl, -⟩ := List.cons.inj hsplit
          exact hq.symm.trans hp
        | cons q' before =>
          obtain ⟨rfl, -⟩ := List.cons.inj hsplit
          have hok := checkPair_eq_ok_iff_placed.mpr (hearlier q List.mem_cons_self)
          cases hq.symm.trans hok
    | ok u =>
      rw [ih]
      constructor
      · rintro ⟨before, p, after, rfl, hearlier, hp⟩
        refine ⟨q :: before, p, after, rfl, ?_, hp⟩
        exact List.forall_mem_cons.mpr ⟨checkPair_eq_ok_iff_placed.mp hq, hearlier⟩
      · rintro ⟨before, p, after, hsplit, hearlier, hp⟩
        cases before with
        | nil =>
          obtain ⟨rfl, -⟩ := List.cons.inj hsplit
          cases hq.symm.trans hp
        | cons q' before =>
          obtain ⟨-, rfl⟩ := List.cons.inj hsplit
          exact ⟨before, p, after, rfl, fun q hq => hearlier q (List.mem_cons_of_mem _ hq), hp⟩

theorem checkLoads_eq_error_iff {loads : List (Int × Nat)} : checkLoads capacity loads = .error f ↔
    ∃ l, loads.find? (fun l => capacity < l.2) = some l ∧
      f = .showing [l.1, l.2, capacity] (.solve (.overfull l.1 l.2 capacity)) := by
  induction loads with
  | nil => simp [checkLoads]
  | cons l loads ih =>
    obtain ⟨r, n⟩ := l
    rw [checkLoads, List.find?_cons]
    by_cases hfull : capacity < n
    · simp [hfull, eq_comm]
    · simp [hfull, ih]

theorem find?_eraseDups (q : Int → Bool) (rounds : List Int) :
    rounds.eraseDups.find? q = rounds.find? q := by
  induction h : rounds.length using Nat.strong_induction_on generalizing rounds with
  | _ n ih =>
    cases rounds with
    | nil => rfl
    | cons r rounds =>
      rw [List.eraseDups_cons, List.find?_cons, List.find?_cons]
      cases hr : q r with
      | true => rfl
      | false =>
        have hlt : (rounds.filter fun b => !b == r).length < n := by
          have := List.length_filter_le (fun b => !b == r) rounds
          rw [List.length_cons] at h
          omega
        have hother : (fun b => decide ((!b == r) = true ∧ q b = true)) = q := by
          funext b
          by_cases hb : b = r
          · simp [hb, hr]
          · simp [hb]
        rw [ih _ hlt _ rfl, List.find?_filter, hother]

theorem find?_loads {l : Int × Nat} : m.loads.find? (fun l => capacity < l.2) = some l ↔
    ∃ before p after, m = before ++ p :: after ∧
      (∀ q ∈ before, (m.rounds.count q.2 : Int) ≤ capacity) ∧ capacity < m.rounds.count p.2 ∧
        l = (p.2, m.rounds.count p.2) := by
  have hfind : m.loads.find? (fun l => capacity < l.2) =
      (m.find? fun p => capacity < m.rounds.count p.2).map fun p => (p.2, m.rounds.count p.2) := by
    rw [loads, List.find?_map, find?_eraseDups, rounds, List.find?_map, Option.map_map]
    rfl
  simp only [hfind, Option.map_eq_some_iff, List.find?_eq_some_iff_append, decide_eq_true_eq,
    Bool.not_eq_true', decide_eq_false_iff_not, Int.not_lt]
  constructor
  · rintro ⟨p, ⟨hfull, before, after, hsplit, hearlier⟩, rfl⟩
    exact ⟨before, p, after, hsplit, hearlier, hfull, rfl⟩
  · rintro ⟨before, p, after, hsplit, hearlier, hfull, rfl⟩
    exact ⟨p, ⟨hfull, before, after, hsplit, hearlier⟩, rfl⟩

theorem checkPairs_eq_ok_iff_placed : checkPairs s m = .ok () ↔ ∀ p ∈ m, Placed s p := by
  simp only [checkPairs_eq_ok_iff, ← checkPair_eq_ok_iff, checkPair_eq_ok_iff_placed]

theorem check_eq_ok_iff_placed : check s m capacity = .ok () ↔
    (∀ p ∈ m, Placed s p) ∧ ∀ r ∈ m.rounds, (m.rounds.count r : Int) ≤ capacity := by
  rw [check_eq_ok_iff_feasible, feasible_iff, ← checkPairs_eq_ok_iff, checkPairs_eq_ok_iff_placed]

theorem Misplaced.not_placed {cause : SolveFault} (h : Misplaced s p cause) : ¬Placed s p := by
  rw [← checkPair_eq_ok_iff_placed, checkPair_eq_error_iff.mpr ⟨cause, h, rfl⟩]
  exact fun he => by cases he

theorem check_eq_error_iff : check s m capacity = .error f ↔
    ∃ cause, FirstFault s m capacity cause ∧ f = .showing cause.numbers (.solve cause) := by
  rw [check]
  cases hpairs : checkPairs s m with
  | error g =>
    obtain ⟨before, p, after, hsplit, hearlier, hp⟩ := checkPairs_eq_error_iff.mp hpairs
    constructor
    · rintro h
      obtain ⟨cause, hcause, rfl⟩ := checkPair_eq_error_iff.mp (hp.trans h)
      exact ⟨cause, .pair hsplit hearlier hcause, rfl⟩
    · rintro ⟨cause, hcause, rfl⟩
      cases hcause with
      | pair split earlier fault =>
        have herror := checkPairs_eq_error_iff.mpr
          ⟨_, _, _, split, earlier, checkPair_eq_error_iff.mpr ⟨cause, fault, rfl⟩⟩
        exact hpairs.symm.trans herror
      | load _ placed =>
        cases hpairs.symm.trans (checkPairs_eq_ok_iff_placed.mpr placed)
  | ok u =>
    have hplaced := checkPairs_eq_ok_iff_placed.mp hpairs
    dsimp only
    rw [checkLoads_eq_error_iff]
    constructor
    · rintro ⟨l, hl, hf⟩
      obtain ⟨before, p, after, hsplit, hearlier, hfull, rfl⟩ := find?_loads.mp hl
      exact ⟨_, .load hsplit hplaced hearlier hfull, hf⟩
    · rintro ⟨cause, hcause, rfl⟩
      cases hcause with
      | pair split _ fault =>
        exact absurd (hplaced _ (split ▸ List.mem_append_right _ List.mem_cons_self))
          fault.not_placed
      | load split _ earlier overfull =>
        exact ⟨_, find?_loads.mpr ⟨_, _, _, split, earlier, overfull, rfl⟩, rfl⟩

/-- The check accepts just the assignments of placed pairs that overfill no round. Of any other it
names the first fault, unless a number of its wording is too long to be written. -/
theorem check_names_first_fault (s : Schedule) (m : Assignment) (capacity : Int) :
    (check s m capacity = .ok () ↔
      (∀ p ∈ m, Placed s p) ∧ ∀ r ∈ m.rounds, (m.rounds.count r : Int) ≤ capacity) ∧
    ∀ f, check s m capacity = .error f ↔ ∃ cause, FirstFault s m capacity cause ∧
      f = if ∀ i ∈ cause.numbers, Text.isWritable i then .solve cause
        else .value .tooManyDigits := by
  refine ⟨check_eq_ok_iff_placed, fun f => ?_⟩
  have hshown : ∀ cause : SolveFault, Fault.showing cause.numbers (.solve cause) =
      if ∀ i ∈ cause.numbers, Text.isWritable i then .solve cause else .value .tooManyDigits := by
    intro cause
    simp only [Fault.showing, List.all_eq_true]
  simp only [check_eq_error_iff, hshown]

/-- One packet whose window ends in a round that cannot be written, though it starts in one that
can: a round before the window is not named. -/
theorem check_refusal_too_long :
    let stations : List Station := [⟨1, 2, 1, 5⟩]
    let start : Int := 10 ^ Text.digitLimit - 1
    let s := Schedule.ofStations stations start 2
    Text.isWritable start ∧ Schedule.generate stations start 1024 = .ok s ∧
      FirstFault s [(0, 0)] 1 (.roundOutside 0 0 start (start + 1)) ∧
      check s [(0, 0)] 1 = .error (.value .tooManyDigits) := by
  have hfirst : Text.isWritable (10 ^ Text.digitLimit - 1) := by decide +kernel
  have hlast : Text.isWritable (10 ^ Text.digitLimit - 1 + 1) = false := by decide +kernel
  have hpos : (0 : Int) < 10 ^ Text.digitLimit - 1 := by decide +kernel
  generalize (10 : Int) ^ Text.digitLimit - 1 = n at *
  intro stations start s
  have hs : Schedule.generate stations n 1024 = .ok s := by
    have horder : Station.inOrder stations = stations := List.mergeSort_of_pairwise (by decide)
    have hvalid : ∀ s ∈ stations, s.Valid := by
      simp only [stations, List.forall_mem_singleton]
      exact ⟨by decide, by decide, by decide, by decide⟩
    have hgenerate : Schedule.generate stations n 1024 =
        .ok (Schedule.ofStations (Station.inOrder stations) n 2) :=
      (Schedule.generate_ok (List.cons_ne_nil _ _) hvalid (by decide) hpos.le rfl (by decide)).1
    rwa [horder] at hgenerate
  have hentry : s.entries[0]? = some ⟨n, n + 1, 5, 1⟩ := by
    simp [s, stations, start, Schedule.ofStations, Schedule.stationPackets]
  have hwindow : max n s.start = n ∧ min (n + 1) (s.stop - 1) = n + 1 := by
    simp only [s, start, Schedule.stop, Schedule.ofStations]
    omega
  have hfault : FirstFault s [(0, 0)] 1 (.roundOutside 0 0 n (n + 1)) := by
    have hmisplaced := Misplaced.window (p := (0, 0)) le_rfl hentry fun hin => by
      have hlow : max n s.start ≤ 0 := hin.1
      omega
    rw [hwindow.1, hwindow.2] at hmisplaced
    exact .pair (List.nil_append _).symm (by simp) hmisplaced
  refine ⟨hfirst, hs, hfault, check_eq_error_iff.mpr ⟨_, hfault, ?_⟩⟩
  exact (Fault.showing_of_unwritable (by simp [SolveFault.numbers]) hlast _).symm

end Assignment

end Downlink
