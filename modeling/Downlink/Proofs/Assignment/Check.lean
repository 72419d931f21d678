import Mathlib.Data.List.Nodup
import Mathlib.Data.List.Perm.Subperm
import Mathlib.Tactic.Common
import Downlink.Assignment
import Downlink.Proofs.Fault

/-!
# Checked assignments

An assignment with distinct indices is a partial map from entries to rounds. The check accepts
exactly the feasible ones, and every refusal is a solve fault as long as its numbers can be shown.
-/

namespace Downlink

namespace Assignment

variable {m : Assignment} {s : Schedule} {i r : Int} {capacity : Int}

def Distinct (m : Assignment) : Prop := (m.map Prod.fst).Nodup

theorem serves_iff : m.serves i = true ↔ ∃ r, (i, r) ∈ m := by
  simp [serves]

theorem Distinct.round_unique (hd : m.Distinct) {q : Int} (h₁ : (i, r) ∈ m) (h₂ : (i, q) ∈ m) :
    r = q :=
  congrArg Prod.snd (List.inj_on_of_nodup_map hd h₁ h₂ rfl)

theorem mem_of_round? (h : m.round? i = some r) : (i, r) ∈ m := by
  unfold round? at h
  obtain ⟨p, hp, rfl⟩ := Option.map_eq_some_iff.mp h
  have hi : p.1 = i :=
    of_decide_eq_true (List.find?_some (p := fun p : Int × Int => decide (p.1 = i)) hp)
  rw [← hi]
  exact List.mem_of_find?_eq_some hp

theorem exists_round?_of_mem (h : (i, r) ∈ m) : ∃ q, m.round? i = some q := by
  unfold round?
  cases hf : m.find? fun p => p.1 = i with
  | none =>
    have := List.find?_eq_none.mp hf _ h
    simp at this
  | some p => exact ⟨p.2, rfl⟩

theorem Distinct.round?_eq_some_iff (hd : m.Distinct) : m.round? i = some r ↔ (i, r) ∈ m := by
  constructor
  · exact mem_of_round?
  · intro h
    obtain ⟨q, hq⟩ := exists_round?_of_mem h
    rw [hq, hd.round_unique h (mem_of_round? hq)]

/-- Whether an entry may be served in a round; vacuous for an index without an entry. -/
def InWindow (s : Schedule) (i r : Int) : Prop :=
  ∀ e, s.entryAt? i = some e → (s.clip e).1 ≤ r ∧ r ≤ (s.clip e).2

theorem entryAt?_of_nonneg (h : 0 ≤ i) : s.entryAt? i = s.entries[i.toNat]? := by
  rw [Schedule.entryAt?, if_pos h]

theorem checkPair_eq_ok_iff {p : Int × Int} : checkPair s p = .ok () ↔
    (0 ≤ p.1 ∧ p.1 < s.entries.length) ∧ InWindow s p.1 p.2 := by
  unfold checkPair
  by_cases hp : 0 ≤ p.1 ∧ p.1 < s.entries.length
  · obtain ⟨e, he⟩ : ∃ e, s.entryAt? p.1 = some e := by
      rw [entryAt?_of_nonneg hp.1]
      exact ⟨_, List.getElem?_eq_getElem (by omega)⟩
    rw [if_pos (by simpa using hp)]
    simp only [Schedule.window, he, InWindow, Option.some.injEq, forall_eq', hp, and_self, true_and]
    split_ifs with hw
    · simpa using hw
    · simpa using hw
  · rw [if_neg (by simpa using hp)]
    simp [hp]

theorem checkPairs_eq_ok_iff : checkPairs s m = .ok () ↔
    ∀ p ∈ m, (0 ≤ p.1 ∧ p.1 < s.entries.length) ∧ InWindow s p.1 p.2 := by
  induction m with
  | nil => simp [checkPairs]
  | cons p m ih =>
    rw [List.forall_mem_cons, ← checkPair_eq_ok_iff, ← ih, checkPairs]
    cases checkPair s p with
    | error e => simp
    | ok u => simp

theorem checkLoads_eq_ok_iff {loads : List (Int × Nat)} :
    checkLoads capacity loads = .ok () ↔ ∀ l ∈ loads, (l.2 : Int) ≤ capacity := by
  induction loads with
  | nil => simp [checkLoads]
  | cons l loads ih =>
    obtain ⟨r, n⟩ := l
    rw [List.forall_mem_cons, ← ih, checkLoads]
    split_ifs with h
    · simp only [false_iff, not_and]
      omega
    · exact (and_iff_right (by omega)).symm

theorem mem_loads {l : Int × Nat} : l ∈ m.loads ↔ l.1 ∈ m.rounds ∧ l.2 = m.rounds.count l.1 := by
  simp only [loads, List.mem_map, List.mem_eraseDups]
  constructor
  · rintro ⟨r, hr, rfl⟩
    exact ⟨hr, rfl⟩
  · rintro ⟨hr, hl⟩
    exact ⟨l.1, hr, by rw [← hl]⟩

theorem feasible_iff : Feasible s capacity m ↔
    (∀ p ∈ m, (0 ≤ p.1 ∧ p.1 < s.entries.length) ∧ InWindow s p.1 p.2) ∧
      ∀ r ∈ m.rounds, (m.rounds.count r : Int) ≤ capacity :=
  ⟨fun h => ⟨fun p hp => ⟨h.index p hp, h.window p hp⟩, h.load⟩,
    fun h => ⟨fun p hp => (h.1 p hp).1, fun p hp => (h.1 p hp).2, h.2⟩⟩

theorem check_eq_ok_iff_feasible : check s m capacity = .ok () ↔ Feasible s capacity m := by
  have hloads : checkLoads capacity m.loads = .ok () ↔
      ∀ r ∈ m.rounds, (m.rounds.count r : Int) ≤ capacity := by
    rw [checkLoads_eq_ok_iff]
    constructor
    · intro h r hr
      exact h (r, m.rounds.count r) (mem_loads.mpr ⟨hr, rfl⟩)
    · intro h l hl
      obtain ⟨hr, hn⟩ := mem_loads.mp hl
      rw [hn]
      exact h l.1 hr
  rw [feasible_iff, ← checkPairs_eq_ok_iff, ← hloads, check]
  cases checkPairs s m with
  | error e => simp
  | ok u => simp

structure Bounded (s : Schedule) (bound : Int) : Prop where
  length : (s.entries.length : Int) ≤ bound
  low : ∀ e ∈ s.entries, 0 ≤ (s.clip e).1 ∧ (s.clip e).1 ≤ bound
  high : ∀ e ∈ s.entries, 0 ≤ (s.clip e).2 ∧ (s.clip e).2 ≤ bound

def Refusal (m : Assignment) (bound : Int) (f : Fault) : Prop :=
  ∃ numbers cause, f = .showing numbers (.solve cause) ∧
    ∀ i ∈ numbers, i ∈ m.rounds ∨ 0 ≤ i ∧ i ≤ bound

variable {bound : Int} {f : Fault}

theorem checkPair_refusal (hb : Bounded s bound) {p : Int × Int} (hp : p ∈ m)
    (hi : 0 ≤ p.1 ∧ p.1 < s.entries.length) (h : checkPair s p = .error f) :
    Refusal m bound f := by
  have he : s.entryAt? p.1 = some s.entries[p.1.toNat] := by
    rw [entryAt?_of_nonneg hi.1]
    exact List.getElem?_eq_getElem (by omega)
  have hmem : s.entries[p.1.toNat] ∈ s.entries := List.getElem_mem (by omega)
  rw [checkPair, if_pos (by simpa using hi), Schedule.window, he] at h
  dsimp only at h
  split_ifs at h
  refine ⟨_, _, (Except.error.inj h).symm, ?_⟩
  have hlen := hb.length
  simp only [List.forall_mem_cons, List.not_mem_nil, false_imp_iff, implies_true, and_true]
  exact ⟨.inr (by omega), .inl (List.mem_map_of_mem hp), .inr (hb.low _ hmem),
    .inr (hb.high _ hmem)⟩

theorem checkPairs_refusal (hb : Bounded s bound) {ps : Assignment} (hps : ps ⊆ m)
    (hi : ∀ p ∈ m, 0 ≤ p.1 ∧ p.1 < s.entries.length) (h : checkPairs s ps = .error f) :
    Refusal m bound f := by
  induction ps with
  | nil => cases h
  | cons p ps ih =>
    have hp := hps List.mem_cons_self
    rw [checkPairs] at h
    split at h
    · cases h
      exact checkPair_refusal hb hp (hi p hp) ‹_›
    · exact ih (fun q hq => hps (List.mem_cons_of_mem p hq)) h

theorem checkLoads_refusal {loads : List (Int × Nat)} (hc : 0 ≤ capacity)
    (hl : ∀ l ∈ loads, l.1 ∈ m.rounds ∧ (l.2 : Int) ≤ bound)
    (h : checkLoads capacity loads = .error f) : Refusal m bound f := by
  induction loads with
  | nil => cases h
  | cons l loads ih =>
    obtain ⟨r, n⟩ := l
    rw [checkLoads] at h
    split_ifs at h with hfull
    · refine ⟨_, _, (Except.error.inj h).symm, ?_⟩
      obtain ⟨hr, hn⟩ := hl (r, n) List.mem_cons_self
      simp only [List.forall_mem_cons, List.not_mem_nil, false_imp_iff, implies_true, and_true]
      exact ⟨.inl hr, .inr ⟨by omega, hn⟩, .inr ⟨hc, by omega⟩⟩
    · exact ih (fun l hl' => hl l (List.mem_cons_of_mem _ hl')) h

theorem Distinct.length_le (hd : m.Distinct)
    (hi : ∀ p ∈ m, 0 ≤ p.1 ∧ p.1 < s.entries.length) : m.length ≤ s.entries.length := by
  have hsub : m.map Prod.fst ⊆ (List.range s.entries.length).map Int.ofNat := by
    intro i hi'
    obtain ⟨p, hp, rfl⟩ := List.mem_map.mp hi'
    have := hi p hp
    exact List.mem_map.mpr ⟨p.1.toNat, List.mem_range.mpr (by omega), by
      simp only [Int.ofNat_eq_natCast]
      omega⟩
  simpa using (List.subperm_of_subset hd hsub).length_le

theorem check_refusal (hb : Bounded s bound) (hd : m.Distinct)
    (hi : ∀ p ∈ m, 0 ≤ p.1 ∧ p.1 < s.entries.length) (hc : 0 ≤ capacity)
    (h : check s m capacity = .error f) : Refusal m bound f := by
  rw [check] at h
  split at h
  · cases h
    exact checkPairs_refusal hb (List.Subset.refl m) hi ‹_›
  · refine checkLoads_refusal hc (fun l hl => ?_) h
    obtain ⟨hr, hn⟩ := mem_loads.mp hl
    have hcount : m.rounds.count l.1 ≤ m.rounds.length := List.count_le_length
    have hlen := hd.length_le hi
    have hbound := hb.length
    rw [rounds, List.length_map] at hcount
    rw [rounds] at hn
    exact ⟨hr, by omega⟩

end Assignment

end Downlink
