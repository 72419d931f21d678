import Mathlib.Data.List.Nodup
import Mathlib.Tactic.Common
import Downlink.Proofs.Station
import Downlink.Traffic

/-!
# Emissions

Which packets are emitted, in which order and under which id, follows from the stations alone: in
every round the stations whose period divides it emit one packet each, in id order. The id of a
packet is its position among all emissions.
-/

namespace Downlink.Traffic

variable {stations : List Station} {s t : Station} {a b : Int} {n m id : Nat}

def dueIn (stations : List Station) (round : Int) : List Station :=
  stations.filter fun s => round % s.period = 0

def emissions (stations : List Station) (n : Nat) : List (Station × Int) :=
  (List.range n).flatMap fun r => (dueIn stations (Int.ofNat r)).map fun s => (s, Int.ofNat r)

/-- The rounds among the first `n` in which a station emits. -/
def arrivals (s : Station) (n : Nat) : List Int :=
  ((List.range n).map Int.ofNat).filter fun a => a % s.period = 0

def idOf (stations : List Station) (s : Station) (a : Int) : Nat :=
  (emissions stations (a.toNat + 1)).idxOf (s, a)

theorem mem_dueIn {r : Int} : s ∈ dueIn stations r ↔ s ∈ stations ∧ r % s.period = 0 := by
  simp [dueIn]

theorem mem_arrivals : a ∈ arrivals s n ↔ (0 ≤ a ∧ a < n) ∧ a % s.period = 0 := by
  simp only [arrivals, List.mem_filter, List.mem_map, List.mem_range, decide_eq_true_eq,
    and_congr_left_iff]
  intro _
  constructor
  · intro h
    obtain ⟨k, hk, rfl⟩ := h
    simp only [Int.ofNat_eq_natCast]
    omega
  · intro h
    exact ⟨a.toNat, by omega, by simp only [Int.ofNat_eq_natCast]; omega⟩

theorem arrivals_mono (h : n ≤ m) (ha : a ∈ arrivals s n) : a ∈ arrivals s m := by
  obtain ⟨hlt, hdue⟩ := mem_arrivals.mp ha
  exact mem_arrivals.mpr ⟨by omega, hdue⟩

theorem arrivals_succ (s : Station) (n : Nat) : arrivals s (n + 1) =
    arrivals s n ++ if (n : Int) % s.period = 0 then [(n : Int)] else [] := by
  simp only [arrivals, List.range_succ, List.map_append, List.filter_append, List.map_cons,
    List.map_nil, List.filter_cons, List.filter_nil, Int.ofNat_eq_natCast, decide_eq_true_eq]

theorem arrivals_increasing (s : Station) (n : Nat) : (arrivals s n).Pairwise (· < ·) := by
  refine (List.Pairwise.map Int.ofNat (fun k l hkl => ?_) List.pairwise_lt_range).filter _
  simp only [Int.ofNat_eq_natCast]
  omega

theorem arrivals_nodup (s : Station) (n : Nat) : (arrivals s n).Nodup :=
  (arrivals_increasing s n).imp fun h => h.ne

theorem arrivals_split (s : Station) (h : n ≤ m) :
    ∃ later, arrivals s m = arrivals s n ++ later ∧ ∀ a ∈ later, (n : Int) ≤ a := by
  induction h with
  | refl => exact ⟨[], (List.append_nil _).symm, by simp⟩
  | @step m hnm ih =>
    obtain ⟨later, hl, hge⟩ := ih
    refine ⟨later ++ if (m : Int) % s.period = 0 then [(m : Int)] else [], ?_, ?_⟩
    · rw [arrivals_succ, hl, List.append_assoc]
    · intro a ha
      rcases List.mem_append.mp ha with ha | ha
      · exact hge a ha
      · split_ifs at ha
        · have := List.mem_singleton.mp ha
          have : n ≤ m := hnm
          omega
        · cases ha

theorem emissions_succ (stations : List Station) (n : Nat) : emissions stations (n + 1) =
    emissions stations n ++ (dueIn stations n).map fun s => (s, (n : Int)) := by
  simp only [emissions, List.range_succ, List.flatMap_append, List.flatMap_cons, List.flatMap_nil,
    List.append_nil, Int.ofNat_eq_natCast]

theorem mem_emissions : (s, a) ∈ emissions stations n ↔ s ∈ stations ∧ a ∈ arrivals s n := by
  induction n with
  | zero => simp [emissions, arrivals]
  | succ n ih =>
    rw [emissions_succ, arrivals_succ, List.mem_append, List.mem_append, ih]
    simp only [List.mem_map, mem_dueIn, Prod.mk.injEq]
    split_ifs with h
    · simp only [List.mem_singleton]
      constructor
      · intro hm
        rcases hm with ⟨hs, ha⟩ | ⟨x, ⟨hx, -⟩, rfl, rfl⟩
        · exact ⟨hs, Or.inl ha⟩
        · exact ⟨hx, Or.inr rfl⟩
      · intro hm
        obtain ⟨hs, ha | rfl⟩ := hm
        · exact Or.inl ⟨hs, ha⟩
        · exact Or.inr ⟨s, ⟨hs, h⟩, rfl, rfl⟩
    · simp only [List.not_mem_nil, or_false, or_iff_left_iff_imp]
      intro hm
      obtain ⟨x, ⟨-, hx⟩, rfl, -⟩ := hm
      exact absurd hx h

theorem emissions_nodup (hd : stations.Nodup) (n : Nat) : (emissions stations n).Nodup := by
  induction n with
  | zero => exact List.nodup_nil
  | succ n ih =>
    rw [emissions_succ, List.nodup_append]
    have hlast : ((dueIn stations n).map fun s => (s, (n : Int))).Nodup :=
      (hd.filter _).map fun x y hxy => congrArg Prod.fst hxy
    refine ⟨ih, hlast, fun x hx y hy hxy => ?_⟩
    obtain ⟨z, -, rfl⟩ := List.mem_map.mp hy
    subst hxy
    have := (mem_arrivals.mp (mem_emissions.mp hx).2).1
    omega

theorem emissions_prefix (stations : List Station) (h : n ≤ m) :
    ∃ later, emissions stations m = emissions stations n ++ later := by
  induction h with
  | refl => exact ⟨[], (List.append_nil _).symm⟩
  | step _ ih =>
    obtain ⟨later, hl⟩ := ih
    rw [emissions_succ, hl, List.append_assoc]
    exact ⟨_, rfl⟩

theorem idOf_eq_idxOf (h : (s, a) ∈ emissions stations n) :
    idOf stations s a = (emissions stations n).idxOf (s, a) := by
  obtain ⟨hs, ha⟩ := mem_emissions.mp h
  obtain ⟨⟨h₀, hlt⟩, hp⟩ := mem_arrivals.mp ha
  have hmem : (s, a) ∈ emissions stations (a.toNat + 1) :=
    mem_emissions.mpr ⟨hs, mem_arrivals.mpr ⟨⟨h₀, by omega⟩, hp⟩⟩
  have hle : a.toNat + 1 ≤ n := by omega
  obtain ⟨later, hl⟩ := emissions_prefix stations hle
  rw [hl, List.idxOf_append_of_mem hmem, idOf]

theorem getElem?_idOf (hs : s ∈ stations) (ha : a ∈ arrivals s n) :
    (emissions stations n)[idOf stations s a]? = some (s, a) := by
  have hm := mem_emissions.mpr ⟨hs, ha⟩
  rw [idOf_eq_idxOf hm]
  exact List.getElem?_idxOf hm

theorem idOf_lt (hs : s ∈ stations) (ha : a ∈ arrivals s n) :
    idOf stations s a < (emissions stations n).length :=
  (List.getElem?_eq_some_iff.mp (getElem?_idOf hs ha)).1

theorem idOf_inj (hs : s ∈ stations) (ha : a ∈ arrivals s n) (ht : t ∈ stations)
    (hb : b ∈ arrivals t m) (h : idOf stations s a = idOf stations t b) : s = t ∧ a = b := by
  have h₁ := getElem?_idOf hs (arrivals_mono (le_max_left n m) ha)
  rw [h, getElem?_idOf ht (arrivals_mono (le_max_right n m) hb), Option.some.injEq,
    Prod.mk.injEq] at h₁
  exact ⟨h₁.1.symm, h₁.2.symm⟩

theorem idOf_of_getElem? (hd : stations.Nodup) (h : (emissions stations n)[id]? = some (s, a)) :
    idOf stations s a = id := by
  rw [idOf_eq_idxOf (List.mem_of_getElem? h)]
  obtain ⟨hlt, he⟩ := List.getElem?_eq_some_iff.mp h
  rw [← he]
  exact (emissions_nodup hd n).idxOf_getElem id hlt

theorem idOf_due {before after : List Station} (hd : stations.Nodup)
    (h : dueIn stations n = before ++ s :: after) :
    idOf stations s n = (emissions stations n).length + before.length := by
  apply idOf_of_getElem? (n := n + 1) hd
  rw [emissions_succ, h, List.getElem?_append_right (by omega), Nat.add_sub_cancel_left]
  simp

end Downlink.Traffic
