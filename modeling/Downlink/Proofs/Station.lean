import Mathlib.Data.List.Nodup
import Mathlib.Data.List.Sort
import Downlink.Station

/-!
# Checked stations

Stations pass the check when they are there, valid, and named by different ids; put into id order
they form a roster, which is what schedules and queues are built from.
-/

namespace Downlink.Station

variable {stations : List Station} {seen : List Int}

theorem checkFrom_eq_ok_iff : checkFrom seen stations = .ok () ↔
    (∀ s ∈ stations, s.Valid) ∧ (∀ s ∈ stations, s.id ∉ seen) ∧ (stations.map id).Nodup := by
  induction stations generalizing seen with
  | nil => simp [checkFrom]
  | cons s rest ih =>
    rw [checkFrom]
    cases hc : s.check with
    | error e =>
      have hn : ¬ s.Valid := fun hv => by simp [check_eq_ok_iff.mpr hv] at hc
      simp [hn]
    | ok u =>
      have hv : s.Valid := check_eq_ok_iff.mp hc
      dsimp only
      split_ifs with hs
      · simp [hs]
      · rw [ih, List.forall_mem_cons, List.forall_mem_cons, List.map_cons, List.nodup_cons]
        simp only [List.mem_cons, not_or, List.mem_map, not_exists, not_and]
        constructor
        · rintro ⟨h₁, h₂, h₃⟩
          exact ⟨⟨hv, h₁⟩, ⟨hs, fun x hx => (h₂ x hx).2⟩, fun x hx => (h₂ x hx).1, h₃⟩
        · rintro ⟨⟨-, h₁⟩, ⟨-, h₂⟩, h₃, h₄⟩
          exact ⟨h₁, fun x hx => ⟨h₃ x hx, h₂ x hx⟩, h₄⟩

theorem checkAll_eq_ok_iff : checkAll stations = .ok () ↔
    stations ≠ [] ∧ (∀ s ∈ stations, s.Valid) ∧ (stations.map id).Nodup := by
  cases stations with
  | nil => simp [checkAll]
  | cons s rest =>
    rw [checkAll, checkFrom_eq_ok_iff]
    simp

theorem inOrder_perm (stations : List Station) : (inOrder stations).Perm stations :=
  List.mergeSort_perm _ _

theorem mem_inOrder {s : Station} : s ∈ inOrder stations ↔ s ∈ stations :=
  (inOrder_perm stations).mem_iff

structure Roster (stations : List Station) : Prop where
  nonempty : stations ≠ []
  valid : ∀ s ∈ stations, s.Valid
  increasing : stations.Pairwise fun s t => s.id < t.id

theorem roster_inOrder (hne : stations ≠ []) (hv : ∀ s ∈ stations, s.Valid)
    (hd : (stations.map id).Nodup) : Roster (inOrder stations) where
  nonempty := fun h => hne (List.perm_nil.mp (h ▸ (inOrder_perm stations).symm))
  valid := fun s hs => hv s (mem_inOrder.mp hs)
  increasing := by
    have hs := @List.pairwise_mergeSort _ (fun s t : Station => decide (s.id ≤ t.id))
      (fun a b c hab hbc => by simp only [decide_eq_true_eq] at *; omega)
      (fun a b => by simp only [Bool.or_eq_true, decide_eq_true_eq]; omega) stations
    have hd' : ((inOrder stations).map id).Nodup :=
      ((inOrder_perm stations).map id).nodup_iff.mpr hd
    have hne' : (inOrder stations).Pairwise fun s t => s.id ≠ t.id := List.pairwise_map.mp hd'
    refine (hs.and hne').imp ?_
    rintro s t ⟨hle, hne⟩
    have := of_decide_eq_true hle
    omega

theorem Roster.inOrder_eq (h : Roster stations) : inOrder stations = stations :=
  List.mergeSort_of_pairwise (h.increasing.imp fun h => by simp only [decide_eq_true_eq]; omega)

theorem Roster.ids_nodup (h : Roster stations) : (stations.map id).Nodup :=
  List.pairwise_map.mpr (h.increasing.imp fun h => by omega)

theorem Roster.id_inj (h : Roster stations) {s t : Station} (hs : s ∈ stations)
    (ht : t ∈ stations) (he : s.id = t.id) : s = t :=
  List.inj_on_of_nodup_map h.ids_nodup hs ht he

theorem Roster.nodup (h : Roster stations) : stations.Nodup :=
  List.Nodup.of_map id h.ids_nodup

structure Turn (stations before : List Station) (s : Station) (rest : List Station) : Prop where
  mem : s ∈ stations
  past : ∀ u ∈ before, u ∈ stations ∧ u ≠ s
  future : ∀ u ∈ rest, u ∈ stations ∧ u ≠ s
  next : stations = (before ++ [s]) ++ rest

theorem Roster.turn {before rest : List Station} {s : Station} (h : Roster stations)
    (hsplit : stations = before ++ s :: rest) : Turn stations before s rest := by
  have hnd : (before ++ s :: rest).Nodup := hsplit ▸ h.nodup
  obtain ⟨-, hrest, hbefore⟩ := List.nodup_append.mp hnd
  have hmem : s ∈ stations := hsplit ▸ List.mem_append_right _ List.mem_cons_self
  refine ⟨hmem, fun u hu => ?_, fun u hu => ?_, ?_⟩
  · exact ⟨hsplit ▸ List.mem_append_left _ hu, hbefore u hu s List.mem_cons_self⟩
  · refine ⟨hsplit ▸ List.mem_append_right _ (List.mem_cons_of_mem s hu), fun he => ?_⟩
    exact (List.nodup_cons.mp hrest).1 (he ▸ hu)
  · rw [hsplit, List.append_assoc]
    rfl

theorem Roster.checkAll (h : Roster stations) : checkAll stations = .ok () :=
  checkAll_eq_ok_iff.mpr ⟨h.nonempty, h.valid, h.ids_nodup⟩

theorem foldl_max_deadline (stations : List Station) (m : Int) :
    m ≤ stations.foldl (fun m s => max m s.deadline) m ∧
      ∀ s ∈ stations, s.deadline ≤ stations.foldl (fun m s => max m s.deadline) m := by
  induction stations generalizing m with
  | nil => exact ⟨le_rfl, fun s hs => absurd hs List.not_mem_nil⟩
  | cons t rest ih =>
    obtain ⟨hstart, hrest⟩ := ih (max m t.deadline)
    rw [List.foldl_cons]
    refine ⟨(le_max_left _ _).trans hstart, fun s hs => ?_⟩
    rcases List.mem_cons.mp hs with rfl | hs
    · exact (le_max_right _ _).trans hstart
    · exact hrest s hs

theorem longestDeadline_nonneg (stations : List Station) : 0 ≤ longestDeadline stations :=
  (foldl_max_deadline stations 0).1

theorem le_longestDeadline {s : Station} (hs : s ∈ stations) :
    s.deadline ≤ longestDeadline stations :=
  (foldl_max_deadline stations 0).2 s hs

end Downlink.Station
