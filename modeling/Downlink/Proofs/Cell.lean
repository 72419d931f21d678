import Downlink.Proofs.Schedule.Horizon
import Downlink.Scheduler.Book

/-!
# Cells

A cell that can be built has a roster of stations and generates the schedule of every horizon, and
its resource units are numbered from one.
-/

namespace Downlink

variable {stations : List Station} {width cap start : Int} {pinned : Option RuType} {c : Cell}

structure Cell.Sound (c : Cell) : Prop where
  horizon : Horizon c.stations c.horizonRounds
  schedule : ∀ start, 0 ≤ start →
    c.schedule start = .ok (Schedule.ofStations c.stations start c.horizonRounds)

theorem Cell.make_eq_ok (h : Cell.make stations width cap pinned = .ok c) :
    c.Sound ∧ c.stations = Station.inOrder stations ∧ Station.checkAll stations = .ok () := by
  unfold Cell.make at h
  dsimp only at h
  split at h
  · cases h
  rename_i hc
  split at h
  · cases h
  split at h
  · cases h
  rename_i H hH
  obtain ⟨z, -, rfl⟩ : ∃ z,
      Sizing.forPackets width (packetCount (Station.inOrder stations) H) pinned =
      .ok z ∧ (⟨Station.inOrder stations, cap, H, _, z⟩ : Cell) = c := by
    cases hz : Sizing.forPackets width (packetCount (Station.inOrder stations) H) pinned with
    | error e =>
      rw [hz] at h
      cases h
    | ok z =>
      rw [hz] at h
      exact ⟨z, rfl, Except.ok.inj h⟩
  have hcheck : Station.checkAll stations = .ok () := by
    obtain ⟨hne, hv, hd⟩ := Station.checkAll_eq_ok_iff.mp hc
    refine Station.checkAll_eq_ok_iff.mpr ⟨fun he => hne ?_, ?_, ?_⟩
    · rw [he]
      exact List.perm_nil.mp (Station.inOrder_perm [])
    · exact fun s hs => hv s (Station.mem_inOrder.mpr hs)
    · exact ((Station.inOrder_perm stations).map Station.id).nodup_iff.mp hd
  obtain ⟨hne, hv, hd⟩ := Station.checkAll_eq_ok_iff.mp hcheck
  have hr := Station.roster_inOrder hne hv hd
  refine ⟨⟨hr.horizon hH, fun start hs => ?_⟩, rfl, hcheck⟩
  simp only [Cell.schedule, Schedule.generate, hr.inOrder_eq, hr.checkAll, if_neg (not_lt.mpr hs),
    hH]

theorem Cell.make_sizing (h : Cell.make stations width cap pinned = .ok c) :
    c.horizonPackets = packetCount c.stations c.horizonRounds ∧
      Sizing.forPackets width c.horizonPackets pinned = .ok c.sizing := by
  unfold Cell.make at h
  dsimp only at h
  split at h
  · cases h
  split at h
  · cases h
  split at h
  · cases h
  rename_i H _
  cases hz : Sizing.forPackets width (packetCount (Station.inOrder stations) H) pinned with
  | error e =>
    rw [hz] at h
    cases h
  | ok z =>
    rw [hz] at h
    cases h
    exact ⟨rfl, hz⟩

theorem Sizing.getElem?_units (z : Sizing) (i : Nat) :
    z.units[i]? = if i < z.perRound then some ⟨z.ruType, Int.ofNat i + 1⟩ else none := by
  rw [Sizing.units, RuType.units, List.getElem?_map]
  split_ifs with h
  · rw [List.getElem?_range h]
    rfl
  · rw [List.getElem?_eq_none (by simpa using h)]
    rfl

theorem Sizing.mem_units {z : Sizing} {u : Ru} :
    u ∈ z.units ↔ u.type = z.ruType ∧ 1 ≤ u.index ∧ u.index ≤ z.perRound := by
  obtain ⟨type, i⟩ := u
  simp only [units, RuType.units, List.mem_map, List.mem_range, Ru.mk.injEq, Int.ofNat_eq_natCast]
  constructor
  · intro h
    obtain ⟨k, hk, rfl, rfl⟩ := h
    exact ⟨rfl, by omega, by omega⟩
  · intro h
    exact ⟨(i - 1).toNat, by omega, h.1.symm, by omega⟩

theorem Sizing.units_nodup (z : Sizing) : z.units.Nodup := by
  apply List.nodup_range.map
  intro i j hij
  simp only [Ru.mk.injEq, Int.ofNat_eq_natCast] at hij
  omega

theorem Sizing.units_increasing (z : Sizing) : z.units.Pairwise fun u v => u.index < v.index := by
  rw [Sizing.units, RuType.units, List.pairwise_map]
  refine List.pairwise_lt_range.imp fun {i j} hij => ?_
  simp only [Int.ofNat_eq_natCast]
  omega

theorem Sizing.length_le_perRound {α : Type} {z : Sizing} {l : List α} {f : α → Option Ru}
    (hl : l.Pairwise fun x y => f x ≠ f y) (h : ∀ x ∈ l, ∃ u ∈ z.units, f x = some u) :
    l.length ≤ z.perRound := by
  have hnodup : (l.map f).Nodup := List.pairwise_map.mpr hl
  have hsub : l.map f ⊆ z.units.map some := by
    intro o ho
    obtain ⟨x, hx, rfl⟩ := List.mem_map.mp ho
    obtain ⟨u, hu, he⟩ := h x hx
    exact he ▸ List.mem_map_of_mem hu
  have := (List.subperm_of_subset hnodup hsub).length_le
  rwa [List.length_map, List.length_map, Sizing.units_length] at this

end Downlink
