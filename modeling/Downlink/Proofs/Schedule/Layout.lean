import Downlink.Proofs.Schedule.Horizon

/-!
# The layout of a schedule

The entries of a schedule stand in one run per station, in id order, and position `k` of a run is
the station's `k`-th packet of the horizon. The positions do not depend on the round in which the
horizon starts.
-/

namespace Downlink.Schedule

variable {stations : List Station} {s t : Station} {H start : Int} {k i : Nat}

def packetsIn (H : Int) (s : Station) : Nat := (H / s.period).toNat

def firstIndex (H : Int) : List Station → Int → Nat
  | [], _ => 0
  | s :: rest, id => if s.id = id then 0 else packetsIn H s + firstIndex H rest id

def packet (start : Int) (s : Station) (k : Nat) : Entry :=
  ⟨start + k * s.period, start + k * s.period + s.deadline, s.penalty, s.id⟩

def runOf (H : Int) (stations : List Station) (s : Station) : Run :=
  ⟨s.id, firstIndex H stations s.id, firstIndex H stations s.id + packetsIn H s⟩

theorem stationPackets_eq (start H : Int) (s : Station) :
    stationPackets start H s = (List.range (packetsIn H s)).map (packet start s) := rfl

theorem length_stationPackets (start H : Int) (s : Station) :
    (stationPackets start H s).length = packetsIn H s := by
  simp [stationPackets_eq]

theorem getElem?_stationPackets (start : Int) (hk : k < packetsIn H s) :
    (stationPackets start H s)[k]? = some (packet start s k) := by
  simp [stationPackets_eq, hk]

theorem firstIndex_cons_of_ne (h : s.id ≠ t.id) :
    firstIndex H (s :: stations) t.id = packetsIn H s + firstIndex H stations t.id := by
  rw [firstIndex, if_neg h]

theorem runsFrom_eq (hd : (stations.map Station.id).Nodup) (first : Nat) (start H : Int) :
    runsFrom first start H stations = stations.map fun s =>
      ⟨s.id, first + firstIndex H stations s.id,
        first + firstIndex H stations s.id + packetsIn H s⟩ := by
  induction stations generalizing first with
  | nil => rfl
  | cons s rest ih =>
    rw [List.map_cons, List.nodup_cons] at hd
    rw [runsFrom, length_stationPackets, ih hd.2, List.map_cons]
    congr 1
    · simp [firstIndex]
    · apply List.map_congr_left
      intro t ht
      have hne : s.id ≠ t.id := fun h => hd.1 (h ▸ List.mem_map_of_mem ht)
      rw [firstIndex_cons_of_ne hne, Nat.add_assoc first]

theorem runs_ofStations (h : Station.Roster stations) (start H : Int) :
    (ofStations stations start H).runs = stations.map (runOf H stations) := by
  have he := runsFrom_eq h.ids_nodup 0 start H
  simp only [Nat.zero_add] at he
  exact he

theorem run?_ofStations (h : Station.Roster stations) (hs : s ∈ stations) (start H : Int) :
    (ofStations stations start H).run? s.id = some (runOf H stations s) := by
  rw [run?, runs_ofStations h]
  cases hf : (stations.map (runOf H stations)).find? fun r => r.station = s.id with
  | none =>
    have := List.find?_eq_none.mp hf _ (List.mem_map_of_mem hs)
    simp [runOf] at this
  | some r =>
    obtain ⟨t, ht, rfl⟩ := List.mem_map.mp (List.mem_of_find?_eq_some hf)
    have hid : t.id = s.id :=
      of_decide_eq_true (List.find?_some (p := fun r : Run => decide (r.station = s.id)) hf)
    rw [h.id_inj ht hs hid]

theorem entries_split (h : Station.Roster stations) (hs : s ∈ stations) (start H : Int) :
    ∃ before after, (ofStations stations start H).entries =
      before ++ stationPackets start H s ++ after ∧
        before.length = firstIndex H stations s.id := by
  have hd := h.ids_nodup
  clear h
  induction stations with
  | nil => cases hs
  | cons t rest ih =>
    rw [List.map_cons, List.nodup_cons] at hd
    by_cases hts : t = s
    · subst hts
      refine ⟨[], rest.flatMap (stationPackets start H), ?_, by simp [firstIndex]⟩
      simp [ofStations]
    · have hs' : s ∈ rest := (List.mem_cons.mp hs).resolve_left (Ne.symm hts)
      have hne : t.id ≠ s.id := fun he => hd.1 (he ▸ List.mem_map_of_mem hs')
      obtain ⟨before, after, he, hl⟩ := ih hs' hd.2
      refine ⟨stationPackets start H t ++ before, after, ?_, ?_⟩
      · simp only [ofStations, List.append_assoc] at he
        simp only [ofStations, List.flatMap_cons, List.append_assoc, he]
      · rw [List.length_append, length_stationPackets, hl, firstIndex_cons_of_ne hne]

theorem getElem?_entries (h : Station.Roster stations) (hs : s ∈ stations)
    (hk : k < packetsIn H s) (start : Int) :
    (ofStations stations start H).entries[firstIndex H stations s.id + k]? =
      some (packet start s k) := by
  obtain ⟨before, after, he, hl⟩ := entries_split h hs start H
  rw [he, ← hl, List.append_assoc, List.getElem?_append_right (by omega), Nat.add_sub_cancel_left,
    List.getElem?_append_left (by rwa [length_stationPackets]), getElem?_stationPackets start hk]

theorem slice_runOf (h : Station.Roster stations) (hs : s ∈ stations) (start : Int) :
    (ofStations stations start H).slice (runOf H stations s) = stationPackets start H s := by
  obtain ⟨before, after, he, hl⟩ := entries_split h hs start H
  have hp := length_stationPackets start H s
  rw [slice, he, runOf, Nat.add_sub_cancel_left, ← hl, List.append_assoc,
    List.drop_left, ← hp, List.take_left]

theorem length_entries (stations : List Station) (start H : Int) :
    (ofStations stations start H).entries.length = (stations.map (packetsIn H)).sum := by
  simp only [ofStations, List.length_flatMap, length_stationPackets]

theorem packetCount_eq_length (h : Horizon stations H) (start : Int) :
    packetCount stations H = (ofStations stations start H).entries.length := by
  have hnonneg : ∀ s ∈ stations, 0 ≤ H / s.period := fun s hs =>
    Int.ediv_nonneg h.pos.le (by have := (h.roster.valid s hs).period; omega)
  clear h
  rw [length_entries, packetCount]
  induction stations with
  | nil => rfl
  | cons s rest ih =>
    simp only [List.map_cons, total, List.sum_cons, Nat.cast_add,
      ih fun t ht => hnonneg t (List.mem_cons_of_mem s ht), packetsIn,
      Int.toNat_of_nonneg (hnonneg s List.mem_cons_self)]

theorem exists_position (h : Station.Roster stations)
    (hi : i < (ofStations stations start H).entries.length) :
    ∃ s ∈ stations, ∃ k < packetsIn H s, i = firstIndex H stations s.id + k := by
  have hd := h.ids_nodup
  clear h
  rw [length_entries] at hi
  induction stations generalizing i with
  | nil => simp at hi
  | cons t rest ih =>
    rw [List.map_cons, List.nodup_cons] at hd
    rw [List.map_cons, List.sum_cons] at hi
    by_cases hlt : i < packetsIn H t
    · exact ⟨t, List.mem_cons_self, i, hlt, by simp [firstIndex]⟩
    · obtain ⟨s, hs, k, hk, he⟩ := ih (i := i - packetsIn H t) (by omega) hd.2
      have hne : t.id ≠ s.id := fun he => hd.1 (he ▸ List.mem_map_of_mem hs)
      refine ⟨s, List.mem_cons_of_mem t hs, k, hk, ?_⟩
      rw [firstIndex_cons_of_ne hne]
      omega

theorem position_inj (h : Horizon stations H) (hs : s ∈ stations) (ht : t ∈ stations) {l : Nat}
    (hk : k < packetsIn H s) (hl : l < packetsIn H t)
    (he : firstIndex H stations s.id + k = firstIndex H stations t.id + l) : s = t ∧ k = l := by
  have h₁ := getElem?_entries h.roster hs hk 0
  rw [he, getElem?_entries h.roster ht hl 0, Option.some.injEq] at h₁
  have hst : s = t := h.roster.id_inj hs ht (congrArg Entry.station h₁).symm
  subst hst
  exact ⟨rfl, by omega⟩

theorem mul_period_lt (h : Horizon stations H) (hs : s ∈ stations) (hk : k < packetsIn H s) :
    k * s.period < H := by
  have hp := (h.roster.valid s hs).period
  obtain ⟨c, rfl⟩ := h.dvd s hs
  rw [packetsIn, Int.mul_ediv_cancel_left c (by omega)] at hk
  have hc : (k : Int) < c := by omega
  rw [Int.mul_comm s.period c]
  exact Int.mul_lt_mul_of_pos_right hc (by omega)

theorem packet_of_due (h : Horizon stations H) (hs : s ∈ stations) {a : Int}
    (hdue : a % s.period = 0) :
    (a % H / s.period).toNat < packetsIn H s ∧
      packet (a / H * H) s (a % H / s.period).toNat = ⟨a, a + s.deadline, s.penalty, s.id⟩ := by
  have hp := (h.roster.valid s hs).period
  have hdvd := h.dvd s hs
  have hlt := Int.emod_lt_of_pos a h.pos
  have hsum := Int.ediv_mul_add_emod a H
  have hmul : a % H / s.period * s.period = a % H := by
    apply Int.ediv_mul_cancel
    apply Int.dvd_of_emod_eq_zero
    rw [Int.emod_emod_of_dvd a hdvd, hdue]
  have h₀ : 0 ≤ a % H / s.period := Int.ediv_nonneg (Int.emod_nonneg a h.pos.ne') (by omega)
  have hquot : a % H / s.period < H / s.period := by
    apply Int.ediv_lt_of_lt_mul (by omega)
    rwa [Int.ediv_mul_cancel hdvd]
  constructor
  · rw [packetsIn]
    omega
  · simp only [packet, Int.toNat_of_nonneg h₀, hmul, hsum]

theorem clip_packet (h : Horizon stations H) (hs : s ∈ stations) (start : Int) (k : Nat) :
    (ofStations stations start H).clip (packet start s k) =
      (start + k * s.period, min (start + k * s.period + s.deadline) (start + H - 1)) := by
  have hp := (h.roster.valid s hs).period
  have hk : 0 ≤ (k : Int) * s.period := Int.mul_nonneg (by omega) (by omega)
  simp only [clip, packet, ofStations, stop]
  rw [max_eq_left (by omega)]

theorem clip_nonempty (h : Horizon stations H) (hs : s ∈ stations) (hk : k < packetsIn H s)
    (start : Int) :
    let w := (ofStations stations start H).clip (packet start s k)
    start ≤ w.1 ∧ w.1 ≤ w.2 ∧ w.2 < start + H := by
  have hv := h.roster.valid s hs
  have hlt := mul_period_lt h hs hk
  have hk0 : 0 ≤ (k : Int) * s.period := Int.mul_nonneg (by omega) (by have := hv.period; omega)
  have hd := hv.deadline
  rw [clip_packet h hs]
  dsimp only
  omega

theorem clip_mono (h : Horizon stations H) (hs : s ∈ stations) (start : Int) {l : Nat}
    (hkl : k ≤ l) :
    ((ofStations stations start H).clip (packet start s k)).1 ≤
        ((ofStations stations start H).clip (packet start s l)).1 ∧
      ((ofStations stations start H).clip (packet start s k)).2 ≤
        ((ofStations stations start H).clip (packet start s l)).2 := by
  have hp := (h.roster.valid s hs).period
  have hm : (k : Int) * s.period ≤ l * s.period :=
    Int.mul_le_mul_of_nonneg_right (by omega) (by omega)
  rw [clip_packet h hs, clip_packet h hs]
  dsimp only
  omega

end Downlink.Schedule
