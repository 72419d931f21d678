import Downlink.Proofs.Schedule.Layout

/-!
# The names of entries

Station and arrival name an entry: no schedule has two entries for the same packet, every entry
arrives within its horizon, and the search for an arrival finds the entry if there is one.
-/

namespace Downlink.Schedule

variable {stations : List Station} {s : Station} {sch : Schedule} {H start station arrival : Int}
  {i : Nat} {e : Entry}

/-- The entry at this position is the only one for a station and an arrival. -/
structure Names (sch : Schedule) (i : Nat) (station arrival : Int) : Prop where
  entry : ∃ e, sch.entries[i]? = some e ∧ e.station = station ∧ e.arrival = arrival
  only : ∀ j e, sch.entries[j]? = some e → e.station = station → e.arrival = arrival → j = i

theorem exists_packet (h : Station.Roster stations)
    (he : (ofStations stations start H).entries[i]? = some e) :
    ∃ s ∈ stations, ∃ k < packetsIn H s, i = firstIndex H stations s.id + k ∧
      e = packet start s k := by
  obtain ⟨s, hs, k, hk, rfl⟩ := exists_position h (List.getElem?_eq_some_iff.mp he).1
  rw [getElem?_entries h hs hk, Option.some.injEq] at he
  exact ⟨s, hs, k, hk, rfl, he.symm⟩

theorem names_of_getElem? (h : Horizon stations H)
    (he : (ofStations stations start H).entries[i]? = some e) :
    Names (ofStations stations start H) i e.station e.arrival := by
  refine ⟨⟨e, he, rfl, rfl⟩, fun j e' he' hstation harrival => ?_⟩
  obtain ⟨s, hs, k, -, rfl, rfl⟩ := exists_packet h.roster he
  obtain ⟨t, ht, l, -, rfl, rfl⟩ := exists_packet h.roster he'
  obtain rfl : t = s := h.roster.id_inj ht hs hstation
  have hperiod := (h.roster.valid t ht).period
  have hmul : (l : Int) * t.period = k * t.period := Int.add_left_cancel harrival
  have hkl : (l : Int) = k := Int.eq_of_mul_eq_mul_right (by omega) hmul
  rw [Int.ofNat_inj.mp hkl]

theorem contains_of_getElem? (h : Horizon stations H)
    (he : (ofStations stations start H).entries[i]? = some e) :
    (ofStations stations start H).contains e.arrival = true := by
  obtain ⟨s, hs, k, hk, -, rfl⟩ := exists_packet h.roster he
  have hlt := mul_period_lt h hs hk
  have hperiod := (h.roster.valid s hs).period
  have h₀ : 0 ≤ (k : Int) * s.period := Int.mul_nonneg (by omega) (by omega)
  rw [contains, Bool.and_eq_true, decide_eq_true_eq, decide_eq_true_eq]
  simp only [stop, ofStations, packet]
  omega

theorem indexOf_eq (h : Station.Roster stations) (hs : s ∈ stations) (start arrival : Int) :
    (ofStations stations start H).indexOf s.id arrival =
      .ok (((stationPackets start H s).findIdx? fun e => e.arrival = arrival).map
        (firstIndex H stations s.id + ·)) := by
  rw [indexOf, run, run?_ofStations h hs]
  simp only [Except.map]
  rw [slice_runOf h hs]
  rfl

theorem indexOf_of_unknown (h : Station.Roster stations) (hs : ∀ s ∈ stations, s.id ≠ station)
    (start arrival : Int) : (ofStations stations start H).indexOf station arrival =
      .error (.showing [station]
        (.missing (.text s!"STA_{station} has no entries in this schedule"))) := by
  have hrun : (ofStations stations start H).run? station = none := by
    rw [run?, runs_ofStations h, List.find?_eq_none]
    intro r hr
    obtain ⟨s, hmem, rfl⟩ := List.mem_map.mp hr
    exact decide_eq_true_iff.not.mpr (hs s hmem)
  simp only [indexOf, run, hrun, Except.map]

theorem packet_of_findIdx? {k : Nat}
    (hk : ((stationPackets start H s).findIdx? fun e => e.arrival = arrival) = some k) :
    k < packetsIn H s ∧ (packet start s k).arrival = arrival := by
  obtain ⟨hlt, hfirst, -⟩ := List.findIdx?_eq_some_iff_getElem.mp hk
  have hsome := List.getElem?_eq_getElem hlt
  rw [length_stationPackets] at hlt
  rw [getElem?_stationPackets start hlt, Option.some.injEq] at hsome
  rw [← hsome, decide_eq_true_eq] at hfirst
  exact ⟨hlt, hfirst⟩

theorem exists_findIdx? {k : Nat} (hk : k < packetsIn H s) (start : Int) :
    ∃ l, ((stationPackets start H s).findIdx? fun e => e.arrival = (packet start s k).arrival) =
      some l := by
  rw [← Option.isSome_iff_exists, List.findIdx?_isSome, List.any_eq_true]
  exact ⟨_, List.mem_of_getElem? (getElem?_stationPackets start hk), decide_eq_true rfl⟩

theorem indexOf_eq_some (h : Horizon stations H) (start station arrival : Int) (i : Nat) :
    (ofStations stations start H).indexOf station arrival = .ok (some i) ↔
      ∃ e, (ofStations stations start H).entries[i]? = some e ∧ e.station = station ∧
        e.arrival = arrival := by
  by_cases hs : ∃ s ∈ stations, s.id = station
  · obtain ⟨s, hs, rfl⟩ := hs
    rw [indexOf_eq h.roster hs, Except.ok.injEq, Option.map_eq_some_iff]
    constructor
    · rintro ⟨k, hk, rfl⟩
      obtain ⟨hlt, harrival⟩ := packet_of_findIdx? hk
      exact ⟨_, getElem?_entries h.roster hs hlt start, rfl, harrival⟩
    · rintro ⟨e, he, hstation, rfl⟩
      obtain ⟨t, ht, l, hl, -, rfl⟩ := exists_packet h.roster he
      obtain rfl : t = s := h.roster.id_inj ht hs hstation
      obtain ⟨k, hk⟩ := exists_findIdx? hl start
      obtain ⟨hlt, harrival⟩ := packet_of_findIdx? hk
      exact ⟨k, hk, (names_of_getElem? h he).only _ _ (getElem?_entries h.roster hs hlt start) rfl
        harrival⟩
  · have hne : ∀ s ∈ stations, s.id ≠ station := fun s hmem hid => hs ⟨s, hmem, hid⟩
    rw [indexOf_of_unknown h.roster hne start arrival]
    refine iff_of_false (fun he => by cases he) ?_
    rintro ⟨e, he, rfl, -⟩
    obtain ⟨s, hmem, k, -, -, rfl⟩ := exists_packet h.roster he
    exact hne s hmem rfl

end Downlink.Schedule
