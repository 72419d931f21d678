import Mathlib.Data.List.Flatten
import Downlink.Proofs.Schedule.Layout
import Downlink.Proofs.Total
import Downlink.Proofs.Traffic.Queues

/-!
# The traffic of a horizon

Traffic asks in every round which periods divide it; a schedule counts the multiples of each period
below the length of a horizon. Over the rounds of a horizon both list the same packets. What happens
to the queues and to the packets between two rounds makes no difference.
-/

namespace Downlink

def Packet.entry (p : Packet) : Entry := ⟨p.arrival, p.deadline, p.penalty, p.station⟩

variable {stations : List Station} {s : Station} {H start cap : Int} {n : Nat}

theorem filterMap_range' {α : Type} (old new : List α) :
    ((List.range' old.length new.length).filterMap fun i => (old ++ new)[i]?) = new := by
  induction new generalizing old with
  | nil => simp
  | cons x new ih =>
    have hx : (old ++ x :: new)[old.length]? = some x := by simp
    have h := ih (old ++ [x])
    simp only [List.append_assoc, List.singleton_append, List.length_append,
      List.length_singleton] at h
    simp only [List.length_cons, List.range'_succ, List.filterMap_cons, hx, h]

theorem filter_dvd_range {p : Nat} (hp : 0 < p) (c : Nat) :
    (List.range (p * c)).filter (fun i => p ∣ i) = (List.range c).map (p * ·) := by
  induction c with
  | zero => simp
  | succ c ih =>
    have hlast : ((List.range p).map (p * c + ·)).filter (fun i => p ∣ i) = [p * c] := by
      obtain ⟨q, rfl⟩ := Nat.exists_eq_add_of_lt hp
      simp only [Nat.zero_add, List.range_succ_eq_map, List.map_cons, List.map_map, Nat.add_zero,
        List.filter_cons, dvd_mul_right, decide_true, if_true, List.cons.injEq, true_and,
        List.filter_eq_nil_iff, List.mem_map, List.mem_range, Function.comp_apply,
        decide_eq_true_eq]
      rintro _ ⟨i, hi, rfl⟩ hdvd
      have := Nat.le_of_dvd (Nat.succ_pos i) ((Nat.dvd_add_right (Nat.dvd_mul_right _ c)).mp hdvd)
      omega
    rw [Nat.mul_succ, List.range_add, List.filter_append, ih, hlast, List.range_succ,
      List.map_append, List.map_singleton]

theorem perm_flatMap_filter {α κ : Type} [DecidableEq κ] {l : List α} {keys : List κ} {key : α → κ}
    (hd : keys.Nodup) (h : ∀ x ∈ l, key x ∈ keys) :
    l.Perm (keys.flatMap fun k => l.filter fun x => key x = k) := by
  induction keys generalizing l with
  | nil =>
    have hl : l = [] := List.eq_nil_iff_forall_not_mem.mpr fun x hx => List.not_mem_nil (h x hx)
    simp [hl]
  | cons k keys ih =>
    obtain ⟨hk, hd'⟩ := List.nodup_cons.mp hd
    have hrest : ∀ x ∈ l.filter (fun x => !decide (key x = k)), key x ∈ keys := by
      intro x hx
      obtain ⟨hxl, hne⟩ := List.mem_filter.mp hx
      exact (List.mem_cons.mp (h x hxl)).resolve_left (by simpa using hne)
    have hsame : (keys.flatMap fun j => (l.filter fun x => !decide (key x = k)).filter
        fun x => key x = j) = keys.flatMap fun j => l.filter fun x => key x = j := by
      refine List.flatMap_congr fun j hj => ?_
      rw [List.filter_filter]
      refine List.filter_congr fun x _ => ?_
      have hjk : j ≠ k := fun he => hk (he ▸ hj)
      by_cases hx : key x = j <;> simp [hx, hjk]
    rw [List.flatMap_cons]
    exact (List.filter_append_perm (fun x => decide (key x = k)) l).symm.trans
      ((hsame ▸ ih hd' hrest).append_left _)

namespace Traffic

variable {tr : Traffic}

theorem toList_emitAll (tr : Traffic) (round : Int) (rest : List Station) :
    (tr.emitAll round rest).packets.toList =
      tr.packets.toList ++ rest.mapIdx fun i s => arriving s (tr.packets.size + i) round := by
  induction rest generalizing tr with
  | nil => simp [emitAll]
  | cons s rest ih =>
    rw [emitAll, ih]
    simp only [emitFrom, packets_setQueue, Array.toList_push, Array.size_push, List.mapIdx_cons,
      Nat.add_zero, List.append_assoc, List.singleton_append, Nat.add_assoc, Nat.add_comm 1]

def emitted (tr : Traffic) (round : Int) : List Packet :=
  (tr.generate round).1.filterMap (tr.generate round).2.packet?

theorem emitted_eq (tr : Traffic) (round : Int) : tr.emitted round =
    (tr.due round).mapIdx fun i s => arriving s (tr.packets.size + i) round := by
  have h := filterMap_range' tr.packets.toList
    ((tr.due round).mapIdx fun i s => arriving s (tr.packets.size + i) round)
  simp only [← toList_emitAll, List.length_mapIdx, Array.length_toList, Array.getElem?_toList] at h
  exact h

theorem packets_generate (tr : Traffic) (round : Int) :
    (tr.generate round).2.packets.toList = tr.packets.toList ++ tr.emitted round := by
  rw [emitted_eq]
  exact toList_emitAll tr round (tr.due round)

/-- Traffic of the stations that have not been stopped. -/
structure Generates (stations : List Station) (tr : Traffic) : Prop where
  stations : tr.stations = stations
  generating : tr.generating = true

def entryAt (s : Station) (round : Int) : Entry := ⟨round, round + s.deadline, s.penalty, s.id⟩

theorem emitted_entries (h : Generates stations tr) (round : Int) :
    (tr.emitted round).map Packet.entry = (dueIn stations round).map (entryAt · round) := by
  rw [emitted_eq, due_eq h.stations h.generating]
  apply List.ext_getElem
  · simp
  · simp [Packet.entry, arriving, entryAt]

theorem Generates.generate (h : Generates stations tr) (round : Int) :
    Generates stations (tr.generate round).2 := by
  have hemit : ∀ (rest : List Station) (tr : Traffic), Generates stations tr →
      Generates stations (tr.emitAll round rest) := by
    intro rest
    induction rest with
    | nil => exact fun _ h => h
    | cons s rest ih =>
      intro tr h
      exact ih _ ⟨(emitFrom_stations tr s round).trans h.stations, h.generating⟩
  exact hemit (tr.due round) tr h

theorem ofStations_of_checkAll (hc : Station.checkAll stations = .ok ()) :
    ofStations stations = .ok (fresh (Station.inOrder stations)) ∧
      Generates (Station.inOrder stations) (fresh (Station.inOrder stations)) := by
  obtain ⟨hne, hv, hd⟩ := Station.checkAll_eq_ok_iff.mp hc
  refine ⟨?_, stations_fresh _, rfl⟩
  rw [ofStations, (Station.roster_inOrder hne hv hd).checkAll]
  rfl

/-- The packets emitted in `n` rounds, where `tr i` is the traffic before the `i`-th of them. -/
def emittedOver (tr : Nat → Traffic) (start : Int) (n : Nat) : List Packet :=
  (List.range n).flatMap fun i => (tr i).emitted (start + i)

/-- The traffic after `n` rounds in which nothing else happens. -/
def generated (tr : Traffic) (start : Int) : Nat → Traffic
  | 0 => tr
  | n + 1 => ((generated tr start n).generate (start + n)).2

theorem Generates.generated (h : Generates stations tr) (start : Int) (n : Nat) :
    Generates stations (generated tr start n) := by
  induction n with
  | zero => exact h
  | succ n ih => exact ih.generate _

theorem packets_generated (tr : Traffic) (start : Int) (n : Nat) :
    (generated tr start n).packets.toList =
      tr.packets.toList ++ emittedOver (generated tr start) start n := by
  induction n with
  | zero => simp [generated, emittedOver]
  | succ n ih =>
    rw [generated, packets_generate, ih]
    simp [emittedOver, List.range_succ]

theorem emittedOver_entries {tr : Nat → Traffic} (h : ∀ i < n, Generates stations (tr i))
    (start : Int) : (emittedOver tr start n).map Packet.entry = (List.range n).flatMap
      fun i : Nat => (dueIn stations (start + i)).map (entryAt · (start + i)) := by
  rw [emittedOver, List.map_flatMap]
  exact List.flatMap_congr fun i hi => emitted_entries (h i (List.mem_range.mp hi)) _

theorem filter_dueIn (hr : Station.Roster stations) (hs : s ∈ stations) (round : Int) :
    (dueIn stations round).filter (fun t => t.id = s.id) =
      if round % s.period = 0 then [s] else [] := by
  have hone : stations.filter (fun t => t.id = s.id) = [s] := by
    have hcongr : ∀ t ∈ stations, decide (t.id = s.id) = decide (t = s) := fun t ht =>
      decide_eq_decide.mpr ⟨hr.id_inj ht hs, fun he => he ▸ rfl⟩
    rw [List.filter_congr hcongr, List.filter_eq, List.count_eq_one_of_mem hr.nodup hs]
    rfl
  rw [dueIn, List.filter_comm, hone, List.filter_singleton]
  simp

theorem filter_entryAt (hr : Station.Roster stations) (hs : s ∈ stations) (round : Int) :
    ((dueIn stations round).map (entryAt · round)).filter (fun e => e.station = s.id) =
      if round % s.period = 0 then [entryAt s round] else [] := by
  have hd := filter_dueIn hr hs round
  rw [List.filter_map]
  simp only [Function.comp_def, entryAt, hd]
  split_ifs <;> rfl

theorem toNat_eq_mul_packetsIn (hh : Horizon stations H) (hs : s ∈ stations) :
    H.toNat = s.period.toNat * Schedule.packetsIn H s := by
  have hp := (hh.roster.valid s hs).period
  have hc : 0 ≤ H / s.period := Int.ediv_nonneg hh.pos.le (by omega)
  rw [Schedule.packetsIn, ← Int.toNat_mul (by omega) hc, Int.mul_ediv_cancel' (hh.dvd s hs)]

theorem filter_emittedOver (hh : Horizon stations H) (hs : s ∈ stations) {tr : Nat → Traffic}
    (h : ∀ i < H.toNat, Generates stations (tr i)) (hstart : H ∣ start) :
    ((emittedOver tr start H.toNat).map Packet.entry).filter (fun e => e.station = s.id) =
      Schedule.stationPackets start H s := by
  have hp := (hh.roster.valid s hs).period
  have hperiod : (s.period.toNat : Int) = s.period := Int.toNat_of_nonneg (by omega)
  have hdue : ∀ i : Nat, (start + i) % s.period = 0 ↔ s.period.toNat ∣ i := by
    intro i
    rw [← Int.dvd_iff_emod_eq_zero, Int.dvd_add_right ((hh.dvd s hs).trans hstart), ← hperiod,
      Int.natCast_dvd_natCast, hperiod]
  have hclass : ∀ l : List Nat, (l.flatMap fun i : Nat =>
      if s.period.toNat ∣ i then [entryAt s (start + i)] else []) =
        (l.filter fun i => s.period.toNat ∣ i).map fun i : Nat => entryAt s (start + i) := by
    intro l
    induction l with
    | nil => rfl
    | cons i l ih => by_cases hi : s.period.toNat ∣ i <;> simp [hi, ih]
  rw [emittedOver_entries h, List.filter_flatMap]
  simp only [filter_entryAt hh.roster hs, hdue]
  rw [hclass, toNat_eq_mul_packetsIn hh hs, filter_dvd_range (by omega),
    Schedule.stationPackets_eq, List.map_map]
  refine List.map_congr_left fun k _ => ?_
  simp only [Function.comp_apply, entryAt, Schedule.packet, Int.natCast_mul, hperiod,
    Int.mul_comm s.period]

theorem emittedOver_perm (hh : Horizon stations H) {tr : Nat → Traffic}
    (h : ∀ i < H.toNat, Generates stations (tr i)) (hstart : H ∣ start) :
    ((emittedOver tr start H.toNat).map Packet.entry).Perm
      (Schedule.ofStations stations start H).entries := by
  have hknown : ∀ e ∈ (emittedOver tr start H.toNat).map Packet.entry,
      e.station ∈ stations.map Station.id := by
    intro e he
    rw [emittedOver_entries h] at he
    obtain ⟨i, -, he⟩ := List.mem_flatMap.mp he
    obtain ⟨t, ht, rfl⟩ := List.mem_map.mp he
    exact List.mem_map_of_mem (mem_dueIn.mp ht).1
  refine (perm_flatMap_filter hh.roster.ids_nodup hknown).trans (List.Perm.of_eq ?_)
  rw [List.flatMap_map]
  exact List.flatMap_congr fun t ht => filter_emittedOver hh ht h hstart

/-- A schedule lists these packets: each station's in their order, and no others. -/
structure Lists (stations : List Station) (H : Int) (s : Schedule) (packets : List Packet) :
    Prop where
  station : ∀ t ∈ stations, s.stationEntries t.id =
    .ok ((packets.filter fun p => p.station = t.id).map Packet.entry)
  entries : (packets.map Packet.entry).Perm s.entries
  length : packets.length = s.entries.length
  count : (packets.length : Int) = packetCount stations H

theorem lists_ofStations (hh : Horizon stations H) {tr : Nat → Traffic}
    (h : ∀ i < H.toNat, Generates stations (tr i)) (hstart : H ∣ start) :
    Lists stations H (Schedule.ofStations stations start H) (emittedOver tr start H.toNat) := by
  have hperm := emittedOver_perm hh h hstart
  have hlen := hperm.length_eq
  rw [List.length_map] at hlen
  refine ⟨fun t ht => ?_, hperm, hlen, ?_⟩
  · rw [Schedule.stationEntries, Schedule.run, Schedule.run?_ofStations hh.roster ht]
    simp only [Except.map, Schedule.slice_runOf hh.roster ht, ← filter_emittedOver hh ht h hstart,
      List.filter_map]
    rfl
  · rw [Schedule.packetCount_eq_length hh start, hlen]

/-- Schedules and traffic agree. In the rounds of the `k`-th horizon, stations that pass the check
emit the packets of the schedule that begins there, whatever happens to the traffic between two
rounds; traffic that is left alone keeps them in the order of emission. -/
theorem traffic_follows_schedule (hc : Station.checkAll stations = .ok ())
    (hH : horizonLength stations cap = .ok H) (k : Nat) :
    ∃ s, Schedule.generate stations (k * H) cap = .ok s ∧
      (∀ tr : Nat → Traffic, (∀ i < H.toNat, Generates (Station.inOrder stations) (tr i)) →
        Lists stations H s (emittedOver tr (k * H) H.toNat)) ∧
      ∀ tr, Generates (Station.inOrder stations) tr →
        ∃ packets, (generated tr (k * H) H.toNat).packets.toList = tr.packets.toList ++ packets ∧
          Lists stations H s packets := by
  obtain ⟨hne, hv, hd⟩ := Station.checkAll_eq_ok_iff.mp hc
  obtain ⟨hl, hcap⟩ := horizonLength_eq_ok_iff.mp hH
  have hpos := (lcmOfPeriods_spec hl).1
  obtain ⟨hs, hh⟩ := Schedule.generate_ok hne hv hd (Int.mul_nonneg (Int.natCast_nonneg k) hpos.le)
    hl hcap
  have hlists : ∀ tr : Nat → Traffic, (∀ i < H.toNat, Generates (Station.inOrder stations) (tr i)) →
      Lists stations H (Schedule.ofStations (Station.inOrder stations) (k * H) H)
        (emittedOver tr (k * H) H.toNat) := by
    intro tr h
    have hlist := lists_ofStations hh h (Dvd.intro_left (k : Int) rfl)
    refine ⟨fun t ht => hlist.station t (Station.mem_inOrder.mpr ht), hlist.entries, hlist.length,
      ?_⟩
    rw [hlist.count]
    exact total_perm ((Station.inOrder_perm stations).map _)
  refine ⟨_, hs, hlists, fun tr h => ⟨_, packets_generated tr _ _, hlists _ fun i _ => ?_⟩⟩
  exact h.generated _ i

theorem traffic_follows_schedule_two_stations :
    let stations : List Station := [⟨2, 1, 1, 10⟩, ⟨1, 2, 0, 5⟩]
    let tr := fresh (Station.inOrder stations)
    Station.checkAll stations = .ok () ∧ horizonLength stations 1024 = .ok 2 ∧
      ofStations stations = .ok tr ∧
      ∃ s, Schedule.generate stations (3 * 2) 1024 = .ok s ∧
        Lists stations 2 s (emittedOver (generated tr 6) 6 2) ∧
        ∃ packets, (generated tr 6 2).packets.toList = packets ∧ Lists stations 2 s packets := by
  intro stations tr
  have hc : Station.checkAll stations = .ok () := rfl
  have hH : horizonLength stations 1024 = .ok 2 := rfl
  obtain ⟨htr, hgenerates⟩ := ofStations_of_checkAll hc
  obtain ⟨s, hs, hover, hall⟩ := traffic_follows_schedule hc hH 3
  obtain ⟨packets, hpackets, hlists⟩ := hall tr hgenerates
  exact ⟨hc, hH, htr, s, hs, hover _ fun i _ => hgenerates.generated 6 i, packets, hpackets, hlists⟩

end Traffic

end Downlink
