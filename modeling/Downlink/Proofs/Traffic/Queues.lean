import Downlink.Proofs.Traffic.Emission

/-!
# Queues

What the operations on traffic do to the queues and to the packets, and what they leave alone. A
station's part of the traffic is described by the shape of its packets and by which of them are
still queued, both as functions of the arrival round.
-/

namespace Downlink.Traffic

variable {tr tr' : Traffic} {stations : List Station} {s t : Station} {ids : List Nat}
  {k j : Int} {n id : Nat} {p q : Packet}

@[simp]
theorem packet?_setQueue (tr : Traffic) (k : Int) (ids : List Nat) (id : Nat) :
    (tr.setQueue k ids).packet? id = tr.packet? id := rfl

@[simp]
theorem packets_setQueue (tr : Traffic) (k : Int) (ids : List Nat) :
    (tr.setQueue k ids).packets = tr.packets := rfl

@[simp]
theorem generating_setQueue (tr : Traffic) (k : Int) (ids : List Nat) :
    (tr.setQueue k ids).generating = tr.generating := rfl

@[simp]
theorem stations_setQueue (tr : Traffic) (k : Int) (ids : List Nat) :
    (tr.setQueue k ids).stations = tr.stations := by
  simp only [stations, setQueue, List.map_map]
  apply List.map_congr_left
  intro q _
  simp only [Function.comp_apply]
  split_ifs <;> rfl

theorem queue?_setQueue (tr : Traffic) (k j : Int) (ids : List Nat) :
    (tr.setQueue k ids).queue? j =
      (tr.queue? j).map fun q => if q.station.id = k then { q with ids := ids } else q := by
  simp only [queue?, setQueue, List.find?_map]
  congr 2
  funext q
  simp only [Function.comp_apply]
  split_ifs <;> rfl

theorem station_of_queue? {q : Queue} (h : tr.queue? k = some q) : q.station.id = k :=
  of_decide_eq_true (List.find?_some (p := fun q : Queue => decide (q.station.id = k)) h)

theorem exists_queue? (hs : s ∈ tr.stations) : ∃ q, tr.queue? s.id = some q := by
  obtain ⟨q, hq, rfl⟩ := List.mem_map.mp hs
  rw [← Option.isSome_iff_exists, queue?, List.find?_isSome]
  exact ⟨q, hq, by simp⟩

theorem waiting_setQueue_self (hs : s ∈ tr.stations) (ids : List Nat) :
    (tr.setQueue s.id ids).waiting s.id = ids := by
  obtain ⟨q, hq⟩ := exists_queue? hs
  rw [waiting, queue?_setQueue, hq]
  simp [station_of_queue? hq]

theorem waiting_setQueue_sublist (tr : Traffic) (k : Int) (ids : List Nat) :
    ((tr.setQueue k ids).waiting k).Sublist ids := by
  cases hq : tr.queue? k with
  | none =>
    rw [waiting, queue?_setQueue, hq]
    exact List.nil_sublist ids
  | some q =>
    obtain rfl := station_of_queue? hq
    rw [waiting_setQueue_self (List.mem_map_of_mem (List.mem_of_find?_eq_some hq))]

theorem waiting_setQueue_of_ne (h : j ≠ k) (ids : List Nat) :
    (tr.setQueue k ids).waiting j = tr.waiting j := by
  rw [waiting, waiting, queue?_setQueue]
  cases hq : tr.queue? j with
  | none => rfl
  | some q =>
    have hj := station_of_queue? hq
    simp [hj, h]

@[simp]
theorem waiting_setPacket (tr : Traffic) (id : Nat) (p : Packet) (k : Int) :
    (tr.setPacket id p).waiting k = tr.waiting k := rfl

@[simp]
theorem stations_setPacket (tr : Traffic) (id : Nat) (p : Packet) :
    (tr.setPacket id p).stations = tr.stations := rfl

@[simp]
theorem generating_setPacket (tr : Traffic) (id : Nat) (p : Packet) :
    (tr.setPacket id p).generating = tr.generating := rfl

@[simp]
theorem size_setPacket (tr : Traffic) (id : Nat) (p : Packet) :
    (tr.setPacket id p).packets.size = tr.packets.size := by
  simp [setPacket]

theorem packet?_setPacket_self (h : tr.packet? id = some p) :
    (tr.setPacket id q).packet? id = some q := by
  obtain ⟨hlt, -⟩ := Array.getElem?_eq_some_iff.mp h
  rw [packet?, setPacket, Array.getElem?_setIfInBounds_self_of_lt hlt]

theorem packet?_setPacket_of_ne {i : Nat} (h : i ≠ id) :
    (tr.setPacket id q).packet? i = tr.packet? i := by
  rw [packet?, setPacket, Array.getElem?_setIfInBounds_ne (Ne.symm h), packet?]

theorem setPacket_self (h : tr.packet? id = some p) : tr.setPacket id p = tr := by
  obtain ⟨hlt, rfl⟩ := Array.getElem?_eq_some_iff.mp h
  rw [setPacket, Array.setIfInBounds_def, dif_pos hlt, Array.set_getElem_self]

theorem update_ok {step : Packet → Except Fault Packet} (h : tr.packet? id = some p)
    (hstep : step p = .ok q) : tr.update id step = .ok (tr.setPacket id q) := by
  simp only [update, h, hstep]
  rfl

structure Apart (stations : List Station) (n : Nat) (s : Station) (tr tr' : Traffic) : Prop where
  served : tr'.stations = tr.stations
  generating : tr'.generating = tr.generating
  size : tr'.packets.size = tr.packets.size
  waiting : ∀ t ∈ stations, t ≠ s → tr'.waiting t.id = tr.waiting t.id
  packet : ∀ t ∈ stations, t ≠ s → ∀ a ∈ arrivals t n,
    tr'.packet? (idOf stations t a) = tr.packet? (idOf stations t a)

theorem Apart.refl (stations : List Station) (n : Nat) (s : Station) (tr : Traffic) :
    Apart stations n s tr tr where
  served := rfl
  generating := rfl
  size := rfl
  waiting _ _ _ := rfl
  packet _ _ _ _ _ := rfl

theorem Apart.trans {tr'' : Traffic} (h₁ : Apart stations n s tr tr')
    (h₂ : Apart stations n s tr' tr'') : Apart stations n s tr tr'' where
  served := h₂.served.trans h₁.served
  generating := h₂.generating.trans h₁.generating
  size := h₂.size.trans h₁.size
  waiting t ht hne := (h₂.waiting t ht hne).trans (h₁.waiting t ht hne)
  packet t ht hne a ha := (h₂.packet t ht hne a ha).trans (h₁.packet t ht hne a ha)

theorem Apart.setQueue (hr : Station.Roster stations) (hs : s ∈ stations) (n : Nat)
    (tr : Traffic) (ids : List Nat) : Apart stations n s tr (tr.setQueue s.id ids) where
  served := stations_setQueue tr s.id ids
  generating := rfl
  size := rfl
  waiting _ ht hne := waiting_setQueue_of_ne (fun he => hne (hr.id_inj ht hs he)) ids
  packet _ _ _ _ _ := rfl

theorem Apart.setPacket (hs : s ∈ stations) {a : Int} (ha : a ∈ arrivals s n) (tr : Traffic)
    (q : Packet) : Apart stations n s tr (tr.setPacket (idOf stations s a) q) where
  served := rfl
  generating := rfl
  size := size_setPacket tr _ q
  waiting _ _ _ := rfl
  packet _ ht hne _ hb :=
    packet?_setPacket_of_ne fun he => hne (idOf_inj ht hb hs ha he).1

/-- The packets of a station from the first `n` rounds have the given shape, and its queue holds the
live ones in order of arrival. -/
structure Holds (tr : Traffic) (stations : List Station) (n : Nat) (s : Station)
    (shape : Int → Packet → Prop) (live : Int → Bool) : Prop where
  packet : ∀ a ∈ arrivals s n, ∃ p, tr.packet? (idOf stations s a) = some p ∧ shape a p
  queue : tr.waiting s.id = ((arrivals s n).filter live).map (idOf stations s)

section Holds

variable {shape shape' : Int → Packet → Prop} {live live' : Int → Bool} {a : Int}

theorem Holds.apart (h : Holds tr stations n t shape live) (ha : Apart stations n s tr tr')
    (ht : t ∈ stations) (hne : t ≠ s) : Holds tr' stations n t shape live where
  packet b hb := by
    rw [ha.packet t ht hne b hb]
    exact h.packet b hb
  queue := (ha.waiting t ht hne).trans h.queue

theorem Holds.imp (h : Holds tr stations n s shape live)
    (hshape : ∀ a ∈ arrivals s n, ∀ p, shape a p → shape' a p)
    (hlive : ∀ a ∈ arrivals s n, live a = live' a) : Holds tr stations n s shape' live' where
  packet a ha := by
    obtain ⟨p, hp, hsh⟩ := h.packet a ha
    exact ⟨p, hp, hshape a ha p hsh⟩
  queue := by
    rw [h.queue, List.filter_congr hlive]

theorem Holds.setPacket (h : Holds tr stations n s shape live) (hs : s ∈ stations)
    (ha : a ∈ arrivals s n) (hq : shape' a q)
    (hother : ∀ b ∈ arrivals s n, b ≠ a → ∀ p, shape b p → shape' b p) :
    Holds (tr.setPacket (idOf stations s a) q) stations n s shape' live where
  packet b hb := by
    by_cases hba : b = a
    · subst hba
      obtain ⟨p, hp, -⟩ := h.packet b hb
      exact ⟨q, packet?_setPacket_self hp, hq⟩
    · obtain ⟨p, hp, hsh⟩ := h.packet b hb
      have hid : idOf stations s b ≠ idOf stations s a :=
        fun he => hba (idOf_inj hs hb hs ha he).2
      exact ⟨p, (packet?_setPacket_of_ne hid).trans hp, hother b hb hba p hsh⟩
  queue := h.queue

theorem Holds.setQueue (h : Holds tr stations n s shape live) (hs : s ∈ tr.stations)
    (hids : ids = ((arrivals s n).filter live').map (idOf stations s)) :
    Holds (tr.setQueue s.id ids) stations n s shape live' where
  packet := h.packet
  queue := (waiting_setQueue_self hs ids).trans hids

theorem filter_idOf_ne (hs : s ∈ stations) (ha : a ∈ arrivals s n) :
    (((arrivals s n).filter live).map (idOf stations s)).filter (· ≠ idOf stations s a) =
      ((arrivals s n).filter fun b => live b && b ≠ a).map (idOf stations s) := by
  rw [List.filter_map, List.filter_filter]
  congr 1
  refine List.filter_congr fun b hb => ?_
  have hid : idOf stations s b = idOf stations s a ↔ b = a :=
    ⟨fun he => (idOf_inj hs hb hs ha he).2, fun he => he ▸ rfl⟩
  simp only [Function.comp_apply, ne_eq, hid, Bool.and_comm]

theorem Holds.resolve (h : Holds tr stations n s shape live) (hs : s ∈ stations)
    (hst : tr.stations = stations) (ha : a ∈ arrivals s n) (hq : shape' a q)
    (hother : ∀ b ∈ arrivals s n, b ≠ a → ∀ p, shape b p → shape' b p) :
    Holds ((tr.setQueue s.id ((tr.waiting s.id).filter (· ≠ idOf stations s a))).setPacket
      (idOf stations s a) q) stations n s shape' fun b => live b && b ≠ a := by
  have hids : (tr.waiting s.id).filter (· ≠ idOf stations s a) =
      ((arrivals s n).filter fun b => live b && b ≠ a).map (idOf stations s) := by
    rw [h.queue, filter_idOf_ne hs ha]
  exact (h.setQueue (hst ▸ hs) hids).setPacket hs ha hq hother

end Holds

theorem emitFrom_stations (tr : Traffic) (s : Station) (round : Int) :
    (tr.emitFrom s round).stations = tr.stations :=
  stations_setQueue tr s.id _

theorem packet?_emitFrom (tr : Traffic) (s : Station) (round : Int) (id : Nat) :
    (tr.emitFrom s round).packet? id =
      if id = tr.packets.size then some (arriving s id round) else tr.packet? id := by
  simp only [emitFrom, packet?, packets_setQueue, Array.getElem?_push]
  split_ifs with h
  · rw [h]
  · rfl

theorem waiting_emitFrom_self (hs : s ∈ tr.stations) (round : Int) :
    (tr.emitFrom s round).waiting s.id = tr.waiting s.id ++ [tr.packets.size] :=
  waiting_setQueue_self hs _

theorem waiting_emitFrom_of_ne (h : k ≠ s.id) (round : Int) :
    (tr.emitFrom s round).waiting k = tr.waiting k :=
  waiting_setQueue_of_ne h _

structure Emitted (stations rest : List Station) (n : Nat) (tr tr' : Traffic) : Prop where
  served : tr'.stations = tr.stations
  generating : tr'.generating = tr.generating
  size : tr'.packets.size = tr.packets.size + rest.length
  old : ∀ id < tr.packets.size, tr'.packet? id = tr.packet? id
  new : ∀ s ∈ rest, tr'.packet? (idOf stations s n) = some (arriving s (idOf stations s n) n)
  waiting : ∀ s ∈ stations, tr'.waiting s.id =
    tr.waiting s.id ++ if s ∈ rest then [idOf stations s n] else []

theorem emitAll_emitted (hr : Station.Roster stations) {before rest : List Station}
    (hdue : dueIn stations n = before ++ rest) (hst : tr.stations = stations)
    (hsize : tr.packets.size = (emissions stations n).length + before.length) :
    Emitted stations rest n tr (tr.emitAll n rest) := by
  have hnodup : stations.Nodup := List.Nodup.of_map Station.id hr.ids_nodup
  induction rest generalizing tr before with
  | nil =>
    refine ⟨rfl, rfl, rfl, fun _ _ => rfl, fun s hs => ?_, fun s _ => ?_⟩
    · cases hs
    · rw [if_neg List.not_mem_nil, List.append_nil, emitAll]
  | cons s rest ih =>
    have hs : s ∈ stations := (mem_dueIn.mp (hdue ▸ List.mem_append_right _ List.mem_cons_self)).1
    have hid : idOf stations s n = tr.packets.size := (idOf_due hnodup hdue).trans hsize.symm
    have hdn : (before ++ s :: rest).Nodup := hdue ▸ hnodup.filter _
    have hsr : s ∉ rest := (List.nodup_cons.mp (List.nodup_append.mp hdn).2.1).1
    have hsize' : (tr.emitFrom s n).packets.size = tr.packets.size + 1 := by
      simp [emitFrom]
    have hdue' : dueIn stations n = (before ++ [s]) ++ rest := by
      rw [hdue, List.append_assoc]
      rfl
    have hrest := ih hdue' ((emitFrom_stations tr s n).trans hst)
      (by rw [hsize', hsize, List.length_append, List.length_singleton, Nat.add_assoc])
    refine ⟨?_, hrest.generating, ?_, ?_, ?_, ?_⟩
    · rw [emitAll, hrest.served, emitFrom_stations]
    · rw [emitAll, hrest.size, hsize', List.length_cons]
      omega
    · intro id hlt
      rw [emitAll, hrest.old id (by omega), packet?_emitFrom, if_neg hlt.ne]
    · intro t ht
      rcases List.mem_cons.mp ht with rfl | ht
      · rw [emitAll, hrest.old _ (by omega), packet?_emitFrom, if_pos hid]
      · exact hrest.new t ht
    · intro t ht
      rw [emitAll, hrest.waiting t ht]
      by_cases hts : t = s
      · subst hts
        rw [waiting_emitFrom_self (hst ▸ ht), if_neg hsr, if_pos List.mem_cons_self, hid,
          List.append_nil]
      · have hne : t.id ≠ s.id := fun he => hts (hr.id_inj ht hs he)
        rw [waiting_emitFrom_of_ne hne]
        simp only [List.mem_cons, hts, false_or]

theorem due_eq (hst : tr.stations = stations) (hg : tr.generating = true) (round : Int) :
    tr.due round = dueIn stations round := by
  rw [due, hg, hst]
  rfl

theorem length_emissions_succ (stations : List Station) (n : Nat) :
    (emissions stations (n + 1)).length =
      (emissions stations n).length + (dueIn stations n).length := by
  rw [emissions_succ, List.length_append, List.length_map]

theorem generate_emitted (hr : Station.Roster stations) (hst : tr.stations = stations)
    (hg : tr.generating = true) (hsize : tr.packets.size = (emissions stations n).length) :
    Emitted stations (dueIn stations n) n tr (tr.generate n).2 := by
  rw [generate, due_eq hst hg]
  have hdue : dueIn stations n = [] ++ dueIn stations n := rfl
  exact emitAll_emitted hr hdue hst hsize

theorem Holds.generate {shape : Int → Packet → Prop} {live : Int → Bool}
    (h : Holds tr stations n s shape live) (hr : Station.Roster stations)
    (hs : s ∈ stations) (hst : tr.stations = stations) (hg : tr.generating = true)
    (hsize : tr.packets.size = (emissions stations n).length) :
    Holds (tr.generate n).2 stations (n + 1) s
      (fun a p => if a = n then p = arriving s (idOf stations s n) n else shape a p)
      (fun a => if a = n then true else live a) := by
  have he := generate_emitted hr hst hg hsize
  have hlast : ∀ a ∈ arrivals s n, a ≠ n := by
    intro a ha
    have := (mem_arrivals.mp ha).1
    omega
  constructor
  · intro a ha
    by_cases han : a = n
    · subst han
      have hdue := mem_dueIn.mpr ⟨hs, (mem_arrivals.mp ha).2⟩
      exact ⟨_, he.new s hdue, by rw [if_pos rfl]⟩
    · have ha' : a ∈ arrivals s n := by
        have := mem_arrivals.mp ha
        exact mem_arrivals.mpr ⟨by omega, this.2⟩
      obtain ⟨p, hp, hsh⟩ := h.packet a ha'
      refine ⟨p, ?_, by rwa [if_neg han]⟩
      rw [he.old _ (hsize ▸ idOf_lt hs ha')]
      exact hp
  · have hfilter : (arrivals s n).filter (fun a : Int => if a = n then true else live a) =
        (arrivals s n).filter live := by
      refine List.filter_congr fun a ha => ?_
      rw [if_neg (hlast a ha)]
    rw [he.waiting s hs, h.queue, arrivals_succ, List.filter_append, hfilter, List.map_append]
    congr 1
    by_cases hdue : (n : Int) % s.period = 0
    · rw [if_pos hdue, if_pos (mem_dueIn.mpr ⟨hs, hdue⟩)]
      simp
    · rw [if_neg hdue, if_neg fun hm => hdue (mem_dueIn.mp hm).2]
      rfl

theorem packets_eq (hd : stations.Nodup) (h : tr.packets.size = (emissions stations n).length) :
    tr.packets.toList.map some =
      (emissions stations n).map fun e => tr.packet? (idOf stations e.1 e.2) := by
  apply List.ext_getElem
  · simpa using h
  · intro id hid hid'
    rw [List.length_map] at hid hid'
    have hsame : idOf stations (emissions stations n)[id].1 (emissions stations n)[id].2 = id :=
      idOf_of_getElem? hd (List.getElem?_eq_getElem hid')
    rw [List.getElem_map, List.getElem_map, hsame, packet?, ← Array.getElem?_toList,
      List.getElem?_eq_getElem hid]

theorem map_packets {β : Type} {f : Packet → β} {g : Station → Int → β} (hd : stations.Nodup)
    (hsize : tr.packets.size = (emissions stations n).length)
    (h : ∀ s ∈ stations, ∀ a ∈ arrivals s n, ∃ p, tr.packet? (idOf stations s a) = some p ∧
      f p = g s a) :
    tr.packets.toList.map f = (emissions stations n).map fun e => g e.1 e.2 := by
  apply List.map_injective_iff.mpr (Option.some_injective β)
  have hp := congrArg (List.map (Option.map f)) (packets_eq hd hsize)
  simp only [List.map_map] at hp ⊢
  refine hp.trans (List.map_congr_left fun e he => ?_)
  obtain ⟨hs, ha⟩ := mem_emissions.mp he
  obtain ⟨p, hp, hf⟩ := h e.1 hs e.2 ha
  simp only [Function.comp_apply, hp, Option.map_some, hf]

theorem exists_emission (hd : stations.Nodup)
    (h : tr.packets.size = (emissions stations n).length) (hp : p ∈ tr.packets.toList) :
    ∃ s ∈ stations, ∃ a ∈ arrivals s n, tr.packet? (idOf stations s a) = some p := by
  have hmem := List.mem_map_of_mem (f := some) hp
  rw [packets_eq hd h] at hmem
  obtain ⟨e, he, hpacket⟩ := List.mem_map.mp hmem
  obtain ⟨hs, ha⟩ := mem_emissions.mp he
  exact ⟨e.1, hs, e.2, ha, hpacket⟩

def fresh (stations : List Station) : Traffic := ⟨stations.map (⟨·, []⟩), #[], true⟩

theorem ofStations_eq_ok (h : ofStations stations = .ok tr) :
    tr = fresh (Station.inOrder stations) := by
  unfold ofStations at h
  dsimp only at h
  cases hc : Station.checkAll (Station.inOrder stations) with
  | error fault =>
    rw [hc] at h
    cases h
  | ok _ =>
    rw [hc] at h
    exact (Except.ok.inj h).symm

theorem stations_fresh (stations : List Station) : (fresh stations).stations = stations := by
  simp [fresh, Traffic.stations, Function.comp_def]

theorem waiting_fresh (stations : List Station) (k : Int) : (fresh stations).waiting k = [] := by
  rw [waiting, queue?, fresh, List.find?_map]
  cases stations.find? _ <;> rfl

theorem hasBacklog_stop_fresh (stations : List Station) :
    (fresh stations).stop.hasBacklog = false := by
  simp [fresh, stop, hasBacklog]

theorem stationIds_eq (tr : Traffic) : tr.stationIds = tr.stations.map Station.id := by
  rw [stationIds, Traffic.stations, List.map_map]
  rfl

theorem waiting_of_not_hasBacklog (h : tr.hasBacklog = false) (k : Int) : tr.waiting k = [] := by
  rw [waiting]
  cases hq : tr.queue? k with
  | none => rfl
  | some q =>
    have hmem : q ∈ tr.queues := List.mem_of_find?_eq_some hq
    rw [hasBacklog, List.any_eq_false] at h
    simpa using h q hmem

theorem queue?_of_mem (hr : Station.Roster tr.stations) {q : Queue} (hq : q ∈ tr.queues) :
    tr.queue? q.station.id = some q := by
  obtain ⟨q', hq'⟩ := exists_queue? (List.mem_map_of_mem hq : q.station ∈ tr.stations)
  have hids : (tr.queues.map fun q => q.station.id).Nodup := by
    have := hr.ids_nodup
    rwa [Traffic.stations, List.map_map] at this
  obtain rfl : q' = q :=
    List.inj_on_of_nodup_map hids (List.mem_of_find?_eq_some hq') hq (station_of_queue? hq')
  exact hq'

theorem waiting_of_mem (hr : Station.Roster tr.stations) {q : Queue} (hq : q ∈ tr.queues) :
    tr.waiting q.station.id = q.ids := by
  rw [waiting, queue?_of_mem hr hq]
  rfl

theorem hasBacklog_eq_false (hr : Station.Roster tr.stations)
    (h : ∀ s ∈ tr.stations, tr.waiting s.id = []) : tr.hasBacklog = false := by
  rw [hasBacklog, List.any_eq_false]
  intro q hq
  rw [← waiting_of_mem hr hq, h _ (List.mem_map_of_mem hq)]
  simp

end Downlink.Traffic
