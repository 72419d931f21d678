import Downlink.Proofs.Fault
import Downlink.Proofs.RoundRobin.Pairing
import Downlink.Proofs.Session.Queued

/-!
# Commitment in the round robin

A round looks up the entries of all that waits before it moves anything. Only a lookup can fail:
once every waiting packet has its entry in the cache, every queue that gets a turn has a packet to
send, and every packet that waits can be sent or dropped.
-/

namespace Downlink.RoundRobin

open Traffic

variable {c : Cell} {d d' : RoundRobin} {tr : Traffic} {k r : Int} {id : Nat} {ids rest : List Nat}
  {p q : Packet} {turns : List (Ru × Int)} {stations : List Station} {H : Int}

structure Prepared (d : RoundRobin) : Prop where
  ready : d.traffic.Ready
  cached : ∀ k, ∀ id ∈ d.traffic.waiting k, (d.cached? id).isSome = true

theorem Prepared.leave (h : Prepared d) (hids : ids.Sublist (d.traffic.waiting k)) (hid : id ∉ ids)
    (hp : d.traffic.packet? id = some p) (hstation : p.station = k) (hq : q.state ≠ .pending) :
    Prepared ({ d with traffic := (d.traffic.setQueue k ids).setPacket id q }.forget id) := by
  have hshort := waiting_setQueue_sublist d.traffic k ids
  have hready : ((d.traffic.setQueue k ids).setPacket id q).Ready :=
    (h.ready.shorten hids).setPacket_left hp fun hmem => hid (hshort.subset (hstation ▸ hmem))
  have hself : ((d.traffic.setQueue k ids).setPacket id q).packet? id = some q :=
    packet?_setPacket_self hp
  refine ⟨hready, fun j i hi => ?_⟩
  have hne : i ≠ id := by
    rintro rfl
    obtain ⟨q', hq', -, hpending⟩ := hready.pending j i hi
    obtain rfl := Option.some.inj (hself.symm.trans hq')
    exact hq hpending
  rw [cached?_forget_of_ne hne]
  by_cases hj : j = k
  · subst hj
    exact h.cached j i (hids.subset (hshort.subset hi))
  · exact h.cached j i (waiting_setQueue_of_ne hj ids ▸ hi)

theorem popFront_ok (h : tr.waiting k = id :: rest) :
    tr.popFront k = .ok (id, tr.setQueue k rest) := by
  rw [waiting] at h
  rw [popFront, queue]
  cases hq : tr.queue? k with
  | none =>
    rw [hq] at h
    cases h
  | some q =>
    rw [hq, Option.map_some, Option.getD_some] at h
    dsimp only
    rw [h]

theorem Prepared.send (h : Prepared d) (hne : d.traffic.waiting k ≠ []) (r : Int) (ru : Ru)
    (out : RoundAssignment) :
    ∃ out' d', RoundRobin.send r k ru out d = .ok out' d' ∧ Prepared d' ∧
      ∀ j ≠ k, d'.traffic.waiting j = d.traffic.waiting j := by
  obtain ⟨id, rest, hwaiting⟩ := List.exists_cons_of_ne_nil hne
  obtain ⟨p, hp, hstation, hpending⟩ := h.ready.pending k id (hwaiting ▸ List.mem_cons_self)
  have hnodup := h.ready.nodup k
  rw [hwaiting, List.nodup_cons] at hnodup
  have hupdate : ((d.traffic.setQueue k rest).update id fun p => p.transmit r ru) = .ok _ :=
    update_ok hp (Packet.transmit_pending hpending)
  have hsend : ∃ out', RoundRobin.send r k ru out d = .ok out' ({ d with
      traffic := (d.traffic.setQueue k rest).setPacket id { p with
        state := .transmitted
        assignedRound := some r
        txRound := some r
        ru := some ru } }.forget id) := by
    simp only [RoundRobin.send, popFront_ok hwaiting, hupdate]
    exact ⟨_, rfl⟩
  obtain ⟨out', hsend⟩ := hsend
  exact ⟨out', _, hsend, h.leave (hwaiting ▸ List.sublist_cons_self id rest) hnodup.1 hp hstation
    (by simp), fun j hj => waiting_setQueue_of_ne hj rest⟩

theorem Prepared.sendAll (h : Prepared d) (hnodup : (turns.map Prod.snd).Nodup)
    (hne : ∀ turn ∈ turns, d.traffic.waiting turn.2 ≠ []) (r : Int) (out : RoundAssignment) :
    ∃ out' d', RoundRobin.sendAll r turns out d = .ok out' d' ∧ Prepared d' := by
  induction turns generalizing out d with
  | nil => exact ⟨out, d, rfl, h⟩
  | cons turn turns ih =>
    obtain ⟨hturn, hrest⟩ := List.nodup_cons.mp hnodup
    obtain ⟨out₁, d₁, hsend, h₁, hother⟩ :=
      h.send (hne turn List.mem_cons_self) r turn.1 out
    obtain ⟨out₂, d₂, hall, h₂⟩ := ih h₁ hrest (fun turn' hmem => by
      have hdiffers : turn'.2 ≠ turn.2 := fun he => hturn (he ▸ List.mem_map_of_mem hmem)
      rw [hother _ hdiffers]
      exact hne turn' (List.mem_cons_of_mem turn hmem)) out₁
    exact ⟨out₂, d₂, by rw [RoundRobin.sendAll, hsend]; exact hall, h₂⟩

theorem Prepared.dropAll (h : Prepared d) (hids : ids.Sublist (d.traffic.waiting k)) (r : Int)
    (out : RoundAssignment) :
    ∃ out' d', RoundRobin.dropAll r k ids out d = .ok out' d' ∧ Prepared d' := by
  induction ids generalizing out d with
  | nil => exact ⟨out, d, rfl, h⟩
  | cons id ids ih =>
    obtain ⟨hid, -⟩ := List.nodup_cons.mp ((h.ready.nodup k).sublist hids)
    obtain ⟨p, hp, hstation, hpending⟩ :=
      h.ready.pending k id (hids.subset List.mem_cons_self)
    let kept := (d.traffic.waiting k).filter (· ≠ id)
    have hupdate : ((d.traffic.setQueue k kept).update id fun p => p.drop r .deadline) =
        .ok ((d.traffic.setQueue k kept).setPacket id (p.lost r .deadline)) :=
      update_ok hp (Packet.drop_ok (Or.inl hpending))
    have hkept : kept.Sublist (d.traffic.waiting k) := List.filter_sublist
    have h₁ := h.leave (q := p.lost r .deadline) hkept
      (fun hmem => by simpa using List.of_mem_filter hmem) hp hstation (by simp [Packet.lost])
    have hrest : ids.Sublist kept := by
      have hfiltered := ((List.sublist_cons_self id ids).trans hids).filter (· ≠ id)
      rwa [List.filter_eq_self.mpr fun i hi => decide_eq_true (ne_of_mem_of_not_mem hi hid)]
        at hfiltered
    obtain ⟨out₂, d₂, hall, h₂⟩ := ih h₁ (by
      show ids.Sublist ((d.traffic.setQueue k kept).waiting k)
      rwa [waiting_setQueue_filter]) { out with drops := out.drops ++ [id] }
    refine ⟨out₂, d₂, ?_, h₂⟩
    rw [RoundRobin.dropAll]
    dsimp only [forget]
    rw [hupdate]
    exact hall

theorem Prepared.purge (h : Prepared d) (r : Int) (passedOver : List Int) (k : Int)
    (out : RoundAssignment) :
    ∃ out' d', RoundRobin.purge r passedOver k out d = .ok out' d' ∧ Prepared d' := by
  have hexpired := expired_eq (h.cached k) r
  have hlate : ((d.traffic.waiting k).filter fun id =>
      (d.cached? id).any fun e => e.deadline ≤ r).Sublist (d.traffic.waiting k) :=
    List.filter_sublist
  obtain ⟨out₁, d₁, hdrop, h₁⟩ := h.dropAll hlate r out
  simp only [RoundRobin.purge, hexpired, hdrop]
  split_ifs
  · exact ⟨_, d₁, rfl, h₁⟩
  · exact ⟨_, d₁, rfl, h₁⟩

theorem Prepared.purgeAll (h : Prepared d) (r : Int) (passedOver candidates : List Int)
    (out : RoundAssignment) :
    ∃ out' d', RoundRobin.purgeAll r passedOver candidates out d = .ok out' d' ∧ Prepared d' := by
  induction candidates generalizing out d with
  | nil => exact ⟨out, d, rfl, h⟩
  | cons k candidates ih =>
    obtain ⟨out₁, d₁, hpurge, h₁⟩ := h.purge r passedOver k out
    obtain ⟨out₂, d₂, hall, h₂⟩ := ih h₁ out₁
    exact ⟨out₂, d₂, by rw [RoundRobin.purgeAll, hpurge]; exact hall, h₂⟩

/-- What the round robin relies on between calls: nothing but its stations wait for anything, and
the active schedule is one of theirs. -/
structure Orderly (c : Cell) (d : RoundRobin) : Prop where
  ready : d.traffic.Ready
  cell : d.book.cell = c
  stations : d.traffic.stations = c.stations
  order : d.order.Perm c.ids
  schedule : d.book.schedule = none ∨
    ∃ start, d.book.schedule = some (Schedule.ofStations c.stations start c.horizonRounds)

/-- A queued packet that has nothing in the cache and no entry in the active schedule. -/
def Stranded (d : RoundRobin) (p : Packet) : Prop :=
  ∃ k, ∃ id ∈ d.traffic.waiting k, d.cached? id = none ∧ d.traffic.packet? id = some p ∧
    ∀ s, d.book.schedule = some s → ∀ e ∈ s.entries,
      ¬ (e.station = p.station ∧ e.arrival = p.arrival)

/-- Everything is decided or nothing but pairs has changed; the latter if a packet is stranded. -/
structure AllOrNothing (d : RoundRobin) (x : Attempt RoundRobin RoundAssignment) : Prop where
  result : (∃ out d', x = .ok out d') ∨
    ∃ p f d', d.Stranded p ∧
      Fault.Shows [p.station, p.id, p.arrival] (.desync (.noEntry p.station p.id p.arrival)) f ∧
      x = .error f d' ∧
      d'.traffic.unpaired = d.traffic.unpaired ∧ d'.credits = d.credits ∧ d'.book = d.book
  fails_iff : (∃ f d', x = .error f d') ↔ ∃ p, d.Stranded p

theorem Orderly.mem_order (h : Orderly c d) (hne : d.traffic.waiting k ≠ []) : k ∈ d.order := by
  rw [h.order.mem_iff, Cell.ids, ← h.stations]
  cases hq : d.traffic.queue? k with
  | none =>
    rw [waiting, hq] at hne
    exact absurd rfl hne
  | some q =>
    exact List.mem_map.mpr ⟨q.station, List.mem_map_of_mem (List.mem_of_find?_eq_some hq),
      station_of_queue? hq⟩

theorem Orderly.mem_candidates (h : Orderly c d) :
    k ∈ Book.withBacklog d.traffic d.order ↔ d.traffic.waiting k ≠ [] := by
  rw [Book.withBacklog, List.mem_filter]
  simp only [Bool.not_eq_true', List.isEmpty_eq_false_iff]
  exact ⟨And.right, fun hne => ⟨h.mem_order hne, hne⟩⟩

theorem Orderly.mem_queued (h : Orderly c d) :
    id ∈ (Book.withBacklog d.traffic d.order).flatMap d.traffic.waiting ↔
      ∃ k, id ∈ d.traffic.waiting k := by
  rw [List.mem_flatMap]
  constructor
  · rintro ⟨k, -, hk⟩
    exact ⟨k, hk⟩
  · rintro ⟨k, hk⟩
    exact ⟨k, h.mem_candidates.mpr (List.ne_nil_of_mem hk), hk⟩

theorem Prepared.decide {candidates : List Int} {z : Sizing} (h : Prepared d)
    (hnodup : candidates.Nodup) (hne : ∀ k ∈ candidates, d.traffic.waiting k ≠ []) (r : Int)
    (out : RoundAssignment) :
    ∃ out₁ d₁ out₂ d₂, RoundRobin.sendAll r (z.units.zip (candidates.take z.perRound)) out d =
        .ok out₁ d₁ ∧
      RoundRobin.purgeAll r (candidates.drop z.perRound) candidates out₁ d₁ = .ok out₂ d₂ ∧
      Prepared d₂ := by
  have hturns : (z.units.zip (candidates.take z.perRound)).map Prod.snd =
      candidates.take z.perRound := by
    apply List.map_snd_zip
    rw [Sizing.units_length]
    exact List.length_take_le _ _
  obtain ⟨out₁, d₁, hsend, h₁⟩ := h.sendAll
    (hturns ▸ (List.take_sublist _ _).nodup hnodup)
    (fun turn hmem => hne _ (List.mem_of_mem_take (List.of_mem_zip hmem).2)) r out
  obtain ⟨out₂, d₂, hpurge, h₂⟩ :=
    h₁.purgeAll r (candidates.drop z.perRound) candidates out₁
  exact ⟨out₁, d₁, out₂, d₂, hsend, hpurge, h₂⟩

theorem Orderly.all_or_nothing (hc : c.Sound) (h : Orderly c d)
    (hcandidates : d.book.candidates = Book.withBacklog d.traffic d.order) (r : Int) :
    AllOrNothing d (d.assign r) := by
  have hnodup : d.book.candidates.Nodup := by
    rw [hcandidates]
    exact List.Nodup.filter _ (h.order.nodup_iff.mpr hc.horizon.roster.ids_nodup)
  have hpairing := pairAll_pairing (h.ready.exists_packet d.book.candidates)
  have hlasts := pairAll_lasts h.ready (d.book.candidates.flatMap d.traffic.waiting)
    fun id hid => by
    obtain ⟨k, -, hk⟩ := List.mem_flatMap.mp hid
    exact ⟨k, hk⟩
  generalize hpair : pairAll (d.book.candidates.flatMap d.traffic.waiting) d = x at hpairing hlasts
  have hqueued : ∀ id, id ∈ d.book.candidates.flatMap d.traffic.waiting ↔
      ∃ k, id ∈ d.traffic.waiting k := fun id => hcandidates ▸ h.mem_queued
  cases hpairing with
  | @paired d₁ pairs cached noted =>
    have hwaiting := waiting_of_unpaired pairs.traffic
    have hprepared : Prepared d₁ :=
      ⟨hlasts.2, fun k id hid => cached id ((hqueued id).mpr ⟨k, hwaiting k ▸ hid⟩)⟩
    obtain ⟨out₂, d₂, out₃, d₃, hsend, hpurge, -⟩ := hprepared.decide (z := d.book.cell.sizing)
      hnodup (fun k hk => by
        rw [hwaiting]
        exact h.mem_candidates.mp (hcandidates ▸ hk)) r (.empty r d.book.cell.sizing.ruType)
    have hassign : ∃ d', d.assign r = .ok out₃ d' := by
      simp only [assign, hpair, hsend, hpurge]
      exact ⟨_, rfl⟩
    obtain ⟨d', hassign⟩ := hassign
    refine ⟨Or.inl ⟨out₃, d', hassign⟩, iff_of_false (fun hfails => ?_) fun hstranded => ?_⟩
    · obtain ⟨f, d'', hf⟩ := hfails
      cases hassign.symm.trans hf
    · obtain ⟨p, k, id, hid, hentry, hp, hnone⟩ := hstranded
      obtain ⟨i, e, hlook, -⟩ := noted id ((hqueued id).mpr ⟨k, hid⟩) p hentry hp
      rw [(lookUp_eq_none hc.horizon h.schedule p).mpr hnone] at hlook
      cases hlook
  | @lost d₁ id p pairs hid hentry hp hlook =>
    have hassign : d.assign r = .error (.showing [p.station, p.id, p.arrival]
        (.desync (.noEntry p.station p.id p.arrival))) d₁ := by
      simp only [assign, hpair]
    obtain ⟨k, hk⟩ := (hqueued id).mp hid
    have hstranded : d.Stranded p :=
      ⟨k, id, hk, hentry, hp, (lookUp_eq_none hc.horizon h.schedule p).mp hlook⟩
    refine ⟨Or.inr ⟨p, _, d₁, hstranded, Fault.shows_desync _ _, hassign, pairs.traffic, ?_, ?_⟩,
      iff_of_true ⟨_, d₁, hassign⟩ ⟨p, hstranded⟩⟩
    · rw [pairs.same]
    · rw [pairs.same]

end Downlink.RoundRobin
