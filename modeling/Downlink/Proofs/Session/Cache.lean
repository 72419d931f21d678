import Downlink.Proofs.Session.Rounds
import Downlink.Proofs.Traffic.Horizon

/-!
# The cache of the round robin

Whatever was asked before, nothing stays in the cache that does not wait, and what is cached of a
packet is what the packet itself says. After a round that follows a selection nothing waits without
an entry.
-/

namespace Downlink

open Traffic

def Packet.Native (stations : List Station) (p : Packet) : Prop :=
  ∃ s ∈ stations, p.entry = entryAt s p.arrival

namespace RoundRobin

variable {stations : List Station} {c : Cell} {d d' : RoundRobin} {tr : Traffic} {k r : Int}
  {id i : Nat} {ids late : List Nat} {p q : Packet} {e : Entry} {H start : Int}

/-- The cache holds entries of waiting packets only, one for each, with what its packet says. -/
structure Cached (stations : List Station) (d : RoundRobin) : Prop where
  ready : d.traffic.Ready
  native : ∀ id p, d.traffic.packet? id = some p → p.Native stations
  keys : (d.entries.map Prod.fst).Nodup
  waiting : ∀ x ∈ d.entries, ∃ k, x.1 ∈ d.traffic.waiting k
  own : ∀ x ∈ d.entries, ∃ p, d.traffic.packet? x.1 = some p ∧ x.2 = p.entry

theorem cached?_isSome : (d.cached? id).isSome = true ↔ id ∈ d.entries.map Prod.fst := by
  simp [cached?, List.find?_isSome]

theorem Cached.of_eq (h : Cached stations d) (htr : d'.traffic = d.traffic)
    (hentries : d'.entries = d.entries) : Cached stations d' where
  ready := htr ▸ h.ready
  native := htr ▸ h.native
  keys := hentries ▸ h.keys
  waiting := by
    rw [hentries, htr]
    exact h.waiting
  own := by
    rw [hentries, htr]
    exact h.own

theorem Cached.withTraffic (h : Cached stations d) (hready : tr.Ready)
    (hnative : ∀ id p, tr.packet? id = some p → p.Native stations)
    (hwaiting : ∀ k, ∀ id ∈ d.traffic.waiting k, id ∈ tr.waiting k)
    (hold : ∀ id p, d.traffic.packet? id = some p →
      ∃ q, tr.packet? id = some q ∧ q.entry = p.entry) :
    Cached stations { d with traffic := tr } where
  ready := hready
  native := hnative
  keys := h.keys
  waiting x hx := by
    obtain ⟨k, hk⟩ := h.waiting x hx
    exact ⟨k, hwaiting k x.1 hk⟩
  own x hx := by
    obtain ⟨p, hp, he⟩ := h.own x hx
    obtain ⟨q, hq, hsame⟩ := hold x.1 p hp
    exact ⟨q, hq, he.trans hsame.symm⟩

theorem native_setPacket (tr : Traffic) (h : ∀ id p, tr.packet? id = some p → p.Native stations)
    (hp : tr.packet? id = some p) (hq : q.entry = p.entry) :
    ∀ i r, (tr.setPacket id q).packet? i = some r → r.Native stations := by
  intro i r hr
  by_cases hi : i = id
  · subst hi
    obtain rfl := Option.some.inj ((packet?_setPacket_self hp).symm.trans hr)
    obtain ⟨s, hs, he⟩ := h i p hp
    have harrival : q.arrival = p.arrival := congrArg Entry.arrival hq
    exact ⟨s, hs, by rw [hq, he, harrival]⟩
  · exact h i r ((packet?_setPacket_of_ne hi).symm.trans hr)

theorem exists_setPacket (tr : Traffic) (hp : tr.packet? id = some p) (hq : q.entry = p.entry) :
    ∀ i r, tr.packet? i = some r → ∃ r', (tr.setPacket id q).packet? i = some r' ∧
      r'.entry = r.entry := by
  intro i r hr
  by_cases hi : i = id
  · subst hi
    obtain rfl := Option.some.inj (hp.symm.trans hr)
    exact ⟨q, packet?_setPacket_self hp, hq⟩
  · exact ⟨r, (packet?_setPacket_of_ne hi).trans hr, rfl⟩

theorem entry_of_lookUp (h : Horizon stations H)
    (hsch : d.book.schedule = none ∨
      ∃ start, d.book.schedule = some (Schedule.ofStations stations start H))
    (hp : p.Native stations) (hlook : d.lookUp p = some (i, e)) : e = p.entry := by
  rcases hsch with hnone | ⟨start, hsch⟩
  · simp [lookUp, hnone] at hlook
  obtain ⟨he, hstation, harrival⟩ := (lookUp_eq_some h hsch p i e).mp hlook
  obtain ⟨s, hs, hentry⟩ := hp
  obtain ⟨t, ht, l, -, -, rfl⟩ := Schedule.exists_packet h.roster he
  have hid : t.id = s.id := hstation.trans (congrArg Entry.station hentry)
  obtain rfl := h.roster.id_inj ht hs hid
  rw [hentry, ← harrival]
  rfl

theorem Cached.note (h : Cached stations d) (hid : id ∈ d.traffic.waiting k)
    (hnone : d.cached? id = none) (hp : d.traffic.packet? id = some p) (he : e = p.entry)
    (i : Nat) :
    Cached stations (d.note id p i e) := by
  have hsame : (d.marked i p).entry = p.entry := rfl
  have hold := exists_setPacket d.traffic hp hsame
  refine ⟨h.ready.setPacket hp rfl rfl, native_setPacket d.traffic h.native hp hsame, ?_, ?_, ?_⟩
  · have hnew : id ∉ d.entries.map Prod.fst := by
      rw [← cached?_isSome, hnone]
      exact Bool.false_ne_true
    show ((d.entries ++ [(id, e)]).map Prod.fst).Nodup
    rw [List.map_append, List.map_singleton]
    exact h.keys.append (List.nodup_singleton id) (List.disjoint_singleton.mpr hnew)
  · intro x hx
    rcases List.mem_append.mp hx with hx | hx
    · exact h.waiting x hx
    · rw [List.mem_singleton.mp hx]
      exact ⟨k, hid⟩
  · intro x hx
    rcases List.mem_append.mp hx with hx | hx
    · obtain ⟨q, hq, hown⟩ := h.own x hx
      obtain ⟨q', hq', hkept⟩ := hold x.1 q hq
      exact ⟨q', hq', hown.trans hkept.symm⟩
    · rw [List.mem_singleton.mp hx]
      exact ⟨_, packet?_setPacket_self hp, he⟩

theorem Cached.pair (hH : Horizon stations H) (hsch : d.book.schedule = none ∨
      ∃ start, d.book.schedule = some (Schedule.ofStations stations start H))
    (h : Cached stations d) (hid : id ∈ d.traffic.waiting k) :
    Cached stations (pair id d).state ∧ (pair id d).state.book = d.book ∧
      ∀ j, (pair id d).state.traffic.waiting j = d.traffic.waiting j := by
  obtain ⟨p, hp, -⟩ := h.ready.pending k id hid
  cases hentry : d.cached? id with
  | some e =>
    rw [pair_cached (hentry ▸ rfl)]
    exact ⟨h, rfl, fun _ => rfl⟩
  | none =>
    cases hlook : d.lookUp p with
    | none =>
      rw [pair_lost hentry hp hlook]
      exact ⟨h, rfl, fun _ => rfl⟩
    | some x =>
      obtain ⟨i, e⟩ := x
      rw [pair_note hentry hp hlook]
      have he := entry_of_lookUp hH hsch (h.native id p hp) hlook
      exact ⟨h.note hid hentry hp he i, rfl, fun _ => rfl⟩

theorem Cached.pairAll (hH : Horizon stations H) (hsch : d.book.schedule = none ∨
      ∃ start, d.book.schedule = some (Schedule.ofStations stations start H))
    (h : Cached stations d) (hids : ∀ id ∈ ids, ∃ k, id ∈ d.traffic.waiting k) :
    Cached stations (pairAll ids d).state := by
  induction ids generalizing d with
  | nil => exact h
  | cons id ids ih =>
    obtain ⟨k, hk⟩ := hids id List.mem_cons_self
    obtain ⟨h₁, hbook, hwaiting⟩ := h.pair hH hsch hk
    rw [RoundRobin.pairAll]
    split
    · rename_i hx
      rwa [hx] at h₁
    · rename_i d₁ hx
      rw [hx] at h₁ hbook hwaiting
      refine ih (hbook.symm ▸ hsch) h₁ fun i hi => ?_
      obtain ⟨j, hj⟩ := hids i (List.mem_cons_of_mem id hi)
      exact ⟨j, (hwaiting j).symm ▸ hj⟩

theorem Cached.leave (h : Cached stations d) (hp : d.traffic.packet? id = some p)
    (hstation : p.station = k) (hq : q.entry = p.entry) :
    let kept := (d.traffic.waiting k).filter (· ≠ id)
    Cached stations
      ({ d with traffic := (d.traffic.setQueue k kept).setPacket id q }.forget id) := by
  intro kept
  have hkept : (d.traffic.setQueue k kept).waiting k = kept := waiting_setQueue_filter _ _ _
  have hleft : id ∉ (d.traffic.setQueue k kept).waiting p.station := by
    rw [hstation, hkept]
    exact fun hmem => by simpa using List.of_mem_filter hmem
  have hsub : (d.entries.filter fun x => x.1 ≠ id).Sublist d.entries := List.filter_sublist
  refine ⟨(h.ready.shorten List.filter_sublist).setPacket_left hp hleft,
    native_setPacket (d.traffic.setQueue k kept) h.native hp hq,
    h.keys.sublist (hsub.map Prod.fst), fun x hx => ?_, fun x hx => ?_⟩
  · obtain ⟨hmem, hne⟩ := List.mem_filter.mp hx
    obtain ⟨j, hj⟩ := h.waiting x hmem
    refine ⟨j, ?_⟩
    show x.1 ∈ (d.traffic.setQueue k kept).waiting j
    by_cases hjk : j = k
    · subst hjk
      rw [hkept]
      exact List.mem_filter.mpr ⟨hj, hne⟩
    · rwa [waiting_setQueue_of_ne hjk]
  · obtain ⟨p', hp', hown⟩ := h.own x (hsub.subset hx)
    obtain ⟨q', hq', hsame⟩ :=
      exists_setPacket (d.traffic.setQueue k kept) hp hq x.1 p' hp'
    exact ⟨q', hq', hown.trans hsame.symm⟩

theorem Cached.send (h : Cached stations d) (r k : Int) (ru : Ru) (out : RoundAssignment) :
    Cached stations (send r k ru out d).state := by
  unfold RoundRobin.send
  split
  · exact h
  rename_i id tr hpop
  obtain ⟨rest, hwaiting, rfl⟩ := of_popFront hpop
  obtain ⟨p, hp, hstation, hpending⟩ := h.ready.pending k id (hwaiting ▸ List.mem_cons_self)
  have hrest : (d.traffic.waiting k).filter (· ≠ id) = rest := by
    rw [hwaiting, filter_ne_of_nodup_cons (hwaiting ▸ h.ready.nodup k)]
  have hupdate : ((d.traffic.setQueue k rest).update id fun p => p.transmit r ru) = .ok _ :=
    update_ok hp (Packet.transmit_pending hpending)
  have hleave := h.leave hp hstation (q := { p with
    state := .transmitted
    assignedRound := some r
    txRound := some r
    ru := some ru }) rfl
  rw [hrest] at hleave
  dsimp only
  rw [hupdate]
  exact hleave

theorem Cached.sendAll (h : Cached stations d) (r : Int) (turns : List (Ru × Int))
    (out : RoundAssignment) : Cached stations (sendAll r turns out d).state := by
  induction turns generalizing out d with
  | nil => exact h
  | cons turn turns ih =>
    have hfirst := h.send r turn.2 turn.1 out
    rw [RoundRobin.sendAll]
    split
    · rename_i hx
      rwa [hx] at hfirst
    · rename_i out₁ d₁ hx
      rw [hx] at hfirst
      exact ih hfirst out₁

theorem Cached.dropAll (h : Cached stations d) (hids : ids.Sublist (d.traffic.waiting k)) (r : Int)
    (out : RoundAssignment) : Cached stations (dropAll r k ids out d).state := by
  induction ids generalizing out d with
  | nil => exact h
  | cons id ids ih =>
    obtain ⟨hid, -⟩ := List.nodup_cons.mp ((h.ready.nodup k).sublist hids)
    obtain ⟨p, hp, hstation, hpending⟩ :=
      h.ready.pending k id (hids.subset List.mem_cons_self)
    let kept := (d.traffic.waiting k).filter (· ≠ id)
    have hupdate : ((d.traffic.setQueue k kept).update id fun p => p.drop r .deadline) =
        .ok ((d.traffic.setQueue k kept).setPacket id (p.lost r .deadline)) :=
      update_ok hp (Packet.drop_ok (Or.inl hpending))
    have hrest : ids.Sublist kept := by
      have hfiltered := ((List.sublist_cons_self id ids).trans hids).filter (· ≠ id)
      rwa [List.filter_eq_self.mpr fun i hi => decide_eq_true (ne_of_mem_of_not_mem hi hid)]
        at hfiltered
    have h₁ := h.leave (q := p.lost r .deadline) hp hstation rfl
    rw [RoundRobin.dropAll]
    dsimp only [forget]
    rw [hupdate]
    refine ih h₁ ?_ _
    show ids.Sublist ((d.traffic.setQueue k kept).waiting k)
    rwa [waiting_setQueue_filter]

theorem expired_sublist (h : d.expired r ids = .ok late) : late.Sublist ids := by
  induction ids generalizing late with
  | nil =>
    cases h
    exact .slnil
  | cons id ids ih =>
    rw [expired] at h
    split at h
    · cases h
    split at h
    · cases h
    rename_i rest hrest
    cases h
    split_ifs
    · exact (ih hrest).cons_cons id
    · exact (ih hrest).cons id

theorem Cached.purge (h : Cached stations d) (r : Int) (passedOver : List Int) (k : Int)
    (out : RoundAssignment) : Cached stations (purge r passedOver k out d).state := by
  unfold RoundRobin.purge
  split
  · exact h
  rename_i late hlate
  have hdrop := h.dropAll (expired_sublist hlate) r out
  split
  · rename_i hx
    rwa [hx] at hdrop
  · rename_i out₁ d₁ hx
    rw [hx] at hdrop
    split_ifs <;> exact hdrop

theorem Cached.purgeAll (h : Cached stations d) (r : Int) (passedOver candidates : List Int)
    (out : RoundAssignment) : Cached stations (purgeAll r passedOver candidates out d).state := by
  induction candidates generalizing out d with
  | nil => exact h
  | cons k candidates ih =>
    have hfirst := h.purge r passedOver k out
    rw [RoundRobin.purgeAll]
    split
    · rename_i hx
      rwa [hx] at hfirst
    · rename_i out₁ d₁ hx
      rw [hx] at hfirst
      exact ih hfirst out₁

theorem settleCredits_entries (served : List Int) (d : RoundRobin) :
    (settleCredits served d).entries = d.entries := by
  unfold settleCredits
  split_ifs <;> rfl

theorem Cached.assign (hc : c.Sound) (horderly : Orderly c d) (h : Cached c.stations d) (r : Int) :
    Cached c.stations (d.assign r).state := by
  have hqueued : ∀ id ∈ d.book.candidates.flatMap d.traffic.waiting,
      ∃ k, id ∈ d.traffic.waiting k := fun id hid => by
    obtain ⟨k, -, hk⟩ := List.mem_flatMap.mp hid
    exact ⟨k, hk⟩
  have hpair := h.pairAll hc.horizon horderly.schedule hqueued
  unfold RoundRobin.assign
  dsimp only
  split
  · rename_i hx
    rwa [hx] at hpair
  rename_i d₁ hx
  rw [hx] at hpair
  have hsend := Cached.sendAll (d := d₁) hpair r
    (d.book.cell.sizing.units.zip (d.book.candidates.take d.book.cell.sizing.perRound))
    (.empty r d.book.cell.sizing.ruType)
  split
  · rename_i hx
    rwa [hx] at hsend
  rename_i out₂ d₂ hx
  rw [hx] at hsend
  have hpurge := Cached.purgeAll (d := d₂) hsend r
    (d.book.candidates.drop d.book.cell.sizing.perRound) d.book.candidates out₂
  split
  · rename_i hx
    rwa [hx] at hpurge
  rename_i out₃ d₃ hx
  rw [hx] at hpurge
  exact hpurge.of_eq (settleCredits_traffic _ d₃) (settleCredits_entries _ d₃)

theorem Orderly.prepared (hc : c.Sound) (h : Orderly c d)
    (hcandidates : d.book.candidates = Book.withBacklog d.traffic d.order) {out : RoundAssignment}
    (hassign : d.assign r = .ok out d') : Prepared d' := by
  have hnodup : d.book.candidates.Nodup := by
    rw [hcandidates]
    exact List.Nodup.filter _ (h.order.nodup_iff.mpr hc.horizon.roster.ids_nodup)
  have hqueued : ∀ id, id ∈ d.book.candidates.flatMap d.traffic.waiting ↔
      ∃ k, id ∈ d.traffic.waiting k := fun id => hcandidates ▸ h.mem_queued
  have hpairing := pairAll_pairing (h.ready.exists_packet d.book.candidates)
  have hready := (pairAll_lasts h.ready _ fun id hid => (hqueued id).mp hid).2
  unfold RoundRobin.assign at hassign
  dsimp only at hassign
  generalize RoundRobin.pairAll (d.book.candidates.flatMap d.traffic.waiting) d = x
    at hpairing hready hassign
  cases hpairing with
  | lost => cases hassign
  | @paired d₁ pairs cached =>
    have hwaiting := waiting_of_unpaired pairs.traffic
    have h₁ : Prepared d₁ :=
      ⟨hready, fun k id hid => cached id ((hqueued id).mpr ⟨k, hwaiting k ▸ hid⟩)⟩
    obtain ⟨out₂, d₂, out₃, d₃, hsend, hpurge, h₃⟩ := h₁.decide (z := d.book.cell.sizing) hnodup
      (fun k hk => by
        rw [hwaiting]
        exact h.mem_candidates.mp (hcandidates ▸ hk)) r (.empty r d.book.cell.sizing.ruType)
    simp only [hsend, hpurge] at hassign
    cases hassign
    have htraffic := settleCredits_traffic (d.book.candidates.take d.book.cell.sizing.perRound) d₃
    refine ⟨htraffic ▸ h₃.ready, fun k id hid => ?_⟩
    rw [cached?, settleCredits_entries]
    exact h₃.cached k id (htraffic ▸ hid)

theorem Cached.emitFrom (h : Cached stations d) (hst : d.traffic.stations = stations) {s : Station}
    (hs : s ∈ stations) (round : Int) :
    Cached stations { d with traffic := d.traffic.emitFrom s round } := by
  refine h.withTraffic h.ready.emitFrom (fun id p hp => ?_) (fun k id hid => ?_) fun id p hp =>
    ⟨p, (Grows.emitFrom d.traffic s round).old id p hp, rfl⟩
  · rw [packet?_emitFrom] at hp
    split_ifs at hp
    · cases hp
      exact ⟨s, hs, rfl⟩
    · exact h.native id p hp
  · by_cases hk : k = s.id
    · subst hk
      rw [waiting_emitFrom_self (hst ▸ hs)]
      exact List.mem_append_left _ hid
    · rwa [waiting_emitFrom_of_ne hk]

theorem Cached.generate (h : Cached stations d) (hst : d.traffic.stations = stations)
    (round : Int) :
    Cached stations { d with traffic := (d.traffic.generate round).2 } := by
  have hall : ∀ (due : List Station) (d : RoundRobin), Cached stations d →
      d.traffic.stations = stations → (∀ s ∈ due, s ∈ stations) →
        Cached stations { d with traffic := d.traffic.emitAll round due } := by
    intro due
    induction due with
    | nil => exact fun _ h _ _ => h
    | cons s due ih =>
      intro d h hst hdue
      exact ih _ (h.emitFrom hst (hdue s List.mem_cons_self) round)
        ((emitFrom_stations d.traffic s round).trans hst)
        fun u hu => hdue u (List.mem_cons_of_mem s hu)
  refine hall _ d h hst fun s hs => ?_
  rw [due] at hs
  split_ifs at hs
  · exact hst ▸ List.mem_of_mem_filter hs
  · cases hs

theorem Cached.record (h : Cached stations d) (reports : List TxReport) :
    Cached stations { d with traffic := Engine.record d.traffic reports } := by
  obtain ⟨-, -, -, hwaiting, hpacket⟩ := Engine.record_noted d.traffic reports
  refine h.withTraffic (h.ready.record reports) (fun id q hq => ?_)
    (fun k id hid => hwaiting k ▸ hid) fun id p hp => ?_
  · obtain ⟨p, x, hp, rfl⟩ := Engine.exists_of_record hq
    exact h.native id p hp
  · obtain ⟨x, hx⟩ := hpacket id p hp
    exact ⟨p.noted x, hx, rfl⟩

theorem select_entries (r : Int) (d : RoundRobin) : (d.select r).state.entries = d.entries := by
  unfold select startHorizon
  dsimp only
  split_ifs
  · rfl
  · cases d.book.cell.schedule r <;> rfl
  · rfl

theorem Cached.answer (hc : c.Sound) (horderly : Orderly c d) (h : Cached c.stations d)
    (call : Call) :
    ∃ d', ((Scheduler.roundRobin d).answer call).state = .roundRobin d' ∧ Orderly c d' ∧
      Cached c.stations d' := by
  obtain ⟨d', hd', horderly'⟩ := horderly.answer hc call
  refine ⟨d', hd', horderly', ?_⟩
  cases call with
  | generate round =>
    cases hd'
    exact h.generate horderly.stations round
  | emit station round =>
    cases hemit : d.traffic.emit station round with
    | error e =>
      simp only [Scheduler.answer, Scheduler.traffic, hemit] at hd'
      cases hd'
      exact h
    | ok x =>
      simp only [Scheduler.answer, Scheduler.traffic, hemit] at hd'
      cases hd'
      rw [emit] at hemit
      split at hemit
      · rename_i q hq
        cases hemit
        have hs : q.station ∈ d.traffic.stations :=
          List.mem_map_of_mem (List.mem_of_find?_eq_some hq)
        exact h.emitFrom horderly.stations (horderly.stations ▸ hs) round
      · cases hemit
  | report reports =>
    cases hd'
    exact h.record reports
  | halt =>
    cases hd'
    exact h.withTraffic ⟨h.ready.pending, h.ready.nodup⟩ h.native (fun _ _ hid => hid)
      fun id p hp => ⟨p, hp, rfl⟩
  | select round =>
    rw [Scheduler.answer_select] at hd'
    cases hd'
    exact h.of_eq (d.select_traffic round) (d.select_entries round)
  | assign round =>
    rw [Scheduler.answer_assign] at hd'
    cases hd'
    exact h.assign hc horderly round
  | stop =>
    cases hd'
    exact h.of_eq rfl rfl

end RoundRobin

namespace Session

open RoundRobin

theorem answerAll_cached {c : Cell} {s : Session} {d : RoundRobin} (hc : c.Sound)
    (hd : s.scheduler = .roundRobin d) (horderly : Orderly c d) (h : Cached c.stations d)
    (calls : List Call) :
    ∃ d', (answerAll calls s).scheduler = .roundRobin d' ∧ Orderly c d' ∧ Cached c.stations d' := by
  induction calls generalizing s d with
  | nil => exact ⟨d, hd, horderly, h⟩
  | cons call calls ih =>
    obtain ⟨d₁, hd₁, horderly₁, h₁⟩ := h.answer hc horderly call
    exact ih (by rw [scheduler_answer, hd, hd₁]) horderly₁ h₁

/-- After a round that directly follows a selection the cache holds an entry for just the packets
that wait, and each is its packet's own, whatever was asked before and whatever horizon is active.
-/
theorem cache_follows_queues {stations : List Station} {width cap : Int} {pinned : Option RuType}
    {cell : Cell} {tr : Traffic} (hcell : Cell.make stations width cap pinned = .ok cell)
    (htr : Traffic.ofStations stations = .ok tr) (roundDuration maxCredit : Float)
    (calls : List Call) (selected assigned : Int) :
    ∃ d, (answerAll calls (ofScheduler
        (.roundRobin (RoundRobin.make cell tr roundDuration maxCredit)))).scheduler =
        .roundRobin d ∧
      ∀ out d', (d.select selected).state.assign assigned = .ok out d' →
        (d'.entries.map Prod.fst).Nodup ∧
        (∀ id, id ∈ d'.entries.map Prod.fst ↔ ∃ k, id ∈ d'.traffic.waiting k) ∧
        ∀ id e, (id, e) ∈ d'.entries → ∃ p, d'.traffic.packet? id = some p ∧
          e = ⟨p.arrival, p.deadline, p.penalty, p.station⟩ := by
  obtain ⟨hc, -⟩ := Cell.make_eq_ok hcell
  obtain ⟨d₀, hd₀, horderly₀⟩ := serves_make hcell htr roundDuration maxCredit
  have hstart : Cached cell.stations d₀ := by
    cases hd₀
    refine ⟨horderly₀.ready, fun id p hp => ?_, .nil, by simp [RoundRobin.make],
      by simp [RoundRobin.make]⟩
    obtain rfl := ofStations_eq_ok htr
    simp [RoundRobin.make, fresh, packet?] at hp
  obtain ⟨d, hd, horderly, hcached⟩ := answerAll_cached hc hd₀ horderly₀ hstart calls
  refine ⟨d, hd, fun out d' hassign => ?_⟩
  obtain ⟨hselected, hcandidates⟩ := horderly.select hc selected
  have hround := (hcached.of_eq (d.select_traffic selected) (d.select_entries selected)).assign hc
    hselected assigned
  rw [hassign] at hround
  have hprepared := hselected.prepared hc hcandidates hassign
  refine ⟨hround.keys, fun id => ?_, fun id e he => hround.own _ he⟩
  constructor
  · intro hid
    obtain ⟨x, hx, rfl⟩ := List.mem_map.mp hid
    exact hround.waiting x hx
  · rintro ⟨k, hk⟩
    exact cached?_isSome.mp (hprepared.cached k id hk)

/-- A round that has failed leaves two packets in the cache. They outlive their horizon: one is sent
in the next round, which starts another horizon, and one waits on with the packet that had no entry.
-/
theorem cache_follows_queues_after_failed_round :
    let stations : List Station := [⟨1, 1, 5, 5⟩]
    let cell : Cell := ⟨stations, 1024, 1, 1, ⟨.mhz20, .tones242, 1, 3, 242⟩⟩
    let start : Session := ofScheduler
      (.roundRobin (RoundRobin.make cell (Traffic.fresh stations) 10000 1000000))
    let calls : List Call := [.generate 0, .generate 0, .select 0, .emit 1 3, .assign 0]
    Cell.make stations 20 1024 (some .tones242) = .ok cell ∧
      Traffic.ofStations stations = .ok (Traffic.fresh stations) ∧
      ∃ d out d', (answerAll calls start).scheduler = .roundRobin d ∧
        (d.select 3).state.assign 3 = .ok out d' ∧ d'.traffic.waiting 1 = [1, 2] ∧
        1 ∈ d'.entries.map Prod.fst ∧ 2 ∈ d'.entries.map Prod.fst ∧
        ∀ id e, (id, e) ∈ d'.entries → ∃ p, d'.traffic.packet? id = some p ∧
          e = ⟨p.arrival, p.deadline, p.penalty, p.station⟩ := by
  intro stations cell start calls
  have horder : Station.inOrder stations = stations := List.mergeSort_of_pairwise (by decide)
  have hcell : Cell.make stations 20 1024 (some .tones242) = .ok cell := by
    rw [Cell.make, horder]
    rfl
  have htr : Traffic.ofStations stations = .ok (Traffic.fresh stations) := by
    rw [Traffic.ofStations, horder]
    rfl
  obtain ⟨d, hd, hround⟩ := cache_follows_queues hcell htr 10000 1000000 calls 3 3
  have hselected : ∃ d₁, ((answerAll calls start).answer (.select 3)).state.scheduler =
      .roundRobin d₁ ∧ ∃ out d', d₁.assign 3 = .ok out d' ∧ d'.traffic.waiting 1 = [1, 2] := by
    generalize hσ : ((answerAll calls start).answer (.select 3)).state.scheduler = σ
    simp only [start, calls, cell, stations] at hσ
    cbv at hσ
    subst hσ
    -- the credits are not evaluated
    refine ⟨_, rfl, _, _, rfl, ?_⟩
    rw [settleCredits_traffic]
    rfl
  obtain ⟨d₁, hd₁, out, d', hassign, hwaiting⟩ := hselected
  rw [scheduler_answer, show (answerAll calls start).scheduler = .roundRobin d from hd,
    Scheduler.answer_select] at hd₁
  cases hd₁
  obtain ⟨-, hkeys, hown⟩ := hround out d' hassign
  exact ⟨hcell, htr, d, out, d', hd, hassign, hwaiting, (hkeys 1).mpr ⟨1, by simp [hwaiting]⟩,
    (hkeys 2).mpr ⟨1, by simp [hwaiting]⟩, hown⟩

end Session

end Downlink
