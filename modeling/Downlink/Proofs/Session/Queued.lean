import Downlink.Proofs.RoundRobin.Custody
import Downlink.Proofs.Traffic.Outcomes

/-!
# Outcomes in the round robin

The round robin writes the pairing of a packet with its entry without a look at the packet's state.
That is sound as long as the queues hold nothing but pending packets, each in the queue of its own
station and once; every operation keeps them so, also when it fails.
-/

namespace Downlink

namespace Traffic

variable {tr tr' : Traffic} {id : Nat} {ids : List Nat} {p q : Packet} {k j round : Int}

structure Ready (tr : Traffic) : Prop where
  pending : ∀ k, ∀ id ∈ tr.waiting k,
    ∃ p, tr.packet? id = some p ∧ p.station = k ∧ p.state = .pending
  nodup : ∀ k, (tr.waiting k).Nodup

theorem Ready.exists_packet (h : Ready tr) (stations : List Int) :
    ∀ id ∈ stations.flatMap tr.waiting, ∃ p, tr.packet? id = some p := by
  intro id hid
  obtain ⟨k, -, hk⟩ := List.mem_flatMap.mp hid
  obtain ⟨p, hp, -⟩ := h.pending k id hk
  exact ⟨p, hp⟩

theorem Ready.setQueue (h : Ready tr) (hids : ∀ id ∈ ids,
    ∃ p, tr.packet? id = some p ∧ p.station = k ∧ p.state = .pending) (hnodup : ids.Nodup) :
    Ready (tr.setQueue k ids) := by
  have hsub := waiting_setQueue_sublist tr k ids
  constructor
  · intro j id hid
    by_cases hj : j = k
    · subst hj
      exact hids id (hsub.subset hid)
    · exact h.pending j id (waiting_setQueue_of_ne hj ids ▸ hid)
  · intro j
    by_cases hj : j = k
    · subst hj
      exact hnodup.sublist hsub
    · rw [waiting_setQueue_of_ne hj]
      exact h.nodup j

theorem Ready.shorten (h : Ready tr) (hids : ids.Sublist (tr.waiting k)) :
    Ready (tr.setQueue k ids) :=
  h.setQueue (fun id hid => h.pending k id (hids.subset hid)) ((h.nodup k).sublist hids)

theorem Ready.setPacket (h : Ready tr) (hp : tr.packet? id = some p)
    (hstation : q.station = p.station)
    (hstate : q.state = p.state) : Ready (tr.setPacket id q) where
  pending j i hi := by
    obtain ⟨r, hr, hj, hpending⟩ := h.pending j i hi
    by_cases hid : i = id
    · subst hid
      obtain rfl := Option.some.inj (hp.symm.trans hr)
      exact ⟨q, packet?_setPacket_self hp, hstation.trans hj, hstate.trans hpending⟩
    · exact ⟨r, (packet?_setPacket_of_ne hid).trans hr, hj, hpending⟩
  nodup := h.nodup

theorem Ready.setPacket_left (h : Ready tr) (hp : tr.packet? id = some p)
    (hleft : id ∉ tr.waiting p.station) : Ready (tr.setPacket id q) where
  pending j i hi := by
    obtain ⟨r, hr, hj, hpending⟩ := h.pending j i hi
    have hid : i ≠ id := by
      rintro rfl
      obtain rfl := Option.some.inj (hp.symm.trans hr)
      exact hleft (hj ▸ hi)
    exact ⟨r, (packet?_setPacket_of_ne hid).trans hr, hj, hpending⟩
  nodup := h.nodup

theorem Ready.emitFrom {s : Station} (h : Ready tr) : Ready (tr.emitFrom s round) := by
  have hkeep : ∀ {j i}, i ∈ tr.waiting j →
      ∃ p, (tr.emitFrom s round).packet? i = some p ∧ p.station = j ∧ p.state = .pending := by
    intro j i hi
    obtain ⟨p, hp, hwaits⟩ := h.pending j i hi
    exact ⟨p, (Grows.emitFrom tr s round).old i p hp, hwaits⟩
  have hpushed : Ready { tr with
      packets := tr.packets.push (arriving s tr.packets.size round) } :=
    ⟨fun _ _ hi => hkeep hi, h.nodup⟩
  refine hpushed.setQueue (fun i hi => ?_) ?_
  · rcases List.mem_append.mp hi with hi | hi
    · exact hkeep hi
    · obtain rfl := List.mem_singleton.mp hi
      exact ⟨arriving s tr.packets.size round,
        (packet?_emitFrom tr s round _).trans (if_pos rfl), rfl, rfl⟩
  · -- the new id is that of no packet so far
    refine (h.nodup s.id).append (List.nodup_singleton _)
      (List.disjoint_singleton.mpr fun hid => ?_)
    obtain ⟨p, hp, -⟩ := h.pending s.id _ hid
    exact (lt_size_of_packet? hp).false

theorem Ready.generate (h : Ready tr) (round : Int) : Ready (tr.generate round).2 := by
  have hall : ∀ (due : List Station) (tr : Traffic), Ready tr → Ready (tr.emitAll round due) := by
    intro due
    induction due with
    | nil => exact fun _ h => h
    | cons s due ih => exact fun tr h => ih _ h.emitFrom
  exact hall _ tr h

theorem Ready.emit (h : Ready tr) (hemit : tr.emit k round = .ok (id, tr')) : Ready tr' := by
  rw [Traffic.emit] at hemit
  split at hemit
  · cases hemit
    exact h.emitFrom
  · cases hemit

theorem ready_fresh (stations : List Station) : Ready (fresh stations) where
  pending k id hid := by
    rw [waiting_fresh] at hid
    cases hid
  nodup k := by
    rw [waiting_fresh]
    exact .nil

end Traffic

namespace RoundRobin

open Traffic

variable {k : Int} {id : Nat} {ids : List Nat} {d : RoundRobin} {out : RoundAssignment}

structure Decides (d : RoundRobin) (out : RoundAssignment)
    (x : Attempt RoundRobin RoundAssignment) : Prop where
  allots : Allots traffic d.traffic out x
  ready : x.state.traffic.Ready

theorem Decides.trans {out₁ : RoundAssignment} {d₁ : RoundRobin}
    {x : Attempt RoundRobin RoundAssignment} (h₁ : Decides d out (.ok out₁ d₁))
    (h₂ : Decides d₁ out₁ x) : Decides d out x :=
  ⟨h₁.allots.trans h₂.allots, h₂.ready⟩

theorem select_traffic (r : Int) (d : RoundRobin) : (d.select r).state.traffic = d.traffic := by
  unfold select startHorizon
  dsimp only
  split_ifs
  · rfl
  · cases d.book.cell.schedule r <;> rfl
  · rfl

theorem pair_lasts (h : d.traffic.Ready) (hid : id ∈ d.traffic.waiting k) :
    Lasts d.traffic (pair id d).state.traffic [] ∧ (pair id d).state.traffic.Ready ∧
      ∀ j, (pair id d).state.traffic.waiting j = d.traffic.waiting j := by
  have hstays : Lasts d.traffic d.traffic [] ∧ d.traffic.Ready ∧
      ∀ j, d.traffic.waiting j = d.traffic.waiting j := ⟨.refl d.traffic, h, fun _ => rfl⟩
  unfold pair
  split_ifs
  · exact hstays
  obtain ⟨p, hp, -, hpending⟩ := h.pending k id hid
  rw [hp]
  dsimp only
  split
  · exact hstays
  have hopen : p.isResolved = false := by
    rw [Packet.isResolved, hpending]
    rfl
  exact ⟨.setPacket hp hopen fun hc => ⟨hc.sent, hc.unit, hc.assigned, hc.dropped, hc.reason⟩,
    h.setPacket hp rfl rfl, fun _ => rfl⟩

theorem pairAll_lasts (h : d.traffic.Ready) (ids : List Nat)
    (hids : ∀ id ∈ ids, ∃ k, id ∈ d.traffic.waiting k) :
    Lasts d.traffic (pairAll ids d).state.traffic [] ∧ (pairAll ids d).state.traffic.Ready := by
  induction ids generalizing d with
  | nil => exact ⟨.refl d.traffic, h⟩
  | cons id ids ih =>
    obtain ⟨k, hk⟩ := hids id List.mem_cons_self
    obtain ⟨hlasts, hready, hwaiting⟩ := pair_lasts h hk
    rw [pairAll]
    split
    · rename_i hx
      rw [hx] at hlasts hready
      exact ⟨hlasts, hready⟩
    · rename_i d₁ hx
      rw [hx] at hlasts hready hwaiting
      obtain ⟨hlasts₁, hready₁⟩ := ih hready fun i hi => by
        obtain ⟨j, hj⟩ := hids i (List.mem_cons_of_mem id hi)
        exact ⟨j, (hwaiting j).symm ▸ hj⟩
      exact ⟨hlasts.trans hlasts₁, hready₁⟩

theorem send_decides (h : d.traffic.Ready) (r k : Int) (ru : Ru) (out : RoundAssignment) :
    Decides d out (send r k ru out d) := by
  unfold send
  split
  · exact ⟨.fail (.refl d.traffic), h⟩
  rename_i id tr hpop
  obtain ⟨rest, hwaiting, rfl⟩ := of_popFront hpop
  have hset := Lasts.setQueue d.traffic k rest
  have hready : Ready (d.traffic.setQueue k rest) :=
    h.shorten (hwaiting ▸ List.sublist_cons_self id rest)
  dsimp only
  split
  · exact ⟨.fail hset, hready⟩
  rename_i tr hupdate
  obtain ⟨p, q, hp, hq, rfl⟩ := of_update hupdate
  obtain ⟨p', hp', hstation, hpending⟩ := h.pending k id (hwaiting ▸ List.mem_cons_self)
  obtain rfl := Option.some.inj (hp'.symm.trans hp)
  refine ⟨.result (hset.trans (.send hp (Or.inl hpending) hq)) List.map_append, ?_⟩
  refine hready.setPacket_left hp fun hleft => ?_
  have hnodup := h.nodup k
  rw [hwaiting] at hnodup
  exact (List.nodup_cons.mp hnodup).1
    ((waiting_setQueue_sublist d.traffic k rest).subset (hstation ▸ hleft))

theorem sendAll_decides (h : d.traffic.Ready) (r : Int) (turns : List (Ru × Int))
    (out : RoundAssignment) :
    Decides d out (sendAll r turns out d) := by
  induction turns generalizing out d with
  | nil => exact ⟨.keep (.refl d.traffic) rfl, h⟩
  | cons turn turns ih =>
    have hfirst := send_decides h r turn.2 turn.1 out
    rw [sendAll]
    split
    · rename_i hx
      rwa [hx] at hfirst
    · rename_i out₁ d₁ hx
      rw [hx] at hfirst
      exact hfirst.trans (ih hfirst.ready out₁)

theorem dropAll_decides (h : d.traffic.Ready) (r : Int) (out : RoundAssignment)
    (hk : ∀ id ∈ ids, ∀ p, d.traffic.packet? id = some p → p.station = k) :
    Decides d out (dropAll r k ids out d) := by
  induction ids generalizing out d with
  | nil => exact ⟨.keep (.refl d.traffic) rfl, h⟩
  | cons id ids ih =>
    have hset := Lasts.setQueue d.traffic k ((d.traffic.waiting k).filter (· ≠ id))
    have hready : Ready (d.traffic.setQueue k ((d.traffic.waiting k).filter (· ≠ id))) :=
      h.shorten List.filter_sublist
    rw [dropAll]
    dsimp only [forget]
    split
    · exact ⟨.fail hset, hready⟩
    rename_i tr hupdate
    have hdrop := Lasts.of_drop hupdate
    obtain ⟨p, q, hp, hq, rfl⟩ := of_update hupdate
    obtain ⟨-, rfl⟩ := Packet.of_drop hq
    have hleft := hready.setPacket_left (q := p.lost r .deadline) hp fun hid => by
      rw [hk id List.mem_cons_self p hp, waiting_setQueue_filter] at hid
      simpa using List.of_mem_filter hid
    have hrest := ih (d := { d with
        traffic := (d.traffic.setQueue k ((d.traffic.waiting k).filter (· ≠ id))).setPacket id
          (p.lost r .deadline)
        entries := d.entries.filter fun e => e.1 ≠ id }) hleft
      { out with drops := out.drops ++ [id] } fun i hi p' hp' => by
        by_cases hid : i = id
        · subst hid
          obtain rfl := Option.some.inj ((packet?_setPacket_self hp).symm.trans hp')
          exact hk i List.mem_cons_self p hp
        · exact hk i (List.mem_cons_of_mem id hi) p' ((packet?_setPacket_of_ne hid).symm.trans hp')
    exact ⟨.after (hset.trans hdrop) hrest.allots, hrest.ready⟩

theorem purge_decides (h : d.traffic.Ready) (r : Int) (passedOver : List Int) (k : Int)
    (out : RoundAssignment) :
    Decides d out (purge r passedOver k out d) := by
  unfold purge
  split
  · exact ⟨.fail (.refl d.traffic), h⟩
  rename_i late hlate
  have hdrop := dropAll_decides h r out fun id hid p hp => by
    obtain ⟨p', hp', hstation, -⟩ := h.pending k id (of_expired hlate hid)
    rw [← Option.some.inj (hp'.symm.trans hp), hstation]
  split
  · rename_i hx
    rwa [hx] at hdrop
  · rename_i out₁ d₁ hx
    rw [hx] at hdrop
    split_ifs
    · exact ⟨hdrop.allots.trans (.keep (.refl d₁.traffic) rfl), hdrop.ready⟩
    · exact hdrop

theorem purgeAll_decides (h : d.traffic.Ready) (r : Int) (passedOver candidates : List Int)
    (out : RoundAssignment) :
    Decides d out (purgeAll r passedOver candidates out d) := by
  induction candidates generalizing out d with
  | nil => exact ⟨.keep (.refl d.traffic) rfl, h⟩
  | cons k candidates ih =>
    have hfirst := purge_decides h r passedOver k out
    rw [purgeAll]
    split
    · rename_i hx
      rwa [hx] at hfirst
    · rename_i out₁ d₁ hx
      rw [hx] at hfirst
      exact hfirst.trans (ih hfirst.ready out₁)

theorem assign_decides (h : d.traffic.Ready) (r : Int) :
    Decides d (.empty r d.book.cell.sizing.ruType) (d.assign r) := by
  obtain ⟨hpair, hready⟩ := pairAll_lasts h (d.book.candidates.flatMap d.traffic.waiting)
    fun id hid => by
      obtain ⟨k, -, hk⟩ := List.mem_flatMap.mp hid
      exact ⟨k, hk⟩
  unfold assign
  dsimp only
  split
  · rename_i hx
    rw [hx] at hpair hready
    exact ⟨.fail hpair, hready⟩
  rename_i d₁ hx
  rw [hx] at hpair hready
  have hsend := sendAll_decides (d := d₁) hready r
    (d.book.cell.sizing.units.zip (d.book.candidates.take d.book.cell.sizing.perRound))
    (.empty r d.book.cell.sizing.ruType)
  split
  · rename_i hx
    rw [hx] at hsend
    exact ⟨.after hpair hsend.allots, hsend.ready⟩
  rename_i out₂ d₂ hx
  rw [hx] at hsend
  have hpurge := hsend.trans (purgeAll_decides (d := d₂) hsend.ready r
    (d.book.candidates.drop d.book.cell.sizing.perRound) d.book.candidates out₂)
  split
  · rename_i hx
    rw [hx] at hpurge
    exact ⟨.after hpair hpurge.allots, hpurge.ready⟩
  rename_i out₃ d₃ hx
  rw [hx] at hpurge
  have hsettled := settleCredits_traffic (d.book.candidates.take d.book.cell.sizing.perRound) d₃
  refine ⟨.after hpair (hpurge.allots.trans (.keep ?_ rfl)), ?_⟩
  · rw [hsettled]
    exact .refl d₃.traffic
  · rw [Attempt.state, hsettled]
    exact hpurge.ready

end RoundRobin

end Downlink
