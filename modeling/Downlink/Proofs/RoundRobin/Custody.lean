import Downlink.Proofs.RoundRobin.Round
import Downlink.Proofs.Traffic.Custody

/-!
# Custody in the round robin

What a completed round has done to the traffic: the packets it allocated were sent, the packets it
reports as dropped were dropped, and the queues have custody of the others. A turn sends the packet
at the head of its station's queue on the unit of the turn.
-/

namespace Downlink.RoundRobin

open Traffic

variable {d d' : RoundRobin} {out out' : RoundAssignment} {r k t : Int} {ru : Ru} {id : Nat}
  {ids late : List Nat} {turns : List (Ru × Int)} {passedOver candidates : List Int}

theorem of_select {f : TxFormat} (h : select r d = .ok f d') :
    d'.traffic = d.traffic ∧ d'.book.cell = d.book.cell ∧
      d'.book.candidates = Book.withBacklog d.traffic d.order ∧
      (f = .noTx → d'.book.candidates = []) := by
  unfold select startHorizon at h
  dsimp only at h
  split_ifs at h with hempty
  · cases h
    exact ⟨rfl, rfl, rfl, fun _ => List.isEmpty_iff.mp hempty⟩
  · split at h
    · cases h
    rename_i hstart
    split at hstart
    · cases hstart
    cases hstart
    cases h
    exact ⟨rfl, rfl, rfl, fun he => by cases he⟩
  · cases h
    exact ⟨rfl, rfl, rfl, fun he => by cases he⟩

theorem pair_serves (h : InCustody d.traffic t) (hid : id ∈ d.traffic.waiting k)
    (hpair : pair id d = .ok () d') : Serves d.traffic d'.traffic t [] [] ∧
      ∀ j, d'.traffic.waiting j = d.traffic.waiting j := by
  unfold pair at hpair
  split_ifs at hpair
  · cases hpair
    exact ⟨h.serves, fun _ => rfl⟩
  obtain ⟨p, hp, -, hopen⟩ := h.of_waiting hid
  rw [hp] at hpair
  dsimp only at hpair
  split at hpair
  · cases hpair
  rename_i i e _
  cases hpair
  have hbecomes : p.Becomes { p with
      horizon := some d.book.lastIndex, scheduleIndex := some (Int.ofNat i) } :=
    Packet.becomes_of_unresolved hopen rfl rfl rfl rfl rfl rfl
  exact ⟨⟨Advances.setPacket hp hbecomes, Clears.setPacket hp fun _ => rfl,
    h.setPacket hp hbecomes rfl⟩, fun _ => rfl⟩

theorem pairAll_serves (h : InCustody d.traffic t)
    (hids : ∀ id ∈ ids, ∃ k, id ∈ d.traffic.waiting k) (hpair : pairAll ids d = .ok () d') :
    Serves d.traffic d'.traffic t [] [] ∧ ∀ j, d'.traffic.waiting j = d.traffic.waiting j := by
  induction ids generalizing d with
  | nil =>
    cases hpair
    exact ⟨h.serves, fun _ => rfl⟩
  | cons id ids ih =>
    rw [pairAll] at hpair
    split at hpair
    · cases hpair
    rename_i d₁ hfirst
    obtain ⟨k, hk⟩ := hids id List.mem_cons_self
    obtain ⟨h₁, hwaiting₁⟩ := pair_serves h hk hfirst
    obtain ⟨h₂, hwaiting₂⟩ := ih h₁.custody (fun i hi => by
      simp only [hwaiting₁]
      exact hids i (List.mem_cons_of_mem id hi)) hpair
    exact ⟨h₁.trans h₂, fun j => (hwaiting₂ j).trans (hwaiting₁ j)⟩

theorem send_serves (h : InCustody d.traffic t) (hsend : send r k ru out d = .ok out' d') :
    ∃ id rest, d.traffic.waiting k = id :: rest ∧
      out' = { out with allocations := out.allocations ++ [⟨k, id, ru⟩] } ∧
      Serves d.traffic d'.traffic t [id] [] ∧
      (∀ j ≠ k, d'.traffic.waiting j = d.traffic.waiting j) ∧
      ∃ q, d'.traffic.packet? id = some q ∧ q.state = .transmitted ∧ q.txRound = some r ∧
        q.ru = some ru := by
  unfold send at hsend
  split at hsend
  · cases hsend
  rename_i id tr hpop
  obtain ⟨rest, hwaiting, rfl⟩ := of_popFront hpop
  dsimp only at hsend
  split at hsend
  · cases hsend
  rename_i tr' hupdate
  cases hsend
  obtain ⟨p, q, hp, hq, rfl⟩ := of_update hupdate
  have hleaves := Packet.of_transmit hq
  have hmem : id ∈ d.traffic.waiting k := hwaiting ▸ List.mem_cons_self
  obtain ⟨p', hp', rfl, -⟩ := h.of_waiting hmem
  obtain rfl : p' = p := Option.some.inj (hp'.symm.trans hp)
  have hrest : rest = (d.traffic.waiting p'.station).filter (· ≠ id) := by
    rw [hwaiting, filter_ne_of_nodup_cons (hwaiting ▸ h.waiting_nodup _)]
  exact ⟨id, rest, hwaiting, rfl, h.send hp' hleaves hrest,
    fun j hj => waiting_setQueue_of_ne hj rest, q, packet?_setPacket_self hp, hleaves.state,
    hleaves.round, hleaves.ru⟩

theorem sendAll_serves (h : InCustody d.traffic t) (hsend : sendAll r turns out d = .ok out' d') :
    ∃ L : List Allocation, out' = { out with allocations := out.allocations ++ L } ∧
      L.map (fun a => (a.ru, a.station)) = turns ∧
      Serves d.traffic d'.traffic t (L.map Allocation.packet) [] ∧
      (∀ a ∈ L, ∃ q, d'.traffic.packet? a.packet = some q ∧ q.state = .transmitted ∧
        q.txRound = some r ∧ q.ru = some a.ru) ∧
      ((turns.map Prod.snd).Nodup →
        ∀ a ∈ L, ∃ rest, d.traffic.waiting a.station = a.packet :: rest) := by
  induction turns generalizing d out with
  | nil =>
    cases hsend
    exact ⟨[], by simp, rfl, h.serves, by simp, by simp⟩
  | cons turn turns ih =>
    obtain ⟨ru, k⟩ := turn
    rw [sendAll] at hsend
    split at hsend
    · cases hsend
    rename_i out₁ d₁ hfirst
    obtain ⟨id, rest, hwaiting, rfl, h₁, hother, q, hq, hstate, hround, hru⟩ :=
      send_serves h hfirst
    obtain ⟨L, rfl, hturns, h₂, hsent, hheads⟩ := ih h₁.custody hsend
    refine ⟨⟨k, id, ru⟩ :: L, by simp, by rw [List.map_cons, hturns], h₁.trans h₂, ?_, ?_⟩
    · intro a ha
      rcases List.mem_cons.mp ha with rfl | ha
      · obtain ⟨q', hq', hbecomes⟩ := h₂.advances.packet id q hq
        obtain rfl := hbecomes.final (Packet.isResolved_of_transmitted hstate)
        exact ⟨q', hq', hstate, hround, hru⟩
      · exact hsent a ha
    · intro hnodup a ha
      obtain ⟨hk, hnodup'⟩ := List.nodup_cons.mp hnodup
      rcases List.mem_cons.mp ha with rfl | hmem
      · exact ⟨rest, hwaiting⟩
      · obtain ⟨rest', hrest'⟩ := hheads hnodup' a hmem
        have hturn : (a.ru, a.station) ∈ turns := hturns ▸ List.mem_map_of_mem hmem
        have hstation := List.mem_map_of_mem (f := Prod.snd) hturn
        have hne : a.station ≠ k := ne_of_mem_of_not_mem hstation hk
        exact ⟨rest', (hother _ hne).symm.trans hrest'⟩

theorem dropAll_serves (h : InCustody d.traffic t)
    (hk : ∀ id ∈ ids, ∀ p, d.traffic.packet? id = some p → p.station = k)
    (hdrop : dropAll r k ids out d = .ok out' d') :
    out' = { out with drops := out.drops ++ ids } ∧ Serves d.traffic d'.traffic t [] ids := by
  induction ids generalizing d out with
  | nil =>
    cases hdrop
    exact ⟨by simp, h.serves⟩
  | cons id ids ih =>
    rw [dropAll] at hdrop
    dsimp only [forget] at hdrop
    split at hdrop
    · cases hdrop
    rename_i tr hupdate
    have h₁ := h.of_drop (hk id List.mem_cons_self) hupdate
    obtain ⟨rfl, h₂⟩ := ih (d := { d with
        traffic := tr, entries := d.entries.filter fun p => p.1 ≠ id }) h₁.custody
      (fun i hi q hq => by
        obtain ⟨p, hp, hbecomes⟩ := h₁.advances.origin hq
        rw [hbecomes.station]
        exact hk i (List.mem_cons_of_mem id hi) p hp) hdrop
    exact ⟨by simp, h₁.trans h₂⟩

theorem of_expired (h : d.expired r ids = .ok late) (hid : id ∈ late) : id ∈ ids := by
  induction ids generalizing late with
  | nil =>
    cases h
    cases hid
  | cons i ids ih =>
    rw [expired] at h
    split at h
    · cases h
    split at h
    · cases h
    rename_i rest hrest
    cases h
    split_ifs at hid
    · rcases List.mem_cons.mp hid with rfl | hid
      · exact List.mem_cons_self
      · exact List.mem_cons_of_mem i (ih hrest hid)
    · exact List.mem_cons_of_mem i (ih hrest hid)

theorem purge_serves (h : InCustody d.traffic t)
    (hpurge : purge r passedOver k out d = .ok out' d') :
    ∃ late, out'.drops = out.drops ++ late ∧ out'.allocations = out.allocations ∧
      Serves d.traffic d'.traffic t [] late := by
  unfold purge at hpurge
  split at hpurge
  · cases hpurge
  rename_i late hlate
  split at hpurge
  · cases hpurge
  rename_i out₁ d₁ hdrop
  obtain ⟨rfl, hserves⟩ := dropAll_serves h (fun id hid p hp => by
    obtain ⟨p', hp', hstation, -⟩ := h.of_waiting (of_expired hlate hid)
    rw [← Option.some.inj (hp'.symm.trans hp), hstation]) hdrop
  split_ifs at hpurge <;> cases hpurge <;> exact ⟨late, rfl, rfl, hserves⟩

theorem purgeAll_serves (h : InCustody d.traffic t)
    (hpurge : purgeAll r passedOver candidates out d = .ok out' d') :
    ∃ late, out'.drops = out.drops ++ late ∧ out'.allocations = out.allocations ∧
      Serves d.traffic d'.traffic t [] late := by
  induction candidates generalizing d out with
  | nil =>
    cases hpurge
    exact ⟨[], by simp, rfl, h.serves⟩
  | cons k candidates ih =>
    rw [purgeAll] at hpurge
    split at hpurge
    · cases hpurge
    rename_i out₁ d₁ hfirst
    obtain ⟨late₁, hdrops₁, hallocations₁, h₁⟩ := purge_serves h hfirst
    obtain ⟨late₂, hdrops₂, hallocations₂, h₂⟩ := ih h₁.custody hpurge
    exact ⟨late₁ ++ late₂, by rw [hdrops₂, hdrops₁, List.append_assoc],
      hallocations₂.trans hallocations₁, h₁.trans h₂⟩

def turnsOf (d : RoundRobin) : List (Ru × Int) :=
  d.book.cell.sizing.units.zip (d.book.candidates.take d.book.cell.sizing.perRound)

theorem assign_serves (h : InCustody d.traffic t) (hassign : assign r d = .ok out d') :
    Serves d.traffic d'.traffic t (out.allocations.map Allocation.packet) out.drops ∧
      out.allocations.map (fun a => (a.ru, a.station)) = d.turnsOf ∧
      (∀ a ∈ out.allocations, ∃ q, d'.traffic.packet? a.packet = some q ∧
        q.state = .transmitted ∧ q.txRound = some r ∧ q.ru = some a.ru) ∧
      ((d.turnsOf.map Prod.snd).Nodup → ∀ a ∈ out.allocations,
        ∃ rest, d.traffic.waiting a.station = a.packet :: rest) := by
  unfold assign at hassign
  dsimp only at hassign
  split at hassign
  · cases hassign
  rename_i d₁ hpair
  split at hassign
  · cases hassign
  rename_i out₂ d₂ hsend
  split at hassign
  · cases hassign
  rename_i out₃ d₃ hpurge
  cases hassign
  obtain ⟨h₁, hwaiting⟩ := pairAll_serves h (fun id hid => by
    obtain ⟨k, -, hk⟩ := List.mem_flatMap.mp hid
    exact ⟨k, hk⟩) hpair
  obtain ⟨L, rfl, hturns, h₂, hsent, hheads⟩ := sendAll_serves h₁.custody hsend
  obtain ⟨late, hdrops, hallocations, h₃⟩ := purgeAll_serves h₂.custody hpurge
  have hall : out.allocations = L := by simpa [RoundAssignment.empty] using hallocations
  have hlost : out.drops = late := by simpa [RoundAssignment.empty] using hdrops
  have hserves := (h₁.trans h₂).trans h₃
  rw [List.nil_append, List.append_nil, List.nil_append, List.nil_append] at hserves
  rw [settleCredits_traffic, hall, hlost]
  refine ⟨hserves, hturns, fun a ha => ?_, fun hnodup a ha => ?_⟩
  · obtain ⟨q, hq, hstate, hround, hru⟩ := hsent a ha
    obtain ⟨q', hq', hbecomes⟩ := h₃.advances.packet _ q hq
    obtain rfl := hbecomes.final (Packet.isResolved_of_transmitted hstate)
    exact ⟨q', hq', hstate, hround, hru⟩
  · rw [← hwaiting]
    exact hheads hnodup a ha

end Downlink.RoundRobin
