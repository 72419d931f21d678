import Downlink.Proofs.Packet
import Downlink.Proofs.Traffic.Queues

/-!
# Custody

The queues have custody of exactly the packets without an outcome. What an operation on traffic does
to this is said by how far it advances the packets and by which of them it clears, sent or lost;
both compose over operations in a row.
-/

namespace Downlink

namespace Packet

variable {p q r : Packet} {round index : Int} {ru : Ru} {reason : DropReason}
  {target : PacketState}

/-- What the packet is keeps, its transmission report included, and an outcome is final. -/
structure Becomes (p q : Packet) : Prop where
  id : q.id = p.id
  station : q.station = p.station
  arrival : q.arrival = p.arrival
  deadline : q.deadline = p.deadline
  penalty : q.penalty = p.penalty
  status : q.txStatus = p.txStatus
  final : p.isResolved = true → q = p

theorem Becomes.refl (p : Packet) : p.Becomes p :=
  ⟨rfl, rfl, rfl, rfl, rfl, rfl, fun _ => rfl⟩

theorem Becomes.trans (h₁ : p.Becomes q) (h₂ : q.Becomes r) : p.Becomes r where
  id := h₂.id.trans h₁.id
  station := h₂.station.trans h₁.station
  arrival := h₂.arrival.trans h₁.arrival
  deadline := h₂.deadline.trans h₁.deadline
  penalty := h₂.penalty.trans h₁.penalty
  status := h₂.status.trans h₁.status
  final hp := by
    obtain rfl := h₁.final hp
    exact h₂.final hp

theorem unresolved_of_allows (h : p.state.allows target = true) : p.isResolved = false := by
  cases hp : p.isResolved with
  | false => rfl
  | true => rw [PacketState.allows_of_isTerminal hp] at h; cases h

theorem of_move (h : p.move target = .ok q) :
    p.state.allows target = true ∧ q = { p with state := target } := by
  rw [move] at h
  split_ifs at h with hallows
  exact ⟨hallows, (Except.ok.inj h).symm⟩

theorem of_drop (h : p.drop round reason = .ok q) :
    p.isResolved = false ∧ q = p.lost round reason := by
  rw [drop] at h
  cases hm : p.move .dropped with
  | error fault => rw [hm] at h; cases h
  | ok r =>
    obtain ⟨hallows, rfl⟩ := of_move hm
    rw [hm] at h
    exact ⟨unresolved_of_allows hallows, (Except.ok.inj h).symm⟩

theorem of_schedule (h : p.schedule index round = .ok q) : p.isResolved = false ∧
    q = { p with
      state := .scheduled, scheduleIndex := some index, assignedRound := some round } := by
  rw [schedule] at h
  cases hm : p.move .scheduled with
  | error fault => rw [hm] at h; cases h
  | ok r =>
    obtain ⟨hallows, rfl⟩ := of_move hm
    rw [hm] at h
    exact ⟨unresolved_of_allows hallows, (Except.ok.inj h).symm⟩

theorem becomes_of_unresolved (h : p.isResolved = false) (hid : q.id = p.id)
    (hstation : q.station = p.station) (harrival : q.arrival = p.arrival)
    (hdeadline : q.deadline = p.deadline) (hpenalty : q.penalty = p.penalty)
    (hstatus : q.txStatus = p.txStatus) : p.Becomes q :=
  ⟨hid, hstation, harrival, hdeadline, hpenalty, hstatus, fun hp => by rw [h] at hp; cases hp⟩

theorem becomes_lost (h : p.isResolved = false) : p.Becomes (p.lost round reason) :=
  becomes_of_unresolved h rfl rfl rfl rfl rfl rfl

theorem transmit_cases (h : p.transmit round ru = .ok q) :
    p.state = .pending ∧ q = { p with
      state := .transmitted, assignedRound := some round, txRound := some round, ru := some ru } ∨
    p.state = .scheduled ∧ q = { p with
      state := .transmitted, txRound := some round, ru := some ru } := by
  cases hp : p.state with
  | idle => simp [transmit, ready, move, hp, PacketState.allows, Except.map] at h
  | pending =>
    rw [transmit_pending hp] at h
    exact Or.inl ⟨rfl, (Except.ok.inj h).symm⟩
  | scheduled =>
    rw [transmit_scheduled hp] at h
    exact Or.inr ⟨rfl, (Except.ok.inj h).symm⟩
  | transmitted => simp [transmit, ready, move, hp, PacketState.allows, Except.map] at h
  | dropped => simp [transmit, ready, move, hp, PacketState.allows, Except.map] at h

structure Leaves (p q : Packet) (round : Int) (ru : Ru) : Prop where
  unresolved : p.isResolved = false
  becomes : p.Becomes q
  state : q.state = .transmitted
  round : q.txRound = some round
  ru : q.ru = some ru

theorem of_transmit (h : p.transmit round ru = .ok q) : p.Leaves q round ru := by
  rcases transmit_cases h with ⟨hstate, rfl⟩ | ⟨hstate, rfl⟩
  · have hopen : p.isResolved = false := by rw [isResolved, hstate]; rfl
    exact ⟨hopen, becomes_of_unresolved hopen rfl rfl rfl rfl rfl rfl, rfl, rfl, rfl⟩
  · have hopen : p.isResolved = false := by rw [isResolved, hstate]; rfl
    exact ⟨hopen, becomes_of_unresolved hopen rfl rfl rfl rfl rfl rfl, rfl, rfl, rfl⟩

end Packet

namespace Traffic

variable {tr tr' tr'' : Traffic} {id i : Nat} {p q : Packet} {k : Int} {t : Int}
  {sent sent' lost lost' ids : List Nat}

structure Advances (tr tr' : Traffic) : Prop where
  stations : tr'.stations = tr.stations
  generating : tr'.generating = tr.generating
  size : tr'.packets.size = tr.packets.size
  packet : ∀ id p, tr.packet? id = some p → ∃ q, tr'.packet? id = some q ∧ p.Becomes q

theorem Advances.refl (tr : Traffic) : Advances tr tr :=
  ⟨rfl, rfl, rfl, fun _ p hp => ⟨p, hp, .refl p⟩⟩

theorem Advances.trans (h₁ : Advances tr tr') (h₂ : Advances tr' tr'') : Advances tr tr'' where
  stations := h₂.stations.trans h₁.stations
  generating := h₂.generating.trans h₁.generating
  size := h₂.size.trans h₁.size
  packet id p hp := by
    obtain ⟨q, hq, hpq⟩ := h₁.packet id p hp
    obtain ⟨r, hr, hqr⟩ := h₂.packet id q hq
    exact ⟨r, hr, hpq.trans hqr⟩

theorem Advances.setQueue (tr : Traffic) (k : Int) (ids : List Nat) :
    Advances tr (tr.setQueue k ids) :=
  ⟨stations_setQueue tr k ids, rfl, rfl, fun _ p hp => ⟨p, hp, .refl p⟩⟩

theorem Advances.setPacket (hp : tr.packet? id = some p) (h : p.Becomes q) :
    Advances tr (tr.setPacket id q) where
  stations := rfl
  generating := rfl
  size := size_setPacket tr id q
  packet i r hr := by
    by_cases hi : i = id
    · subst hi
      obtain rfl := Option.some.inj (hp.symm.trans hr)
      exact ⟨q, packet?_setPacket_self hp, h⟩
    · exact ⟨r, (packet?_setPacket_of_ne hi).trans hr, .refl r⟩

theorem of_update {step : Packet → Except Fault Packet} (h : tr.update id step = .ok tr') :
    ∃ p q, tr.packet? id = some p ∧ step p = .ok q ∧ tr' = tr.setPacket id q := by
  unfold update at h
  split at h
  · cases h
  rename_i p hp
  cases hq : step p with
  | error fault => rw [hq] at h; cases h
  | ok q =>
    rw [hq] at h
    exact ⟨p, q, hp, hq, (Except.ok.inj h).symm⟩

def state? (tr : Traffic) (id : Nat) : Option PacketState := (tr.packet? id).map Packet.state

theorem state?_of_packet? (hp : tr.packet? id = some p) : tr.state? id = some p.state := by
  rw [state?, hp]
  rfl

@[simp]
theorem state?_setQueue (tr : Traffic) (k : Int) (ids : List Nat) (id : Nat) :
    (tr.setQueue k ids).state? id = tr.state? id := rfl

theorem state?_setPacket_self (hp : tr.packet? id = some p) :
    (tr.setPacket id q).state? id = some q.state :=
  state?_of_packet? (packet?_setPacket_self hp)

theorem state?_setPacket_of_ne (h : i ≠ id) : (tr.setPacket id q).state? i = tr.state? i := by
  rw [state?, packet?_setPacket_of_ne h, state?]

def Final (tr tr' : Traffic) : Prop :=
  ∀ id s, s.isTerminal = true → tr.state? id = some s → tr'.state? id = some s

theorem Advances.final (h : Advances tr tr') : Final tr tr' := by
  intro id s hs hid
  obtain ⟨p, hp, rfl⟩ := Option.map_eq_some_iff.mp hid
  obtain ⟨q, hq, hpq⟩ := h.packet id p hp
  rw [state?_of_packet? hq, hpq.final hs]

/-- Just the packets `sent` were transmitted and just the packets `lost` were dropped. -/
structure Clears (tr tr' : Traffic) (sent lost : List Nat) : Prop where
  sent_nodup : sent.Nodup
  lost_nodup : lost.Nodup
  sent : ∀ id, id ∈ sent ↔
    tr'.state? id = some .transmitted ∧ tr.state? id ≠ some .transmitted
  lost : ∀ id, id ∈ lost ↔ tr'.state? id = some .dropped ∧ tr.state? id ≠ some .dropped

theorem Clears.nothing (h : ∀ id s, s.isTerminal = true →
    tr'.state? id = some s → tr.state? id = some s) : Clears tr tr' [] [] where
  sent_nodup := .nil
  lost_nodup := .nil
  sent id := by simpa using h id .transmitted rfl
  lost id := by simpa using h id .dropped rfl

theorem Clears.refl (tr : Traffic) : Clears tr tr [] [] := .nothing fun _ _ _ h => h

theorem Clears.setQueue (tr : Traffic) (k : Int) (ids : List Nat) :
    Clears tr (tr.setQueue k ids) [] [] := .nothing fun _ _ _ h => h

theorem Clears.setPacket (hp : tr.packet? id = some p)
    (hq : q.isResolved = true → p.state = q.state) :
    Clears tr (tr.setPacket id q) [] [] := by
  refine .nothing fun i s hs h => ?_
  by_cases hi : i = id
  · subst hi
    rw [state?_setPacket_self hp, Option.some.injEq] at h
    subst h
    rw [state?_of_packet? hp, hq hs]
  · rwa [state?_setPacket_of_ne hi] at h

theorem mem_singleton_iff_reached {s : PacketState} (hp : tr.packet? id = some p)
    (hnew : p.state ≠ s) (hs : q.state = s) : ∀ i, i ∈ [id] ↔
      (tr.setPacket id q).state? i = some s ∧ tr.state? i ≠ some s := by
  intro i
  rw [List.mem_singleton]
  by_cases hi : i = id
  · subst hi
    simp [state?_setPacket_self hp, state?_of_packet? hp, hnew, hs]
  · simp [state?_setPacket_of_ne hi, hi]

theorem mem_nil_iff_reached {s : PacketState} (hp : tr.packet? id = some p) (hs : q.state ≠ s) :
    ∀ i, i ∈ ([] : List Nat) ↔
      (tr.setPacket id q).state? i = some s ∧ tr.state? i ≠ some s := by
  intro i
  by_cases hi : i = id
  · subst hi
    simp [state?_setPacket_self hp, hs]
  · simp [state?_setPacket_of_ne hi]

theorem Clears.send (hp : tr.packet? id = some p) (h : p.isResolved = false)
    (hq : q.state = .transmitted) : Clears tr (tr.setPacket id q) [id] [] where
  sent_nodup := List.nodup_singleton id
  lost_nodup := .nil
  sent := mem_singleton_iff_reached hp (by rintro he; rw [Packet.isResolved, he] at h; cases h) hq
  lost := mem_nil_iff_reached hp (by rw [hq]; decide)

theorem Clears.lose (hp : tr.packet? id = some p) (h : p.isResolved = false)
    (hq : q.state = .dropped) : Clears tr (tr.setPacket id q) [] [id] where
  sent_nodup := .nil
  lost_nodup := List.nodup_singleton id
  sent := mem_nil_iff_reached hp (by rw [hq]; decide)
  lost := mem_singleton_iff_reached hp (by rintro he; rw [Packet.isResolved, he] at h; cases h) hq

theorem reached_append {s : PacketState} {l l' : List Nat} (hs : s.isTerminal = true)
    (hfinal : Final tr tr') (hfinal' : Final tr' tr'') (hl : l.Nodup) (hl' : l'.Nodup)
    (h : ∀ id, id ∈ l ↔ tr'.state? id = some s ∧ tr.state? id ≠ some s)
    (h' : ∀ id, id ∈ l' ↔ tr''.state? id = some s ∧ tr'.state? id ≠ some s) :
    (l ++ l').Nodup ∧
      ∀ id, id ∈ l ++ l' ↔ tr''.state? id = some s ∧ tr.state? id ≠ some s := by
  constructor
  · refine List.nodup_append.mpr ⟨hl, hl', fun a ha b hb hab => ?_⟩
    exact ((h' b).mp hb).2 (hab ▸ ((h a).mp ha).1)
  · intro id
    rw [List.mem_append, h, h']
    constructor
    · rintro (⟨h₁, h₂⟩ | ⟨h₁, h₂⟩)
      · exact ⟨hfinal' id s hs h₁, h₂⟩
      · exact ⟨h₁, fun h₃ => h₂ (hfinal id s hs h₃)⟩
    · rintro ⟨h₁, h₂⟩
      by_cases h₃ : tr'.state? id = some s
      · exact Or.inl ⟨h₃, h₂⟩
      · exact Or.inr ⟨h₁, h₃⟩

theorem Clears.trans (h : Clears tr tr' sent lost) (hfinal : Final tr tr')
    (h' : Clears tr' tr'' sent' lost') (hfinal' : Final tr' tr'') :
    Clears tr tr'' (sent ++ sent') (lost ++ lost') := by
  obtain ⟨hsent, hsentIff⟩ :=
    reached_append rfl hfinal hfinal' h.sent_nodup h'.sent_nodup h.sent h'.sent
  obtain ⟨hlost, hlostIff⟩ :=
    reached_append rfl hfinal hfinal' h.lost_nodup h'.lost_nodup h.lost h'.lost
  exact ⟨hsent, hlost, hsentIff, hlostIff⟩

theorem Clears.congr (h : Clears tr tr' sent lost) (he : ∀ id, tr''.state? id = tr'.state? id) :
    Clears tr tr'' sent lost where
  sent_nodup := h.sent_nodup
  lost_nodup := h.lost_nodup
  sent id := by rw [he, h.sent]
  lost id := by rw [he, h.lost]

theorem Clears.transmitted_iff (h : Clears tr tr' sent lost) (hfinal : Final tr tr')
    (hid : id ∉ sent) :
    tr'.state? id = some .transmitted ↔ tr.state? id = some .transmitted := by
  refine ⟨fun hsent => ?_, hfinal id .transmitted rfl⟩
  by_contra hunsent
  exact hid ((h.sent id).mpr ⟨hsent, hunsent⟩)

def inState (tr : Traffic) (s : PacketState) : List Nat :=
  (List.range tr.packets.size).filter fun id => tr.state? id = some s

theorem mem_inState {s : PacketState} : id ∈ tr.inState s ↔ tr.state? id = some s := by
  rw [inState, List.mem_filter, List.mem_range, decide_eq_true_eq, and_iff_right_iff_imp]
  intro h
  obtain ⟨p, hp, -⟩ := Option.map_eq_some_iff.mp h
  exact (Array.getElem?_eq_some_iff.mp hp).1

theorem inState_nodup (tr : Traffic) (s : PacketState) : (tr.inState s).Nodup :=
  List.nodup_range.filter _

theorem inState_perm {s : PacketState} {l : List Nat} (hs : s.isTerminal = true)
    (hfinal : Final tr tr') (hl : l.Nodup)
    (h : ∀ id, id ∈ l ↔ tr'.state? id = some s ∧ tr.state? id ≠ some s) :
    (tr'.inState s).Perm (tr.inState s ++ l) := by
  refine (List.perm_ext_iff_of_nodup (inState_nodup tr' s) ?_).mpr fun id => ?_
  · refine List.nodup_append.mpr ⟨inState_nodup tr s, hl, fun a ha b hb hab => ?_⟩
    exact ((h b).mp hb).2 (hab ▸ mem_inState.mp ha)
  · rw [List.mem_append, mem_inState, mem_inState, h]
    constructor
    · intro hid
      by_cases hold : tr.state? id = some s
      · exact Or.inl hold
      · exact Or.inr ⟨hid, hold⟩
    · rintro (hold | ⟨hid, -⟩)
      · exact hfinal id s hs hold
      · exact hid

def isOpen (tr : Traffic) (k : Int) (id : Nat) : Bool :=
  (tr.packet? id).any fun p => p.station = k && !p.isResolved

def unresolved (tr : Traffic) (k : Int) : List Nat :=
  (List.range tr.packets.size).filter (tr.isOpen k)

/-- Before round `t`, the queues have custody of the packets without an outcome. -/
structure InCustody (tr : Traffic) (t : Int) : Prop where
  owner : ∀ id p, tr.packet? id = some p → p.id = id ∧ ∃ s ∈ tr.stations, s.id = p.station
  waiting : ∀ k, tr.waiting k = tr.unresolved k
  early : ∀ id p, tr.packet? id = some p → p.arrival < t
  ordered : ∀ i j p q, i ≤ j → tr.packet? i = some p → tr.packet? j = some q →
    p.arrival ≤ q.arrival

theorem isOpen_of_packet? (hp : tr.packet? id = some p) (k : Int) :
    tr.isOpen k id = (decide (p.station = k) && !p.isResolved) := by
  rw [isOpen, hp]
  rfl

theorem lt_size_of_packet? (hp : tr.packet? id = some p) : id < tr.packets.size :=
  (Array.getElem?_eq_some_iff.mp hp).1

theorem exists_packet?_of_lt (h : id < tr.packets.size) : ∃ p, tr.packet? id = some p :=
  ⟨_, Array.getElem?_eq_getElem h⟩

theorem Advances.origin (h : Advances tr tr') (hq : tr'.packet? id = some q) :
    ∃ p, tr.packet? id = some p ∧ p.Becomes q := by
  obtain ⟨p, hp⟩ := exists_packet?_of_lt (h.size ▸ lt_size_of_packet? hq)
  obtain ⟨q', hq', hpq⟩ := h.packet id p hp
  obtain rfl := Option.some.inj (hq.symm.trans hq')
  exact ⟨p, hp, hpq⟩

theorem mem_unresolved : id ∈ tr.unresolved k ↔
    ∃ p, tr.packet? id = some p ∧ p.station = k ∧ p.isResolved = false := by
  rw [unresolved, List.mem_filter, List.mem_range, isOpen, Option.any_eq_true]
  simp only [Bool.and_eq_true, decide_eq_true_eq, Bool.not_eq_true']
  constructor
  · exact fun h => h.2
  · rintro ⟨p, hp, h⟩
    exact ⟨lt_size_of_packet? hp, p, hp, h⟩

theorem unresolved_nodup (tr : Traffic) (k : Int) : (tr.unresolved k).Nodup :=
  List.nodup_range.filter _

theorem Advances.isOpen (h : Advances tr tr') (hopen : tr'.isOpen k id = true) :
    tr.isOpen k id = true := by
  obtain ⟨q, hq, hlive⟩ := Option.any_eq_true _ _ |>.mp hopen
  obtain ⟨p, hp, hpq⟩ := h.origin hq
  rw [Bool.and_eq_true, decide_eq_true_eq, Bool.not_eq_true'] at hlive
  rw [isOpen_of_packet? hp, Bool.and_eq_true, decide_eq_true_eq, Bool.not_eq_true']
  refine ⟨hpq.station ▸ hlive.1, Bool.eq_false_iff.mpr fun hp' => ?_⟩
  rw [hpq.final hp', hp'] at hlive
  exact Bool.noConfusion hlive.2

theorem Advances.unresolved (h : Advances tr tr') (k : Int) :
    tr'.unresolved k = (tr.unresolved k).filter (tr'.isOpen k) := by
  rw [Traffic.unresolved, Traffic.unresolved, List.filter_filter, h.size]
  refine List.filter_congr fun id _ => ?_
  cases hopen : tr'.isOpen k id with
  | false => rfl
  | true => rw [h.isOpen hopen]; rfl

theorem InCustody.advance (h : InCustody tr t) (ha : Advances tr tr')
    (hw : ∀ k, tr'.waiting k = (tr.waiting k).filter (tr'.isOpen k)) : InCustody tr' t := by
  constructor
  · intro id q hq
    obtain ⟨p, hp, hpq⟩ := ha.origin hq
    rw [hpq.id, hpq.station, ha.stations]
    exact h.owner id p hp
  · intro k
    rw [hw, h.waiting, ha.unresolved]
  · intro id q hq
    obtain ⟨p, hp, hpq⟩ := ha.origin hq
    rw [hpq.arrival]
    exact h.early id p hp
  · intro i j q q' hij hq hq'
    obtain ⟨p, hp, hpq⟩ := ha.origin hq
    obtain ⟨p', hp', hpq'⟩ := ha.origin hq'
    rw [hpq.arrival, hpq'.arrival]
    exact h.ordered i j p p' hij hp hp'

theorem InCustody.of_waiting (h : InCustody tr t) (hid : id ∈ tr.waiting k) :
    ∃ p, tr.packet? id = some p ∧ p.station = k ∧ p.isResolved = false :=
  mem_unresolved.mp (h.waiting k ▸ hid)

theorem InCustody.not_terminal (h : InCustody tr t) (hid : id ∈ tr.waiting k) {s : PacketState}
    (hs : s.isTerminal = true) : tr.state? id ≠ some s := by
  obtain ⟨p, hp, -, hopen⟩ := h.of_waiting hid
  intro he
  rw [state?_of_packet? hp, Option.some.injEq] at he
  rw [Packet.isResolved, he, hs] at hopen
  cases hopen

theorem InCustody.queue_unique (h : InCustody tr t) {j : Int} (hj : id ∈ tr.waiting j)
    (hk : id ∈ tr.waiting k) : j = k := by
  obtain ⟨p, hp, hstation, -⟩ := h.of_waiting hj
  obtain ⟨p', hp', hstation', -⟩ := h.of_waiting hk
  obtain rfl := Option.some.inj (hp.symm.trans hp')
  exact hstation.symm.trans hstation'

theorem InCustody.isOpen (h : InCustody tr t) (hid : id ∈ tr.waiting k) :
    tr.isOpen k id = true := by
  obtain ⟨p, hp, hk, hopen⟩ := h.of_waiting hid
  simp [isOpen_of_packet? hp, hk, hopen]

theorem InCustody.waiting_nodup (h : InCustody tr t) (k : Int) : (tr.waiting k).Nodup :=
  h.waiting k ▸ unresolved_nodup tr k

theorem InCustody.waiting_increasing (h : InCustody tr t) (k : Int) :
    (tr.waiting k).Pairwise (· < ·) := by
  rw [h.waiting]
  exact List.pairwise_lt_range.filter _

theorem InCustody.later (h : InCustody tr t) {u : Int} (hle : t ≤ u) : InCustody tr u :=
  ⟨h.owner, h.waiting, fun id p hp => (h.early id p hp).trans_le hle, h.ordered⟩

theorem InCustody.setPacket (h : InCustody tr t) (hp : tr.packet? id = some p)
    (hpq : p.Becomes q) (hq : q.isResolved = p.isResolved) :
    InCustody (tr.setPacket id q) t := by
  refine h.advance (Advances.setPacket hp hpq) fun k => ?_
  rw [waiting_setPacket, eq_comm, List.filter_eq_self]
  intro i hi
  by_cases hid : i = id
  · subst hid
    rw [isOpen_of_packet? (packet?_setPacket_self hp), hpq.station, hq, ← isOpen_of_packet? hp]
    exact h.isOpen hi
  · rw [Traffic.isOpen, packet?_setPacket_of_ne hid]
    exact h.isOpen hi

theorem InCustody.resolve (h : InCustody tr t) (hp : tr.packet? id = some p)
    (hpq : p.Becomes q) (hq : q.isResolved = true)
    (hids : ids = (tr.waiting p.station).filter (· ≠ id)) :
    InCustody ((tr.setQueue p.station ids).setPacket id q) t := by
  have hsetQueue := Advances.setQueue tr p.station ids
  have hp' : (tr.setQueue p.station ids).packet? id = some p := hp
  obtain ⟨-, s, hs, hstation⟩ := h.owner id p hp
  refine h.advance (hsetQueue.trans (Advances.setPacket hp' hpq)) fun k => ?_
  have hfilter : (tr.waiting k).filter
      (Traffic.isOpen ((tr.setQueue p.station ids).setPacket id q) k) =
        (tr.waiting k).filter (· ≠ id) := by
    refine List.filter_congr fun i hi => ?_
    by_cases hid : i = id
    · subst hid
      simp [isOpen_of_packet? (packet?_setPacket_self hp'), hq]
    · rw [Traffic.isOpen, packet?_setPacket_of_ne hid, decide_eq_true hid]
      exact h.isOpen hi
  rw [hfilter, waiting_setPacket]
  by_cases hk : k = p.station
  · subst hk
    rw [← hids, ← hstation, waiting_setQueue_self hs]
  · rw [waiting_setQueue_of_ne hk, eq_comm, List.filter_eq_self]
    intro i hi
    obtain ⟨r, hr, rfl, -⟩ := h.of_waiting hi
    refine decide_eq_true fun hid => hk ?_
    rw [Option.some.inj (hr.symm.trans (hid ▸ hp))]

theorem waiting_setQueue_filter (tr : Traffic) (k : Int) (f : Nat → Bool) :
    (tr.setQueue k ((tr.waiting k).filter f)).waiting k = (tr.waiting k).filter f := by
  cases hq : tr.queue? k with
  | none =>
    have hnone : tr.waiting k = [] := by rw [Traffic.waiting, hq]; rfl
    rw [hnone, List.filter_nil, Traffic.waiting, queue?_setQueue, hq]
    rfl
  | some q =>
    obtain rfl := station_of_queue? hq
    exact waiting_setQueue_self (List.mem_map_of_mem (List.mem_of_find?_eq_some hq)) _

/-- What service does to traffic whose queues have custody of it, and go on to have it. -/
structure Serves (tr tr' : Traffic) (t : Int) (sent lost : List Nat) : Prop where
  advances : Advances tr tr'
  clears : Clears tr tr' sent lost
  custody : InCustody tr' t

theorem InCustody.serves (h : InCustody tr t) : Serves tr tr t [] [] :=
  ⟨.refl tr, .refl tr, h⟩

theorem Serves.trans (h₁ : Serves tr tr' t sent lost) (h₂ : Serves tr' tr'' t sent' lost') :
    Serves tr tr'' t (sent ++ sent') (lost ++ lost') :=
  ⟨h₁.advances.trans h₂.advances, h₁.clears.trans h₁.advances.final h₂.clears h₂.advances.final,
    h₂.custody⟩

theorem InCustody.send {round : Int} {ru : Ru} (h : InCustody tr t) (hp : tr.packet? id = some p)
    (hq : p.Leaves q round ru) (hids : ids = (tr.waiting p.station).filter (· ≠ id)) :
    Serves tr ((tr.setQueue p.station ids).setPacket id q) t [id] [] where
  advances := (Advances.setQueue tr p.station ids).trans (Advances.setPacket hp hq.becomes)
  clears := by
    have hp' : (tr.setQueue p.station ids).packet? id = some p := hp
    exact (Clears.setQueue tr p.station ids).trans (Advances.setQueue tr p.station ids).final
      (Clears.send hp' hq.unresolved hq.state) (Advances.setPacket hp' hq.becomes).final
  custody := h.resolve hp hq.becomes (Packet.isResolved_of_transmitted hq.state) hids

theorem InCustody.lose {round : Int} {reason : DropReason} (h : InCustody tr t)
    (hp : tr.packet? id = some p) (hopen : p.isResolved = false)
    (hids : ids = (tr.waiting p.station).filter (· ≠ id)) :
    Serves tr ((tr.setQueue p.station ids).setPacket id (p.lost round reason)) t [] [id] where
  advances := (Advances.setQueue tr p.station ids).trans
    (Advances.setPacket hp (Packet.becomes_lost hopen))
  clears := by
    have hp' : (tr.setQueue p.station ids).packet? id = some p := hp
    exact (Clears.setQueue tr p.station ids).trans (Advances.setQueue tr p.station ids).final
      (Clears.lose hp' hopen rfl) (Advances.setPacket hp' (Packet.becomes_lost hopen)).final
  custody := h.resolve hp (Packet.becomes_lost hopen) rfl hids

theorem InCustody.of_drop {round : Int} {reason : DropReason} (h : InCustody tr t)
    (hk : ∀ p, tr.packet? id = some p → p.station = k)
    (hdrop : (tr.setQueue k ((tr.waiting k).filter (· ≠ id))).update id
      (fun p => p.drop round reason) = .ok tr') : Serves tr tr' t [] [id] := by
  obtain ⟨p, q, hp, hq, rfl⟩ := of_update hdrop
  obtain ⟨hopen, rfl⟩ := Packet.of_drop hq
  obtain rfl := hk p hp
  exact h.lose hp hopen rfl

theorem of_popFront (h : tr.popFront k = .ok (id, tr')) :
    ∃ ids, tr.waiting k = id :: ids ∧ tr' = tr.setQueue k ids := by
  unfold popFront queue at h
  rw [waiting]
  split at h
  · cases h
  · cases h
  · rename_i i ids hids
    split at hids
    · rename_i q hq
      cases h
      exact ⟨ids, by rw [hq, ← Except.ok.inj hids]; rfl, rfl⟩
    · cases hids

theorem filter_ne_of_nodup_cons (h : (id :: ids).Nodup) : (id :: ids).filter (· ≠ id) = ids := by
  obtain ⟨hid, -⟩ := List.nodup_cons.mp h
  rw [List.filter_cons_of_neg (by simp), List.filter_eq_self]
  exact fun i hi => decide_eq_true (ne_of_mem_of_not_mem hi hid)

structure Grows (tr tr' : Traffic) (count : Nat) : Prop where
  stations : tr'.stations = tr.stations
  generating : tr'.generating = tr.generating
  size : tr'.packets.size = tr.packets.size + count
  old : ∀ id p, tr.packet? id = some p → tr'.packet? id = some p
  new : ∀ id p, tr'.packet? id = some p →
    tr.packet? id = some p ∨ p.state = .pending ∧ p.txStatus = none

theorem Grows.refl (tr : Traffic) : Grows tr tr 0 :=
  ⟨rfl, rfl, rfl, fun _ _ hp => hp, fun _ _ hp => Or.inl hp⟩

theorem Grows.trans {m n : Nat} (h₁ : Grows tr tr' m) (h₂ : Grows tr' tr'' n) :
    Grows tr tr'' (n + m) where
  stations := h₂.stations.trans h₁.stations
  generating := h₂.generating.trans h₁.generating
  size := by rw [h₂.size, h₁.size]; omega
  old id p hp := h₂.old id p (h₁.old id p hp)
  new id p hp := (h₂.new id p hp).elim (h₁.new id p) Or.inr

theorem Grows.emitFrom (tr : Traffic) (s : Station) (round : Int) :
    Grows tr (tr.emitFrom s round) 1 where
  stations := emitFrom_stations tr s round
  generating := rfl
  size := by simp [Traffic.emitFrom]
  old id p hp := by
    rw [packet?_emitFrom, if_neg (lt_size_of_packet? hp).ne]
    exact hp
  new id p hp := by
    rw [packet?_emitFrom] at hp
    split_ifs at hp
    · cases hp
      exact Or.inr ⟨rfl, rfl⟩
    · exact Or.inl hp

theorem unresolved_emitFrom (tr : Traffic) (s : Station) (round k : Int) :
    (tr.emitFrom s round).unresolved k =
      tr.unresolved k ++ if s.id = k then [tr.packets.size] else [] := by
  have hsize := (Grows.emitFrom tr s round).size
  rw [unresolved, hsize, List.range_succ, List.filter_append]
  congr 1
  · refine List.filter_congr fun id hid => ?_
    rw [isOpen, packet?_emitFrom, if_neg (List.mem_range.mp hid).ne]
    rfl
  · have hnew : (tr.emitFrom s round).packet? tr.packets.size =
        some (arriving s tr.packets.size round) := by
      rw [packet?_emitFrom, if_pos rfl]
    by_cases hk : s.id = k
    · simp [isOpen_of_packet? hnew, arriving, Packet.isResolved, PacketState.isTerminal, hk]
    · simp [isOpen_of_packet? hnew, arriving, hk]

theorem InCustody.emitFrom {s : Station} (h : InCustody tr (t + 1)) (hs : s ∈ tr.stations) :
    InCustody (tr.emitFrom s t) (t + 1) where
  owner id p hp := by
    rw [emitFrom_stations]
    rw [packet?_emitFrom] at hp
    split_ifs at hp with hid
    · cases hp
      exact ⟨by rw [hid]; rfl, s, hs, rfl⟩
    · exact h.owner id p hp
  waiting k := by
    rw [unresolved_emitFrom, ← h.waiting]
    split_ifs with hk
    · rw [← hk, waiting_emitFrom_self hs]
    · rw [waiting_emitFrom_of_ne (Ne.symm hk), List.append_nil]
  early id p hp := by
    rw [packet?_emitFrom] at hp
    split_ifs at hp
    · cases hp
      exact Int.lt_succ t
    · exact h.early id p hp
  ordered i j p q hij hp hq := by
    rw [packet?_emitFrom] at hp hq
    split_ifs at hp hq with hi hj hj
    · cases hp
      cases hq
      exact le_rfl
    · have := lt_size_of_packet? hq
      omega
    · cases hq
      exact Int.lt_add_one_iff.mp (h.early i p hp)
    · exact h.ordered i j p q hij hp hq

theorem emitAll_custody {due : List Station} (h : InCustody tr (t + 1))
    (hdue : ∀ s ∈ due, s ∈ tr.stations) :
    InCustody (tr.emitAll t due) (t + 1) ∧ Grows tr (tr.emitAll t due) due.length := by
  induction due generalizing tr with
  | nil => exact ⟨h, .refl tr⟩
  | cons s due ih =>
    obtain ⟨hcustody, hgrows⟩ := ih (h.emitFrom (hdue s List.mem_cons_self))
      fun u hu => (emitFrom_stations tr s t).symm ▸ hdue u (List.mem_cons_of_mem s hu)
    exact ⟨hcustody, (Grows.emitFrom tr s t).trans hgrows⟩

theorem InCustody.generate (h : InCustody tr t) : InCustody (tr.generate t).2 (t + 1) ∧
    Grows tr (tr.generate t).2 (tr.generate t).1.length := by
  have hdue : ∀ s ∈ tr.due t, s ∈ tr.stations := by
    intro s hs
    rw [due] at hs
    split_ifs at hs
    · exact List.mem_of_mem_filter hs
    · cases hs
  rw [Traffic.generate, List.length_range']
  exact emitAll_custody (h.later (Int.lt_succ t).le) hdue

theorem Grows.clears {count : Nat} (h : Grows tr tr' count) : Clears tr tr' [] [] := by
  refine .nothing fun id s hs hid => ?_
  obtain ⟨p, hp, rfl⟩ := Option.map_eq_some_iff.mp hid
  rcases h.new id p hp with hold | ⟨hstate, -⟩
  · exact state?_of_packet? hold
  · rw [hstate] at hs
    cases hs

theorem Grows.final {count : Nat} (h : Grows tr tr' count) : Final tr tr' := by
  intro id s _ hid
  obtain ⟨p, hp, rfl⟩ := Option.map_eq_some_iff.mp hid
  exact state?_of_packet? (h.old id p hp)

theorem InCustody.stop (h : InCustody tr t) : InCustody tr.stop t :=
  ⟨h.owner, h.waiting, h.early, h.ordered⟩

theorem inCustody_fresh (stations : List Station) (t : Int) : InCustody (fresh stations) t where
  owner id p hp := by simp [fresh, packet?] at hp
  waiting k := waiting_fresh stations k
  early id p hp := by simp [fresh, packet?] at hp
  ordered i j p q _ hp := by simp [fresh, packet?] at hp

theorem InCustody.mem_queues (h : InCustody tr t) (hr : Station.Roster tr.stations) :
    id ∈ tr.queues.flatMap Queue.ids ↔ ∃ p, tr.packet? id = some p ∧ p.isResolved = false := by
  rw [List.mem_flatMap]
  constructor
  · rintro ⟨q, hq, hid⟩
    rw [← waiting_of_mem hr hq] at hid
    obtain ⟨p, hp, -, hopen⟩ := h.of_waiting hid
    exact ⟨p, hp, hopen⟩
  · rintro ⟨p, hp, hopen⟩
    obtain ⟨-, s, hs, hstation⟩ := h.owner id p hp
    obtain ⟨q, hq, rfl⟩ := List.mem_map.mp hs
    refine ⟨q, hq, ?_⟩
    rw [← waiting_of_mem hr hq, h.waiting]
    exact mem_unresolved.mpr ⟨p, hp, hstation.symm, hopen⟩

theorem InCustody.queues_nodup (h : InCustody tr t) (hr : Station.Roster tr.stations) :
    (tr.queues.flatMap Queue.ids).Nodup := by
  refine List.nodup_flatMap.mpr ⟨fun q hq => waiting_of_mem hr hq ▸ h.waiting_nodup _, ?_⟩
  have hids : tr.queues.Pairwise fun q q' => q.station.id ≠ q'.station.id := by
    have := hr.ids_nodup
    rw [Traffic.stations, List.map_map] at this
    exact List.pairwise_map.mp this
  refine hids.imp_of_mem fun {q q'} hq hq' hne id hid hid' => hne ?_
  rw [← waiting_of_mem hr hq] at hid
  rw [← waiting_of_mem hr hq'] at hid'
  exact h.queue_unique hid hid'

theorem InCustody.backlog (h : InCustody tr t) (hr : Station.Roster tr.stations) :
    tr.backlog + (tr.inState .transmitted).length + (tr.inState .dropped).length =
      tr.packets.size := by
  have hperm : (tr.queues.flatMap Queue.ids ++ tr.inState .transmitted ++
      tr.inState .dropped).Perm (List.range tr.packets.size) := by
    refine (List.perm_ext_iff_of_nodup ?_ List.nodup_range).mpr fun id => ?_
    · simp only [List.nodup_append, inState_nodup, h.queues_nodup hr, List.mem_append,
        h.mem_queues hr, mem_inState, true_and]
      constructor
      · rintro i ⟨p, hp, hopen⟩ j hj rfl
        rw [state?_of_packet? hp, Option.some.injEq] at hj
        simp [Packet.isResolved, hj, PacketState.isTerminal] at hopen
      · rintro i (⟨p, hp, hopen⟩ | hi) j hj rfl
        · rw [state?_of_packet? hp, Option.some.injEq] at hj
          simp [Packet.isResolved, hj, PacketState.isTerminal] at hopen
        · rw [hi] at hj
          cases hj
    · simp only [List.mem_append, h.mem_queues hr, mem_inState, List.mem_range]
      constructor
      · rintro ((⟨p, hp, -⟩ | hid) | hid)
        · exact lt_size_of_packet? hp
        · exact List.mem_range.mp (List.mem_of_mem_filter (mem_inState.mpr hid))
        · exact List.mem_range.mp (List.mem_of_mem_filter (mem_inState.mpr hid))
      · intro hid
        obtain ⟨p, hp⟩ := exists_packet?_of_lt hid
        rw [state?_of_packet? hp]
        cases hs : p.state with
        | idle => exact Or.inl (Or.inl ⟨p, hp, by rw [Packet.isResolved, hs]; rfl⟩)
        | pending => exact Or.inl (Or.inl ⟨p, hp, by rw [Packet.isResolved, hs]; rfl⟩)
        | scheduled => exact Or.inl (Or.inl ⟨p, hp, by rw [Packet.isResolved, hs]; rfl⟩)
        | transmitted => exact Or.inl (Or.inr rfl)
        | dropped => exact Or.inr rfl
  have hlength := hperm.length_eq
  rwa [List.length_append, List.length_append, List.length_range] at hlength

/-- The queues hold exactly the packets without an outcome, each once, in the queue of its own
station and in order of arrival. -/
structure Queued (tr : Traffic) : Prop where
  once : (tr.queues.flatMap Queue.ids).Nodup
  exactly : ∀ id, id ∈ tr.queues.flatMap Queue.ids ↔
    ∃ p, tr.packet? id = some p ∧ p.state.isTerminal = false
  own : ∀ q ∈ tr.queues, ∀ id ∈ q.ids,
    ∃ p, tr.packet? id = some p ∧ p.id = id ∧ p.station = q.station.id
  ordered : ∀ q ∈ tr.queues, q.ids.Pairwise fun i j => i < j ∧
    ∀ a b, tr.packet? i = some a → tr.packet? j = some b → a.arrival ≤ b.arrival

theorem InCustody.queued (h : InCustody tr t) (hr : Station.Roster tr.stations) : tr.Queued where
  once := h.queues_nodup hr
  exactly _ := h.mem_queues hr
  own q hq id hid := by
    rw [← waiting_of_mem hr hq] at hid
    obtain ⟨p, hp, hstation, -⟩ := h.of_waiting hid
    exact ⟨p, hp, (h.owner id p hp).1, hstation⟩
  ordered q hq := by
    rw [← waiting_of_mem hr hq, h.waiting, unresolved]
    refine (List.pairwise_lt_range.filter _).imp fun {i j} hij => ⟨hij, fun a b ha hb => ?_⟩
    exact h.ordered i j a b hij.le ha hb

end Traffic

end Downlink
