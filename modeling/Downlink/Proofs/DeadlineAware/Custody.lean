import Downlink.Proofs.Traffic.Custody
import Downlink.Scheduler.DeadlineAware

/-!
# Custody in the deadline-aware scheduler

Whatever a planner replies, a completed round reports just the packets that it dropped, those
cleared away at the start of a horizon included, and allocates just those that it sent. While a
station is served its queue still names packets that are dropped already; the walk over the queue
takes them out.
-/

namespace Downlink.DeadlineAware

open Traffic

variable {d d' : DeadlineAware} {out out' : RoundAssignment} {r k index t : Int} {id : Nat}
  {p q : Packet} {ids sent lost : List Nat} {stations : List Int} {tr tr' tr'' : Traffic}
  {w w' : Walk} {z : Sizing}

def noteBacklog (d : DeadlineAware) : DeadlineAware :=
  { d with book := { d.book with candidates := Book.withBacklog d.traffic d.book.cell.ids } }

theorem of_selectWith {start : Int → DeadlineAware → Attempt DeadlineAware Unit} {f : TxFormat}
    (h : selectWith start r d = .ok f d') :
    f = .noTx ∧ d' = d.noteBacklog ∨ f = .dlMuTx ∧ (d' = d.noteBacklog ∨
      d.noteBacklog.book.startsIn r = true ∧ start r d.noteBacklog = .ok () d') := by
  unfold selectWith at h
  dsimp only at h
  split_ifs at h with hempty hstarts
  · cases h
    exact Or.inl ⟨rfl, rfl⟩
  · split at h
    · cases h
    rename_i hstart
    cases h
    exact Or.inr ⟨rfl, Or.inr ⟨hstarts, hstart⟩⟩
  · cases h
    exact Or.inr ⟨rfl, Or.inl rfl⟩

theorem of_startHorizon (h : startHorizon r d = .ok () d') :
    ∃ d₁, planHorizon r { d with planning := true } = .ok () d₁ ∧
      d' = { d₁ with planning := false } := by
  unfold startHorizon at h
  split_ifs at h
  · cases h
  split at h
  · cases h
  rename_i d₁ hplan
  cases h
  exact ⟨d₁, hplan, rfl⟩

theorem of_planHorizon (h : planHorizon r d = .ok () d') :
    ∃ s d₁ decision d₂, d.book.cell.schedule r = .ok s ∧
      expireAll r d.book.cell.ids d = .ok () d₁ ∧
      consult (d₁.planner.reply d₁.consulted s d₁.book.cell.sizing)
        { d₁ with consulted := d₁.consulted + 1 } = .ok decision d₂ ∧
      d' = install s decision d₂ := by
  unfold planHorizon at h
  split at h
  · cases h
  rename_i s hs
  split at h
  · cases h
  rename_i d₁ hexpire
  dsimp only at h
  split at h
  · cases h
  rename_i decision d₂ hconsult
  cases h
  exact ⟨s, d₁, decision, d₂, hs, hexpire, hconsult, rfl⟩

theorem expire_serves (h : InCustody d.traffic t)
    (hk : ∀ id ∈ ids, ∀ p, d.traffic.packet? id = some p → p.station = k)
    (hexpire : expire r k ids d = .ok () d') :
    Serves d.traffic d'.traffic t [] ids ∧ d'.unreported = d.unreported ++ ids := by
  induction ids generalizing d with
  | nil =>
    cases hexpire
    exact ⟨h.serves, (List.append_nil _).symm⟩
  | cons id ids ih =>
    rw [expire] at hexpire
    dsimp only at hexpire
    split at hexpire
    · cases hexpire
    rename_i tr hupdate
    have h₁ := h.of_drop (hk id List.mem_cons_self) hupdate
    obtain ⟨h₂, hunreported⟩ := ih h₁.custody (fun i hi q hq => by
      obtain ⟨p, hp, hbecomes⟩ := h₁.advances.origin hq
      rw [hbecomes.station]
      exact hk i (List.mem_cons_of_mem id hi) p hp) hexpire
    exact ⟨h₁.trans h₂, by rw [hunreported, List.append_assoc]; rfl⟩

theorem expireAll_serves (h : InCustody d.traffic t)
    (hexpire : expireAll r stations d = .ok () d') :
    ∃ lost, Serves d.traffic d'.traffic t [] lost ∧ d'.unreported = d.unreported ++ lost := by
  induction stations generalizing d with
  | nil =>
    cases hexpire
    exact ⟨[], h.serves, (List.append_nil _).symm⟩
  | cons k stations ih =>
    rw [expireAll] at hexpire
    split at hexpire
    · cases hexpire
    rename_i d₁ hfirst
    obtain ⟨h₁, hunreported₁⟩ := expire_serves h (fun id hid p hp => by
      obtain ⟨p', hp', hstation, -⟩ := h.of_waiting (List.mem_of_mem_filter hid)
      rw [← Option.some.inj (hp'.symm.trans hp), hstation]) hfirst
    obtain ⟨lost, h₂, hunreported₂⟩ := ih h₁.custody hexpire
    exact ⟨_, h₁.trans h₂, by rw [hunreported₂, hunreported₁, List.append_assoc]⟩

theorem of_refused {f : TxFormat} (h : selectWith refuse r d = .ok f d') : d' = d.noteBacklog := by
  rcases of_selectWith h with ⟨-, rfl⟩ | ⟨-, rfl | ⟨-, hrefused⟩⟩
  · rfl
  · rfl
  · cases hrefused

theorem consult_keeps {reply : Reply} {decision : Decision}
    (h : consult reply d = .ok decision d') :
    d'.traffic = d.traffic ∧ d'.unreported = d.unreported := by
  induction reply generalizing d with
  | plan p =>
    cases h
    exact ⟨rfl, rfl⟩
  | fail cause =>
    cases h
    exact ⟨rfl, rfl⟩
  | raise fault => cases h
  | callBack round next ih =>
    rw [consult] at h
    split at h
    · cases h
    rename_i f d₁ hselect
    obtain rfl := of_refused hselect
    exact ih (d := d.noteBacklog) h

theorem planHorizon_serves (h : InCustody d.traffic t) (hplan : planHorizon r d = .ok () d') :
    ∃ lost, Serves d.traffic d'.traffic t [] lost ∧ d'.unreported = d.unreported ++ lost := by
  obtain ⟨s, d₁, decision, d₂, -, hexpire, hconsult, rfl⟩ := of_planHorizon hplan
  obtain ⟨lost, hserves, hunreported⟩ := expireAll_serves h hexpire
  obtain ⟨htraffic, hsame⟩ := consult_keeps hconsult
  exact ⟨lost, by rw [install, htraffic]; exact hserves, by rw [install, hsame, ← hunreported]⟩

theorem select_serves {f : TxFormat} (h : InCustody d.traffic t)
    (hselect : select r d = .ok f d') :
    ∃ lost, Serves d.traffic d'.traffic t [] lost ∧ d'.unreported = d.unreported ++ lost ∧
      (f = .noTx → lost = []) := by
  rcases of_selectWith hselect with ⟨-, rfl⟩ | ⟨rfl, rfl | ⟨-, hstart⟩⟩
  · exact ⟨[], h.serves, (List.append_nil _).symm, fun _ => rfl⟩
  · exact ⟨[], h.serves, (List.append_nil _).symm, fun _ => rfl⟩
  · obtain ⟨d₁, hplan, rfl⟩ := of_startHorizon hstart
    obtain ⟨lost, hserves, hunreported⟩ :=
      planHorizon_serves (d := { d.noteBacklog with planning := true }) h hplan
    exact ⟨lost, hserves, hunreported, fun he => by cases he⟩

/-- An operation that touches only the packets `ids` and leaves the queues alone. -/
structure Touches (ids : List Nat) (tr tr' : Traffic) : Prop where
  advances : Advances tr tr'
  waiting : ∀ k, tr'.waiting k = tr.waiting k
  packet : ∀ i, i ∉ ids → tr'.packet? i = tr.packet? i

theorem Touches.refl (ids : List Nat) (tr : Traffic) : Touches ids tr tr :=
  ⟨.refl tr, fun _ => rfl, fun _ _ => rfl⟩

theorem Touches.trans (h₁ : Touches ids tr tr') (h₂ : Touches ids tr' tr'') :
    Touches ids tr tr'' :=
  ⟨h₁.advances.trans h₂.advances, fun k => (h₂.waiting k).trans (h₁.waiting k),
    fun i hi => (h₂.packet i hi).trans (h₁.packet i hi)⟩

theorem Touches.mono {more : List Nat} (h : Touches ids tr tr') (hsub : ∀ i ∈ ids, i ∈ more) :
    Touches more tr tr' :=
  ⟨h.advances, h.waiting, fun i hi => h.packet i (mt (hsub i) hi)⟩

theorem Touches.setPacket (hp : tr.packet? id = some p) (h : p.Becomes q) :
    Touches [id] tr (tr.setPacket id q) :=
  ⟨Advances.setPacket hp h, fun _ => rfl,
    fun _ hi => packet?_setPacket_of_ne (List.ne_of_not_mem_cons hi)⟩

theorem Touches.state? (h : Touches ids tr tr') {i : Nat} (hi : i ∉ ids) :
    tr'.state? i = tr.state? i := by
  rw [Traffic.state?, h.packet i hi, Traffic.state?]

theorem of_settle (h : d.settle r index p = .ok q) :
    p.Becomes q ∧ p.isResolved = false ∧ q.state ≠ .transmitted := by
  unfold settle at h
  dsimp only at h
  split at h
  · obtain ⟨hopen, rfl⟩ := Packet.of_drop h
    exact ⟨Packet.becomes_of_unresolved hopen rfl rfl rfl rfl rfl rfl, hopen, by simp [Packet.lost]⟩
  split at h
  · obtain ⟨hopen, rfl⟩ := Packet.of_schedule h
    exact ⟨Packet.becomes_of_unresolved hopen rfl rfl rfl rfl rfl rfl, hopen, by simp⟩
  · obtain ⟨hopen, rfl⟩ := Packet.of_drop h
    exact ⟨Packet.becomes_of_unresolved hopen rfl rfl rfl rfl rfl rfl, hopen, by simp [Packet.lost]⟩

structure Admits (ids : List Nat) (d d' : DeadlineAware) : Prop where
  touches : Touches ids d.traffic d'.traffic
  unsent : ∀ i, d'.traffic.state? i = some .transmitted → d.traffic.state? i = some .transmitted
  unreported : d'.unreported = d.unreported
  book : d'.book = d.book

theorem Admits.refl (ids : List Nat) (d : DeadlineAware) : Admits ids d d :=
  ⟨.refl ids _, fun _ h => h, rfl, rfl⟩

theorem enroll_admits (henroll : enroll r id p d = .ok () d') : Admits [id] d d' := by
  unfold enroll at henroll
  dsimp only at henroll
  split at henroll
  · split at henroll
    · cases henroll
    split at henroll
    · cases henroll
    split at henroll
    · cases henroll
    split at henroll
    · cases henroll
    split at henroll
    · cases henroll
    rename_i tr hupdate
    cases henroll
    obtain ⟨p', q, hp, hq, rfl⟩ := of_update hupdate
    obtain ⟨hbecomes, -, hstate⟩ := of_settle hq
    refine ⟨Touches.setPacket hp hbecomes, fun i hi => ?_, rfl, rfl⟩
    by_cases hid : i = id
    · subst hid
      rw [state?_setPacket_self hp, Option.some.injEq] at hi
      exact absurd hi hstate
    · rwa [state?_setPacket_of_ne hid] at hi
  · cases henroll

theorem enrollAll_admits (henroll : enrollAll r ids d = .ok () d') : Admits ids d d' := by
  induction ids generalizing d with
  | nil =>
    cases henroll
    exact .refl [] _
  | cons id ids ih =>
    have hrest : ∀ {d₁}, Admits [id] d d₁ → enrollAll r ids d₁ = .ok () d' →
        Admits (id :: ids) d d' := by
      intro d₁ h₁ hall
      have h₂ := ih hall
      exact ⟨(h₁.touches.mono (by simp)).trans (h₂.touches.mono fun i => List.mem_cons_of_mem id),
        fun i hi => h₁.unsent i (h₂.unsent i hi), h₂.unreported.trans h₁.unreported,
        h₂.book.trans h₁.book⟩
    rw [enrollAll] at henroll
    split at henroll
    · cases henroll
    split_ifs at henroll
    · split at henroll
      · cases henroll
      rename_i d₁ hfirst
      exact hrest (enroll_admits hfirst) henroll
    · exact hrest (.refl [id] d) henroll

def leftIn (kind : Option PacketState → Bool) (tr : Traffic) (ids : List Nat) : List Nat :=
  ids.filter fun id => kind (tr.state? id)

def isSent (s : Option PacketState) : Bool := s = some .transmitted

def isLost (s : Option PacketState) : Bool := s = some .dropped

def isKept (s : Option PacketState) : Bool := !isSent s && !isLost s

theorem leftIn_cons {kind : Option PacketState → Bool} (h : tr'.state? id = tr.state? id) :
    leftIn kind tr' (id :: ids) = leftIn kind tr [id] ++ leftIn kind tr' ids := by
  rw [leftIn, ← List.singleton_append, List.filter_append, leftIn, leftIn]
  simp only [List.filter_cons, List.filter_nil, h]

/-- A walk sorts the packets it visits by the states in which it leaves them. -/
structure Sorts (ids : List Nat) (w w' : Walk) : Prop where
  touches : Touches ids w.traffic w'.traffic
  sent : w'.allocations.map Allocation.packet =
    w.allocations.map Allocation.packet ++ leftIn isSent w'.traffic ids
  lost : w'.drops = w.drops ++ leftIn isLost w'.traffic ids
  kept : w'.kept = w.kept ++ leftIn isKept w'.traffic ids

/-- What a visit makes of a walk, by what it finds the packet to be: dropped already, due, late or
ahead of its round. -/
inductive Visits (z : Sizing) (r k : Int) (id : Nat) (p : Packet) (w : Walk) : Walk → Prop
  | dropped (h : p.state = .dropped) : Visits z r k id p w { w with drops := w.drops ++ [id] }
  | due {ru : Ru} {q : Packet} (hru : z.units[w.allocations.length]? = some ru)
    (hq : p.Leaves q r ru) : Visits z r k id p w { w with
      traffic := w.traffic.setPacket id q
      allocations := w.allocations ++ [⟨k, id, ru⟩]
      sent := true }
  | late (h : p.isResolved = false) : Visits z r k id p w { w with
      traffic := w.traffic.setPacket id (p.lost r .late)
      drops := w.drops ++ [id] }
  | ahead (h : p.state ≠ .dropped) : Visits z r k id p w { w with kept := w.kept ++ [id] }

theorem of_visit (h : visit z r k id w = .ok () w') :
    ∃ p, w.traffic.packet? id = some p ∧ Visits z r k id p w w' := by
  unfold visit at h
  split at h
  · cases h
  rename_i p hp
  refine ⟨p, hp, ?_⟩
  split_ifs at h with hdropped
  · cases h
    exact .dropped hdropped
  split at h
  · cases h
  split_ifs at h
  · split at h
    · cases h
    rename_i hru
    split at h
    · cases h
    rename_i tr hupdate
    cases h
    obtain ⟨p', q, hp', hq, rfl⟩ := of_update hupdate
    obtain rfl := Option.some.inj (hp.symm.trans hp')
    exact .due hru (Packet.of_transmit hq)
  · split at h
    · cases h
    rename_i tr hupdate
    cases h
    obtain ⟨p', q, hp', hq, rfl⟩ := of_update hupdate
    obtain rfl := Option.some.inj (hp.symm.trans hp')
    obtain ⟨hopen, rfl⟩ := Packet.of_drop hq
    exact .late hopen
  · cases h
    exact .ahead hdropped

theorem visit_sorts (hunsent : w.traffic.state? id ≠ some .transmitted)
    (hvisit : visit z r k id w = .ok () w') : Sorts [id] w w' := by
  obtain ⟨p, hp, hvisits⟩ := of_visit hvisit
  have hstate := state?_of_packet? hp
  cases hvisits with
  | dropped hdropped =>
    rw [hdropped] at hstate
    refine ⟨.refl _ _, ?_, ?_, ?_⟩ <;> simp [leftIn, isSent, isLost, isKept, hstate]
  | @due ru q hru hleaves =>
    have hsent := state?_setPacket_self (q := q) hp
    rw [hleaves.state] at hsent
    refine ⟨Touches.setPacket hp hleaves.becomes, ?_, ?_, ?_⟩ <;>
      simp [leftIn, isSent, isLost, isKept, hsent]
  | late hopen =>
    have hlost : (w.traffic.setPacket id (p.lost r .late)).state? id = some .dropped :=
      state?_setPacket_self hp
    refine ⟨Touches.setPacket hp (Packet.becomes_lost hopen), ?_, ?_, ?_⟩ <;>
      simp [leftIn, isSent, isLost, isKept, hlost]
  | ahead hlive =>
    have hkept : w.traffic.state? id ≠ some .dropped := by
      rw [hstate]
      exact fun he => hlive (Option.some.inj he)
    refine ⟨.refl _ _, ?_, ?_, ?_⟩ <;> simp [leftIn, isSent, isLost, isKept, hunsent, hkept]

theorem visitAll_sorts (hnodup : ids.Nodup)
    (hunsent : ∀ id ∈ ids, w.traffic.state? id ≠ some .transmitted)
    (hvisit : visitAll z r k ids w = .ok () w') : Sorts ids w w' := by
  induction ids generalizing w with
  | nil =>
    cases hvisit
    refine ⟨.refl _ _, ?_, ?_, ?_⟩ <;> simp [leftIn]
  | cons id ids ih =>
    obtain ⟨hid, hnodup⟩ := List.nodup_cons.mp hnodup
    rw [visitAll] at hvisit
    split at hvisit
    · cases hvisit
    rename_i w₁ hfirst
    have h₁ := visit_sorts (hunsent id List.mem_cons_self) hfirst
    have h₂ := ih hnodup (fun i hi => by
      rw [h₁.touches.state? (by simpa using ne_of_mem_of_not_mem hi hid)]
      exact hunsent i (List.mem_cons_of_mem id hi)) hvisit
    -- the rest of the walk leaves the first packet as it is
    have hsame := h₂.touches.state? hid
    refine ⟨(h₁.touches.mono (by simp)).trans (h₂.touches.mono fun i => List.mem_cons_of_mem id),
      ?_, ?_, ?_⟩
    · rw [h₂.sent, h₁.sent, List.append_assoc, leftIn_cons hsame]
    · rw [h₂.lost, h₁.lost, List.append_assoc, leftIn_cons hsame]
    · rw [h₂.kept, h₁.kept, List.append_assoc, leftIn_cons hsame]

theorem clears_of_touches (h : InCustody tr t) (ht : Touches (tr.waiting k) tr tr') :
    Clears tr tr' (leftIn isSent tr' (tr.waiting k)) (leftIn isLost tr' (tr.waiting k)) := by
  have hreached : ∀ s : PacketState, s.isTerminal = true → ∀ id,
      id ∈ (tr.waiting k).filter (fun id => tr'.state? id = some s) ↔
        tr'.state? id = some s ∧ tr.state? id ≠ some s := by
    intro s hs id
    rw [List.mem_filter, decide_eq_true_eq]
    constructor
    · rintro ⟨hid, hstate⟩
      exact ⟨hstate, h.not_terminal hid hs⟩
    · rintro ⟨hstate, hnew⟩
      refine ⟨?_, hstate⟩
      by_contra hid
      exact hnew (ht.state? hid ▸ hstate)
  exact ⟨(h.waiting_nodup k).filter _, (h.waiting_nodup k).filter _, hreached _ rfl, hreached _ rfl⟩

theorem leftIn_isKept (h : InCustody tr t) (ha : Advances tr tr') :
    leftIn isKept tr' (tr.waiting k) = (tr.waiting k).filter (tr'.isOpen k) := by
  refine List.filter_congr fun id hid => ?_
  obtain ⟨p, hp, hk, -⟩ := h.of_waiting hid
  obtain ⟨q, hq, hbecomes⟩ := ha.packet id p hp
  rw [isOpen_of_packet? hq, hbecomes.station, hk, decide_eq_true rfl, Bool.true_and,
    state?_of_packet? hq, Packet.isResolved]
  cases q.state <;> rfl

theorem custody_of_touches (h : InCustody tr t) (ht : Touches (tr.waiting k) tr tr') :
    InCustody (tr'.setQueue k ((tr.waiting k).filter (tr'.isOpen k))) t := by
  refine h.advance (ht.advances.trans (Advances.setQueue tr' k _)) fun j => ?_
  by_cases hj : j = k
  · subst hj
    rw [← ht.waiting, waiting_setQueue_filter]
    rfl
  · rw [waiting_setQueue_of_ne hj, ht.waiting, eq_comm, List.filter_eq_self]
    intro i hi
    have hsame := ht.packet i fun hi' => hj (h.queue_unique hi hi')
    show tr'.isOpen j i = true
    rw [Traffic.isOpen, hsame]
    exact h.isOpen hi

theorem of_serveStation (h : serveStation r k out d = .ok out' d') :
    ∃ d₁ w, enrollAll r (d.traffic.waiting k) d = .ok () d₁ ∧
      visitAll d₁.book.cell.sizing r k (d₁.traffic.waiting k)
        ⟨d₁.traffic, out.allocations, out.drops, [], false⟩ = .ok () w ∧
      out'.allocations = w.allocations ∧ out'.drops = w.drops ∧
      d' = { d₁ with traffic := w.traffic.setQueue k w.kept } := by
  unfold serveStation at h
  split at h
  · cases h
  rename_i d₁ henroll
  dsimp only at h
  split at h
  · cases h
  rename_i w hvisit
  cases h
  exact ⟨d₁, w, henroll, hvisit, rfl, rfl, rfl⟩

theorem serveStation_serves (h : InCustody d.traffic t)
    (hserve : serveStation r k out d = .ok out' d') :
    ∃ sent lost, Serves d.traffic d'.traffic t sent lost ∧
      out'.allocations.map Allocation.packet = out.allocations.map Allocation.packet ++ sent ∧
      out'.drops = out.drops ++ lost ∧ d'.unreported = d.unreported := by
  obtain ⟨d₁, w, henroll, hvisit, hallocations, hdrops, rfl⟩ := of_serveStation hserve
  have h₁ := enrollAll_admits henroll
  rw [h₁.touches.waiting] at hvisit
  have h₂ := visitAll_sorts (h.waiting_nodup k)
    (fun id hid hsent => h.not_terminal hid rfl (h₁.unsent id hsent)) hvisit
  have htouches := h₁.touches.trans h₂.touches
  have hadvances := htouches.advances
  have hkept : w.kept = (d.traffic.waiting k).filter (w.traffic.isOpen k) := by
    rw [h₂.kept, List.nil_append, leftIn_isKept h hadvances]
  have hsetQueue := Advances.setQueue w.traffic k w.kept
  rw [hallocations, hdrops]
  refine ⟨_, _, ⟨hadvances.trans hsetQueue, ?_, ?_⟩, h₂.sent, h₂.lost, h₁.unreported⟩
  · have := (clears_of_touches h htouches).trans hadvances.final
      (Clears.setQueue _ k w.kept) hsetQueue.final
    rwa [List.append_nil, List.append_nil] at this
  · rw [hkept]
    exact custody_of_touches h htouches

theorem serveAll_serves (h : InCustody d.traffic t)
    (hserve : serveAll r stations out d = .ok out' d') :
    ∃ sent lost, Serves d.traffic d'.traffic t sent lost ∧
      out'.allocations.map Allocation.packet = out.allocations.map Allocation.packet ++ sent ∧
      out'.drops = out.drops ++ lost ∧ d'.unreported = d.unreported := by
  induction stations generalizing d out with
  | nil =>
    cases hserve
    exact ⟨[], [], h.serves, (List.append_nil _).symm, (List.append_nil _).symm, rfl⟩
  | cons k stations ih =>
    rw [serveAll] at hserve
    split at hserve
    · cases hserve
    rename_i out₁ d₁ hfirst
    obtain ⟨sent₁, lost₁, h₁, hsent₁, hlost₁, hsame₁⟩ := serveStation_serves h hfirst
    obtain ⟨sent₂, lost₂, h₂, hsent₂, hlost₂, hsame₂⟩ := ih h₁.custody hserve
    exact ⟨_, _, h₁.trans h₂, by rw [hsent₂, hsent₁, List.append_assoc],
      by rw [hlost₂, hlost₁, List.append_assoc], hsame₂.trans hsame₁⟩

theorem assign_serves (h : InCustody d.traffic t) (hassign : assign r d = .ok out d') :
    ∃ lost, Serves d.traffic d'.traffic t (out.allocations.map Allocation.packet) lost ∧
      out.drops = d.unreported ++ lost ∧ d'.unreported = [] := by
  obtain ⟨sent, lost, hserves, hsent, hlost, hsame⟩ :=
    serveAll_serves (d := { d with unreported := [] }) h hassign
  refine ⟨lost, ?_, hlost, hsame⟩
  rw [hsent]
  exact hserves

end Downlink.DeadlineAware
