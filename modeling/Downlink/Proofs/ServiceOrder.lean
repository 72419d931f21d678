import Downlink.Proofs.Feedback.Reports

/-!
# The order of service

The packets of a station leave in the order in which they arrived. Of a round this is said by the
queues: a packet that is sent is the oldest one left in the queue of its station, when the drops of
the round and what the round has sent before it are gone. For a run it follows by induction on its
rounds, because a packet that has been left behind by a younger one is out of its queue.
-/

namespace Downlink

open Traffic

/-- One packet was sent in an earlier round than another one or, where a station may send several
packets in a round, in the same round on a lower unit. -/
def Packet.SentAhead (several : Prop) (p q : Packet) : Prop :=
  ∃ t u, p.txRound = some t ∧ q.txRound = some u ∧ (t < u ∨
    several ∧ t = u ∧ ∃ x y, p.ru = some x ∧ q.ru = some y ∧ x.index < y.index)

/-- Of two packets of one station that were sent, the older one was sent ahead. -/
def Packet.InOrder (several : Prop) (packets : List Packet) : Prop :=
  ∀ p ∈ packets, ∀ q ∈ packets, p.station = q.station → p.arrival < q.arrival →
    p.state = .transmitted → q.state = .transmitted → p.SentAhead several q

def Traffic.OldestOf (tr : Traffic) (id : Nat) (ids : List Nat) : Prop :=
  ∃ rest, ids = id :: rest ∧ ∃ p, tr.packet? id = some p ∧
    ∀ i ∈ rest, ∀ q, tr.packet? i = some q → p.arrival ≤ q.arrival

def RoundAssignment.stillIn (out : RoundAssignment) (before : List Allocation) (ids : List Nat) :
    List Nat :=
  ids.filter fun id => id ∉ out.drops ∧ id ∉ before.map Allocation.packet

def Allocation.Marks (a : Allocation) (t : Int) (tr : Traffic) : Prop :=
  ∃ p, tr.packet? a.packet = some p ∧ p.station = a.station ∧ p.state = .transmitted ∧
    p.txRound = some t ∧ p.ru = some a.ru

theorem Allocation.Marks.advance {a : Allocation} {t : Int} {tr tr' : Traffic} (h : a.Marks t tr)
    (ha : Advances tr tr') : a.Marks t tr' := by
  obtain ⟨p, hp, hstation, hstate, hround, hru⟩ := h
  obtain ⟨q, hq, hbecomes⟩ := ha.packet _ p hp
  obtain rfl := hbecomes.final (Packet.isResolved_of_transmitted hstate)
  exact ⟨q, hq, hstation, hstate, hround, hru⟩

theorem Allocation.Marks.of_packet? {a : Allocation} {t : Int} {tr : Traffic} {p : Packet}
    (h : a.Marks t tr) (hp : tr.packet? a.packet = some p) : p.station = a.station ∧
      p.state = .transmitted ∧ p.txRound = some t ∧ p.ru = some a.ru := by
  obtain ⟨q, hq, hmarked⟩ := h
  obtain rfl := Option.some.inj (hp.symm.trans hq)
  exact hmarked

theorem RoundAssignment.mem_stillIn {out : RoundAssignment} {before : List Allocation}
    {ids : List Nat} {i : Nat} : i ∈ out.stillIn before ids ↔
      i ∈ ids ∧ i ∉ out.drops ∧ i ∉ before.map Allocation.packet := by
  rw [stillIn, List.mem_filter, decide_eq_true_eq]

theorem Traffic.Queued.stillIn {tr : Traffic} (h : tr.Queued) {q : Queue} (hq : q ∈ tr.queues)
    (out : RoundAssignment) (before : List Allocation) :
    (out.stillIn before q.ids).Pairwise fun i j => i < j ∧
      ∀ a b, tr.packet? i = some a → tr.packet? j = some b → a.arrival ≤ b.arrival :=
  (h.ordered q hq).filter _

theorem exists_filter_eq_cons {l : List Nat} {f : Nat → Bool} {i : Nat} (hl : l.Pairwise (· < ·))
    (hi : i ∈ l) (hf : f i = true) (hbefore : ∀ j ∈ l, j < i → f j = false) :
    ∃ rest, l.filter f = i :: rest := by
  obtain ⟨before, after, rfl⟩ := List.append_of_mem hi
  have hlt := (List.pairwise_append.mp hl).2.2
  refine ⟨_, List.filter_eq_cons_iff.mpr ⟨before, after, rfl, fun j hj => ?_, hf, rfl⟩⟩
  simp [hbefore j (List.mem_append_left _ hj) (hlt j hj i List.mem_cons_self)]

namespace Engine

variable {several : Prop} {start e e' : Engine} {n t : Nat} {last u : Int} {flag : Bool}
  {out : RoundAssignment} {format : TxFormat} {σ : Scheduler} {tr tr' : Traffic} {id : Nat}
  {p : Packet} {before after : List Allocation} {a : Allocation} {lost : List Nat}

theorem marks_record (h : a.Marks u tr) (reports : List TxReport) :
    a.Marks u (record tr reports) := by
  obtain ⟨p, hp, hmarked⟩ := h
  obtain ⟨-, -, -, -, hpacket⟩ := record_noted tr reports
  obtain ⟨x, hx⟩ := hpacket _ p hp
  exact ⟨_, hx, hmarked⟩

/-- Round `t`, in state `e`, sends what is oldest, on units in the order of its allocations. -/
structure InTurn (several : Prop) (t : Nat) (e : Engine) (out : RoundAssignment) (e' : Engine) :
    Prop where
  clears : Clears e.traffic e'.traffic (out.allocations.map Allocation.packet) out.drops
  marks : ∀ a ∈ out.allocations, a.Marks t e'.traffic
  units : out.allocations.Pairwise fun a b => a.ru.index < b.ru.index
  single : several ∨ (out.allocations.map Allocation.station).Nodup
  oldest : ∀ before a after, out.allocations = before ++ a :: after →
    ∃ q ∈ (e.traffic.generate t).2.queues, q.station.id = a.station ∧
      (e.traffic.generate t).2.OldestOf a.packet (out.stillIn before q.ids)

theorem Completed.origin (hc : Completed t e out e' format σ) (h : Tidy t e)
    (hp : e'.traffic.packet? id = some p) :
    ∃ p₀, (e.traffic.generate t).2.packet? id = some p₀ ∧ p₀.station = p.station := by
  obtain ⟨-, hserves, -⟩ := hc.serves h
  rw [hc.traffic] at hp
  obtain ⟨p₁, x, hp₁, rfl⟩ := exists_of_record hp
  obtain ⟨p₀, hp₀, hbecomes⟩ := hserves.advances.origin hp₁
  exact ⟨p₀, hp₀, hbecomes.station.symm⟩

theorem Completed.waiting_of_marks (hc : Completed t e out e' format σ) (h : Tidy t e)
    (ha : a ∈ out.allocations) (hmarks : a.Marks t σ.traffic) :
    a.packet ∈ (e.traffic.generate t).2.waiting a.station := by
  obtain ⟨-, hserves, -⟩ := hc.serves h
  obtain ⟨q, hq, hstation, hstate, -⟩ := hmarks
  obtain ⟨p, hp, hbecomes⟩ := hserves.advances.origin hq
  have hunsent := ((hserves.clears.sent _).mp (List.mem_map_of_mem ha)).2
  have hopen : p.isResolved = false := by
    rw [← Bool.not_eq_true]
    intro hresolved
    obtain rfl := hbecomes.final hresolved
    exact hunsent (by rw [state?_of_packet? hp, hstate])
  rw [h.custody.generate.1.waiting]
  exact mem_unresolved.mpr ⟨p, hp, hbecomes.station.symm.trans hstation, hopen⟩

theorem mem_before {i : Nat} (hc : Completed t e out e' format σ) (h : Tidy t e)
    (hmarks : ∀ a ∈ out.allocations, a.Marks t σ.traffic)
    (hordered : out.allocations.Pairwise fun a b => a.station = b.station → a.packet < b.packet)
    (hsplit : out.allocations = before ++ a :: after)
    (hi : i ∈ (e.traffic.generate t).2.waiting a.station) (hlt : i < a.packet)
    (hsent : i ∈ out.allocations.map Allocation.packet) : i ∈ before.map Allocation.packet := by
  obtain ⟨b, hb, rfl⟩ := List.mem_map.mp hsent
  have hstation := h.custody.generate.1.queue_unique hi (hc.waiting_of_marks h hb (hmarks b hb))
  rw [hsplit, List.mem_append, List.mem_cons] at hb
  rw [hsplit] at hordered
  obtain ⟨-, hafter, -⟩ := List.pairwise_append.mp hordered
  rcases hb with hb | rfl | hb
  · exact List.mem_map_of_mem hb
  · omega
  · have := (List.pairwise_cons.mp hafter).1 b hb hstation
    omega

theorem Outcome.first_left (ho : Outcome t e out e')
    (hsplit : out.allocations = before ++ a :: after) :
    a.packet ∉ out.drops ∧ a.packet ∉ before.map Allocation.packet := by
  have ha : a ∈ out.allocations := by simp [hsplit]
  constructor
  · intro hdrop
    have hsent := ((ho.clears.sent _).mp (List.mem_map_of_mem ha)).1
    rw [((ho.clears.lost _).mp hdrop).1] at hsent
    cases hsent
  · intro hbefore
    have hnodup := ho.clears.sent_nodup
    rw [hsplit, List.map_append, List.map_cons] at hnodup
    exact (List.nodup_append.mp hnodup).2.2 _ hbefore _ List.mem_cons_self rfl

theorem Outcome.mem_of_resolved {i : Nat} {k : Int} (ho : Outcome t e out e') (h : Tidy t e)
    (hi : i ∈ (e.traffic.generate t).2.waiting k) (hp : e'.traffic.packet? i = some p)
    (hresolved : p.isResolved = true) :
    i ∈ out.drops ∨ i ∈ out.allocations.map Allocation.packet := by
  obtain ⟨hcustody, hgrows⟩ := h.custody.generate
  have hnew : e.traffic.state? i ≠ some p.state := fun hold =>
    hcustody.not_terminal hi hresolved (hgrows.final i _ hresolved hold)
  have hstate := state?_of_packet? hp
  cases hkind : p.state with
  | transmitted =>
    rw [hkind] at hstate hnew
    exact Or.inr ((ho.clears.sent i).mpr ⟨hstate, hnew⟩)
  | dropped =>
    rw [hkind] at hstate hnew
    exact Or.inl ((ho.clears.lost i).mpr ⟨hstate, hnew⟩)
  | _ =>
    rw [Packet.isResolved, hkind] at hresolved
    cases hresolved

theorem Completed.inTurn (hc : Completed t e out e' format σ) (h : Tidy t e)
    (ho : Outcome t e out e') (hmarks : ∀ a ∈ out.allocations, a.Marks t σ.traffic)
    (hunits : out.allocations.Pairwise fun a b => a.ru.index < b.ru.index)
    (hsingle : several ∨ (out.allocations.map Allocation.station).Nodup)
    (hordered : out.allocations.Pairwise fun a b => a.station = b.station → a.packet < b.packet)
    (hnone : ∀ a ∈ out.allocations, ∀ i ∈ (e.traffic.generate t).2.waiting a.station,
      i < a.packet → i ∈ out.drops ∨ i ∈ out.allocations.map Allocation.packet) :
    InTurn several t e out e' := by
  obtain ⟨hgrows, -, -⟩ := hc.serves h
  obtain ⟨hcustody, -⟩ := h.custody.generate
  have hr : Station.Roster (e.traffic.generate t).2.stations := hgrows.stations ▸ h.roster
  refine ⟨ho.clears, fun a ha => hc.traffic ▸ marks_record (hmarks a ha) _, hunits, hsingle,
    fun before a after hsplit => ?_⟩
  have ha : a ∈ out.allocations := by simp [hsplit]
  have hwaits := hc.waiting_of_marks h ha (hmarks a ha)
  obtain ⟨p, hp, hstation, -⟩ := hcustody.of_waiting hwaits
  obtain ⟨-, s, hs, hid⟩ := hcustody.owner _ p hp
  obtain ⟨q, hq, rfl⟩ := List.mem_map.mp hs
  have hqueue : (e.traffic.generate t).2.waiting a.station = q.ids := by
    rw [← hstation, ← hid, waiting_of_mem hr hq]
  have hqueued := hcustody.queued hr
  obtain ⟨rest, hrest⟩ : ∃ rest, out.stillIn before q.ids = a.packet :: rest := by
    refine exists_filter_eq_cons ((hqueued.ordered q hq).imp And.left) (hqueue ▸ hwaits)
      (decide_eq_true (ho.first_left hsplit)) fun i hi hlt => ?_
    rw [← hqueue] at hi
    rw [decide_eq_false_iff_not]
    rintro ⟨hkept, hunsent⟩
    rcases hnone a ha i hi hlt with hdrop | hsent
    · exact hkept hdrop
    · exact hunsent (mem_before hc h hmarks hordered hsplit hi hlt hsent)
  refine ⟨q, hq, hid.trans hstation, rest, hrest, p, hp, fun i hi q' hq' => ?_⟩
  have hleft := hqueued.stillIn hq out before
  rw [hrest] at hleft
  exact ((List.pairwise_cons.mp hleft).1 i hi).2 p q' hp hq'

theorem InTurn.passed {i : Nat} (h : InTurn several t e out e') (htidy : Tidy t e)
    (hsplit : out.allocations = before ++ a :: after)
    (hi : i ∈ (e.traffic.generate t).2.waiting a.station) (hlt : i < a.packet) :
    i ∈ out.drops ∨ i ∈ before.map Allocation.packet := by
  obtain ⟨hcustody, hgrows⟩ := htidy.custody.generate
  have hr : Station.Roster (e.traffic.generate t).2.stations := hgrows.stations ▸ htidy.roster
  obtain ⟨q, hq, hstation, rest, hrest, -⟩ := h.oldest before a after hsplit
  rw [← hstation, waiting_of_mem hr hq] at hi
  by_contra hleft
  rw [not_or] at hleft
  have hmem := RoundAssignment.mem_stillIn.mpr ⟨hi, hleft⟩
  have hsorted := (hcustody.queued hr).stillIn hq out before
  rw [hrest] at hsorted hmem
  rcases List.mem_cons.mp hmem with rfl | hmem
  · omega
  · have := ((List.pairwise_cons.mp hsorted).1 i hmem).1
    omega

theorem InTurn.ahead {b : Allocation} {q : Packet} (h : InTurn several t e out e')
    (hsplit : out.allocations = before ++ a :: after) (hb : b ∈ before)
    (hp : e'.traffic.packet? b.packet = some p) (hq : e'.traffic.packet? a.packet = some q)
    (hsame : p.station = q.station) : p.SentAhead several q := by
  obtain ⟨hstation, -, hround, hru⟩ := (h.marks b (by simp [hsplit, hb])).of_packet? hp
  obtain ⟨hstation', -, hround', hru'⟩ := (h.marks a (by simp [hsplit])).of_packet? hq
  have hunits := h.units
  rw [hsplit] at hunits
  refine ⟨t, t, hround, hround', Or.inr ⟨?_, rfl, b.ru, a.ru, hru, hru', ?_⟩⟩
  · refine h.single.resolve_right fun hnodup => ?_
    rw [hsplit, List.map_append, List.map_cons] at hnodup
    exact (List.nodup_append.mp hnodup).2.2 _ (List.mem_map_of_mem hb) _ List.mem_cons_self
      (hstation.symm.trans (hsame.trans hstation'))
  · exact (List.pairwise_append.mp hunits).2.2 b hb a List.mem_cons_self

/-- Before round `t`, what was sent was sent in an earlier round, and no older packet of its station
still waits. -/
structure Sequenced (several : Prop) (t : Int) (tr : Traffic) : Prop where
  past : ∀ id p, tr.packet? id = some p → p.state = .transmitted →
    ∃ u, p.txRound = some u ∧ u < t
  before : ∀ i j p q, i < j → tr.packet? i = some p → tr.packet? j = some q →
    p.station = q.station → q.state = .transmitted →
      p.isResolved = true ∧ (p.state = .transmitted → p.SentAhead several q)

theorem Outcome.kept {p₀ : Packet} (ho : Outcome t e out e')
    (hgrows : Grows e.traffic (e.traffic.generate t).2 (e.traffic.generate t).1.length)
    (hp₀ : (e.traffic.generate t).2.packet? id = some p₀) (hresolved : p₀.isResolved = true) :
    e.traffic.packet? id = some p₀ ∧ e'.traffic.packet? id = some p₀ := by
  rcases hgrows.new id p₀ hp₀ with hold | ⟨hpending, -⟩
  · exact ⟨hold, ho.lasting id p₀ hold hresolved⟩
  · rw [Packet.isResolved, hpending] at hresolved
    cases hresolved

theorem Sequenced.past_step (h : Sequenced several t e.traffic) (ho : Outcome t e out e')
    (hin : InTurn several t e out e') (hp : e'.traffic.packet? id = some p)
    (hstate : p.state = .transmitted) :
    ∃ u, p.txRound = some u ∧ u < ((t + 1 : Nat) : Int) := by
  by_cases hid : id ∈ out.allocations.map Allocation.packet
  · obtain ⟨a, ha, rfl⟩ := List.mem_map.mp hid
    obtain ⟨-, -, hround, -⟩ := (hin.marks a ha).of_packet? hp
    exact ⟨t, hround, by omega⟩
  · obtain ⟨u, hround, hlt⟩ := h.past id p (ho.sent_before hp hstate hid) hstate
    exact ⟨u, hround, by omega⟩

theorem Sequenced.before_new {i : Nat} {q : Packet} (h : Sequenced several t e.traffic)
    (hc : Completed t e out e' format σ) (htidy : Tidy t e) (ho : Outcome t e out e')
    (hin : InTurn several t e out e') (ha : a ∈ out.allocations) (hlt : i < a.packet)
    (hp : e'.traffic.packet? i = some p) (hq : e'.traffic.packet? a.packet = some q)
    (hsame : p.station = q.station) :
    p.isResolved = true ∧ (p.state = .transmitted → p.SentAhead several q) := by
  obtain ⟨hcustody, hgrows⟩ := htidy.custody.generate
  obtain ⟨p₀, hp₀, hstation₀⟩ := hc.origin htidy hp
  obtain ⟨hstation, -, hround, -⟩ := (hin.marks a ha).of_packet? hq
  cases hresolved : p₀.isResolved with
  | true =>
    -- sent in an earlier round, or dropped
    obtain ⟨hold, hkept⟩ := ho.kept hgrows hp₀ hresolved
    obtain rfl := Option.some.inj (hp.symm.trans hkept)
    refine ⟨hresolved, fun hsent => ?_⟩
    obtain ⟨u, hu, hpast⟩ := h.past i p hold hsent
    exact ⟨u, t, hu, hround, Or.inl hpast⟩
  | false =>
    have hwaits : i ∈ (e.traffic.generate t).2.waiting a.station := by
      rw [hcustody.waiting]
      exact mem_unresolved.mpr ⟨p₀, hp₀, hstation₀.trans (hsame.trans hstation), hresolved⟩
    obtain ⟨before, after, hsplit⟩ := List.append_of_mem ha
    rcases hin.passed htidy hsplit hwaits hlt with hdrop | hsent
    · have hlost := ((ho.clears.lost i).mp hdrop).1
      rw [state?_of_packet? hp, Option.some.injEq] at hlost
      exact ⟨by rw [Packet.isResolved, hlost]; rfl,
        fun hsent => by rw [hlost] at hsent; cases hsent⟩
    · obtain ⟨b, hb, rfl⟩ := List.mem_map.mp hsent
      obtain ⟨-, hstate, -⟩ := (hin.marks b (by simp [hsplit, hb])).of_packet? hp
      exact ⟨Packet.isResolved_of_transmitted hstate, fun _ => hin.ahead hsplit hb hp hq hsame⟩

theorem Sequenced.step (h : Sequenced several t e.traffic) (htidy : Tidy t e)
    (hstep : Engine.step t e = .ok out e') (hin : InTurn several t e out e') :
    Sequenced several (t + 1 : Nat) e'.traffic := by
  obtain ⟨format, σ, hc⟩ := of_step hstep
  obtain ⟨-, ho⟩ := step_tidy htidy hstep
  obtain ⟨-, hgrows⟩ := htidy.custody.generate
  refine ⟨fun id p hp hstate => h.past_step ho hin hp hstate,
    fun i j p q hij hp hq hsame hsent => ?_⟩
  by_cases hj : j ∈ out.allocations.map Allocation.packet
  · obtain ⟨a, ha, rfl⟩ := List.mem_map.mp hj
    exact h.before_new hc htidy ho hin ha hij hp hq hsame
  · have hq₀ := ho.sent_before hq hsent hj
    obtain ⟨p₀, hp₀⟩ := exists_packet?_of_lt (hij.trans (lt_size_of_packet? hq₀))
    obtain ⟨p₁, hp₁, hstation⟩ := hc.origin htidy hp
    obtain rfl := Option.some.inj (hp₁.symm.trans (hgrows.old i p₀ hp₀))
    obtain ⟨hresolved, hahead⟩ := h.before i j _ q hij hp₀ hq₀ (hstation.trans hsame) hsent
    obtain rfl := Option.some.inj (hp.symm.trans (ho.lasting i _ hp₀ hresolved))
    exact ⟨hresolved, hahead⟩

theorem Sequenced.served (h : Sequenced several u tr) (hs : Serves tr tr' last [] lost) :
    Sequenced several u tr' := by
  have hback : ∀ id p, tr'.packet? id = some p → p.state = .transmitted →
      tr.packet? id = some p := by
    intro id p hp hstate
    have hold := (hs.clears.transmitted_iff hs.advances.final List.not_mem_nil).mp
      (by rw [state?_of_packet? hp, hstate])
    obtain ⟨p₀, hp₀, hbecomes⟩ := hs.advances.origin hp
    rw [state?_of_packet? hp₀, Option.some.injEq] at hold
    rwa [hbecomes.final (Packet.isResolved_of_transmitted hold)]
  refine ⟨fun id p hp hstate => h.past id p (hback id p hp hstate) hstate,
    fun i j p q hij hp hq hsame hsent => ?_⟩
  obtain ⟨p₀, hp₀, hbecomes⟩ := hs.advances.origin hp
  obtain ⟨hresolved, hahead⟩ := h.before i j p₀ q hij hp₀ (hback j q hq hsent)
    (hbecomes.station.symm.trans hsame) hsent
  obtain rfl := hbecomes.final hresolved
  exact ⟨hresolved, hahead⟩

theorem Sequenced.inOrder (h : Sequenced several u tr) (hcustody : InCustody tr last) :
    Packet.InOrder several tr.packets.toList := by
  intro p hp q hq hsame harrival hpsent hqsent
  obtain ⟨i, hi⟩ := List.getElem?_of_mem hp
  obtain ⟨j, hj⟩ := List.getElem?_of_mem hq
  rw [Array.getElem?_toList] at hi hj
  have hij : i < j := by
    by_contra hle
    have := hcustody.ordered j i q p (by omega) hj hi
    omega
  exact (h.before i j p q hij hi hj hsame hqsent).2 hpsent

/-- Every round of a run of `n` rounds sends what is oldest, and what has been sent was sent in
order, both between the rounds and when the run is over. -/
structure KeepsOrder (several : Prop) (start : Engine) (n : Nat) : Prop where
  rounds : ∀ t flag e out e', Executes start n t flag e out e' → InTurn several t e out e'
  states : ∀ t flag e, Reaches start n t flag e →
    Packet.InOrder several e.traffic.packets.toList
  ended : ∀ last e, start.run n = .ok last e → Packet.InOrder several e.traffic.packets.toList

theorem Reaches.sequenced (hbooks : Books start n 0 start)
    (hstart : Sequenced several (0 : Nat) start.traffic)
    (hrounds : ∀ t flag e out e', Executes start n t flag e out e' → InTurn several t e out e')
    (h : Reaches start n t flag e) : Sequenced several t e.traffic :=
  (h.preserved (P := fun t _ e => Books start n t e ∧ Sequenced several t e.traffic)
    ⟨hbooks, hstart⟩
    (fun hx hb => ⟨(hb.1.step hx).1, hb.2.step hb.1.tidy hx.step (hrounds _ _ _ _ _ hx)⟩)
    fun {e} hb => ⟨hb.1.quiet, traffic_quiet e ▸ ⟨hb.2.past, hb.2.before⟩⟩).2

theorem keepsOrder (hbooks : Books start n 0 start) (hfresh : start.traffic.packets = #[])
    (hrounds : ∀ t flag e out e', Executes start n t flag e out e' → InTurn several t e out e') :
    KeepsOrder several start n := by
  have hnone : ∀ id p, start.traffic.packet? id ≠ some p := by simp [packet?, hfresh]
  have hsequenced : ∀ {t flag e}, Reaches start n t flag e → Sequenced several t e.traffic :=
    fun h => h.sequenced hbooks ⟨fun id p hp => absurd hp (hnone id p),
      fun i _ p _ _ hp => absurd hp (hnone i p)⟩ hrounds
  refine ⟨hrounds, fun t flag e h => (hsequenced h).inOrder (h.books hbooks).tidy.custody,
    fun last e h => ?_⟩
  obtain ⟨u, e₀, hreaches, -, -, hdiscard, -⟩ := run_reaches h
  obtain ⟨lost, hserves⟩ := discardAll_serves (hreaches.books hbooks).tidy.custody hdiscard
  exact ((hsequenced hreaches).served hserves).inOrder hserves.custody

end Engine

end Downlink
