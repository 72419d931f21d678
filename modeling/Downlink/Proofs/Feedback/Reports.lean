import Downlink.Proofs.Custody

/-!
# Reports

What a packet says about its transmission is what the channel has reported of its own allocation:
service leaves the reports alone, a transmission gets one in the round in which it is made, and no
later round overwrites it.
-/

namespace Downlink

open Traffic

namespace Channel

variable (c : Channel) (round : Int) (allocations : List Allocation)

theorem answers_transmit : List.Forall₂
    (fun a (r : TxReport) => r.station = a.station ∧ r.packet = a.packet ∧ r.round = round)
    allocations (c.transmit round allocations).1 := by
  cases c with
  | ideal =>
    induction allocations with
    | nil => exact .nil
    | cons a rest ih => exact .cons ⟨rfl, rfl, rfl⟩ ih
  | lossy rate draw used =>
    show List.Forall₂ _ allocations (reportsFrom rate draw round used allocations).1
    induction allocations generalizing used with
    | nil => exact .nil
    | cons a rest ih => exact .cons ⟨rfl, rfl, rfl⟩ (ih _)

variable {allocations}

theorem exists_answer {a : Allocation} (h : a ∈ allocations) :
    ∃ r, (a, r) ∈ allocations.zip (c.transmit round allocations).1 := by
  obtain ⟨i, hi⟩ := List.getElem?_of_mem h
  have hlt := (List.getElem?_eq_some_iff.mp hi).1
  rw [(answers_transmit c round allocations).length_eq] at hlt
  obtain ⟨r, hr⟩ : ∃ r, (c.transmit round allocations).1[i]? = some r :=
    ⟨_, List.getElem?_eq_getElem hlt⟩
  exact ⟨r, List.mem_of_getElem? (i := i) (List.getElem?_zip_eq_some.mpr ⟨hi, hr⟩)⟩

end Channel

namespace Traffic

variable {tr tr' : Traffic} {id : Nat} {p : Packet} {x : TxStatus}

def status? (tr : Traffic) (id : Nat) : Option TxStatus := (tr.packet? id).bind Packet.txStatus

theorem status?_of_packet? (hp : tr.packet? id = some p) : tr.status? id = p.txStatus := by
  rw [status?, hp]
  rfl

theorem Advances.status? (h : Advances tr tr') (id : Nat) : tr'.status? id = tr.status? id := by
  cases hq : tr'.packet? id with
  | some q =>
    obtain ⟨p, hp, hpq⟩ := h.origin hq
    rw [status?_of_packet? hq, status?_of_packet? hp, hpq.status]
  | none =>
    cases hp : tr.packet? id with
    | none => rw [Traffic.status?, Traffic.status?, hq, hp]
    | some p =>
      obtain ⟨q, hq', -⟩ := h.packet id p hp
      rw [hq] at hq'
      cases hq'

theorem Grows.status? {count : Nat} (h : Grows tr tr' count) (id : Nat) :
    tr'.status? id = tr.status? id := by
  cases hp : tr.packet? id with
  | some p => rw [status?_of_packet? hp, status?_of_packet? (h.old id p hp)]
  | none =>
    cases hq : tr'.packet? id with
    | none => rw [Traffic.status?, Traffic.status?, hq, hp]
    | some q =>
      rcases h.new id q hq with hold | ⟨-, hstatus⟩
      · rw [hp] at hold
        cases hold
      · rw [status?_of_packet? hq, hstatus, Traffic.status?, hp]
        rfl

end Traffic

namespace Engine

variable {start e e' : Engine} {n t : Nat} {round last : Int} {flag : Bool}
  {out : RoundAssignment} {id : Nat} {x : TxStatus}

def Answered (id : Nat) (status : TxStatus) (round : Nat) (e : Engine) (out : RoundAssignment) :
    Prop :=
  ∃ a, a.packet = id ∧ (a, ⟨a.station, id, round, status⟩) ∈
    out.allocations.zip (e.channel.transmit round out.allocations).1

theorem exists_answered (h : id ∈ out.allocations.map Allocation.packet) :
    ∃ x, Answered id x t e out := by
  obtain ⟨a, ha, rfl⟩ := List.mem_map.mp h
  obtain ⟨⟨station, packet, round, x⟩, hr⟩ := Channel.exists_answer e.channel t ha
  obtain ⟨rfl, rfl, rfl⟩ : station = a.station ∧ packet = a.packet ∧ round = t :=
    List.forall₂_zip (Channel.answers_transmit e.channel t out.allocations) hr
  exact ⟨x, a, rfl, hr⟩

theorem Answered.mem (h : Answered id x t e out) : id ∈ out.allocations.map Allocation.packet := by
  obtain ⟨a, rfl, hr⟩ := h
  exact List.mem_map_of_mem (List.of_mem_zip hr).1

theorem Completed.status?_of_report {format : TxFormat} {σ : Scheduler}
    (hc : Completed t e out e' format σ) (h : Tidy t e) {r : TxReport}
    (hr : r ∈ (e.channel.transmit t out.allocations).1) :
    e'.traffic.status? r.packet = some r.status := by
  obtain ⟨-, hserves, -⟩ := hc.serves h
  have hpackets := Channel.packets_transmit e.channel t out.allocations
  obtain ⟨p, hp, -⟩ := Option.map_eq_some_iff.mp
    ((hserves.clears.sent r.packet).mp (hpackets ▸ List.mem_map_of_mem hr)).1
  have hrecorded := record_packet_of_mem (hpackets ▸ hserves.clears.sent_nodup) hr hp
  rw [← hc.traffic] at hrecorded
  exact status?_of_packet? hrecorded

theorem Completed.status? {format : TxFormat} {σ : Scheduler}
    (hc : Completed t e out e' format σ) (h : Tidy t e) :
    (∀ id, id ∉ out.allocations.map Allocation.packet →
      e'.traffic.status? id = e.traffic.status? id) ∧
    ∀ id x, Answered id x t e out → e'.traffic.status? id = some x := by
  obtain ⟨hgrows, hserves, -⟩ := hc.serves h
  constructor
  · intro id hid
    have hsame : e'.traffic.packet? id = σ.traffic.packet? id := by
      rw [hc.traffic, record_packet_of_not_mem (by rwa [Channel.packets_transmit])]
    rw [Traffic.status?, hsame, ← Traffic.status?, hserves.advances.status?, hgrows.status?]
  · rintro id x ⟨a, rfl, hr⟩
    exact hc.status?_of_report h (List.of_mem_zip hr).2

/-- Just the packets that were sent have a status: that of the channel's answer to their own
allocation, in a round before `t`. -/
structure Reported (start : Engine) (n t : Nat) (tr : Traffic) : Prop where
  sent : ∀ id, (tr.status? id).isSome = true ↔ tr.state? id = some .transmitted
  status : ∀ id x, tr.status? id = some x ↔ Earlier start n t (Answered id x)

theorem Reported.step (h : Reported start n t e.traffic) (hb : Books start n t e)
    (hx : Executes start n t flag e out e') : Reported start n (t + 1) e'.traffic := by
  obtain ⟨format, σ, hc⟩ := of_step hx.step
  obtain ⟨-, ho⟩ := hb.step hx
  obtain ⟨hrest, hanswered⟩ := hc.status? hb.tidy
  -- a packet that is sent now has had no status before
  have hfirst : ∀ id, id ∈ out.allocations.map Allocation.packet → e.traffic.status? id = none := by
    intro id hid
    have := mt (h.sent id).mp ((ho.clears.sent id).mp hid).2
    rwa [Bool.not_eq_true, Option.isSome_eq_false_iff, Option.isNone_iff_eq_none] at this
  constructor
  · intro id
    by_cases hid : id ∈ out.allocations.map Allocation.packet
    · obtain ⟨x, hx⟩ := exists_answered (t := t) (e := e) hid
      rw [hanswered id x hx]
      exact iff_of_true rfl ((ho.clears.sent id).mp hid).1
    · rw [hrest id hid, h.sent, ho.clears.transmitted_iff ho.final hid]
  · intro id x
    rw [earlier_succ hx, ← h.status]
    by_cases hid : id ∈ out.allocations.map Allocation.packet
    · obtain ⟨y, hy⟩ := exists_answered (t := t) (e := e) hid
      rw [hfirst id hid, hanswered id y hy]
      constructor
      · intro hxy
        obtain rfl := Option.some.inj hxy
        exact Or.inr hy
      · rintro (hx | hx)
        · cases hx
        · rw [← hanswered id y hy, hanswered id x hx]
    · rw [hrest id hid]
      exact ⟨Or.inl, fun h => h.resolve_right fun hx => hid hx.mem⟩

theorem Reaches.reported (hbooks : Books start n 0 start)
    (hstart : Reported start n 0 start.traffic)
    (h : Reaches start n t flag e) : Books start n t e ∧ Reported start n t e.traffic := by
  refine h.preserved (P := fun t _ e => Books start n t e ∧ Reported start n t e.traffic)
    ⟨hbooks, hstart⟩ (fun hx hb => ⟨(hb.1.step hx).1, hb.2.step hb.1 hx⟩) fun {e} hb => ?_
  exact ⟨hb.1.quiet, traffic_quiet e ▸ ⟨hb.2.sent, hb.2.status⟩⟩

theorem discard_serves {k : Int} {ids : List Nat} (h : InCustody e.traffic round)
    (hids : e.traffic.waiting k = ids) (hd : discard last k ids e = .ok () e') :
    Serves e.traffic e'.traffic round [] ids := by
  induction ids generalizing e with
  | nil =>
    cases hd
    exact h.serves
  | cons id ids ih =>
    have hnodup := h.waiting_nodup k
    rw [hids] at hnodup
    have hrest := filter_ne_of_nodup_cons hnodup
    rw [discard] at hd
    split at hd
    · cases hd
    rename_i tr hupdate
    rw [← hrest, ← hids] at hupdate
    have h₁ := h.of_drop (fun p hp => ?_) hupdate
    · have hnext : (Engine.mk (e.scheduler.withTraffic tr) e.channel e.rows).traffic = tr :=
        traffic_withTraffic _ _
      have h₂ := ih (e := { e with scheduler := e.scheduler.withTraffic tr })
        (by rw [hnext]; exact h₁.custody) ?_ hd
      · rw [hnext] at h₂
        exact h₁.trans h₂
      · rw [hnext]
        obtain ⟨p, q, hp, -, rfl⟩ := of_update hupdate
        rw [waiting_setPacket, waiting_setQueue_filter, hids, hrest]
    · obtain ⟨q, hq, hk, -⟩ := h.of_waiting (hids ▸ List.mem_cons_self)
      obtain rfl := Option.some.inj (hq.symm.trans hp)
      exact hk

theorem discardAll_serves {ids : List Int} (h : InCustody e.traffic round)
    (hd : discardAll last ids e = .ok () e') :
    ∃ lost, Serves e.traffic e'.traffic round [] lost := by
  induction ids generalizing e with
  | nil =>
    cases hd
    exact ⟨[], h.serves⟩
  | cons k ids ih =>
    rw [discardAll] at hd
    split at hd
    · cases hd
    rename_i e₁ hfirst
    have h₁ := discard_serves h rfl hfirst
    obtain ⟨lost, h₂⟩ := ih h₁.custody hd
    exact ⟨_, h₁.trans h₂⟩

theorem Reported.served {tr tr' : Traffic} {lost : List Nat} (h : Reported start n t tr)
    (hs : Serves tr tr' round [] lost) : Reported start n t tr' := by
  constructor
  · intro id
    rw [hs.advances.status?, h.sent,
      hs.clears.transmitted_iff hs.advances.final List.not_mem_nil]
  · intro id x
    rw [hs.advances.status?, h.status]

theorem run_reported (hbooks : Books start n 0 start) (hstart : Reported start n 0 start.traffic)
    (h : start.run n = .ok last e') : ∃ t : Nat, last = t - 1 ∧ Reported start n t e'.traffic := by
  obtain ⟨t, e, hr, -, hlast, hdiscard, -⟩ := run_reaches h
  obtain ⟨hb, hreported⟩ := hr.reported hbooks hstart
  obtain ⟨lost, hs⟩ := discardAll_serves hb.tidy.custody hdiscard
  exact ⟨t, hlast, hreported.served hs⟩

end Engine

namespace Simulation

open Engine

variable {s : Settings} {start : Engine}

theorem Starts.reported (h : Starts s start) (n : Nat) : Reported start n 0 start.traffic := by
  have hfresh : ∀ {cell tr}, Simulation.cell s = .ok cell →
      Traffic.ofStations s.stations = .ok tr → Reported start n 0 tr := by
    intro cell tr hcell htr
    obtain rfl := fresh_of_ofStations hcell htr
    refine ⟨fun id => ?_, fun id x => ?_⟩
    · exact iff_of_false (by rintro ⟨⟩) (by rintro ⟨⟩)
    · exact iff_of_false (by rintro ⟨⟩) not_earlier_zero
  cases h with
  | deadlineAware hcell htr planner channel => exact hfresh hcell htr
  | roundRobin hcell htr roundDuration maxCredit channel => exact hfresh hcell htr

end Simulation

end Downlink
