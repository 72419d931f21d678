import Downlink.Proofs.Custody

/-!
# Turns

In every round of the round robin as many stations get a turn as there are units, or all that have
something queued, and a turn sends the oldest packet of its station. Credits decide about the order
of the stations and about nothing else. In the end every packet was sent within its window or
dropped in its deadline round.
-/

namespace Downlink

open Traffic Engine

namespace RoundRobin

variable {c : Cell} {n t : Nat} {flag : Bool} {d : RoundRobin} {e e' : Engine}
  {out : RoundAssignment} {tr : Traffic}

theorem Resting.recredit (h : Resting c n t d) {credits : List Credit}
    (hcredits : (credits.map Credit.station).Perm d.order) :
    Resting c n t { d with credits := credits } where
  cell := h.cell
  stations := h.stations
  order := List.Perm.trans hcredits h.order
  size := h.size
  kept s hs := (h.kept s hs).imp fun _ hkept => hkept.of_eq rfl rfl
  slots := h.slots
  scheduled := h.scheduled.of_eq rfl

theorem withBacklog_perm (hc : c.Sound) (hst : tr.stations = c.stations)
    (horder : d.order.Perm c.ids) : (Book.withBacklog tr d.order).Perm
      ((tr.queues.filter fun q => !q.ids.isEmpty).map fun q => q.station.id) := by
  have hids : c.ids = tr.queues.map fun q => q.station.id := by
    rw [Cell.ids, ← hst, Traffic.stations, List.map_map]
    rfl
  have hr : Station.Roster tr.stations := hst ▸ hc.horizon.roster
  refine (horder.filter _).trans (List.Perm.of_eq ?_)
  rw [hids, List.filter_map]
  congr 1
  refine List.filter_congr fun q hq => ?_
  rw [Function.comp_apply, waiting_of_mem hr hq]

/-- Round `t`, in state `e`, gives turns on `perRound` units. -/
structure TakesTurns (perRound t : Nat) (e : Engine) (out : RoundAssignment) (e' : Engine) :
    Prop where
  count : out.allocations.length =
    min ((e.traffic.generate t).2.queues.filter fun q => !q.ids.isEmpty).length perRound
  stations : (out.allocations.map Allocation.station).Nodup
  oldest : ∀ a ∈ out.allocations, ∃ q ∈ (e.traffic.generate t).2.queues,
    q.station.id = a.station ∧ ∃ rest, q.ids = a.packet :: rest ∧
      ∀ id ∈ rest, ∀ p p', (e.traffic.generate t).2.packet? a.packet = some p →
        (e.traffic.generate t).2.packet? id = some p' → p.arrival ≤ p'.arrival
  packets : (out.allocations.map Allocation.packet).Nodup
  sent : ∀ id, id ∈ out.allocations.map Allocation.packet ↔
    ∃ p, e'.traffic.packet? id = some p ∧ p.state = .transmitted ∧ p.txRound = some t

theorem mem_sent_iff (hd : e.scheduler = .roundRobin d) (h : Resting c n t d)
    (ho : Outcome t e out e')
    (hsent : ∀ a ∈ out.allocations, ∃ q, e'.traffic.packet? a.packet = some q ∧
      q.txRound = some (t : Int)) (id : Nat) :
    id ∈ out.allocations.map Allocation.packet ↔
      ∃ p, e'.traffic.packet? id = some p ∧ p.state = .transmitted ∧ p.txRound = some t := by
  constructor
  · intro hid
    obtain ⟨hstate, -⟩ := (ho.clears.sent id).mp hid
    obtain ⟨a, ha, rfl⟩ := List.mem_map.mp hid
    obtain ⟨q, hq, hround⟩ := hsent a ha
    rw [state?_of_packet? hq, Option.some.injEq] at hstate
    exact ⟨q, hq, hstate, hround⟩
  · rintro ⟨p, hp, hstate, hround⟩
    by_contra hid
    have hold := ho.sent_before hp hstate hid
    have htraffic : e.traffic = d.traffic := by rw [Engine.traffic, hd]; rfl
    -- what was sent before this round carries the number of an earlier one
    rcases h.slots.past id p t (htraffic ▸ hold) hround with hlt | ⟨-, u, hu, -⟩
    · omega
    · cases hu

theorem oldest_of_waiting {k u : Int} {id : Nat} {rest : List Nat}
    (hr : Station.Roster tr.stations) (h : InCustody tr u) (hw : tr.waiting k = id :: rest) :
    ∃ q ∈ tr.queues, q.station.id = k ∧ ∃ rest, q.ids = id :: rest ∧ ∀ i ∈ rest, ∀ p p',
      tr.packet? id = some p → tr.packet? i = some p' → p.arrival ≤ p'.arrival := by
  obtain ⟨p, hp, hstation, -⟩ := h.of_waiting (hw ▸ List.mem_cons_self)
  obtain ⟨-, s, hs, hid⟩ := h.owner _ p hp
  obtain ⟨q, hq, rfl⟩ := List.mem_map.mp hs
  have hqueue : q.ids = id :: rest := by
    rw [← waiting_of_mem hr hq, hid, hstation, hw]
  refine ⟨q, hq, hid.trans hstation, rest, hqueue, fun i hi p p' hp hp' => ?_⟩
  have hordered := (h.queued hr).ordered q hq
  rw [hqueue, List.pairwise_cons] at hordered
  exact (hordered.1 i hi).2 p p' hp hp'

theorem stations_of_turns (h : out.allocations.map (fun a => (a.ru, a.station)) = d.turnsOf) :
    out.allocations.map Allocation.station =
      d.book.candidates.take d.book.cell.sizing.perRound := by
  have hstations := congrArg (List.map Prod.snd) h
  rw [List.map_map, turnsOf, List.map_snd_zip
    (by rw [Sizing.units_length]; exact List.length_take_le _ _)] at hstations
  exact hstations

theorem step_takesTurns (hc : c.Sound) (h : Between c n t flag e) (htidy : Tidy t e)
    (hstep : Engine.step t e = .ok out e') : TakesTurns c.sizing.perRound t e out e' := by
  obtain ⟨d, he, hresting, -, -⟩ := h
  obtain ⟨-, ho⟩ := step_tidy htidy hstep
  obtain ⟨format, σ, hcompleted⟩ := of_step hstep
  obtain ⟨hcustody, hgrows⟩ := htidy.custody.generate
  have htraffic : e.traffic = d.traffic := by rw [Engine.traffic, he]; rfl
  set tr := (e.traffic.generate t).2
  have hst : tr.stations = c.stations := by
    rw [hgrows.stations, htraffic]
    exact hresting.stations
  have hr : Station.Roster tr.stations := hst ▸ hc.horizon.roster
  let d₀ : RoundRobin := { d with traffic := tr }
  have hdecided := hcompleted.decided
  rw [he] at hdecided
  change Engine.decide t (.roundRobin d₀) = _ at hdecided
  have hcandidates := (withBacklog_perm (d := d₀) hc hst hresting.order).length_eq
  rw [List.length_map] at hcandidates
  rcases of_decide hdecided with ⟨hselect, -, rfl⟩ | ⟨σ₁, hselect, -, hassign⟩
  · obtain ⟨d₁, hd₁, rfl⟩ := of_lift hselect
    obtain ⟨-, -, hcand, hnone⟩ := of_select hd₁
    have hempty := hcand.symm.trans (hnone rfl)
    rw [hempty, List.length_nil] at hcandidates
    refine ⟨?_, .nil, fun a ha => absurd ha List.not_mem_nil, .nil,
      mem_sent_iff he hresting ho fun a ha => absurd ha List.not_mem_nil⟩
    rw [← hcandidates, Nat.zero_min]
    rfl
  · obtain ⟨d₁, hd₁, rfl⟩ := of_lift hselect
    obtain ⟨d₂, hd₂, rfl⟩ := of_lift hassign
    obtain ⟨hsame, hcell, hcand, -⟩ := of_select hd₁
    have hsizing : d₁.book.cell.sizing = c.sizing := by rw [hcell]; exact congrArg _ hresting.cell
    have hcustody₁ : InCustody d₁.traffic (t + 1) := hsame ▸ hcustody
    obtain ⟨-, hturns, hsent, hheads⟩ := assign_serves hcustody₁ hd₂
    have hstations := stations_of_turns hturns
    rw [hsizing, hcand] at hstations
    have hnodup : (out.allocations.map Allocation.station).Nodup := by
      rw [hstations]
      refine (List.take_sublist _ _).nodup ((List.Nodup.filter _) ?_)
      exact hresting.order.nodup_iff.mpr hc.horizon.roster.ids_nodup
    refine ⟨?_, hnodup, ?_, ho.clears.sent_nodup, mem_sent_iff he hresting ho ?_⟩
    · have hlength := congrArg List.length hstations
      rwa [List.length_map, List.length_take, hcandidates, Nat.min_comm] at hlength
    · intro a ha
      obtain ⟨rest, hrest⟩ := hheads (by rw [← hturns, List.map_map]; exact hnodup) a ha
      rw [hsame] at hrest
      exact oldest_of_waiting hr hcustody hrest
    · intro a ha
      obtain ⟨q, hq, -, hround, -⟩ := hsent a ha
      obtain ⟨-, -, -, -, hnoted⟩ :=
        record_noted d₂.traffic (e.channel.transmit t out.allocations).1
      obtain ⟨x, hx⟩ := hnoted _ q hq
      rw [hcompleted.traffic]
      exact ⟨_, hx, hround⟩

end RoundRobin

namespace Packet

variable {p : Packet} {s : Station} {a : Int} {z : Sizing}

/-- A packet was sent within its window, or dropped in its deadline round because it was not. -/
def InTime (p : Packet) : Prop :=
  p.state = .transmitted ∧ p.dropReason = none ∧
      (∃ t, p.txRound = some t ∧ p.arrival ≤ t ∧ t ≤ p.deadline) ∨
    p.state = .dropped ∧ p.txRound = none ∧ p.dropReason = some .deadline ∧
      p.dropRound = some p.deadline

theorem Settled.inTime (h : p.Settled z s a) : p.InTime := by
  rcases h with h | h
  · obtain ⟨r, u, hr, hlow, hhigh, -⟩ := h.slot
    refine Or.inl ⟨h.state, h.kept, r, hr, ?_, ?_⟩
    · rwa [h.arrival]
    · rwa [h.deadline]
  · exact Or.inr ⟨h.state, h.unsent, h.reason, by rw [h.round, h.deadline]⟩

end Packet

namespace Simulation

open RoundRobin

variable {s : Settings} {env : Environment} {start : Engine}

/-- The round robin always finishes, every packet is sent or dropped in time, and every round gives
turns to the oldest packets, whatever the credits are. -/
theorem round_robin_serves_in_turn (hcheck : s.check = .ok ())
    (hname : s.scheduler = RoundRobin.name) (hengine : engine env s = .ok start) :
    (∃ r, run env s = .ok r ∧ ∀ p ∈ r.packets, p.InTime) ∧
    ∀ t flag e out e', Executes start s.rounds.toNat t flag e out e' →
      TakesTurns start.scheduler.sizing.perRound t e out e' ∧
      ∀ d credits, e.scheduler = .roundRobin d → (credits.map Credit.station).Perm d.order →
        let other : Engine := { e with scheduler := .roundRobin { d with credits := credits } }
        ∃ out₂ e₂, other.step t = .ok out₂ e₂ ∧
          TakesTurns start.scheduler.sizing.perRound t other out₂ e₂ := by
  have hbooks := (starts_of_engine hengine).books s.rounds.toNat
  obtain ⟨cell, duration, most, channel, hcell, rfl⟩ := engine_roundRobin hengine hname
  have hc := (cell_sound hcell).1
  constructor
  · obtain ⟨last, e', d, hrun, he', hover⟩ := run_over hc duration most channel s.rounds
    refine ⟨_, run_ok hcheck hengine hrun, fun p hp => ?_⟩
    rw [packets_of_queued s he'] at hp
    obtain ⟨u, -, a, -, hsettled⟩ := hover.exists_settled hc hp
    exact hsettled.inTime
  · intro t flag e out e' h
    have hbetween := (loop hc s.rounds.toNat).reaches
      (between_make cell _ duration most channel) h.before
    have htidy := (h.before.books hbooks).tidy
    refine ⟨step_takesTurns hc hbetween htidy h.step, fun d credits hd hcredits => ?_⟩
    intro other
    obtain ⟨d', hd', hresting, hgt, hgb⟩ := hbetween
    obtain rfl : d' = d := Scheduler.roundRobin.inj (hd'.symm.trans hd)
    have hother : Between cell s.rounds.toNat t flag other :=
      ⟨_, rfl, hresting.recredit hcredits, hgt, hgb⟩
    have htraffic : e.traffic = other.traffic := by
      rw [Engine.traffic, hd]
      rfl
    have htidy' : Tidy t other := ⟨htraffic ▸ htidy.roster, htraffic ▸ htidy.custody, rfl⟩
    obtain ⟨out₂, e₂, hstep, -⟩ := step_between hc h.phase hother
    exact ⟨out₂, e₂, hstep, step_takesTurns hc hother htidy' hstep⟩

theorem round_robin_serves_in_turn_two_stations :
    let s : Settings :=
      { stations := [⟨1, 2, 0, 5⟩, ⟨2, 1, 1, 10⟩]
        width := 20
        rounds := 5
        scheduler := RoundRobin.name
        ruType := some 242
        roundDuration := .whole 10000
        maxCredit := .whole 1000000
        lossRate := .whole 0
        solver := { timeout := some (.whole 60) } }
    let env : Environment := ⟨fun _ _ => 0.5, fun _ _ _ => .timedOut, []⟩
    s.check = .ok () ∧ ∃ start, engine env s = .ok start ∧
      (∃ r, run env s = .ok r ∧ ∀ p ∈ r.packets, p.InTime) ∧
      ∃ out e', Executes start 5 0 true start out e' ∧ TakesTurns 1 0 start out e' := by
  intro s env
  have hcheck : s.check = .ok () := by rfl
  let cell : Cell := ⟨s.stations, 1024, 2, 3, ⟨.mhz20, .tones242, 1, 3, 242⟩⟩
  obtain ⟨hcell, htr⟩ := set_up_two_stations (s := s) rfl rfl rfl rfl
  have hengine : ∃ duration most, engine env s = .ok (Engine.make (.roundRobin
      (RoundRobin.make cell (Traffic.fresh s.stations) duration most)) .ideal) := by
    simp only [engine, htr, scheduler, hcell]
    exact ⟨_, _, rfl⟩
  obtain ⟨duration, most, hengine⟩ := hengine
  obtain ⟨hends, hrounds⟩ := round_robin_serves_in_turn hcheck rfl hengine
  obtain ⟨out, e', hstep, -⟩ := RoundRobin.step_between (cell_sound hcell).1
    (Or.inl ⟨Nat.zero_lt_succ 4, rfl⟩) (RoundRobin.between_make cell 5 duration most .ideal)
  have hexecutes : Executes _ 5 0 true _ out e' := .traffic (by decide) rfl hstep
  exact ⟨hcheck, _, hengine, hends, out, e', hexecutes, (hrounds 0 true _ out e' hexecutes).1⟩

end Simulation

end Downlink
