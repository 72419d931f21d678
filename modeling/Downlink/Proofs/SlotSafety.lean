import Mathlib.Tactic
import Downlink.Proofs.Conservation
import Downlink.Proofs.DeadlineAware.Trust

/-!
# Slot safety

In a run that completes, whatever the process behind the planner does, each packet that is sent is
sent within its window on a unit of the sizing, and no two packets share a unit of a round. So no
round carries more packets than it has units.
-/

namespace Downlink

structure Packet.Slotted (z : Sizing) (packets : List Packet) : Prop where
  sent : ∀ p ∈ packets, p.state = .transmitted → ∃ s a, p.Sent z s a
  separate : packets.Pairwise fun p q => ∀ r, p.txRound = some r → q.txRound = some r → p.ru ≠ q.ru

theorem RoundRobin.Over.slotted {c : Cell} {n : Nat} {d : RoundRobin} (hc : c.Sound)
    (h : RoundRobin.Over c n d) : Packet.Slotted c.sizing d.traffic.packets.toList where
  sent p hp hstate := by
    obtain ⟨s, -, a, -, hsent | hexpired⟩ := h.exists_settled hc hp
    · exact ⟨s, a, hsent⟩
    · rw [hexpired.state] at hstate
      cases hstate
  separate := by
    obtain ⟨t, hslots⟩ := h.slots
    rw [List.pairwise_iff_getElem]
    intro i j hi hj hij r hp hq hru
    have hpacket : ∀ (k : Nat) (hk : k < d.traffic.packets.toList.length),
        d.traffic.packet? k = some d.traffic.packets.toList[k] := by
      intro k hk
      rw [Traffic.packet?, ← Array.getElem?_toList, List.getElem?_eq_getElem hk]
    exact hij.ne (hslots.separate i j _ _ r (hpacket i hi) (hpacket j hj) hp hq hru)

namespace Course

variable {c : Course} {s u : Station} {d : DeadlineAware} {p : Packet} {a b r : Int}

theorem finished_slot_inj (hc : c.cell.Sound) (hf : c.Feasible) (hs : s ∈ c.cell.stations)
    (ha : a ∈ Traffic.arrivals s c.rounds) (hu : u ∈ c.cell.stations)
    (hb : b ∈ Traffic.arrivals u c.rounds) (har : (c.finished s a).txRound = some r)
    (hbr : (c.finished u b).txRound = some r) (h : (c.finished s a).ru = (c.finished u b).ru) :
    s = u ∧ a = b := by
  rw [hf.finished_txRound hc hs ha] at har
  rw [hf.finished_txRound hc hu hb] at hbr
  have hsa := hf.sends hc hs ha har
  have hub := hf.sends hc hu hb hbr
  rw [finished_of_sends hsa, finished_of_sends hub, Option.some.injEq, Ru.mk.injEq] at h
  exact rank_inj hc hs (mem_sentIn.mpr ⟨ha, hsa⟩) hu (mem_sentIn.mpr ⟨hb, hub⟩) (by omega)

theorem Over.exists_sent (hc : c.cell.Sound) (hf : c.Feasible) (h : Over c d)
    (hp : p ∈ d.traffic.packets.toList) (hstate : p.state = .transmitted) :
    ∃ s a r, p.Sent c.cell.sizing s a ∧ p.txRound = some r ∧
      r < (c.horizonOf a + 1) * c.length := by
  obtain ⟨s, hs, a, ha, he⟩ := h.exists_finished hc hp
  cases hr : c.assigned? s a with
  | none =>
    have hdropped := state_of_unassigned hr
    rw [← finished_of_unassigned hr, ← he, Packet.noted_state, hstate] at hdropped
    cases hdropped
  | some r =>
    obtain ⟨hsent, hround⟩ := hf.finished_sent hc hs ha hr
    rw [← he] at hsent hround
    exact ⟨s, a, r, Packet.sent_of_noted hsent, hround, (hf.window hc hs ha hr).2.2⟩

theorem Over.slotted (hc : c.cell.Sound) (hf : c.Feasible) (h : Over c d) :
    Packet.Slotted c.cell.sizing d.traffic.packets.toList where
  sent p hp hstate := by
    obtain ⟨s, a, -, hsent, -⟩ := h.exists_sent hc hf hp hstate
    exact ⟨s, a, hsent⟩
  separate := by
    have hpairs : ((Traffic.emissions c.cell.stations c.rounds).map
        fun e => c.finished e.1 e.2).Pairwise
          fun p q => ∀ r, p.txRound = some r → q.txRound = some r → p.ru ≠ q.ru := by
      refine List.pairwise_map.mpr
        ((Traffic.emissions_nodup hc.horizon.roster.nodup _).imp_of_mem ?_)
      intro e f he hf' hne r her hfr hru
      obtain ⟨hs, ha⟩ := Traffic.mem_emissions.mp he
      obtain ⟨hu, hb⟩ := Traffic.mem_emissions.mp hf'
      obtain ⟨h₁, h₂⟩ := finished_slot_inj hc hf hs ha hu hb her hfr hru
      exact hne (Prod.ext h₁ h₂)
    rw [← h.packets hc, List.pairwise_map] at hpairs
    exact hpairs

theorem planner_honest {cell : Cell} (hc : cell.Sound) (env : Environment) (workdir : Value)
    (solver : Solver) (n : Nat) :
    (Course.mk cell (Simulation.planner env workdir solver) n).Honest := by
  cases solver with
  | matching => exact stock_honest hc Planner.stock_matching n
  | external x =>
    unfold Simulation.planner
    dsimp only
    split_ifs
    · exact stock_honest hc (Planner.stock_external x _ _) n
    · exact fun k => ⟨.error .wrongKind, rfl, fun p hp => by cases hp⟩

end Course

/-- The packets that a run has sent keep to their windows, to the units of the sizing and, with the
deadline-aware scheduler, to the horizon in which they arrived; no slot is used twice. -/
structure RunResult.SlotSafe (r : RunResult) : Prop where
  slot : ∀ p ∈ r.packets, p.state = .transmitted → ∃ t i, p.txRound = some t ∧
    p.ru = some ⟨r.ruType, i⟩ ∧ p.arrival ≤ t ∧ t ≤ p.deadline ∧ 1 ≤ i ∧ i ≤ r.perRound
  separate : r.packets.Pairwise fun p q => p.state = .transmitted → q.state = .transmitted →
    p.txRound = q.txRound → p.ru.map Ru.index ≠ q.ru.map Ru.index
  load : ∀ t, ((r.packets.countP fun p => p.state = .transmitted ∧ p.txRound = some t) : Int) ≤
    r.perRound
  horizon : r.policy = DeadlineAware.name → ∀ p ∈ r.packets, p.state = .transmitted →
    ∀ t, p.txRound = some t → t < (p.arrival / r.horizonRounds + 1) * r.horizonRounds

theorem Packet.Sent.exists_slot {p : Packet} {z : Sizing} {s : Station} {a : Int}
    (h : p.Sent z s a) : ∃ t u, p.txRound = some t ∧ p.ru = some u ∧ u ∈ z.units ∧
      p.arrival ≤ t ∧ t ≤ p.deadline := by
  obtain ⟨t, u, ht, hlow, hhigh, hu, hunit⟩ := h.slot
  exact ⟨t, u, ht, hu, hunit, by rw [h.arrival]; exact hlow, by rw [h.deadline]; exact hhigh⟩

theorem Packet.Slotted.safe {z : Sizing} {r : RunResult} (h : Packet.Slotted z r.packets)
    (htype : r.ruType = z.ruType) (hcount : r.perRound = z.perRound)
    (hhorizon : r.policy = DeadlineAware.name → ∀ p ∈ r.packets, p.state = .transmitted →
      ∀ t, p.txRound = some t → t < (p.arrival / r.horizonRounds + 1) * r.horizonRounds) :
    r.SlotSafe where
  slot p hp hstate := by
    obtain ⟨s, a, hsent⟩ := h.sent p hp hstate
    obtain ⟨t, ⟨type, i⟩, ht, hu, hunit, hlow, hhigh⟩ := hsent.exists_slot
    obtain ⟨rfl, h₁, h₂⟩ := Sizing.mem_units.mp hunit
    exact ⟨t, i, ht, by rw [htype]; exact hu, hlow, hhigh, h₁, by rw [hcount]; exact h₂⟩
  separate := by
    refine h.separate.imp_of_mem fun {p q} hp hq hne hps hqs hround hindex => ?_
    obtain ⟨s, a, hsent⟩ := h.sent p hp hps
    obtain ⟨s', a', hsent'⟩ := h.sent q hq hqs
    obtain ⟨t, ⟨type, i⟩, ht, hu, hunit, -⟩ := hsent.exists_slot
    obtain ⟨t', ⟨type', j⟩, ht', hu', hunit', -⟩ := hsent'.exists_slot
    obtain ⟨rfl, -⟩ := Sizing.mem_units.mp hunit
    obtain ⟨rfl, -⟩ := Sizing.mem_units.mp hunit'
    rw [hu, hu', Option.map_some, Option.map_some, Option.some.injEq] at hindex
    refine hne t ht (hround ▸ ht) ?_
    rw [hu, hu', show i = j from hindex]
  load t := by
    rw [hcount, Int.ofNat_le, List.countP_eq_length_filter]
    refine Sizing.length_le_perRound (f := Packet.ru) ?_ fun p hp => ?_
    · refine (h.separate.filter _).imp_of_mem fun {p q} hp hq hne => hne t ?_ ?_
      · exact (of_decide_eq_true (List.mem_filter.mp hp).2).2
      · exact (of_decide_eq_true (List.mem_filter.mp hq).2).2
    · obtain ⟨hp, hsent⟩ := List.mem_filter.mp hp
      obtain ⟨s, a, hsent⟩ := h.sent p hp (of_decide_eq_true hsent).1
      obtain ⟨-, u, -, hu, hunit, -⟩ := hsent.exists_slot
      exact ⟨u, hunit, hu⟩
  horizon := hhorizon

namespace Simulation

variable {s : Settings} {cell : Cell} {tr : Traffic} {env : Environment} {e : Engine}

theorem slotSafe_of_planned {c : Course} {d : DeadlineAware} (hc : c.cell.Sound) (hf : c.Feasible)
    (h : Course.Over c d) (he : e.scheduler = .deadlineAware d) (last : Int) :
    (result s e last).SlotSafe := by
  have hpackets := packets_of_planned s he last
  have hcell : e.scheduler.book.cell = c.cell := by
    rw [he]
    exact h.ledger.cell
  have hsizing : e.scheduler.sizing = c.cell.sizing := congrArg Cell.sizing hcell
  have hrounds : (result s e last).horizonRounds = c.length := congrArg Cell.horizonRounds hcell
  have hslotted : Packet.Slotted c.cell.sizing (result s e last).packets := by
    rw [hpackets]
    exact h.slotted hc hf
  refine hslotted.safe (congrArg Sizing.ruType hsizing)
    (congrArg (fun z => (z.perRound : Int)) hsizing) fun _ p hp hstate t ht => ?_
  rw [hpackets] at hp
  obtain ⟨u, a, r, hsent, hr, hlt⟩ := h.exists_sent hc hf hp hstate
  obtain rfl : t = r := Option.some.inj (ht.symm.trans hr)
  rw [hrounds, hsent.arrival]
  exact hlt

theorem slotSafe_of_queued {c : Cell} {n : Nat} {d : RoundRobin} (hc : c.Sound)
    (h : RoundRobin.Over c n d) (he : e.scheduler = .roundRobin d) (last : Int) :
    (result s e last).SlotSafe := by
  have hpolicy : (result s e last).policy ≠ DeadlineAware.name := by
    rw [result, he]
    exact (by decide : RoundRobin.name ≠ DeadlineAware.name)
  have hsizing : e.scheduler.sizing = c.sizing := by
    rw [he]
    exact congrArg Cell.sizing h.cell
  have hslotted : Packet.Slotted c.sizing (result s e last).packets := by
    rw [packets_of_queued s he]
    exact h.slotted hc
  exact hslotted.safe (congrArg Sizing.ruType hsizing)
    (congrArg (fun z => (z.perRound : Int)) hsizing) fun he => absurd he hpolicy

theorem scheduler_of_check (h : s.check = .ok ()) :
    s.scheduler = DeadlineAware.name ∨ s.scheduler = RoundRobin.name := by
  unfold Settings.check at h
  split at h
  · cases h
  split at h
  · cases h
  split_ifs at h with hrounds hscheduler hcap
  simpa [Settings.schedulers, DeadlineAware.name, RoundRobin.name] using hscheduler

/-- Every run that completes is slot safe, with settings of any kind and with every planner that
keeps to windows and capacity. The planners that can be configured do, whichever heaviest matchings
they find and whatever the process behind them does. -/
theorem runs_keep_slots :
    (∀ (env : Environment) (s : Settings) (r : RunResult), run env s = .ok r → r.SlotSafe) ∧
    ∀ (s : Settings) (cell : Cell) (tr : Traffic) (planner : Planner) (channel : Channel)
      (last : Int) (e : Engine),
      Simulation.cell s = .ok cell → Traffic.ofStations s.stations = .ok tr →
        (planner.Stock ∨ (Course.mk cell planner s.rounds.toNat).Trusted) →
          (Engine.make (.deadlineAware (DeadlineAware.make cell tr planner)) channel).run s.rounds =
            .ok last e → (result s e last).SlotSafe := by
  constructor
  · intro env s r hrun
    obtain ⟨hcheck, e, last, e', he, hrounds, rfl⟩ := run_eq_ok hrun
    rcases scheduler_of_check hcheck with hname | hname
    · obtain ⟨cell, solver, channel, hcell, -, rfl⟩ := engine_deadlineAware he hname
      have hc := (cell_sound hcell).1
      have hhonest := Course.planner_honest hc env s.solver.workdir solver s.rounds.toNat
      obtain ⟨d, hd, hover⟩ := Course.over_of_run hc hhonest.answers rfl hrounds
      exact slotSafe_of_planned hc hhonest.feasible hover hd last
    · obtain ⟨cell, duration, most, channel, hcell, rfl⟩ := engine_roundRobin he hname
      have hc := (cell_sound hcell).1
      obtain ⟨_, _, d, hok, hd, hover⟩ := RoundRobin.run_over hc duration most channel s.rounds
      rw [hok] at hrounds
      cases hrounds
      exact slotSafe_of_queued hc hover hd last
  · intro s cell tr planner channel last e hcell htr hplanner hrun
    have hc := (cell_sound hcell).1
    have htrusted := Course.trusted_of_stock hc hplanner
    rw [fresh_of_ofStations hcell htr] at hrun
    obtain ⟨d, hd, hover⟩ := Course.over_of_run (c := Course.mk cell planner s.rounds.toNat) hc
      htrusted.answers rfl hrun
    exact slotSafe_of_planned hc htrusted.feasible hover hd last

theorem reply_two_stations :
    let answer : ProcessOutcome := .finished 0 "" (some (Exchange.written [(0, 0), (1, 1)]))
    (Planner.external ⟨["ilp"], none, none⟩ (fun _ _ _ => answer) fun _ => ⟨none⟩).reply 0
      (Schedule.ofStations [⟨1, 2, 0, 5⟩, ⟨2, 1, 1, 10⟩] 0 2) ⟨.mhz20, .tones242, 1, 3, 242⟩ =
        .plan ⟨[(0, 0), (1, 1)], 15, External.name⟩ := by
  intro answer
  let s := Schedule.ofStations [⟨1, 2, 0, 5⟩, ⟨2, 1, 1, 10⟩] 0 2
  let z : Sizing := ⟨.mhz20, .tones242, 1, 3, 242⟩
  let x : External := ⟨["ilp"], none, none⟩
  have hargs : Exchange.arguments s z = .ok _ := if_pos (by decide +kernel)
  have hread : Exchange.parse (Exchange.written [(0, 0), (1, 1)]).toList 3 0 =
      .ok [(0, 0), (1, 1)] :=
    Exchange.parse_written (by decide) (by decide) (by decide +kernel)
  have hfinish : Plan.finish s z External.name [(0, 0), (1, 1)] =
      .ok ⟨[(0, 0), (1, 1)], 15, External.name⟩ := by
    simp only [s, z]
    cbv
  have hdelivers : x.Delivers (fun _ _ => answer) s z [(0, 0), (1, 1)] :=
    ⟨_, "", _, hargs, rfl, hread⟩
  have hplan : x.plan (fun _ _ => answer) ⟨none⟩ s z =
      .ok ⟨[(0, 0), (1, 1)], 15, External.name⟩ := by
    rw [External.plan, External.planOr_eq hargs, External.orFallback_of_none rfl,
      hdelivers.judge_eq hargs, hfinish]
  show Reply.ofExcept (x.plan (fun _ _ => answer) ⟨none⟩ s z) = _
  rw [hplan]
  rfl

theorem runs_keep_slots_two_stations :
    let s : Settings :=
      { stations := [⟨1, 2, 0, 5⟩, ⟨2, 1, 1, 10⟩]
        width := 20
        rounds := 2
        ruType := some 242
        roundDuration := .whole 10000
        maxCredit := .whole 1000000
        lossRate := .whole 0
        solver := { timeout := some (.whole 60) } }
    let cell : Cell := ⟨s.stations, 1024, 2, 3, ⟨.mhz20, .tones242, 1, 3, 242⟩⟩
    let answer : ProcessOutcome := .finished 0 "" (some (Exchange.written [(0, 0), (1, 1)]))
    let planner := Planner.external ⟨["ilp"], none, none⟩ (fun _ _ _ => answer) fun _ => ⟨none⟩
    let start := Engine.make (.deadlineAware
      (DeadlineAware.make cell (Traffic.fresh s.stations) planner)) .ideal
    let env : Environment := ⟨fun _ _ => 0.5, fun _ _ _ => .timedOut, []⟩
    (∃ r, run env s = .ok r ∧ r.SlotSafe) ∧ planner.Stock ∧
      ∃ last e, start.run s.rounds = .ok last e ∧ (result s e last).SlotSafe := by
  intro s cell answer planner start env
  obtain ⟨hcell, htr⟩ := set_up_two_stations (s := s) rfl rfl rfl rfl
  have hc := (cell_sound hcell).1
  obtain ⟨hinside, houtside⟩ := runs_keep_slots
  have hstock : planner.Stock := Planner.stock_external _ _ _
  refine ⟨?_, hstock, ?_⟩
  · have hcheck : s.check = .ok () := by rfl
    have hengine : ∃ channel, engine env s =
        .ok ((Course.mk cell Planner.matching 2).engine channel) := by
      simp only [engine, htr, scheduler, hcell]
      exact ⟨_, rfl⟩
    obtain ⟨channel, hengine⟩ := hengine
    have hplans := Course.matching_respected hc 2
    obtain ⟨last, e, d, hrun, -⟩ := Course.run_completes hc hplans.settles
      (hplans.feasible.not_overfull hc) channel (show (2 : Int).toNat = 2 from rfl)
    have hok := run_ok hcheck hengine hrun
    exact ⟨_, hok, hinside env s _ hok⟩
  · have hsettles : (Course.mk cell planner 2).Settles := by
      intro k hk
      obtain rfl : k = 0 := by
        simp only [Course.length, cell] at hk
        omega
      exact Or.inl ⟨_, reply_two_stations⟩
    have hfeasible := (Course.stock_honest hc hstock 2).feasible
    obtain ⟨last, e, d, hrun, -⟩ := Course.run_completes hc hsettles
      (hfeasible.not_overfull hc) .ideal (show (2 : Int).toNat = 2 from rfl)
    exact ⟨last, e, hrun, houtside s cell _ planner .ideal last e hcell htr (Or.inl hstock) hrun⟩

end Simulation

end Downlink
