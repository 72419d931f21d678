import Downlink.Proofs.Drain
import Downlink.Proofs.Feedback.Reports
import Downlink.Proofs.Loss
import Downlink.Proofs.Report.Tables

/-!
# Reconciliation

What the rows of the rounds add up to, what the packets of a finished run say and what the tables
show is the same. The rows and the packets agree after every round; at the end nothing is left that
a row could have missed, because the drain has emptied the queues before its limit.
-/

namespace Downlink

open Traffic

namespace Traffic

theorem map_packet?_range (tr : Traffic) :
    (List.range tr.packets.size).map tr.packet? = tr.packets.toList.map some := by
  apply List.ext_getElem
  · simp
  · intro i h₁ h₂
    simp only [List.length_map, Array.length_toList] at h₂
    simp [packet?, h₂]

theorem map_packet?_inState (tr : Traffic) (s : PacketState) :
    (tr.inState s).map tr.packet? = (tr.packets.toList.filter fun p => p.state = s).map some := by
  have hfilter : (fun o : Option Packet => decide (o.map Packet.state = some s)) ∘ some =
      fun p : Packet => decide (p.state = s) := by
    funext p
    simp
  calc (tr.inState s).map tr.packet?
      = ((List.range tr.packets.size).map tr.packet?).filter
          fun o => o.map Packet.state = some s := by
        rw [List.filter_map]
        rfl
    _ = (tr.packets.toList.filter fun p => p.state = s).map some := by
        rw [map_packet?_range, List.filter_map, hfilter]

end Traffic

namespace Engine

variable {start e e' : Engine} {n t : Nat} {last : Int} {flag : Bool} {out : RoundAssignment}

structure Weighed (e : Engine) : Prop where
  delivered : (e.rows.map RoundRow.delivered).sum =
    (e.traffic.inState .transmitted).countP fun id => e.traffic.status? id = some .success
  droppedWeight : total (e.rows.map RoundRow.droppedWeight) =
    total ((e.traffic.inState .dropped).map (penaltyOf e.traffic))

theorem Weighed.step (h : Weighed e) (hb : Books start n t e)
    (hx : Executes start n t flag e out e') : Weighed e' := by
  obtain ⟨format, σ, hc⟩ := of_step hx.step
  obtain ⟨-, ho⟩ := hb.step hx
  -- what has an outcome already counts now as it did before
  have hold : ∀ s, s.isTerminal = true → ∀ id ∈ e.traffic.inState s,
      e'.traffic.packet? id = e.traffic.packet? id := by
    intro s hs id hid
    obtain ⟨p, hp, rfl⟩ := Option.map_eq_some_iff.mp (mem_inState.mp hid)
    rw [hp, ho.lasting id p hp hs]
  constructor
  · have hperm := inState_perm rfl ho.final ho.clears.sent_nodup ho.clears.sent
    rw [hc.rows, List.map_append, List.sum_append, h.delivered, hperm.countP_eq,
      List.countP_append]
    congr 1
    · refine List.countP_congr fun id hid => ?_
      rw [status?, status?, hold .transmitted rfl id hid]
    · rw [← Channel.packets_transmit e.channel t, List.countP_map]
      refine List.countP_congr fun r hr => ?_
      simp [hc.status?_of_report hb.tidy hr]
  · have hperm := inState_perm rfl ho.final ho.clears.lost_nodup ho.clears.lost
    rw [hc.rows, List.map_append, total_append, h.droppedWeight, total_perm (hperm.map _),
      List.map_append, total_append]
    congr 1
    · refine congrArg total (List.map_congr_left fun id hid => ?_)
      rw [penaltyOf, penaltyOf, hold .dropped rfl id hid]
    · exact Int.add_zero _

theorem Reaches.weighed (hbooks : Books start n 0 start) (hstart : Weighed start)
    (h : Reaches start n t flag e) : Weighed e := by
  refine (h.preserved (P := fun t _ e => Books start n t e ∧ Weighed e) ⟨hbooks, hstart⟩
    (fun hx hb => ⟨(hb.1.step hx).1, hb.2.step hb.1 hx⟩) fun {e} hb => ⟨hb.1.quiet, ?_⟩).2
  obtain ⟨-, hdelivered, hweight⟩ := hb
  constructor
  · rw [traffic_quiet]
    exact hdelivered
  · rw [traffic_quiet]
    exact hweight

end Engine

namespace RunResult

/-- The rows of the rounds add up to what the packets say. -/
structure Adds (r : RunResult) : Prop where
  arrivals : (r.rows.map RoundRow.arrivals).sum = r.packets.length
  transmitted : (r.rows.map RoundRow.transmitted).sum = r.sent.length
  delivered : (r.rows.map RoundRow.delivered).sum = r.delivered.length
  dropped : (r.rows.map RoundRow.dropped).sum = r.dropped.length
  droppedWeight : total (r.rows.map RoundRow.droppedWeight) = r.lostWeight

/-- All reports of a run tell the same, whichever routine sorts the packets by station. A table can
be missing only where a number that it shows is too large for a float. -/
structure Reconciled (r : RunResult) : Prop where
  rows : r.Adds
  summary : ∀ scenario, UnlessTooLarge r.summarized (Summary.ofRun scenario r) r.Summarizes
  stations : ∀ group, GroupsByStation group →
    UnlessTooLarge r.lostWeights (r.stationTableBy group) fun t =>
      ∃ rows, t.ListsStations rows ∧ r.Balances rows
  reasons : r.Reasoned

theorem Adds.reconciled {r : RunResult} (h : r.Adds) (hclosed : ∀ p ∈ r.packets, p.Closed)
    {vs : List Violation} (hv : r.violations = .ok vs) : r.Reconciled :=
  ⟨h, summary_converted hclosed hv, fun _ hgroup => stationTable_converted hgroup hclosed,
    reasoned_of_closed hclosed⟩

end RunResult

namespace Simulation

open Engine

variable {s : Settings} {env : Environment} {start e : Engine} {last : Int} {n : Nat}

theorem Starts.weighed (h : Starts s start) : Weighed start := by
  have hfresh : ∀ {cell tr}, Simulation.cell s = .ok cell →
      Traffic.ofStations s.stations = .ok tr → start.traffic = tr → start.rows = [] →
        Weighed start := by
    intro cell tr hcell htr htraffic hrows
    obtain rfl := fresh_of_ofStations hcell htr
    constructor
    · rw [hrows, htraffic]
      rfl
    · rw [hrows, htraffic]
      rfl
  cases h with
  | deadlineAware hcell htr planner channel => exact hfresh hcell htr rfl rfl
  | roundRobin hcell htr roundDuration maxCredit channel => exact hfresh hcell htr rfl rfl

theorem adds_of_weighed (h : Accounted e.rows e.traffic) (hw : Weighed e) :
    (result s e last).Adds := by
  have hmap := map_packet?_inState e.traffic
  have hlength : ∀ x, (e.traffic.inState x).length =
      (e.traffic.packets.toList.filter fun p => p.state = x).length := by
    intro x
    simpa using congrArg List.length (hmap x)
  constructor
  · exact h.arrivals
  · exact h.transmitted.trans (hlength .transmitted)
  · rw [RunResult.delivered, ← List.countP_eq_length_filter]
    have hcount := congrArg (List.countP fun o => o.bind Packet.txStatus = some .success)
      (hmap .transmitted)
    rw [List.countP_map, List.countP_map] at hcount
    exact hw.delivered.trans hcount
  · exact h.dropped.trans (hlength .dropped)
  · have hweight := congrArg (List.map fun o => (o.map Packet.penalty).getD 0) (hmap .dropped)
    rw [List.map_map, List.map_map] at hweight
    exact hw.droppedWeight.trans (congrArg total hweight)

theorem adds_of_timely (hs : Starts s start) (ht : Timely start n)
    (hrun : start.run n = .ok last e) :
    (result s e last).Adds := by
  obtain ⟨⟨t, -, hr⟩, -⟩ := ht.ended last e hrun
  exact adds_of_weighed (hr.books (hs.books n)).accounted (hr.weighed (hs.books n) hs.weighed)

theorem reconciled_of_planned {c : Course} {channel : Channel} (hc : c.cell.Sound) (hp : c.Answers)
    (hf : c.Feasible) (hrounds : (c.rounds : Int) = s.rounds) (hs : Starts s (c.engine channel))
    (hrun : (c.engine channel).run s.rounds = .ok last e) : (result s e last).Reconciled := by
  rw [← hrounds] at hrun
  obtain ⟨d, he, hover⟩ := Course.over_of_run hc hp (Int.toNat_natCast _) hrun
  have hclosed : ∀ p ∈ (result s e last).packets, p.Closed := by
    rw [packets_of_planned s he]
    exact fun p hmem => hover.closed hc hmem
  exact (adds_of_timely hs (Course.timely hc hp hf channel).1 hrun).reconciled hclosed
    (violations_of_planned hc hover hrounds.ge he last)

theorem reconciled_of_queued {c : Cell} {roundDuration maxCredit : Float} {channel : Channel}
    (hc : c.Sound) (hrounds : (n : Int) = s.rounds)
    (hs : Starts s (Engine.make (.roundRobin
      (RoundRobin.make c (Traffic.fresh c.stations) roundDuration maxCredit)) channel)) :
    ∃ last e, (Engine.make (.roundRobin (RoundRobin.make c (Traffic.fresh c.stations) roundDuration
      maxCredit)) channel).run s.rounds = .ok last e ∧ (result s e last).Reconciled := by
  obtain ⟨last, e, d, hrun, he, hover⟩ := RoundRobin.run_over hc roundDuration maxCredit channel n
  have hclosed : ∀ p ∈ (result s e last).packets, p.Closed := by
    rw [packets_of_queued s he]
    exact fun p hmem => hover.closed hc hmem
  have hadds := adds_of_timely hs (RoundRobin.timely hc n roundDuration maxCredit channel) hrun
  exact ⟨last, e, hrounds ▸ hrun, hadds.reconciled hclosed (violations_of_queued hc hover he last)⟩

theorem toNat_rounds (hcheck : s.check = .ok ()) : ((s.rounds.toNat : Nat) : Int) = s.rounds := by
  have := rounds_of_check hcheck
  omega

theorem reconciled_of_engine (hcheck : s.check = .ok ()) (hengine : engine env s = .ok start)
    (hrun : start.run s.rounds = .ok last e) : (result s e last).Reconciled := by
  have hs := starts_of_engine hengine
  rcases scheduler_of_check hcheck with hname | hname
  · obtain ⟨cell, solver, channel, hcell, hsolver, rfl⟩ := engine_deadlineAware hengine hname
    have hc := (cell_sound hcell).1
    have hhonest := Course.planner_honest hc env s.solver.workdir solver s.rounds.toNat
    exact reconciled_of_planned hc hhonest.answers hhonest.feasible (toNat_rounds hcheck) hs hrun
  · obtain ⟨cell, duration, most, channel, hcell, rfl⟩ := engine_roundRobin hengine hname
    obtain ⟨last', e', hrun', hreconciled⟩ :=
      reconciled_of_queued (cell_sound hcell).1 (toNat_rounds hcheck) hs
    rw [hrun'] at hrun
    cases hrun
    exact hreconciled

/-- The rounds, the packets and the tables of a run agree: with settings of any kind, with the round
robin on any channel and with any credits, and with every planner that keeps to windows and
capacity. The planners that can be configured do, whichever heaviest matchings they find. Nothing
but a fault of the planner keeps a run from its end, for a configured one a fault that escapes a
process. -/
theorem reports_agree :
    (∀ (env : Environment) (s : Settings) (start : Engine), s.check = .ok () →
      engine env s = .ok start →
        (∃ r, run env s = .ok r ∧ r.Reconciled) ∨ ∃ f, Stops env s f ∧ run env s = .error f) ∧
    ∀ (s : Settings) (cell : Cell) (tr : Traffic) (channel : Channel), s.check = .ok () →
      Simulation.cell s = .ok cell → Traffic.ofStations s.stations = .ok tr →
        (∀ roundDuration maxCredit, ∃ last e, (Engine.make (.roundRobin
          (RoundRobin.make cell tr roundDuration maxCredit)) channel).run s.rounds = .ok last e ∧
            (result s e last).Reconciled) ∧
        ∀ planner : Planner,
          (planner.Stock ∨ (Course.mk cell planner s.rounds.toNat).Trusted) →
            let start := Engine.make (.deadlineAware (DeadlineAware.make cell tr planner)) channel
            (∃ last e, start.run s.rounds = .ok last e ∧ (result s e last).Reconciled) ∨
              ∃ f e, (Course.mk cell planner s.rounds.toNat).Raised f ∧
                (planner.Stock → planner.Breaks cell s.rounds.toNat f) ∧
                  start.run s.rounds = .error f e := by
  constructor
  · intro env s start hcheck hengine
    rcases run_ends hcheck hengine with ⟨last, e, hrun⟩ | ⟨f, e, hstops, hrun⟩
    · exact Or.inl ⟨_, run_ok hcheck hengine hrun, reconciled_of_engine hcheck hengine hrun⟩
    · exact Or.inr ⟨f, hstops, run_error hcheck hengine hrun⟩
  · intro s cell tr channel hcheck hcell htr
    have hc := (cell_sound hcell).1
    refine ⟨fun roundDuration maxCredit => ?_, fun planner hplanner => ?_⟩
    · have hs := Starts.roundRobin hcell htr roundDuration maxCredit channel
      rw [fresh_of_ofStations hcell htr] at hs ⊢
      exact reconciled_of_queued hc (toNat_rounds hcheck) hs
    · have hs := Starts.deadlineAware hcell htr planner channel
      have htrusted := Course.trusted_of_stock hc hplanner
      rw [fresh_of_ofStations hcell htr] at hs ⊢
      rcases htrusted.run_ends hc channel rfl with
        ⟨⟨last, e, hrun⟩, -⟩ | ⟨f, e, hraised, hrun⟩
      · exact Or.inl ⟨last, e, hrun, reconciled_of_planned hc htrusted.answers htrusted.feasible
          (toNat_rounds hcheck) hs hrun⟩
      · exact Or.inr
          ⟨f, e, hraised, fun hstock => Course.breaks_of_raised hc hstock hraised, hrun⟩

/-- Two stations on one unit per round and a channel that may lose packets, planned for in this
process and by another one. -/
theorem reports_agree_two_stations :
    let s : Settings :=
      { stations := [⟨1, 2, 0, 5⟩, ⟨2, 1, 1, 10⟩]
        width := 20
        rounds := 2
        ruType := some 242
        roundDuration := .whole 10000
        maxCredit := .whole 1000000
        lossRate := .whole 0
        solver := { timeout := some (.whole 60) } }
    let cell : Cell := ⟨s.stations, 1024, 2, 3, ⟨.mhz20, .tones242, 1, 3, 242⟩⟩
    let channel := Channel.lossy 0.5 (fun k => if k = 0 then 0.25 else 0.75) 0
    let answer : ProcessOutcome := .finished 0 "" (some (Exchange.written [(0, 0), (1, 1)]))
    let planner := Planner.external ⟨["ilp"], none, none⟩ (fun _ _ _ => answer) fun _ => ⟨none⟩
    let env : Environment := ⟨fun _ _ => 0.5, fun _ _ _ => .timedOut, []⟩
    s.check = .ok () ∧ (∃ start, engine env s = .ok start) ∧
      (∃ r, run env s = .ok r ∧ r.Reconciled) ∧
      (∃ last e, (Engine.make (.roundRobin
        (RoundRobin.make cell (Traffic.fresh s.stations) 10000 1000000)) channel).run s.rounds =
          .ok last e ∧ (result s e last).Reconciled) ∧
      planner.Stock ∧ GroupsByStation StationGroup.ofPackets ∧
      ∃ last e, (Engine.make (.deadlineAware (DeadlineAware.make cell (Traffic.fresh s.stations)
        planner)) channel).run s.rounds = .ok last e ∧ (result s e last).Reconciled := by
  intro s cell channel answer planner env
  obtain ⟨hcell, htr⟩ := set_up_two_stations (s := s) rfl rfl rfl rfl
  have hcheck : s.check = .ok () := by rfl
  have hengine : ∃ start, engine env s = .ok start := by
    simp only [engine, htr, scheduler, hcell]
    exact ⟨_, rfl⟩
  obtain ⟨start, hengine⟩ := hengine
  obtain ⟨hsettings, hengines⟩ := reports_agree
  obtain ⟨hqueued, hplanned⟩ := hengines s cell _ channel hcheck hcell htr
  have hstock : planner.Stock := Planner.stock_external _ _ _
  refine ⟨hcheck, ⟨start, hengine⟩, ?_, hqueued _ _, hstock, groupsByStation_ofPackets, ?_⟩
  · rcases hsettings env s start hcheck hengine with hends | ⟨f, hstops, -⟩
    · exact hends
    · exact absurd rfl hstops.solver_ne
  · rcases hplanned planner (Or.inl hstock) with hends | ⟨f, e, ⟨k, hk, hreply⟩, -⟩
    · exact hends
    · obtain rfl : k = 0 := by
        simp only [Course.length, cell, s] at hk
        omega
      cases hreply.symm.trans reply_two_stations

end Simulation

end Downlink
