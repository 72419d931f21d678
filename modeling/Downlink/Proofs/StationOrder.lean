import Downlink.Proofs.DeadlineAware.ServiceOrder
import Downlink.Proofs.RoundRobin.Turns
import Downlink.Proofs.SlotSafety

/-!
# Packets of a station in order

In every run, with either scheduler and any behaviour of the process behind the planner, the packets
of a station are sent in the order in which they arrived, and a packet that is sent is the oldest
one left in its queue. With the round robin this is because a turn takes the head of a queue, with
the deadline-aware scheduler because every plan is dealt out again in order of arrival.
-/

namespace Downlink

open Traffic Engine

namespace RoundRobin

variable {c : Cell} {n t : Nat} {flag : Bool} {d d' : RoundRobin} {e e' : Engine} {r u : Int}
  {out : RoundAssignment} {several : Prop}

theorem turnsOf_increasing (d : RoundRobin) :
    d.turnsOf.Pairwise fun x y => x.1.index < y.1.index := by
  rw [List.pairwise_iff_getElem]
  intro i j hi hj hij
  simp only [turnsOf, List.length_zip, List.getElem_zip] at hi hj ⊢
  exact List.pairwise_iff_getElem.mp d.book.cell.sizing.units_increasing i j (by omega) (by omega)
    hij

theorem decide_marks {σ : Scheduler} {format : TxFormat} (hcustody : InCustody d.traffic u)
    (hheads : ∀ a ∈ out.allocations, a.packet ∈ d.traffic.waiting a.station)
    (h : Engine.decide r (.roundRobin d) = .ok (format, out) σ) :
    (∀ a ∈ out.allocations, a.Marks r σ.traffic) ∧
      out.allocations.Pairwise fun a b => a.ru.index < b.ru.index := by
  rcases of_decide h with ⟨-, -, rfl⟩ | ⟨σ₁, hselect, -, hassign⟩
  · exact ⟨fun a ha => absurd ha List.not_mem_nil, .nil⟩
  · obtain ⟨d₁, hd₁, rfl⟩ := of_lift hselect
    obtain ⟨d₂, hd₂, rfl⟩ := of_lift hassign
    obtain ⟨hsame, -⟩ := of_select hd₁
    rw [← hsame] at hcustody hheads
    obtain ⟨hserves, hturns, hsent, -⟩ := assign_serves hcustody hd₂
    have hunits := turnsOf_increasing d₁
    rw [← hturns, List.pairwise_map] at hunits
    refine ⟨fun a ha => ?_, hunits⟩
    obtain ⟨q, hq, hstate, hround, hru⟩ := hsent a ha
    obtain ⟨p, hp, hstation, -⟩ := hcustody.of_waiting (hheads a ha)
    obtain ⟨q', hq', hbecomes⟩ := hserves.advances.packet _ p hp
    obtain rfl := Option.some.inj (hq.symm.trans hq')
    exact ⟨q, hq, hbecomes.station.trans hstation, hstate, hround, hru⟩

theorem step_inTurn (hc : c.Sound) (h : Between c n t flag e) (htidy : Tidy t e)
    (hstep : Engine.step t e = .ok out e') : InTurn several t e out e' := by
  obtain ⟨-, hstations, holdest, -⟩ := step_takesTurns hc h htidy hstep
  obtain ⟨d, he, -⟩ := h
  obtain ⟨-, houtcome⟩ := step_tidy htidy hstep
  obtain ⟨format, σ, hcompleted⟩ := of_step hstep
  obtain ⟨hcustody, hgrows⟩ := htidy.custody.generate
  have hr : Station.Roster (e.traffic.generate t).2.stations := hgrows.stations ▸ htidy.roster
  have hdecided := hcompleted.decided
  rw [he] at hdecided
  have hheads : ∀ a ∈ out.allocations,
      ∃ rest, (e.traffic.generate t).2.waiting a.station = a.packet :: rest := by
    intro a ha
    obtain ⟨q, hq, hid, rest, hrest, -⟩ := holdest a ha
    exact ⟨rest, by rw [← hid, waiting_of_mem hr hq, hrest]⟩
  obtain ⟨hmarks, hunits⟩ := decide_marks (d := { d with traffic := (e.traffic.generate t).2 })
    hcustody (fun a ha => by
      obtain ⟨rest, hrest⟩ := hheads a ha
      exact hrest ▸ List.mem_cons_self) hdecided
  refine hcompleted.inTurn htidy houtcome hmarks hunits (Or.inr hstations)
    ((List.pairwise_map.mp hstations).imp fun hne he => absurd he hne) fun a ha i hi hlt => ?_
  -- nothing is ahead of the head of a queue
  obtain ⟨rest, hrest⟩ := hheads a ha
  have hsorted := hcustody.waiting_increasing a.station
  rw [hrest] at hi hsorted
  rcases List.mem_cons.mp hi with rfl | hi
  · omega
  · have := (List.pairwise_cons.mp hsorted).1 i hi
    omega

end RoundRobin

theorem Course.Honest.orderly {c : Course} (h : c.Honest) : c.Orderly := by
  intro k m _ hm
  obtain ⟨p, hp, rfl⟩ := exists_plan_of_decision hm
  exact (h.sound hp).ordered

namespace Simulation

variable {s : Settings} {env : Environment} {start : Engine}

theorem engine_keepsOrder (hcheck : s.check = .ok ()) (hengine : engine env s = .ok start) :
    KeepsOrder (s.scheduler = DeadlineAware.name) start s.rounds.toNat := by
  have hbooks := (starts_of_engine hengine).books s.rounds.toNat
  rcases scheduler_of_check hcheck with hname | hname
  · obtain ⟨cell, solver, channel, hcell, -, rfl⟩ := engine_deadlineAware hengine hname
    have hc := (cell_sound hcell).1
    have hhonest := Course.planner_honest hc env s.solver.workdir solver s.rounds.toNat
    exact hhonest.orderly.keepsOrder hc hhonest.answers hbooks hname
  · obtain ⟨cell, duration, most, channel, hcell, rfl⟩ := engine_roundRobin hengine hname
    have hc := (cell_sound hcell).1
    refine keepsOrder hbooks rfl fun t flag e out e' hx => ?_
    have hbetween := (RoundRobin.loop hc s.rounds.toNat).reaches
      (RoundRobin.between_make cell _ duration most channel) hx.before
    exact RoundRobin.step_inTurn hc hbetween (hx.before.books hbooks).tidy hx.step

/-- Nothing is reordered within a station: of two packets that were sent the older one was sent in
an earlier round or, which only the deadline-aware scheduler does, in the same round on a lower
unit, and each was the oldest one left in its queue. This holds for every planner whose plans are in
order; those that can be configured are, whichever heaviest matchings they find and whatever a
process does. -/
theorem runs_keep_order :
    (∀ (env : Environment) (s : Settings) (start : Engine), s.check = .ok () →
      engine env s = .ok start →
        KeepsOrder (s.scheduler = DeadlineAware.name) start s.rounds.toNat ∧
          ∀ r, run env s = .ok r → Packet.InOrder (s.scheduler = DeadlineAware.name) r.packets) ∧
    ∀ (s : Settings) (cell : Cell) (tr : Traffic) (planner : Planner) (channel : Channel) (n : Nat),
      Simulation.cell s = .ok cell → Traffic.ofStations s.stations = .ok tr →
        (planner.Stock ∨ (Course.mk cell planner n).Answers ∧ (Course.mk cell planner n).Orderly) →
          KeepsOrder True
            (Engine.make (.deadlineAware (DeadlineAware.make cell tr planner)) channel) n := by
  constructor
  · intro env s start hcheck hengine
    have horder := engine_keepsOrder hcheck hengine
    refine ⟨horder, fun r hrun => ?_⟩
    obtain ⟨-, start', last, e, hengine', hrounds, rfl⟩ := run_eq_ok hrun
    obtain rfl := Except.ok.inj (hengine.symm.trans hengine')
    have hnonneg : (s.rounds.toNat : Int) = s.rounds := by
      have := rounds_of_check hcheck
      omega
    exact horder.ended last e (by rwa [hnonneg])
  · intro s cell tr planner channel n hcell htr hplanner
    have hc := (cell_sound hcell).1
    have hbooks := (Starts.deadlineAware hcell htr planner channel).books n
    rw [fresh_of_ofStations hcell htr] at hbooks ⊢
    have hordered : (Course.mk cell planner n).Answers ∧ (Course.mk cell planner n).Orderly :=
      hplanner.elim (fun hstock => ⟨(Course.stock_honest hc hstock n).answers,
        (Course.stock_honest hc hstock n).orderly⟩) id
    exact hordered.2.keepsOrder hc hordered.1 hbooks trivial

theorem runs_keep_order_two_stations :
    let s : Settings :=
      { stations := [⟨1, 2, 0, 5⟩, ⟨2, 1, 1, 10⟩]
        width := 20
        rounds := 3
        ruType := some 242
        roundDuration := .whole 10000
        maxCredit := .whole 1000000
        lossRate := .whole 0
        solver := { timeout := some (.whole 60) } }
    let cell : Cell := ⟨s.stations, 1024, 2, 3, ⟨.mhz20, .tones242, 1, 3, 242⟩⟩
    let answer : ProcessOutcome := .finished 0 "" (some (Exchange.written [(0, 0), (1, 1)]))
    let planner := Planner.external ⟨["ilp"], none, none⟩ (fun _ _ _ => answer) fun _ => ⟨none⟩
    let outside := Engine.make (.deadlineAware
      (DeadlineAware.make cell (Traffic.fresh s.stations) planner)) .ideal
    let env : Environment := ⟨fun _ _ => 0.5, fun _ _ _ => .timedOut, []⟩
    (∃ start out e' r, engine env s = .ok start ∧
      Executes start 3 0 true start out e' ∧
        InTurn (s.scheduler = DeadlineAware.name) 0 start out e' ∧
      run env s = .ok r ∧ Packet.InOrder (s.scheduler = DeadlineAware.name) r.packets) ∧
    planner.Stock ∧ (∃ p, planner.reply 0 ((Course.mk cell planner 3).scheduleOf 0) cell.sizing =
      .plan p) ∧ KeepsOrder True outside 3 := by
  intro s cell answer planner outside env
  obtain ⟨hcell, htr⟩ := set_up_two_stations (s := s) rfl rfl rfl rfl
  have hc := (cell_sound hcell).1
  have hcheck : s.check = .ok () := by rfl
  have hengine : ∃ channel, engine env s =
      .ok ((Course.mk cell Planner.matching 3).engine channel) := by
    simp only [engine, htr, scheduler, hcell]
    exact ⟨_, rfl⟩
  obtain ⟨channel, hengine⟩ := hengine
  obtain ⟨hinside, houtside⟩ := runs_keep_order
  obtain ⟨hkeeps, hends⟩ := hinside env s _ hcheck hengine
  have hplans := Course.matching_respected hc 3
  have hfails : ∀ f, ¬ (Course.mk cell Planner.matching 3).Fails f := by
    rintro f (⟨t, hover, -⟩ | hraised)
    · exact hplans.feasible.not_overfull hc t hover
    · exact hplans.settles.not_raised f hraised
  have hstock : planner.Stock := Planner.stock_external _ _ _
  refine ⟨?_, hstock, ⟨_, reply_two_stations⟩,
    houtside s cell _ planner .ideal 3 hcell htr (Or.inl hstock)⟩
  have hloop := Course.loop (c := Course.mk cell Planner.matching 3) hc hplans.settles.answers
  rcases hloop.step 0 true _ (by have := hloop.positive; omega) (Or.inl ⟨by decide, rfl⟩)
    (Course.between_engine hc channel) with ⟨out, e', hstep, -⟩ | ⟨f, -, hf, -⟩
  · obtain ⟨last, e, d, hrun, -⟩ := Course.run_completes hc hplans.settles
      (hplans.feasible.not_overfull hc) channel (show (3 : Int).toNat = 3 from rfl)
    have hexecutes : Executes _ 3 0 true _ out e' := .traffic (by decide) rfl hstep
    have hok := run_ok hcheck hengine hrun
    exact ⟨_, out, e', _, hengine, hexecutes, hkeeps.rounds 0 true _ out e' hexecutes, hok,
      hends _ hok⟩
  · exact absurd hf (hfails f)

end Simulation

end Downlink
