import Downlink.Proofs.Custody
import Downlink.Proofs.SlotSafety

/-!
# The drain

When plans keep to windows and capacity, or stations take turns, no packet is ever late: the queues
are empty once the longest deadline has passed after the last round with traffic, and with the
deadline-aware scheduler also at the end of every horizon. So the drain ends before its limit, and
what drops late packets, at the start of a horizon, in a round, or after the drain, never does.
-/

namespace Downlink

open Engine

theorem Packet.not_late_of_no_reason {p : Packet} (h : p.dropReason = none) :
    p.dropReason ≠ some .late := by
  rw [h]
  decide

namespace Engine

variable {start e : Engine} {n t : Nat} {flag : Bool} {limit longest : Int}
  {inv : Nat → Bool → Engine → Prop} {fails : Fault → Prop} {ended : Engine → Prop}

def NoneLate (e : Engine) : Prop :=
  ∀ id p, e.traffic.packet? id = some p → p.dropReason ≠ some .late

/-- Nothing is late in a run of `n` rounds, and all is over when the longest deadline has passed. -/
structure Timely (start : Engine) (n : Nat) : Prop where
  kept : ∀ t flag e, Reaches start n t flag e → e.NoneLate
  ended : ∀ last e, start.run n = .ok last e →
    (∃ t : Nat, last = t - 1 ∧ Reaches start n t false e) ∧
    e.NoneLate ∧ (∀ q ∈ e.traffic.queues, q.ids = []) ∧
      last ≤ n - 1 + Station.longestDeadline start.traffic.stations

/-- Nothing is queued between two horizons. -/
def ClearsHorizons (start : Engine) (n : Nat) : Prop :=
  ∀ (t : Nat) flag e, Reaches start n t flag e →
    (t : Int) % start.scheduler.book.cell.horizonRounds = 0 → ∀ q ∈ e.traffic.queues, q.ids = []

theorem queues_empty {tr : Traffic} (h : tr.hasBacklog = false) : ∀ q ∈ tr.queues, q.ids = [] := by
  rw [Traffic.hasBacklog, List.any_eq_false] at h
  intro q hq
  simpa using h q hq

theorem Loop.timely (h : Loop n limit inv fails ended) (hstart : inv 0 true start)
    (hlate : ∀ {t flag e}, inv t flag e → e.NoneLate)
    (hidle : ∀ {t : Nat} {e}, n + Station.longestDeadline start.traffic.stations ≤ t →
      inv t false e → e.traffic.hasBacklog = false)
    (hlimit : Station.longestDeadline start.traffic.stations < limit) : Timely start n := by
  have hlongest := Station.longestDeadline_nonneg start.traffic.stations
  have hbacklog : ∀ {t : Nat} {e}, Reaches start n t false e → e.traffic.hasBacklog = true →
      (t : Int) < n + Station.longestDeadline start.traffic.stations := by
    intro t e hr hb
    by_contra hle
    rw [hidle (by omega) (h.reaches hstart hr)] at hb
    cases hb
  refine ⟨fun t flag e hr => hlate (h.reaches hstart hr), fun last e hrun => ?_⟩
  obtain ⟨u, e₁, hr, -, rfl, hdiscard, hfull⟩ := run_reaches hrun
  have hle := hr.le_of_backlog hlongest hbacklog
  -- a drain that stops at its limit would have something queued later than that
  have hempty : e₁.traffic.hasBacklog = false := by
    by_contra hb
    rw [Bool.not_eq_false] at hb
    obtain ⟨e₀, hr₀, hu⟩ := hfull hb
    have hlt := hbacklog hr hb
    rw [h.drainLimit e₀ (h.reaches hstart hr₀)] at hu
    omega
  rw [discardAll_of_idle hempty] at hdiscard
  cases hdiscard
  exact ⟨⟨u, rfl, hr⟩, hlate (h.reaches hstart hr), queues_empty hempty, by omega⟩

end Engine

namespace RoundRobin

variable {c : Cell} {n t : Nat} {flag : Bool} {e : Engine}

theorem Between.noneLate (hc : c.Sound) (h : Between c n t flag e) : e.NoneLate := by
  obtain ⟨d, he, hresting, -, -⟩ := h
  intro id p hp
  have htraffic : e.traffic = d.traffic := by rw [Engine.traffic, he]; rfl
  rw [htraffic] at hp
  obtain ⟨s, hs, a, ha, hid⟩ := Traffic.exists_emission hc.horizon.roster.nodup hresting.size
    (Array.mem_toList_iff.mpr (Array.mem_of_getElem? hp))
  obtain ⟨live, hkept⟩ := hresting.kept s hs
  obtain ⟨q, hq, hfate⟩ := hkept.holds.packet a ha
  obtain rfl := Option.some.inj (hq.symm.trans hid)
  unfold Fate at hfate
  split_ifs at hfate
  · exact Packet.not_late_of_no_reason hfate.kept
  · rcases hfate with hsent | hexpired
    · exact Packet.not_late_of_no_reason hsent.kept
    · rw [hexpired.reason]
      decide

theorem timely (hc : c.Sound) (n : Nat) (roundDuration maxCredit : Float) (channel : Channel) :
    Timely (Engine.make (.roundRobin
      (RoundRobin.make c (Traffic.fresh c.stations) roundDuration maxCredit)) channel) n := by
  have hpos := hc.horizon.pos
  have hstations : (Engine.make (.roundRobin (RoundRobin.make c (Traffic.fresh c.stations)
      roundDuration maxCredit)) channel).traffic.stations = c.stations := Traffic.stations_fresh _
  refine (loop hc n).timely (between_make c n roundDuration maxCredit channel)
    (fun h => h.noneLate hc) (fun ht h => ?_) ?_
  · rw [hstations] at ht
    exact idle_of_late hc ht h
  · rw [hstations, limit]
    omega

end RoundRobin

namespace Course

variable {c : Course} {s : Station} {a : Int} {t : Nat} {flag : Bool} {e : Engine} {stage : Stage}

theorem settled_not_late (c : Course) (s : Station) (a : Int) :
    (c.settled s a).dropReason ≠ some .late := by
  cases hr : c.assigned? s a with
  | some r =>
    rw [settled_of_assigned hr]
    exact Packet.not_late_of_no_reason rfl
  | none =>
    rcases unassigned_cases hr with hd | ⟨m, hd, hm⟩
    · rw [settled_of_failed hd]
      simp
    · rw [settled_of_unmatched hd hm]
      simp

theorem Feasible.packetAt_not_late (hc : c.cell.Sound) (h : c.Feasible) (hs : s ∈ c.cell.stations)
    (ha : a ∈ Traffic.arrivals s c.rounds) :
    (c.packetAt s a stage).dropReason ≠ some .late := by
  cases stage with
  | fresh => exact Packet.not_late_of_no_reason rfl
  | held => exact settled_not_late c s a
  | done =>
    show (c.finished s a).dropReason ≠ some .late
    cases hr : c.assigned? s a with
    | none =>
      rw [finished_of_unassigned hr]
      exact settled_not_late c s a
    | some r =>
      rw [finished_of_sends (h.sends hc hs ha hr)]
      exact settled_not_late c s a

theorem Between.noneLate (hc : c.cell.Sound) (hf : c.Feasible) (h : Between c t flag e) :
    e.NoneLate := by
  obtain ⟨d, he, hpaused, -, -⟩ := h
  intro id p hp
  have htraffic : e.traffic = d.traffic := by rw [Engine.traffic, he]; rfl
  rw [htraffic] at hp
  obtain ⟨s, hs, a, ha, hid⟩ := Traffic.exists_emission hc.horizon.roster.nodup hpaused.size
    (Array.mem_toList_iff.mpr (Array.mem_of_getElem? hp))
  obtain ⟨x, hx⟩ := exists_packet (hpaused.reached s hs) ha rfl
  obtain rfl := Option.some.inj (hx.symm.trans hid)
  exact hf.packetAt_not_late hc hs (Traffic.arrivals_mono (min_le_right _ _) ha)

theorem Feasible.resolution_lt (hc : c.cell.Sound) (h : c.Feasible) (hs : s ∈ c.cell.stations)
    (ha : a ∈ Traffic.arrivals s c.rounds) :
    c.resolution s a ≤ a + s.deadline ∧ c.resolution s a < (c.horizonOf a + 1) * c.length := by
  have hdeadline := (hc.horizon.roster.valid s hs).deadline
  cases hr : c.assigned? s a with
  | none =>
    rw [resolution_of_unassigned hr]
    exact ⟨by omega, (horizonOf_bounds hc a).2⟩
  | some r =>
    rw [resolution_of_sends (h.sends hc hs ha hr)]
    exact (h.window hc hs ha hr).2

theorem Between.idle (hc : c.cell.Sound) (h : Between c t flag e)
    (hpast : ∀ s ∈ c.cell.stations, ∀ a ∈ Traffic.arrivals s (min t c.rounds),
      c.resolution s a < t) : e.traffic.hasBacklog = false := by
  obtain ⟨d, he, hpaused, -, -⟩ := h
  have htraffic : e.traffic = d.traffic := by rw [Engine.traffic, he]; rfl
  rw [htraffic]
  refine Traffic.hasBacklog_eq_false (hpaused.stations ▸ hc.horizon.roster) fun s hs => ?_
  rw [hpaused.stations] at hs
  rw [(hpaused.reached s hs).queue, List.map_eq_nil_iff, List.filter_eq_nil_iff]
  intro a ha
  have hlt := hpast s hs a ha
  have hdone : c.paused s t a = .done := if_neg (by omega)
  simp [hdone]

theorem Between.idle_of_late (hc : c.cell.Sound) (hf : c.Feasible)
    (ht : c.rounds + Station.longestDeadline c.cell.stations ≤ t) (h : Between c t flag e) :
    e.traffic.hasBacklog = false := by
  refine h.idle hc fun s hs a ha => ?_
  have ha' := Traffic.arrivals_mono (min_le_right t c.rounds) ha
  have hlt := (Traffic.mem_arrivals.mp ha').1.2
  have hle := (hf.resolution_lt hc hs ha').1
  have hlongest := Station.le_longestDeadline hs
  omega

theorem Between.idle_of_start (hc : c.cell.Sound) (hf : c.Feasible)
    (ht : (t : Int) % c.length = 0) (h : Between c t flag e) : e.traffic.hasBacklog = false := by
  refine h.idle hc fun s hs a ha => ?_
  have ha' := Traffic.arrivals_mono (min_le_right t c.rounds) ha
  have hlt : a < t := by
    have := (Traffic.mem_arrivals.mp ha).1.2
    omega
  have hhorizon := (hf.resolution_lt hc hs ha').2
  have hpos := length_pos hc
  obtain ⟨j, hj⟩ := Int.dvd_of_emod_eq_zero ht
  have hbefore : c.horizonOf a < j :=
    Int.ediv_lt_of_lt_mul hpos (by rw [Int.mul_comm]; omega)
  have hle : (c.horizonOf a + 1) * c.length ≤ j * c.length :=
    Int.mul_le_mul_of_nonneg_right (by omega) hpos.le
  rw [hj, Int.mul_comm]
  omega

theorem Trusted.run_ends (hc : c.cell.Sound) (h : c.Trusted) (channel : Channel) {rounds : Int}
    (hn : rounds.toNat = c.rounds) :
    ((∃ last e, (c.engine channel).run rounds = .ok last e) ∧ ∀ f, ¬ c.Raised f) ∨
      ∃ f e, c.Raised f ∧ (c.engine channel).run rounds = .error f e := by
  rcases Course.run_ends hc h.answers channel hn
    with ⟨last, e, d, hrun, -, hover⟩ | ⟨f, e, ⟨u, hfull, -⟩ | hraised, hrun⟩
  · exact Or.inl ⟨⟨last, e, hrun⟩, hover.not_raised hc⟩
  · exact absurd hfull (h.feasible.not_overfull hc u)
  · exact Or.inr ⟨f, e, hraised, hrun⟩

theorem timely (hc : c.cell.Sound) (hp : c.Answers) (hf : c.Feasible) (channel : Channel) :
    Timely (c.engine channel) c.rounds ∧ ClearsHorizons (c.engine channel) c.rounds := by
  have hpos := length_pos hc
  have hstations : (c.engine channel).traffic.stations = c.cell.stations :=
    Traffic.stations_fresh _
  constructor
  · refine (loop hc hp).timely (between_engine hc channel) (fun h => h.noneLate hc hf)
      (fun ht h => ?_) ?_
    · rw [hstations] at ht
      exact h.idle_of_late hc hf ht
    · rw [hstations, limit]
      omega
  · intro t flag e hr ht
    exact queues_empty
      (((loop hc hp).reaches (between_engine hc channel) hr).idle_of_start hc hf ht)

end Course

theorem Station.longestDeadline_inOrder (stations : List Station) :
    longestDeadline (inOrder stations) = longestDeadline stations := by
  have : RightCommutative fun (m : Int) (s : Station) => max m s.deadline :=
    ⟨fun m s u => max_right_comm m s.deadline u.deadline⟩
  exact (inOrder_perm stations).foldl_eq 0

namespace Simulation

variable {s : Settings} {env : Environment} {start e : Engine} {last : Int}

theorem rounds_of_check (h : s.check = .ok ()) : 1 ≤ s.rounds := by
  unfold Settings.check at h
  split at h
  · cases h
  split at h
  · cases h
  split_ifs at h with hrounds hscheduler hcap
  omega

theorem stations_of_engine (h : engine env s = .ok e) :
    e.traffic.stations = Station.inOrder s.stations := by
  have hstations : ∀ {tr}, Traffic.ofStations s.stations = .ok tr →
      tr.stations = Station.inOrder s.stations := by
    intro tr htr
    rw [Traffic.ofStations_eq_ok htr, Traffic.stations_fresh]
  cases starts_of_engine h with
  | deadlineAware _ htr => exact hstations htr
  | roundRobin _ htr => exact hstations htr

theorem run_error {fault : Fault} (hcheck : s.check = .ok ()) (hengine : engine env s = .ok start)
    (hrun : start.run s.rounds = .error fault e) : run env s = .error fault := by
  simp only [run, hcheck, hengine, hrun]

theorem result_of_timely (hcheck : s.check = .ok ()) (hengine : engine env s = .ok start)
    (h : Timely start s.rounds.toNat) (hrun : start.run s.rounds = .ok last e) :
    ∃ r, run env s = .ok r ∧ (∀ p ∈ r.packets, p.dropReason ≠ some .late) ∧
      r.lastRound ≤ s.rounds - 1 + Station.longestDeadline s.stations := by
  have hrounds : ((s.rounds.toNat : Nat) : Int) = s.rounds := by
    have := rounds_of_check hcheck
    omega
  obtain ⟨-, hlate, -, hle⟩ := h.ended last e (by rwa [hrounds])
  refine ⟨_, run_ok hcheck hengine hrun, fun p hp => ?_, ?_⟩
  · obtain ⟨id, hid⟩ := List.getElem?_of_mem hp
    exact hlate id p (by rw [Traffic.packet?, ← Array.getElem?_toList]; exact hid)
  · rwa [hrounds, stations_of_engine hengine, Station.longestDeadline_inOrder] at hle

/-- What can stop a run with a process behind the planner: a working directory that is not named by
a text, or a fault that escapes the planning of one of its horizons. -/
inductive Stops (env : Environment) (s : Settings) : Fault → Prop
  | unopened {x : External} (hname : s.scheduler = DeadlineAware.name)
    (hsolver : Simulation.solver env.launcher s.solver = .ok (.external x))
    (hworkdir : opens s.solver.workdir = false) : Stops env s .wrongKind
  | escaped {x : External} {cell : Cell} {k : Nat} {f : Fault}
    (hname : s.scheduler = DeadlineAware.name) (hcell : Simulation.cell s = .ok cell)
    (hsolver : Simulation.solver env.launcher s.solver = .ok (.external x))
    (hk : k * cell.horizonRounds < s.rounds)
    (hescapes : x.Escapes (env.process k) (Schedule.ofStations cell.stations
      (k * cell.horizonRounds) cell.horizonRounds) cell.sizing f) : Stops env s f

theorem Stops.solver_ne {f : Fault} (h : Stops env s f) :
    Simulation.solver env.launcher s.solver ≠ .ok .matching := by
  cases h with
  | unopened _ hsolver => exact fun he => by cases hsolver.symm.trans he
  | escaped _ _ hsolver => exact fun he => by cases hsolver.symm.trans he

theorem stops_of_raised {cell : Cell} {solver : Solver} {f : Fault}
    (hname : s.scheduler = DeadlineAware.name) (hrounds : 1 ≤ s.rounds)
    (hcell : Simulation.cell s = .ok cell)
    (hsolver : Simulation.solver env.launcher s.solver = .ok solver)
    (hraised : (Course.mk cell (planner env s.solver.workdir solver) s.rounds.toNat).Raised f) :
    Stops env s f := by
  have hc := (cell_sound hcell).1
  cases solver with
  | matching =>
    exact absurd hraised ((Course.matching_respected hc s.rounds.toNat).settles.not_raised f)
  | external x =>
    unfold planner at hraised
    dsimp only at hraised
    split_ifs at hraised with hworkdir
    · rw [Planner.external_eq] at hraised
      obtain ⟨k, hk, hescapes⟩ :=
        Course.externalBy_raised hc (fun _ => Plan.search_finds) hraised
      exact .escaped hname hcell hsolver (by omega) hescapes
    · obtain ⟨k, -, hreply⟩ := hraised
      obtain rfl := Reply.raise.inj hreply
      exact .unopened hname hsolver (Bool.eq_false_iff.mpr hworkdir)

theorem run_ends (hcheck : s.check = .ok ()) (hengine : engine env s = .ok start) :
    (∃ last e, start.run s.rounds = .ok last e) ∨
      ∃ f e, Stops env s f ∧ start.run s.rounds = .error f e := by
  rcases scheduler_of_check hcheck with hname | hname
  · obtain ⟨cell, solver, channel, hcell, hsolver, rfl⟩ := engine_deadlineAware hengine hname
    have hc := (cell_sound hcell).1
    have hhonest := Course.planner_honest hc env s.solver.workdir solver s.rounds.toNat
    rcases hhonest.trusted.run_ends hc channel rfl with ⟨hends, -⟩ | ⟨f, e, hraised, hrun⟩
    · exact Or.inl hends
    · exact Or.inr ⟨f, e, stops_of_raised hname (rounds_of_check hcheck) hcell hsolver hraised,
        hrun⟩
  · obtain ⟨cell, duration, most, channel, hcell, rfl⟩ := engine_roundRobin hengine hname
    obtain ⟨last, e, -, hrun, -⟩ :=
      RoundRobin.run_over (cell_sound hcell).1 duration most channel s.rounds
    exact Or.inl ⟨last, e, hrun⟩

theorem timely_of_engine (hcheck : s.check = .ok ()) (hengine : engine env s = .ok start) :
    Timely start s.rounds.toNat ∧
      (s.scheduler = DeadlineAware.name → ClearsHorizons start s.rounds.toNat) := by
  rcases scheduler_of_check hcheck with hname | hname
  · obtain ⟨cell, solver, channel, hcell, hsolver, rfl⟩ := engine_deadlineAware hengine hname
    have hc := (cell_sound hcell).1
    have hhonest := Course.planner_honest hc env s.solver.workdir solver s.rounds.toNat
    obtain ⟨htimely, hclears⟩ := Course.timely hc hhonest.answers hhonest.feasible channel
    exact ⟨htimely, fun _ => hclears⟩
  · obtain ⟨cell, duration, most, channel, hcell, rfl⟩ := engine_roundRobin hengine hname
    refine ⟨RoundRobin.timely (cell_sound hcell).1 s.rounds.toNat duration most channel,
      fun he => ?_⟩
    rw [hname] at he
    exact absurd he (by decide)

/-- With settings of any kind no packet is ever late, and the drain is over within the longest
deadline unless one of the faults named above stops the run before. The same holds for every planner
that keeps to windows and capacity. The planners that can be configured do, whichever heaviest
matchings they find, and of these only one with a process behind it can stop a run, by what escapes
the planning of a horizon. -/
theorem runs_never_late (env : Environment) (s : Settings) :
    (∀ start : Engine, s.check = .ok () → engine env s = .ok start →
      Timely start s.rounds.toNat ∧
      (s.scheduler = DeadlineAware.name → ClearsHorizons start s.rounds.toNat) ∧
      ((∃ r, run env s = .ok r ∧ (∀ p ∈ r.packets, p.dropReason ≠ some .late) ∧
        r.lastRound ≤ s.rounds - 1 + Station.longestDeadline s.stations) ∨
        ∃ f, Stops env s f ∧ run env s = .error f)) ∧
    ∀ (cell : Cell) (tr : Traffic) (planner : Planner) (channel : Channel) (n : Nat),
      Simulation.cell s = .ok cell → Traffic.ofStations s.stations = .ok tr →
        (planner.Stock ∨ (Course.mk cell planner n).Trusted) →
          let start := Engine.make (.deadlineAware (DeadlineAware.make cell tr planner)) channel
          Timely start n ∧ ClearsHorizons start n ∧
            ((∃ last e, start.run n = .ok last e) ∨
              ∃ f e, (Course.mk cell planner n).Raised f ∧
                (planner.Stock → planner.Breaks cell n f) ∧ start.run n = .error f e) := by
  constructor
  · intro start hcheck hengine
    obtain ⟨htimely, hclears⟩ := timely_of_engine hcheck hengine
    refine ⟨htimely, hclears, ?_⟩
    rcases run_ends hcheck hengine with ⟨last, e, hrun⟩ | ⟨f, e, hstops, hrun⟩
    · exact Or.inl (result_of_timely hcheck hengine htimely hrun)
    · exact Or.inr ⟨f, hstops, run_error hcheck hengine hrun⟩
  · intro cell tr planner channel n hcell htr hplanner
    have hc := (cell_sound hcell).1
    have htrusted := Course.trusted_of_stock hc hplanner
    rw [fresh_of_ofStations hcell htr]
    obtain ⟨htimely, hclears⟩ := Course.timely hc htrusted.answers htrusted.feasible channel
    refine ⟨htimely, hclears, ?_⟩
    rcases htrusted.run_ends hc channel (Int.toNat_natCast n) with
      ⟨hends, -⟩ | ⟨f, e, hraised, hrun⟩
    · exact Or.inl hends
    · exact Or.inr ⟨f, e, hraised, fun hstock => Course.breaks_of_raised hc hstock hraised, hrun⟩

theorem runs_never_late_two_stations :
    let s : Settings :=
      { stations := [⟨1, 2, 0, 5⟩, ⟨2, 1, 1, 10⟩]
        width := 20
        rounds := 3
        ruType := some 242
        roundDuration := .whole 10000
        maxCredit := .whole 1000000
        lossRate := .whole 0
        solver := { timeout := some (.whole 60) } }
    let cell : Cell := ⟨s.stations, 1024, 2, 3, ⟨.mhz20, .tones242, 1, 3, 242⟩⟩
    let answer : ProcessOutcome := .finished 0 "" (some (Exchange.written [(0, 0), (1, 1)]))
    let planner := Planner.external ⟨["ilp"], none, none⟩ (fun _ _ _ => answer) fun _ => ⟨none⟩
    let outside := Engine.make (.deadlineAware
      (DeadlineAware.make cell (Traffic.fresh s.stations) planner)) .ideal
    let env : Environment := ⟨fun _ _ => 0.5, fun _ _ _ => .timedOut, []⟩
    (∃ start, engine env s = .ok start ∧ Timely start 3 ∧ ClearsHorizons start 3) ∧
      (∃ r, run env s = .ok r ∧ (∀ p ∈ r.packets, p.dropReason ≠ some .late) ∧ r.lastRound ≤ 3) ∧
      planner.Stock ∧ Timely outside 2 ∧ ClearsHorizons outside 2 ∧
        ∃ last e, outside.run 2 = .ok last e := by
  intro s cell answer planner outside env
  obtain ⟨hcell, htr⟩ := set_up_two_stations (s := s) rfl rfl rfl rfl
  have hcheck : s.check = .ok () := by rfl
  have hengine : ∃ start, engine env s = .ok start := by
    simp only [engine, htr, scheduler, hcell]
    exact ⟨_, rfl⟩
  obtain ⟨start, hengine⟩ := hengine
  obtain ⟨hinside, houtside⟩ := runs_never_late env s
  obtain ⟨htimely, hclears, hends⟩ := hinside start hcheck hengine
  have hstock : planner.Stock := Planner.stock_external _ _ _
  obtain ⟨htimely', hclears', hends'⟩ :=
    houtside cell _ planner .ideal 2 hcell htr (Or.inl hstock)
  refine ⟨⟨start, hengine, htimely, hclears rfl⟩, ?_, hstock, htimely', hclears', ?_⟩
  · rcases hends with hends | ⟨f, hstops, -⟩
    · exact hends
    · exact absurd rfl hstops.solver_ne
  · rcases hends' with hends | ⟨f, -, ⟨k, hk, hreply⟩, -⟩
    · exact hends
    · obtain rfl : k = 0 := by
        simp only [Course.length, cell] at hk
        omega
      cases hreply.symm.trans reply_two_stations

/-- The fallback plans the first horizon, in which the process times out. The answer for the second
one can be read, but moves over the limit by the start of the horizon, and its refusal stops the
run. -/
theorem runs_stopped_by_long_round :
    let s : Settings :=
      { stations := [⟨1, 1, 0, 5⟩]
        width := 20
        rounds := 2
        ruType := some 242
        solver := { backend := External.name, timeout := some (.whole 60) } }
    let long : ProcessOutcome :=
      .finished 0 "" (some (Exchange.written [(0, 10 ^ Text.digitLimit - 1)]))
    let env : Environment :=
      ⟨fun _ _ => 0.5, fun k _ _ => if k = 0 then .timedOut else long, ["ilp"]⟩
    s.check = .ok () ∧ (∃ start, engine env s = .ok start) ∧
      run env s = .error (.value .tooManyDigits) := by
  intro s long env
  let cell : Cell := ⟨s.stations, 1024, 1, 1, ⟨.mhz20, .tones242, 1, 3, 242⟩⟩
  let x : External := ⟨["ilp"], some (.whole 60), some .matching⟩
  let planner := Planner.external x env.process fun _ => ⟨none⟩
  have horder : Station.inOrder s.stations = s.stations := List.mergeSort_of_pairwise (by decide)
  have hcell : Simulation.cell s = .ok cell := by
    show Cell.make s.stations 20 1024 (some .tones242) = _
    rw [Cell.make, horder]
    rfl
  have htr : Traffic.ofStations s.stations = .ok (Traffic.fresh s.stations) := by
    rw [Traffic.ofStations, horder]
    rfl
  have hc := (cell_sound hcell).1
  have hcheck : s.check = .ok () := by rfl
  have hsolver : Simulation.solver env.launcher s.solver = .ok (.external x) := by
    have hfallback : fallbackName s.solver.fallback = some Plan.matchingName := rfl
    rw [Simulation.solver, Solver.make, if_neg (by decide), if_pos rfl, hfallback, Solver.fallback?,
      if_pos rfl]
    rfl
  have hengine : ∃ channel, engine env s = .ok ((Course.mk cell planner 2).engine channel) := by
    simp only [engine, htr, scheduler, hcell, hsolver]
    exact ⟨_, rfl⟩
  obtain ⟨channel, hengine⟩ := hengine
  have hserved : ∃ p, planner.reply 0 ((Course.mk cell planner 2).scheduleOf 0) cell.sizing =
      .plan p := by
    have hargs : Exchange.arguments (Schedule.ofStations s.stations 0 1) cell.sizing = .ok _ :=
      if_pos (by decide +kernel)
    obtain ⟨p, hp, -⟩ := Plan.byMatching_sound hc.horizon cell.sizing 0
    have hplan : x.plan (fun _ _ => .timedOut) ⟨none⟩ (Schedule.ofStations s.stations 0 1)
        cell.sizing = .ok p := by
      rw [External.plan, External.planOr_eq hargs]
      exact hp
    exact ⟨p, congrArg Reply.ofExcept hplan⟩
  have hlong : planner.reply 1 ((Course.mk cell planner 2).scheduleOf 1) cell.sizing =
      .raise (.value .tooManyDigits) := by
    have hargs : Exchange.arguments (Schedule.ofStations s.stations 1 1) cell.sizing = .ok _ :=
      if_pos (by decide +kernel)
    have hplan := External.plan_of_long_round (x := x) ⟨none⟩ hargs
      (show 0 < 10 ^ Text.digitLimit - 1 by decide +kernel) (by decide +kernel) (by decide +kernel)
    exact congrArg Reply.ofExcept hplan
  have htrusted : (Course.mk cell planner 2).Trusted :=
    (Course.stock_honest hc (Planner.stock_external _ _ _) 2).trusted
  refine ⟨hcheck, ⟨_, hengine⟩, ?_⟩
  rcases htrusted.run_ends hc channel (rfl : (2 : Int).toNat = 2) with
    ⟨-, hnot⟩ | ⟨f, e, ⟨k, hk, hreply⟩, hrun⟩
  · exact absurd ⟨1, by decide, hlong⟩ (hnot _)
  · obtain rfl | rfl : k = 0 ∨ k = 1 := by
      simp only [Course.length, cell] at hk
      omega
    · obtain ⟨p, hp⟩ := hserved
      cases hreply.symm.trans hp
    · obtain rfl := Reply.raise.inj (hreply.symm.trans hlong)
      exact run_error hcheck hengine hrun

end Simulation

end Downlink
