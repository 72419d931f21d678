import Downlink.Proofs.Drain
import Downlink.Proofs.Feedback.Reports
import Downlink.Proofs.Feedback.Run

/-!
# Feedback is for the report only

The channel decides what the packets and the rows say about deliveries and nothing else: simulations
that differ in their channel alone have the same outcome but for these two.
-/

namespace Downlink

open Scheduler (lift)

/-- A result without what the channel has reported. -/
def RunResult.muted (r : RunResult) : RunResult :=
  { r with
    packets := r.packets.map fun p => p.noted none
    rows := r.rows.map RoundRow.muted }

/-- Just the packets of a result that were sent have a status, each that of the channel's answer to
its own allocation. -/
def RunResult.Answers (r : RunResult) (start : Engine) : Prop :=
  ∀ id p, r.packets[id]? = some p →
    (p.txStatus.isSome = true ↔ p.state = .transmitted) ∧
    ∀ x, p.txStatus = some x ↔
      Engine.Earlier start r.rounds.toNat (r.lastRound + 1).toNat (Engine.Answered id x)

def Environment.withDraws (env : Environment) (draw : Int → Nat → Float) : Environment :=
  { env with draw := draw }

def Settings.withChannel (s : Settings) (rate : Number) (seed : Int) : Settings :=
  { s with lossRate := rate, seed := seed }

namespace Simulation

open Engine

variable {env : Environment} {s : Settings} {draw : Int → Nat → Float} {rate : Number} {seed : Int}
  {start start' e e' : Engine} {last : Int}

theorem engine_alike (h : engine env s = .ok start)
    (h' : engine (env.withDraws draw) (s.withChannel rate seed) = .ok start') :
    start.muted = start'.muted := by
  obtain ⟨tr, σ, channel, htr, hσ, rfl⟩ := engine_eq_ok h
  obtain ⟨tr', σ', channel', htr', hσ', rfl⟩ := engine_eq_ok h'
  obtain rfl : tr = tr' := Except.ok.inj (htr.symm.trans htr')
  obtain rfl : σ = σ' := Except.ok.inj (hσ.symm.trans hσ')
  rfl

theorem result_alike (h : e.muted = e'.muted) :
    (result s e last).muted = (result (s.withChannel rate seed) e' last).muted := by
  have hresult : ∀ e : Engine, (result s e last).muted = (result s e.muted last).muted := by
    intro e
    have hscheduler : e.muted.scheduler = e.scheduler.muted := rfl
    have hrows : e.muted.rows = e.rows.map RoundRow.muted := rfl
    simp only [result, RunResult.muted, traffic_muted, hscheduler, hrows, Scheduler.name_muted,
      Scheduler.horizons, Scheduler.sizing, Scheduler.book_muted, Traffic.muted, Array.toList_map,
      List.map_map]
    rfl
  -- of the settings a result shows nothing that belongs to the channel
  have hsame : result (s.withChannel rate seed) e' last = result s e' last := rfl
  rw [hsame, hresult e, h, ← hresult e']

theorem answers_of_run (hcheck : s.check = .ok ()) (hengine : engine env s = .ok start)
    (hrun : start.run s.rounds = .ok last e) : (result s e last).Answers start := by
  have hrounds : ((s.rounds.toNat : Nat) : Int) = s.rounds := by
    have := rounds_of_check hcheck
    omega
  have hstarts := starts_of_engine hengine
  obtain ⟨t, rfl, h⟩ := run_reported (n := s.rounds.toNat) (hstarts.books _) (hstarts.reported _)
    (by rwa [hrounds])
  intro id p hp
  have hp' : e.traffic.packet? id = some p := by
    rw [Traffic.packet?, ← Array.getElem?_toList]
    exact hp
  have hlast : ((result s e (t - 1)).lastRound + 1).toNat = t := by
    show ((t : Int) - 1 + 1).toNat = t
    omega
  have hstatus := Traffic.status?_of_packet? hp'
  rw [hlast, ← hstatus]
  refine ⟨?_, fun x => h.status id x⟩
  rw [h.sent, Traffic.state?_of_packet? hp', Option.some.injEq]

/-- Settings that differ in their channel alone give the same result, up to the reports, or are
stopped by the same fault; and just the packets that were sent say what was reported on them. This
holds whatever a planner replies and whatever the credits are. -/
theorem runs_ignore_channel :
    (∀ (env : Environment) (s : Settings) (draw : Int → Nat → Float) (rate : Number) (seed : Int)
      (start start' : Engine), s.check = .ok () → engine env s = .ok start →
      (s.withChannel rate seed).check = .ok () →
      engine (env.withDraws draw) (s.withChannel rate seed) = .ok start' →
        (∃ r r', run env s = .ok r ∧ run (env.withDraws draw) (s.withChannel rate seed) = .ok r' ∧
          r.muted = r'.muted ∧ r.Answers start ∧ r'.Answers start') ∨
        ∃ f, Stops env s f ∧ run env s = .error f ∧
          run (env.withDraws draw) (s.withChannel rate seed) = .error f) ∧
    ∀ (s : Settings) (start : Engine) (channel : Channel) (n : Nat), Starts s start →
      lift muted (start.run n) = lift muted (Engine.run n { start with channel := channel }) ∧
      ∀ last e, start.run n = .ok last e →
        ∃ t : Nat, last = t - 1 ∧ Reported start n t e.traffic := by
  constructor
  · intro env s draw rate seed start start' hcheck hengine hcheck' hengine'
    rcases Scheduler.lift_eq_lift (run_alike s.rounds (engine_alike hengine hengine'))
      with ⟨last, e, e', hrun, hrun', he⟩ | ⟨f, e, e', hrun, hrun', -⟩
    · exact Or.inl ⟨_, _, run_ok hcheck hengine hrun, run_ok hcheck' hengine' hrun',
        result_alike he, answers_of_run hcheck hengine hrun, answers_of_run hcheck' hengine' hrun'⟩
    · refine Or.inr ⟨f, ?_, run_error hcheck hengine hrun, run_error hcheck' hengine' hrun'⟩
      rcases run_ends hcheck hengine with ⟨last, e₁, hok⟩ | ⟨f', e₁, hstops, herror⟩
      · cases hok.symm.trans hrun
      · obtain ⟨rfl, -⟩ := EStateM.Result.error.inj (herror.symm.trans hrun)
        exact hstops
  · intro s start channel n hstart
    exact ⟨run_alike n rfl, fun last e h => run_reported (hstart.books n) (hstart.reported n) h⟩

theorem runs_ignore_channel_two_stations :
    let s : Settings :=
      { stations := [⟨1, 2, 0, 5⟩, ⟨2, 1, 1, 10⟩]
        width := 20
        rounds := 3
        ruType := some 242
        roundDuration := .whole 10000
        maxCredit := .whole 1000000
        lossRate := .whole 0
        solver := { timeout := some (.whole 60) } }
    let env : Environment := ⟨fun _ _ => 0.5, fun _ _ _ => .timedOut, []⟩
    let cell : Cell := ⟨s.stations, 1024, 2, 3, ⟨.mhz20, .tones242, 1, 3, 242⟩⟩
    let start := Engine.make (.roundRobin
      (RoundRobin.make cell (Traffic.fresh s.stations) 10000 1000000)) .ideal
    let lossy := { start with channel := .lossy 1 (fun _ => 0.25) 0 }
    (∃ r r', run env s = .ok r ∧
      run (env.withDraws fun _ _ => 0.25) (s.withChannel (.whole 0) 7) = .ok r' ∧
        r.muted = r'.muted) ∧
      lift muted (start.run (3 : Nat)) = lift muted (lossy.run (3 : Nat)) ∧
        ∃ (last : Int) (e : Engine) (t : Nat), lossy.run (3 : Nat) = .ok last e ∧ last = t - 1 ∧
          Reported lossy 3 t e.traffic := by
  intro s env cell start lossy
  obtain ⟨hcell, htr⟩ := set_up_two_stations (s := s) rfl rfl rfl rfl
  have hcheck : s.check = .ok () := by rfl
  have hengine : ∃ start, engine env s = .ok start := by
    simp only [engine, htr, scheduler, hcell]
    exact ⟨_, rfl⟩
  obtain ⟨e₁, he₁⟩ := hengine
  have hengine' : ∃ start, engine (env.withDraws fun _ _ => 0.25) (s.withChannel (.whole 0) 7) =
      .ok start := by
    have hcell' : Simulation.cell (s.withChannel (.whole 0) 7) = .ok cell := hcell
    have htr' : Traffic.ofStations (s.withChannel (.whole 0) 7).stations =
        .ok (Traffic.fresh s.stations) := htr
    simp only [engine, htr', scheduler, hcell']
    exact ⟨_, rfl⟩
  obtain ⟨e₂, he₂⟩ := hengine'
  obtain ⟨hsettings, hchannels⟩ := runs_ignore_channel
  refine ⟨?_, ?_⟩
  · rcases hsettings env s (fun _ _ => 0.25) (.whole 0) 7 e₁ e₂ hcheck he₁ rfl he₂
      with ⟨r, r', hr, hr', hmuted, -⟩ | ⟨f, hstops, -⟩
    · exact ⟨r, r', hr, hr', hmuted⟩
    · exact absurd rfl hstops.solver_ne
  · have hstarts : Starts s start := .roundRobin hcell htr 10000 1000000 .ideal
    have hlossy : Starts s lossy :=
      .roundRobin hcell htr 10000 1000000 (.lossy 1 (fun _ => 0.25) 0)
    refine ⟨(hchannels s start (.lossy 1 (fun _ => 0.25) 0) 3 hstarts).1, ?_⟩
    obtain ⟨last, e, -, hrun, -⟩ := RoundRobin.run_over (cell_sound hcell).1 10000 1000000
      (.lossy 1 (fun _ => 0.25) 0) (3 : Nat)
    obtain ⟨t, hlast, hreported⟩ := (hchannels s lossy .ideal 3 hlossy).2 last e hrun
    exact ⟨last, e, t, hrun, hlast, hreported⟩

end Simulation

end Downlink
