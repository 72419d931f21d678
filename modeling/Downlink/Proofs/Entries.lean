import Downlink.Proofs.Conservation
import Downlink.Proofs.Custody
import Downlink.Proofs.RoundRobin.Origin

/-!
# The entries of packets

The deadline-aware scheduler moves a cursor along the run of each station and starts it anew with
every horizon; the round robin searches the run for the arrival of a packet and keeps what it found.
Both come to the same: a packet's entry is the only one for its station and arrival, in the schedule
of the horizon in which it arrived, whatever else the two runs do with the packet.
-/

namespace Downlink

open Engine

namespace Course

variable {c : Course} {s : Station} {d : DeadlineAware} {a : Int}

/-- Every horizon is planned within the units of its rounds, or its planning fails. -/
structure Contained (c : Course) : Prop where
  settles : c.Settles
  load : ∀ (k : Nat) m r, k * c.length < c.rounds → c.decision k = some m →
    (m.entriesIn (c.scheduleOf k) r).length ≤ c.cell.sizing.perRound

theorem Contained.not_overfull (hc : c.cell.Sound) (h : c.Contained) (t : Nat) :
    ¬ c.Overfull t := by
  intro hover
  obtain ⟨k, m, r, hk, hm, hlt⟩ := hover.exists_entriesIn hc
  exact hlt.not_ge (h.load k m r hk hm)

theorem Respected.contained (h : c.Respected) : c.Contained where
  settles := h.settles
  load k m r hk hm := by
    have := (h.feasible k m hk hm).length_entriesIn_le (by omega) r
    omega

theorem position_eq_indexOf (hc : c.cell.Sound) (hs : s ∈ c.cell.stations) (a : Int) :
    (c.cell.position s a : Int) = c.indexOf s a := by
  have hperiod := (hc.horizon.roster.valid s hs).period
  have h₀ : 0 ≤ a % c.length / s.period :=
    Int.ediv_nonneg (Int.emod_nonneg a (length_pos hc).ne') (by omega)
  rw [length] at h₀
  rw [Cell.position, indexOf, Nat.cast_add, Int.toNat_of_nonneg h₀]
  rfl

theorem settled_origin (c : Course) (s : Station) (a : Int) :
    (c.settled s a).origin = (c.paired s a).origin := by
  unfold settled
  split
  · rfl
  · split <;> rfl

theorem finished_origin (hc : c.cell.Sound) (hs : s ∈ c.cell.stations) (a : Int) :
    (c.finished s a).origin = c.cell.origin s a := by
  have hsettled : (c.settled s a).origin = c.cell.origin s a := by
    rw [settled_origin, Cell.origin, position_eq_indexOf hc hs]
    rfl
  unfold finished
  split
  · exact hsettled
  · split_ifs <;> exact hsettled

theorem Over.origins (hc : c.cell.Sound) (h : Over c d) : d.traffic.origins =
    (Traffic.emissions c.cell.stations c.rounds).map fun e => c.cell.origin e.1 e.2 := by
  have hall := congrArg (List.map Packet.origin) (h.packets hc)
  rw [List.map_map, List.map_map] at hall
  refine Eq.trans (by rfl) (hall.trans (List.map_congr_left fun e he => ?_))
  exact finished_origin hc (Traffic.mem_emissions.mp he).1 e.2

theorem Over.dated (h : Over c d) :
    Dated c.length c.rounds (d.book.horizons.map HorizonRecord.start) := by
  have hledger := h.ledger
  refine ⟨?_, ?_, fun k r hr => ?_⟩
  · rw [List.length_map]
    exact hledger.covered
  · rw [List.length_map]
    exact hledger.tight
  · rw [List.getElem?_map, Option.map_eq_some_iff] at hr
    obtain ⟨record, hrecord, rfl⟩ := hr
    exact (hledger.records k record hrecord).2.1

end Course

namespace Simulation

variable {s : Settings} {cell : Cell} {tr : Traffic} {n : Nat}

/-- A packet names a horizon of the run and the one entry that is its own in this horizon. -/
def Named (cell : Cell) (horizons : List HorizonRecord) (p : Packet) : Prop :=
  ∃ (k i : Nat) (record : HorizonRecord) (schedule : Schedule),
    p.horizon = some (k : Int) ∧ p.scheduleIndex = some (i : Int) ∧
      horizons[k]? = some record ∧ cell.schedule record.start = .ok schedule ∧
        schedule.contains p.arrival = true ∧ schedule.Names i p.station p.arrival

/-- The packets of two runs are the same up to what became of them. -/
structure SameEntries (cell : Cell) (r r' : RunResult) : Prop where
  origins : r.packets.map Packet.origin = r'.packets.map Packet.origin
  starts : r.horizons.map HorizonRecord.start = r'.horizons.map HorizonRecord.start
  named : ∀ p ∈ r.packets, Named cell r.horizons p
  named' : ∀ p ∈ r'.packets, Named cell r'.horizons p

theorem named_of_origins (hc : cell.Sound) {packets : List Packet} {horizons : List HorizonRecord}
    (horigins : packets.map Packet.origin =
      (Traffic.emissions cell.stations n).map fun e => cell.origin e.1 e.2)
    (hdated : Dated cell.horizonRounds n (horizons.map HorizonRecord.start)) {p : Packet}
    (hp : p ∈ packets) : Named cell horizons p := by
  have hmem := List.mem_map_of_mem (f := Packet.origin) hp
  rw [horigins] at hmem
  obtain ⟨⟨st, a⟩, he, horigin⟩ := List.mem_map.mp hmem
  obtain ⟨hst, ha⟩ := Traffic.mem_emissions.mp he
  obtain ⟨⟨h₀, hlt⟩, hdue⟩ := Traffic.mem_arrivals.mp ha
  have hpos := hc.horizon.pos
  have hstation : p.station = st.id := (congrArg Origin.station horigin).symm
  have harrival : p.arrival = a := (congrArg Origin.arrival horigin).symm
  have hnonneg : 0 ≤ a / cell.horizonRounds := Int.ediv_nonneg h₀ hpos.le
  have hk : ((a / cell.horizonRounds).toNat : Int) = a / cell.horizonRounds :=
    Int.toNat_of_nonneg hnonneg
  -- the horizon of a packet has started by the end of the traffic
  have hstarted : (a / cell.horizonRounds).toNat < horizons.length := by
    have hcovered := hdated.covered
    rw [List.length_map] at hcovered
    have := Int.ediv_lt_of_lt_mul hpos (hlt.trans_le hcovered)
    omega
  have hrecord := List.getElem?_eq_getElem hstarted
  have hstart := hdated.start (a / cell.horizonRounds).toNat _
    (by rw [List.getElem?_map, hrecord]; rfl)
  rw [hk] at hstart
  have hnames := RoundRobin.position_names hc hst hdue
  obtain ⟨e, hentry, -, harrives⟩ := hnames.entry
  refine ⟨_, cell.position st a, _, RoundRobin.scheduleIn cell a, ?_, ?_, hrecord, ?_, ?_, ?_⟩
  · rw [hk]
    exact (congrArg Origin.horizon horigin).symm
  · exact (congrArg Origin.scheduleIndex horigin).symm
  · rw [hstart]
    exact hc.schedule _ (Int.mul_nonneg hnonneg hpos.le)
  · have hinside := Schedule.contains_of_getElem? hc.horizon hentry
    rw [harrival]
    rwa [harrives] at hinside
  · rwa [hstation, harrival]

theorem sameEntries_of_ends (hc : cell.Sound) {c : Course} (hcell : c.cell = cell)
    {d : DeadlineAware} {d' : RoundRobin} (h : Course.Over c d)
    (h' : RoundRobin.Originated cell c.rounds d') {e e' : Engine}
    (he : e.scheduler = .deadlineAware d) (he' : e'.scheduler = .roundRobin d') (s s' : Settings)
    (last last' : Int) : SameEntries cell (result s e last) (result s' e' last') := by
  subst hcell
  have horigins := h.origins hc
  have hpackets := packets_of_planned s he last
  have hpackets' := packets_of_queued s' he' last'
  have hhorizons : (result s e last).horizons = d.book.horizons := by
    rw [result, he]
    rfl
  have hhorizons' : (result s' e' last').horizons = d'.book.horizons := by
    rw [result, he']
    rfl
  refine ⟨?_, ?_, fun p hp => ?_, fun p hp => ?_⟩
  · rw [hpackets, hpackets']
    exact horigins.trans h'.origins.symm
  · rw [hhorizons, hhorizons']
    exact h.dated.unique (Course.length_pos hc) h'.dated
  · rw [hpackets] at hp
    rw [hhorizons]
    exact named_of_origins hc horigins h.dated hp
  · rw [hpackets'] at hp
    rw [hhorizons']
    exact named_of_origins hc h'.origins h'.dated hp

theorem runs_originated {c : Course} (hc : c.cell.Sound) (hplans : c.Contained) {rounds : Int}
    (hn : rounds.toNat = c.rounds) (channel channel' : Channel) (roundDuration maxCredit : Float) :
    ∃ last e last' e', (c.engine channel).run rounds = .ok last e ∧
      (Engine.make (.roundRobin (RoundRobin.make c.cell (Traffic.fresh c.cell.stations)
        roundDuration maxCredit)) channel').run rounds = .ok last' e' ∧
      ∀ s s', SameEntries c.cell (result s e last) (result s' e' last') := by
  obtain ⟨last', e', d', hrun', he', horiginated⟩ :=
    RoundRobin.run_originated hc roundDuration maxCredit channel' rounds
  rw [hn] at horiginated
  obtain ⟨last, e, d, hrun, he, hover⟩ :=
    Course.run_completes hc hplans.settles (hplans.not_overfull hc) channel hn
  exact ⟨last, e, last', e', hrun, hrun', fun s s' =>
    sameEntries_of_ends hc rfl hover horiginated he he' s s' last last'⟩

/-- The two schedulers emit the same packets and pair each with the same entry of the same horizon,
the only one for its station and arrival, whatever the planner and the credits are. -/
theorem runs_name_entries (hcell : Simulation.cell s = .ok cell)
    (htr : Traffic.ofStations s.stations = .ok tr) :
    (∀ planner channel channel' roundDuration maxCredit,
      (Course.mk cell planner s.rounds.toNat).Contained →
        ∃ last e last' e',
          (Engine.make (.deadlineAware (DeadlineAware.make cell tr planner)) channel).run s.rounds =
            .ok last e ∧
          (Engine.make (.roundRobin (RoundRobin.make cell tr roundDuration maxCredit))
            channel').run s.rounds = .ok last' e' ∧
          SameEntries cell (result s e last) (result s e' last')) ∧
    ∀ env env' roundDuration maxCredit,
      let planned : Settings := { s with scheduler := DeadlineAware.name }
      let queued : Settings :=
        { s with
          scheduler := RoundRobin.name
          roundDuration := roundDuration
          maxCredit := maxCredit }
      planned.check = .ok () → queued.check = .ok () →
        (∃ e, engine env planned = .ok e) → (∃ e, engine env' queued = .ok e) →
          (∀ solver, Simulation.solver env.launcher s.solver = .ok solver →
            (Course.mk cell (planner env s.solver.workdir solver) s.rounds.toNat).Contained) →
              ∃ r r', run env planned = .ok r ∧ run env' queued = .ok r' ∧
                SameEntries cell r r' := by
  obtain ⟨hc, -⟩ := cell_sound hcell
  constructor
  · intro planner channel channel' roundDuration maxCredit hplans
    obtain ⟨last, e, last', e', hrun, hrun', hsame⟩ :=
      runs_originated hc hplans rfl channel channel' roundDuration maxCredit
    rw [fresh_of_ofStations hcell htr]
    exact ⟨last, e, last', e', hrun, hrun', hsame s s⟩
  · intro env env' roundDuration maxCredit planned queued hcheck hcheck' hengine hengine' hplans
    obtain ⟨start, hstart⟩ := hengine
    obtain ⟨start', hstart'⟩ := hengine'
    obtain ⟨cell₁, solver, channel, hcell₁, hsolver, rfl⟩ := engine_deadlineAware hstart rfl
    obtain ⟨cell₂, duration, most, channel', hcell₂, rfl⟩ := engine_roundRobin hstart' rfl
    obtain rfl : cell = cell₁ := Except.ok.inj (hcell.symm.trans hcell₁)
    obtain rfl : cell = cell₂ := Except.ok.inj (hcell.symm.trans hcell₂)
    obtain ⟨last, e, last', e', hrun, hrun', hsame⟩ :=
      runs_originated hc (hplans solver hsolver) rfl channel channel' duration most
    exact ⟨_, _, run_ok hcheck hstart hrun, run_ok hcheck' hstart' hrun', hsame planned queued⟩

/-- Two stations over five rounds; the planner serves one packet of every other horizon and fails in
between. -/
theorem runs_name_entries_two_stations :
    let s : Settings :=
      { stations := [⟨1, 2, 0, 5⟩, ⟨2, 1, 1, 10⟩]
        width := 20
        rounds := 5
        ruType := some 242
        solver := { timeout := some (.whole 60) } }
    let cell : Cell := ⟨s.stations, 1024, 2, 3, ⟨.mhz20, .tones242, 1, 3, 242⟩⟩
    let planner : Planner := ⟨"every other", fun k h _ =>
      if k % 2 = 0 then .plan ⟨[(2, h.start)], 10, "every other"⟩ else .fail .noOutput⟩
    let env : Environment := ⟨fun _ _ => 0.5, fun _ _ _ => .timedOut, []⟩
    (∃ last e last' e',
      (Engine.make (.deadlineAware (DeadlineAware.make cell (Traffic.fresh s.stations) planner))
        .ideal).run s.rounds = .ok last e ∧
      (Engine.make (.roundRobin (RoundRobin.make cell (Traffic.fresh s.stations) 10000 0))
        .ideal).run s.rounds = .ok last' e' ∧
      SameEntries cell (result s e last) (result s e' last')) ∧
    ∃ r r', run env s = .ok r ∧
      run env { s with
        scheduler := RoundRobin.name
        roundDuration := .whole 10000
        maxCredit := .whole 1000000 } = .ok r' ∧
      SameEntries cell r r' := by
  intro s cell planner env
  obtain ⟨hcell, htr⟩ := set_up_two_stations (s := s) rfl rfl rfl rfl
  have hplans : (Course.mk cell planner s.rounds.toNat).Contained := by
    refine ⟨fun k _ => ?_, fun k m r _ hm => ?_⟩
    · simp only [planner]
      split_ifs
      · exact Or.inl ⟨_, rfl⟩
      · exact Or.inr ⟨_, rfl⟩
    · simp only [Course.decision, planner] at hm
      split_ifs at hm
      cases hm
      exact (Assignment.length_entriesIn_le_count _ _ r).trans List.count_le_length
  have hmatching := (Course.matching_respected (cell_sound hcell).1 s.rounds.toNat).contained
  have hengine : ∃ e, engine env s = .ok e := by
    simp only [engine, htr, scheduler, hcell]
    exact ⟨_, rfl⟩
  have hengine' : ∃ e, engine env { s with
      scheduler := RoundRobin.name
      roundDuration := .whole 10000
      maxCredit := .whole 1000000 } = .ok e := by
    have hcell' : Simulation.cell { s with
        scheduler := RoundRobin.name
        roundDuration := .whole 10000
        maxCredit := .whole 1000000 } = .ok cell := hcell
    simp only [engine, htr, scheduler, hcell']
    exact ⟨_, rfl⟩
  obtain ⟨hany, hrun⟩ := runs_name_entries hcell htr
  refine ⟨hany planner .ideal .ideal 10000 0 hplans,
    hrun env env (.whole 10000) (.whole 1000000) rfl rfl hengine hengine' fun solver hsolver => ?_⟩
  obtain rfl : Solver.matching = solver := Except.ok.inj hsolver
  exact hmatching

end Simulation

end Downlink
