import Downlink.Proofs.Conservation
import Downlink.Proofs.Loss

/-!
# The deadline-aware scheduler against the round robin

When each deadline ends before the station's next packet arrives, no window leaves its horizon. Then
what any run sends of a horizon is a feasible assignment for the schedule of this horizon, and the
plan of a deadline-aware run, being a best one, saves at least as much.
-/

namespace Downlink

namespace Course

variable {c : Course} {s : Station} {tr : Traffic} {a k i r : Int}

/-- The packets of a horizon that were sent, as an assignment of its entries. -/
def served (c : Course) (tr : Traffic) (k : Int) : Assignment :=
  (c.emittedIn k).filterMap fun e =>
    (tr.sentAt c.cell.stations e).map fun r => (c.indexOf e.1 e.2, r)

theorem mem_served : (i, r) ∈ c.served tr k ↔
    ∃ e ∈ c.emittedIn k, tr.sentAt c.cell.stations e = some r ∧ c.indexOf e.1 e.2 = i := by
  simp only [served, List.mem_filterMap, Option.map_eq_some_iff, Prod.mk.injEq]
  constructor
  · intro h
    obtain ⟨e, he, r, hr, hi, rfl⟩ := h
    exact ⟨e, he, hr, hi⟩
  · intro h
    obtain ⟨e, he, hr, hi⟩ := h
    exact ⟨e, he, r, hr, hi, rfl⟩

theorem served_rounds (c : Course) (tr : Traffic) (k : Int) :
    (c.served tr k).rounds = (c.emittedIn k).filterMap (tr.sentAt c.cell.stations) := by
  rw [Assignment.rounds, served, List.map_filterMap]
  simp only [Option.map_map, Function.comp_def, Option.map_id_fun', id_eq]

theorem served_distinct (hc : c.cell.Sound) (tr : Traffic) (k : Int) :
    (c.served tr k).Distinct := by
  have hsub : ((c.served tr k).map Prod.fst).Sublist (c.claimed k) := by
    rw [served, claimed_eq]
    induction c.emittedIn k with
    | nil => exact List.Sublist.slnil
    | cons e l ih =>
      cases h : tr.sentAt c.cell.stations e with
      | none =>
        rw [List.filterMap_cons_none (by rw [h]; rfl)]
        exact ih.cons _
      | some r =>
        rw [List.filterMap_cons_some (by rw [h]; rfl)]
        exact ih.cons_cons _
  exact (claimed_nodup hc k).sublist hsub

theorem served_weight (hc : c.cell.Sound) (tr : Traffic) (k : Int) :
    (c.served tr k).weight (c.scheduleOf k) = total ((c.emittedIn k).map
      fun e => if (tr.sentAt c.cell.stations e).isSome then e.1.penalty else 0) := by
  have hpenalty : ∀ e ∈ c.emittedIn k,
      ((c.scheduleOf k).entryAt? (c.indexOf e.1 e.2)).map Entry.penalty = some e.1.penalty := by
    intro e he
    obtain ⟨⟨hs, ha⟩, rfl⟩ := mem_emittedIn.mp he
    rw [entryAt?_indexOf hc hs (Traffic.mem_arrivals.mp ha).2]
    rfl
  rw [served]
  generalize c.emittedIn k = l at hpenalty
  induction l with
  | nil => rfl
  | cons e l ih =>
    obtain ⟨he, hl⟩ := List.forall_mem_cons.mp hpenalty
    rw [List.map_cons, total, ← ih hl]
    cases h : tr.sentAt c.cell.stations e with
    | none =>
      rw [List.filterMap_cons_none (by rw [h]; rfl)]
      exact (Int.zero_add _).symm
    | some r =>
      rw [List.filterMap_cons_some (by rw [h]; rfl), Assignment.weight, List.map_cons, total, he]
      rfl

theorem lost_add_saved (hc : c.cell.Sound) (tr : Traffic) (k : Int) :
    total ((c.emittedIn k).map
        fun e => if (tr.sentAt c.cell.stations e).isSome then 0 else e.1.penalty) +
      (c.served tr k).weight (c.scheduleOf k) =
        total ((c.emittedIn k).map fun e => e.1.penalty) := by
  rw [served_weight hc, ← total_map_add]
  congr 2
  funext e
  split_ifs
  · exact Int.zero_add _
  · exact Int.add_zero _

theorem add_le_of_dvd {p b : Int} (ha : p ∣ a) (hb : p ∣ b) (h : a < b) : a + p ≤ b := by
  have := Int.le_of_dvd (by omega) (Int.dvd_sub hb ha)
  omega

theorem deadline_lt (hc : c.cell.Sound) (hs : s ∈ c.cell.stations) (hdue : a % s.period = 0)
    (h : s.deadline < s.period) : a + s.deadline < (c.horizonOf a + 1) * c.length := by
  have hlength : s.period ∣ c.length := hc.horizon.dvd s hs
  have := add_le_of_dvd (Int.dvd_of_emod_eq_zero hdue) (Int.dvd_mul_of_dvd_right hlength)
    (horizonOf_bounds hc a).2
  omega

end Course

namespace RoundRobin

variable {c : Cell} {n : Nat} {d : RoundRobin} {s : Station} {a r : Int}

theorem Over.ended (h : Over c n d) : d.traffic.Ended c.stations n where
  size := h.size
  closed s hs a ha := by
    obtain ⟨p, hp, hsettled⟩ := h.settled s hs a ha
    exact ⟨p, hp, hsettled.from, hsettled.closed⟩

theorem Over.exists_sent (h : Over c n d) (hs : s ∈ c.stations) (ha : a ∈ Traffic.arrivals s n)
    (hr : d.traffic.sentAt c.stations (s, a) = some r) :
    ∃ p, d.traffic.packet? (Traffic.idOf c.stations s a) = some p ∧ p.txRound = some r ∧
      a ≤ r ∧ r ≤ a + s.deadline ∧ ∃ u ∈ c.sizing.units, p.ru = some u := by
  obtain ⟨p, hp, hsettled⟩ := h.settled s hs a ha
  have htx : p.txRound = some r := by
    rwa [Traffic.sentAt, hp, Option.bind_some] at hr
  rcases hsettled with hsent | hexpired
  · obtain ⟨t, u, ht, hlow, hhigh, hu, hunit⟩ := hsent.slot
    obtain rfl : t = r := Option.some.inj (ht.symm.trans htx)
    exact ⟨p, hp, htx, hlow, hhigh, u, hunit, hu⟩
  · rw [hexpired.unsent] at htx
    cases htx

theorem Over.length_sent_le {l : List (Station × Int)} (h : Over c n d) (hl : l.Nodup)
    (hmem : ∀ e ∈ l, e.1 ∈ c.stations ∧ e.2 ∈ Traffic.arrivals e.1 n)
    (hr : ∀ e ∈ l, d.traffic.sentAt c.stations e = some r) : l.length ≤ c.sizing.perRound := by
  obtain ⟨t, hslots⟩ := h.slots
  refine Sizing.length_le_perRound
    (f := fun e => (d.traffic.packet? (Traffic.idOf c.stations e.1 e.2)).bind Packet.ru)
    ?_ fun e he => ?_
  · refine hl.imp_of_mem fun {e f} he hf hne hru => hne ?_
    obtain ⟨hs, ha⟩ := hmem e he
    obtain ⟨hu, hb⟩ := hmem f hf
    obtain ⟨p, hp, htx, -⟩ := h.exists_sent hs ha (hr e he)
    obtain ⟨q, hq, htx', -⟩ := h.exists_sent hu hb (hr f hf)
    rw [hp, hq] at hru
    obtain ⟨h₁, h₂⟩ := Traffic.idOf_inj hs ha hu hb (hslots.separate _ _ p q r hp hq htx htx' hru)
    exact Prod.ext h₁ h₂
  · obtain ⟨p, hp, -, -, -, u, hunit, hu⟩ := h.exists_sent (hmem e he).1 (hmem e he).2 (hr e he)
    exact ⟨u, hunit, by rw [hp]; exact hu⟩

end RoundRobin

namespace Course

variable {c : Course} {s : Station} {d : DeadlineAware} {d' : RoundRobin} {m : Assignment}
  {a k : Int}

theorem served_feasible (hc : c.cell.Sound)
    (hdeadline : ∀ s ∈ c.cell.stations, s.deadline < s.period)
    (h : RoundRobin.Over c.cell c.rounds d') (k : Int) :
    (c.served d'.traffic k).Feasible (c.scheduleOf k) c.cell.sizing.perRound where
  index q hq := by
    obtain ⟨e, he, -, hi⟩ := mem_served.mp hq
    obtain ⟨⟨hs, ha⟩, rfl⟩ := mem_emittedIn.mp he
    exact hi ▸ Assignment.mem_indices.mp (indexOf_mem hc hs (Traffic.mem_arrivals.mp ha).2)
  window q hq x hx := by
    obtain ⟨e, he, hr, hi⟩ := mem_served.mp hq
    obtain ⟨⟨hs, ha⟩, rfl⟩ := mem_emittedIn.mp he
    obtain ⟨p, -, -, hlow, hhigh, -⟩ := h.exists_sent hs ha hr
    have hdue := (Traffic.mem_arrivals.mp ha).2
    rw [← hi, entryAt?_indexOf hc hs hdue, Option.some.injEq] at hx
    have hstart := (horizonOf_bounds hc e.2).1
    have hinside := deadline_lt hc hs hdue (hdeadline e.1 hs)
    rw [Int.add_mul] at hinside
    subst hx
    simp only [Schedule.clip, Schedule.stop, scheduleOf, Schedule.ofStations]
    omega
  load r _ := by
    rw [served_rounds, List.count_filterMap, List.countP_eq_length_filter, Int.ofNat_le]
    exact h.length_sent_le ((emittedIn_nodup hc k).filter _)
      (fun e he => (mem_emittedIn.mp (List.mem_filter.mp he).1).1)
      fun e he => beq_iff_eq.mp (List.mem_filter.mp he).2

theorem Over.ended (h : Over c d) :
    d.traffic.Ended c.cell.stations c.rounds where
  size := h.size
  closed s hs a ha := by
    obtain ⟨x, hp⟩ := Course.exists_packet (h.finished s hs) ha rfl
    exact ⟨_, hp, (finished_from c s a).noted x, finished_closed c s a⟩

theorem Over.sentAt (hc : c.cell.Sound) (hf : c.Feasible) (h : Over c d) (hs : s ∈ c.cell.stations)
    (ha : a ∈ Traffic.arrivals s c.rounds) :
    d.traffic.sentAt c.cell.stations (s, a) = c.assigned? s a := by
  obtain ⟨x, hp⟩ := Course.exists_packet (h.finished s hs) ha rfl
  rw [← hf.finished_txRound hc hs ha, Traffic.sentAt]
  exact congrArg (Option.bind · Packet.txRound) hp

theorem Over.served_perm (hc : c.cell.Sound) (hf : c.Feasible) (h : Over c d) (h₀ : 0 ≤ k)
    (hk : (k + 1) * c.length ≤ c.rounds) (hm : c.decision k = some m) (hd : m.Distinct)
    (hi : m.Feasible (c.scheduleOf k) c.cell.sizing.perRound) : (c.served d.traffic k).Perm m := by
  have hsent : ∀ e ∈ c.emittedIn k,
      d.traffic.sentAt c.cell.stations e = m.round? (c.indexOf e.1 e.2) := by
    intro e he
    obtain ⟨⟨hs, ha⟩, hhorizon⟩ := mem_emittedIn.mp he
    rw [h.sentAt hc hf hs ha, assigned?, hhorizon, hm, Option.bind_some]
  refine (List.perm_ext_iff_of_nodup (List.Nodup.of_map _ (served_distinct hc _ k))
    (List.Nodup.of_map _ hd)).mpr fun q => mem_served.trans ⟨fun hq => ?_, fun hq => ?_⟩
  · obtain ⟨e, he, hr, hi⟩ := hq
    rw [hsent e he, hi] at hr
    exact Assignment.mem_of_round? hr
  · have hindex := Assignment.mem_indices.mpr (hi.index q hq)
    rw [← (claimed_perm hc h₀ hk).mem_iff, claimed_eq] at hindex
    obtain ⟨e, he, hi⟩ := List.mem_map.mp hindex
    refine ⟨e, he, ?_, hi⟩
    rw [hsent e he, hi]
    exact hd.round?_eq_some_iff.mpr hq

theorem Over.horizon_loss_le (hc : c.cell.Sound) (hexact : c.Exact)
    (hdeadline : ∀ s ∈ c.cell.stations, s.deadline < s.period) (h : Over c d)
    (h' : RoundRobin.Over c.cell c.rounds d') {k : Nat} (hk : (k + 1) * c.length ≤ c.rounds) :
    total ((c.emittedIn k).map fun e =>
        if (d.traffic.sentAt c.cell.stations e).isSome then 0 else e.1.penalty) ≤
      total ((c.emittedIn k).map fun e =>
        if (d'.traffic.sentAt c.cell.stations e).isSome then 0 else e.1.penalty) := by
  have hstarts : k * c.length < c.rounds := by
    have := length_pos hc
    rw [Int.add_mul] at hk
    omega
  obtain ⟨p, hp, hopt⟩ := hexact.plan hc hstarts
  have hdecision : c.decision k = some p.assignment := by
    rw [decision, Int.toNat_natCast, hp]
  have hperm : (c.served d.traffic k).Perm p.assignment :=
    h.served_perm hc (hexact.respected hc).feasible (Int.natCast_nonneg k) hk hdecision
      hopt.best.distinct hopt.best.feasible
  have hsaved : (c.served d.traffic k).weight (c.scheduleOf k) =
      p.assignment.weight (c.scheduleOf k) := total_perm (hperm.map _)
  -- what the round robin has sent is one of the assignments that the plan is best among
  have hbest := hopt.best.heaviest _ (served_distinct hc d'.traffic k)
    (served_feasible hc hdeadline h' k)
  have hplanned := lost_add_saved hc d.traffic k
  have hqueued := lost_add_saved hc d'.traffic k
  omega

theorem Over.loss_le (hc : c.cell.Sound) (hexact : c.Exact)
    (hdeadline : ∀ s ∈ c.cell.stations, s.deadline < s.period) (hwhole : c.length ∣ c.rounds)
    (h : Over c d) (h' : RoundRobin.Over c.cell c.rounds d') :
    total (d.traffic.packets.toList.map Packet.loss) ≤
      total (d'.traffic.packets.toList.map Packet.loss) := by
  have hnodup := hc.horizon.roster.nodup
  rw [h.ended.loss hnodup, h'.ended.loss hnodup]
  refine total_map_le_of_classes (Traffic.emissions_nodup hnodup _) (fun e => c.horizonOf e.2)
    fun e he => ?_
  obtain ⟨⟨h₀, hlt⟩, -⟩ := Traffic.mem_arrivals.mp (Traffic.mem_emissions.mp he).2
  have hstart := (horizonOf_bounds hc e.2).1
  have hend := add_le_of_dvd (Int.dvd_mul_left (c.horizonOf e.2) c.length) hwhole (by omega)
  obtain ⟨k, hk⟩ : ∃ k : Nat, c.horizonOf e.2 = k :=
    Int.eq_ofNat_of_zero_le (Int.ediv_nonneg h₀ (length_pos hc).le)
  rw [hk] at hend ⊢
  refine h.horizon_loss_le hc hexact hdeadline h' ?_
  rw [Int.add_mul]
  omega

end Course

namespace Simulation

variable {s : Settings} {cell : Cell} {tr : Traffic}

theorem runs_compared {c : Course} (hc : c.cell.Sound) (hexact : c.Exact)
    (hdeadline : ∀ s ∈ c.cell.stations, s.deadline < s.period) (hwhole : c.length ∣ c.rounds)
    {rounds : Int} (hn : rounds.toNat = c.rounds) (channel channel' : Channel)
    (roundDuration maxCredit : Float) :
    ∃ last e last' e', (c.engine channel).run rounds = .ok last e ∧
      (Engine.make (.roundRobin (RoundRobin.make c.cell (Traffic.fresh c.cell.stations)
        roundDuration maxCredit)) channel').run rounds = .ok last' e' ∧
      ∀ s s', (result s e last).lostWeight ≤ (result s' e' last').lostWeight := by
  have hplans := hexact.respected hc
  obtain ⟨last', e', d', hrun', he', hover'⟩ :=
    RoundRobin.run_over hc roundDuration maxCredit channel' rounds
  rw [hn] at hover'
  obtain ⟨last, e, d, hrun, he, hover⟩ :=
    Course.run_completes hc hplans.settles (hplans.feasible.not_overfull hc) channel hn
  refine ⟨last, e, last', e', hrun, hrun', fun s s' => ?_⟩
  rw [RunResult.lostWeight_eq, RunResult.lostWeight_eq, packets_of_planned s he,
    packets_of_queued s' he']
  exact hover.loss_le hc hexact hdeadline hwhole hover'

/-- When no window leaves its horizon and no horizon is cut short, a deadline-aware run with exact
plans loses at most the weight that the round robin loses, whatever its credits are. -/
theorem planned_loses_no_more (hcell : Simulation.cell s = .ok cell)
    (htr : Traffic.ofStations s.stations = .ok tr)
    (hdeadline : ∀ st ∈ s.stations, st.deadline < st.period)
    (hrounds : cell.horizonRounds ∣ s.rounds) :
    (∀ planner channel channel' roundDuration maxCredit,
      (Course.mk cell planner s.rounds.toNat).Exact →
        ∃ last e last' e',
          (Engine.make (.deadlineAware (DeadlineAware.make cell tr planner)) channel).run s.rounds =
            .ok last e ∧
          (Engine.make (.roundRobin (RoundRobin.make cell tr roundDuration maxCredit))
            channel').run s.rounds = .ok last' e' ∧
          (result s e last).lostWeight ≤ (result s e' last').lostWeight) ∧
    ∀ env env' roundDuration maxCredit,
      let planned : Settings :=
        { s with
          scheduler := DeadlineAware.name
          solver := { s.solver with backend := Plan.matchingName } }
      let queued : Settings :=
        { s with
          scheduler := RoundRobin.name
          roundDuration := roundDuration
          maxCredit := maxCredit }
      planned.check = .ok () → queued.check = .ok () →
        (∃ e, engine env planned = .ok e) → (∃ e, engine env' queued = .ok e) →
          ∃ r r', run env planned = .ok r ∧ run env' queued = .ok r' ∧
            r.lostWeight ≤ r'.lostWeight := by
  obtain ⟨hc, hstations⟩ := cell_sound hcell
  have hinside : ∀ st ∈ cell.stations, st.deadline < st.period := by
    intro st hst
    rw [hstations, Station.mem_inOrder] at hst
    exact hdeadline st hst
  have hwhole : cell.horizonRounds ∣ (s.rounds.toNat : Int) := by
    rcases Int.le_total 0 s.rounds with h | h
    · rwa [Int.toNat_of_nonneg h]
    · rw [Int.toNat_of_nonpos h]
      exact Int.dvd_zero _
  constructor
  · intro planner channel channel' roundDuration maxCredit hexact
    obtain ⟨last, e, last', e', hrun, hrun', hle⟩ :=
      runs_compared hc hexact hinside hwhole rfl channel channel' roundDuration maxCredit
    rw [fresh_of_ofStations hcell htr]
    exact ⟨last, e, last', e', hrun, hrun', hle s s⟩
  · intro env env' roundDuration maxCredit planned queued hcheck hcheck' hengine hengine'
    obtain ⟨start, hstart⟩ := hengine
    obtain ⟨start', hstart'⟩ := hengine'
    obtain ⟨cell₁, solver, channel, hcell₁, hsolver, rfl⟩ := engine_deadlineAware hstart rfl
    obtain ⟨cell₂, duration, most, channel', hcell₂, rfl⟩ := engine_roundRobin hstart' rfl
    obtain rfl : cell = cell₁ := Except.ok.inj (hcell.symm.trans hcell₁)
    obtain rfl : cell = cell₂ := Except.ok.inj (hcell.symm.trans hcell₂)
    obtain rfl : Solver.matching = solver := Except.ok.inj hsolver
    obtain ⟨last, e, last', e', hrun, hrun', hle⟩ :=
      runs_compared hc (Course.matching_exact hc s.rounds.toNat) hinside hwhole rfl channel channel'
        duration most
    exact ⟨_, _, run_ok hcheck hstart hrun, run_ok hcheck' hstart' hrun', hle planned queued⟩

theorem planned_loses_no_more_two_stations :
    let s : Settings :=
      { stations := [⟨1, 2, 1, 5⟩, ⟨2, 1, 0, 10⟩]
        width := 20
        rounds := 4
        ruType := some 242
        roundDuration := .whole 10000
        maxCredit := .whole 1000000
        lossRate := .whole 0
        solver := { timeout := some (.whole 60) } }
    let cell : Cell := ⟨s.stations, 1024, 2, 3, ⟨.mhz20, .tones242, 1, 3, 242⟩⟩
    let env : Environment := ⟨fun _ _ => 0.5, fun _ _ _ => .timedOut, []⟩
    (∃ last e last' e',
      (Engine.make (.deadlineAware (DeadlineAware.make cell (Traffic.fresh s.stations)
        Planner.matching)) .ideal).run s.rounds = .ok last e ∧
      (Engine.make (.roundRobin (RoundRobin.make cell (Traffic.fresh s.stations) 10000 0))
        .ideal).run s.rounds = .ok last' e' ∧
      (result s e last).lostWeight ≤ (result s e' last').lostWeight) ∧
    ∃ r r', run env s = .ok r ∧ run env { s with scheduler := RoundRobin.name } = .ok r' ∧
      r.lostWeight ≤ r'.lostWeight := by
  intro s cell env
  have horder : Station.inOrder s.stations = s.stations := List.mergeSort_of_pairwise (by decide)
  have hcell : Simulation.cell s = .ok cell := by
    show Cell.make s.stations 20 1024 (some .tones242) = .ok cell
    rw [Cell.make, horder]
    rfl
  have htr : Traffic.ofStations s.stations = .ok (Traffic.fresh s.stations) := by
    rw [Traffic.ofStations, horder]
    rfl
  have hengine : ∃ e, engine env s = .ok e := by
    simp only [engine, htr, scheduler, hcell]
    exact ⟨_, rfl⟩
  have hengine' : ∃ e, engine env { s with scheduler := RoundRobin.name } = .ok e := by
    have hcell' : Simulation.cell { s with scheduler := RoundRobin.name } = .ok cell := hcell
    simp only [engine, htr, scheduler, hcell']
    exact ⟨_, rfl⟩
  have hexact := Course.matching_exact (cell_sound hcell).1 s.rounds.toNat
  obtain ⟨hplanned, hqueued⟩ := planned_loses_no_more hcell htr (by decide) (by decide)
  exact ⟨hplanned Planner.matching .ideal .ideal 10000 0 hexact,
    hqueued env env s.roundDuration s.maxCredit rfl rfl hengine hengine'⟩

end Simulation

end Downlink
