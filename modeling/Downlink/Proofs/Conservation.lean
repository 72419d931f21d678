import Downlink.Proofs.DeadlineAware.Execution
import Downlink.Proofs.RoundRobin.Run
import Downlink.Report.Conservation

/-!
# Conservation

A run that ends leaves no packet without an outcome, and the packets of every horizon that ended
while there was traffic claim each entry of its schedule once. Only a plan that puts more entries
into a round than it has units can stop a deadline-aware run; nothing stops the round robin.
-/

namespace Downlink

open Conservation

namespace Conservation

variable {packets : List Packet} {p : Packet} {h : HorizonRecord} {hs : List HorizonRecord}

theorem ofPacket_eq_none (hp : p.Closed) : ofPacket p = none := by
  rcases hp with ⟨hstate, htx, hdrop⟩ | ⟨hstate, htx, hdrop⟩
  · obtain ⟨r, hr⟩ := Option.isSome_iff_exists.mp htx
    simp [ofPacket, hstate, hr, hdrop]
  · obtain ⟨reason, hr⟩ := Option.isSome_iff_exists.mp hdrop
    simp [ofPacket, hstate, hr, htx]

theorem filterMap_ofPacket (h : ∀ p ∈ packets, p.Closed) : packets.filterMap ofPacket = [] := by
  apply List.filterMap_eq_nil_iff.mpr
  intro p hp
  exact ofPacket_eq_none (h p hp)

theorem ordered_map_some {l L : List Int} (hp : l.Perm L) (hL : L.Pairwise (· ≤ ·)) :
    ordered (l.map some) = .ok (L.map some) := by
  unfold ordered
  split_ifs with hlen hnone
  · rw [List.length_map] at hlen
    have hl : l = L := by
      match l, hlen with
      | [], _ => exact (List.nil_perm.mp hp).symm
      | [x], _ => exact List.singleton_perm.mp hp
    rw [hl]
  · simp at hnone
  · have hid : (l.map some).filterMap id = l := by simp
    have hsorted := @List.pairwise_mergeSort _ (fun a b : Int => decide (a ≤ b))
      (fun a b c hab hbc => by simp only [decide_eq_true_eq] at *; omega)
      (fun a b => by simp only [Bool.or_eq_true, decide_eq_true_eq]; omega) l
    have hsort : l.mergeSort (· ≤ ·) = L := by
      apply List.Perm.eq_of_pairwise _ _ hL (List.Perm.trans (List.mergeSort_perm l _) hp)
      · intro a b _ _ hab hba
        omega
      · exact hsorted.imp fun hab => of_decide_eq_true hab
    rw [hid, hsort]

theorem ofHorizon_eq_nil {l : List Int} (hclaims : claims packets h.index = l.map some)
    (hp : l.Perm ((List.range h.packets.toNat).map Int.ofNat)) : ofHorizon packets h = .ok [] := by
  have hsorted : ((List.range h.packets.toNat).map Int.ofNat).Pairwise (· ≤ ·) := by
    apply List.Pairwise.map Int.ofNat _ List.pairwise_lt_range
    intro i j hij
    simp only [Int.ofNat_eq_natCast]
    omega
  rw [ofHorizon, hclaims, ordered_map_some hp hsorted]
  simp only [Except.map, everyEntry, List.map_map, Function.comp_def, if_true]

theorem ofHorizons_eq_nil (h : ∀ h ∈ hs, ofHorizon packets h = .ok []) :
    ofHorizons packets hs = .ok [] := by
  induction hs with
  | nil => rfl
  | cons r hs ih =>
    rw [ofHorizons, h r List.mem_cons_self, ih fun r hr => h r (List.mem_cons_of_mem _ hr)]
    rfl

end Conservation

namespace Course

variable {c : Course} {s : Station} {d : DeadlineAware} {p : Packet} {a k i : Int}

theorem finished_closed (c : Course) (s : Station) (a : Int) : (c.finished s a).Closed := by
  cases hr : c.assigned? s a with
  | none =>
    rw [finished_of_unassigned hr]
    rcases unassigned_cases hr with hd | ⟨m, hd, hm⟩
    · rw [settled_of_failed hd]
      exact Or.inr ⟨rfl, rfl, rfl⟩
    · rw [settled_of_unmatched hd hm]
      exact Or.inr ⟨rfl, rfl, rfl⟩
  | some r =>
    have hs := settled_of_assigned hr
    cases hsends : c.sends s a r with
    | true =>
      rw [finished_of_sends hsends, hs]
      exact Or.inl ⟨rfl, rfl, rfl⟩
    | false =>
      rw [finished_of_late hr hsends, hs]
      exact Or.inr ⟨rfl, rfl, rfl⟩

theorem Over.closed (hc : c.cell.Sound) (h : Over c d) (hp : p ∈ d.traffic.packets.toList) :
    p.Closed := by
  obtain ⟨s, -, a, -, he⟩ := h.exists_finished hc hp
  have hclosed : (p.noted none).Closed := he ▸ finished_closed c s a
  exact hclosed

def claimed (c : Course) (k : Int) : List Int :=
  ((Traffic.emissions c.cell.stations c.rounds).filter fun e => c.horizonOf e.2 = k).map
    fun e => c.indexOf e.1 e.2

def emittedIn (c : Course) (k : Int) : List (Station × Int) :=
  (Traffic.emissions c.cell.stations c.rounds).filter fun e => c.horizonOf e.2 = k

theorem mem_emittedIn {e : Station × Int} : e ∈ c.emittedIn k ↔
    (e.1 ∈ c.cell.stations ∧ e.2 ∈ Traffic.arrivals e.1 c.rounds) ∧ c.horizonOf e.2 = k := by
  rw [emittedIn, List.mem_filter, decide_eq_true_iff, ← Traffic.mem_emissions]

theorem emittedIn_nodup (hc : c.cell.Sound) (k : Int) : (c.emittedIn k).Nodup :=
  (Traffic.emissions_nodup hc.horizon.roster.nodup _).filter _

theorem claimed_eq (c : Course) (k : Int) :
    c.claimed k = (c.emittedIn k).map fun e => c.indexOf e.1 e.2 := rfl

theorem claimed_nodup (hc : c.cell.Sound) (k : Int) : (c.claimed k).Nodup := by
  refine List.Nodup.map_on (fun e he f hf h => ?_) (emittedIn_nodup hc k)
  obtain ⟨⟨hs, ha⟩, hk⟩ := mem_emittedIn.mp he
  obtain ⟨⟨hu, hb⟩, hk'⟩ := mem_emittedIn.mp hf
  obtain ⟨h₁, h₂⟩ := indexOf_inj hc hs hu (Traffic.mem_arrivals.mp ha).2
    (Traffic.mem_arrivals.mp hb).2 (hk.trans hk'.symm) h
  exact Prod.ext h₁ h₂

theorem Over.claims (hc : c.cell.Sound) (h : Over c d) (k : Int) :
    Conservation.claims d.traffic.packets.toList k = (c.claimed k).map some := by
  have hunreported : Conservation.claims d.traffic.packets.toList k =
      Conservation.claims (d.traffic.packets.toList.map fun p => p.noted none) k := by
    rw [Conservation.claims, Conservation.claims, List.filter_map, List.map_map]
    rfl
  have hhorizon : ∀ e : Station × Int, (c.finished e.1 e.2).horizon = some (c.horizonOf e.2) :=
    fun e => (finished_fields c e.1 e.2).2.1
  rw [hunreported, h.packets hc, Conservation.claims, List.filter_map, List.map_map, claimed,
    List.map_map]
  simp only [Function.comp_def, hhorizon, Option.some.injEq]
  exact List.map_congr_left fun e _ => (finished_fields c e.1 e.2).2.2.1

theorem indexOf_position (hc : c.cell.Sound) (hs : s ∈ c.cell.stations) {j : Nat}
    (hj : j < Schedule.packetsIn c.length s) (k : Int) :
    let a := k * c.length + j * s.period
    c.horizonOf a = k ∧ a % s.period = 0 ∧ a < (k + 1) * c.length ∧ k * c.length ≤ a ∧
      c.indexOf s a = (Schedule.firstIndex c.length c.cell.stations s.id + j : Nat) := by
  intro a
  have hpos := length_pos hc
  have hp := (hc.horizon.roster.valid s hs).period
  have hlt : (j : Int) * s.period < c.length := Schedule.mul_period_lt hc.horizon hs hj
  have h₀ : 0 ≤ (j : Int) * s.period := Int.mul_nonneg (by omega) (by omega)
  have hmod : a % c.length = j * s.period := by
    rw [show a = j * s.period + k * c.length from Int.add_comm _ _, Int.add_mul_emod_self_right]
    exact Int.emod_eq_of_lt h₀ hlt
  have hdvd : s.period ∣ c.length := hc.horizon.dvd s hs
  refine ⟨?_, ?_, ?_, ?_, ?_⟩
  · rw [horizonOf, Int.ediv_eq_iff_of_pos hpos]
    omega
  · apply Int.emod_eq_zero_of_dvd
    exact Int.dvd_add (Int.dvd_mul_of_dvd_right hdvd) (Int.dvd_mul_left _ _)
  · rw [Int.add_mul]
    omega
  · omega
  · rw [indexOf, hmod, Int.mul_ediv_cancel _ (by omega)]
    rfl

theorem claimed_perm (hc : c.cell.Sound) (h₀ : 0 ≤ k) (hk : (k + 1) * c.length ≤ c.rounds) :
    (c.claimed k).Perm (Assignment.indices (c.scheduleOf k)) := by
  refine (List.perm_ext_iff_of_nodup (claimed_nodup hc k) (Assignment.indices_nodup _)).mpr
    fun i => ⟨?_, ?_⟩
  · intro hi
    rw [claimed_eq] at hi
    obtain ⟨e, he, rfl⟩ := List.mem_map.mp hi
    obtain ⟨⟨hs, ha⟩, rfl⟩ := mem_emittedIn.mp he
    exact indexOf_mem hc hs (Traffic.mem_arrivals.mp ha).2
  · intro hi
    obtain ⟨hi₀, hlt⟩ := Assignment.mem_indices.mp hi
    have hlt' : i.toNat < (c.scheduleOf k).entries.length := by omega
    obtain ⟨s, hs, j, hj, hpos⟩ := Schedule.exists_position hc.horizon.roster hlt'
    obtain ⟨h₁, h₂, h₃, h₄, h₅⟩ := indexOf_position hc hs hj k
    have hstart : 0 ≤ k * c.length := Int.mul_nonneg h₀ (length_pos hc).le
    have ha : k * c.length + j * s.period ∈ Traffic.arrivals s c.rounds :=
      Traffic.mem_arrivals.mpr ⟨by omega, h₂⟩
    rw [claimed_eq]
    refine List.mem_map.mpr ⟨(s, k * c.length + j * s.period),
      mem_emittedIn.mpr ⟨⟨hs, ha⟩, h₁⟩, ?_⟩
    rw [h₅]
    omega

theorem Over.ofHorizon (hc : c.cell.Sound) (h : Over c d) {j : Nat} {r : HorizonRecord}
    (hr : d.book.horizons[j]? = some r) (hend : r.start + r.rounds ≤ c.rounds) :
    Conservation.ofHorizon d.traffic.packets.toList r = .ok [] := by
  obtain ⟨hindex, hstart, hrounds, hpackets⟩ := h.ledger.records j r hr
  have hperm := claimed_perm (c := c) (k := j) hc (by omega) (by rw [Int.add_mul]; omega)
  apply ofHorizon_eq_nil (l := c.claimed j)
  · rw [hindex]
    exact h.claims hc j
  · rw [hpackets, Int.toNat_natCast]
    exact hperm

end Course

theorem RoundRobin.Over.closed {c : Cell} {n : Nat} {d : RoundRobin} {p : Packet}
    (hc : c.Sound) (h : RoundRobin.Over c n d) (hp : p ∈ d.traffic.packets.toList) : p.Closed := by
  obtain ⟨s, -, a, -, hsettled⟩ := h.exists_settled hc hp
  exact hsettled.closed

namespace Simulation

variable {s : Settings} {cell : Cell} {tr : Traffic} {env : Environment} {e : Engine}

theorem cell_sound (h : Simulation.cell s = .ok cell) :
    cell.Sound ∧ cell.stations = Station.inOrder s.stations := by
  unfold Simulation.cell at h
  cases hp : RuType.checkPinned s.ruType with
  | error fault =>
    rw [hp] at h
    cases h
  | ok pinned =>
    rw [hp] at h
    obtain ⟨hc, hstations, -⟩ := Cell.make_eq_ok h
    exact ⟨hc, hstations⟩

theorem fresh_of_ofStations (hcell : Simulation.cell s = .ok cell)
    (htr : Traffic.ofStations s.stations = .ok tr) : tr = Traffic.fresh cell.stations := by
  rw [(cell_sound hcell).2, Traffic.ofStations_eq_ok htr]

theorem engine_eq_ok (h : engine env s = .ok e) : ∃ tr σ channel,
    Traffic.ofStations s.stations = .ok tr ∧ scheduler env s tr = .ok σ ∧
      e = Engine.make σ channel := by
  unfold engine at h
  split at h
  · cases h
  rename_i tr htr
  split at h
  · cases h
  rename_i σ hσ
  cases hch : Simulation.channel env s with
  | error fault =>
    rw [hch] at h
    cases h
  | ok channel =>
    rw [hch] at h
    exact ⟨tr, σ, channel, htr, hσ, (Except.ok.inj h).symm⟩

theorem run_ok {last : Int} {e' : Engine} (hcheck : s.check = .ok ()) (he : engine env s = .ok e)
    (hrun : e.run s.rounds = .ok last e') : run env s = .ok (result s e' last) := by
  simp only [run, hcheck, he, hrun]

theorem run_eq_ok {r : RunResult} (h : run env s = .ok r) : s.check = .ok () ∧ ∃ e last e',
    engine env s = .ok e ∧ e.run s.rounds = .ok last e' ∧ r = result s e' last := by
  unfold run at h
  split at h
  · cases h
  rename_i hcheck
  split at h
  · cases h
  rename_i e he
  split at h
  · cases h
  rename_i last e' hrun
  exact ⟨hcheck, e, last, e', he, hrun, (Except.ok.inj h).symm⟩

theorem engine_roundRobin (h : engine env s = .ok e) (hname : s.scheduler = RoundRobin.name) :
    ∃ cell roundDuration maxCredit channel, Simulation.cell s = .ok cell ∧
      e = Engine.make (.roundRobin
        (RoundRobin.make cell (Traffic.fresh cell.stations) roundDuration maxCredit)) channel := by
  obtain ⟨tr, σ, channel, htr, hσ, rfl⟩ := engine_eq_ok h
  have hother : s.scheduler ≠ DeadlineAware.name := by
    rw [hname]
    decide
  rw [scheduler, if_neg hother] at hσ
  cases hcell : Simulation.cell s with
  | error fault =>
    rw [hcell] at hσ
    cases hσ
  | ok cell =>
    have htr' := fresh_of_ofStations hcell htr
    simp only [hcell, Except.bind, roundRobin] at hσ
    split at hσ
    · exact ⟨cell, _, _, channel, rfl, by rw [← Except.ok.inj hσ, htr']⟩
    · cases hσ

theorem solver_of_matching {solver : Solver} (h : s.solver.backend = Plan.matchingName)
    (hsolver : Simulation.solver env.launcher s.solver = .ok solver) : solver = .matching := by
  rw [Simulation.solver, Solver.make, if_pos h] at hsolver
  exact (Except.ok.inj hsolver).symm

theorem engine_deadlineAware (h : engine env s = .ok e) (hname : s.scheduler = DeadlineAware.name) :
    ∃ cell solver channel, Simulation.cell s = .ok cell ∧
      Simulation.solver env.launcher s.solver = .ok solver ∧ e = Engine.make (.deadlineAware
        (DeadlineAware.make cell (Traffic.fresh cell.stations)
          (planner env s.solver.workdir solver))) channel := by
  obtain ⟨tr, σ, channel, htr, hσ, rfl⟩ := engine_eq_ok h
  rw [scheduler, if_pos hname] at hσ
  split at hσ
  · cases hσ
  rename_i solver hsolver
  cases hcell : Simulation.cell s with
  | error fault =>
    rw [hcell] at hσ
    cases hσ
  | ok cell =>
    rw [hcell] at hσ
    have htr' := fresh_of_ofStations hcell htr
    exact ⟨cell, solver, channel, rfl, hsolver, by rw [← Except.ok.inj hσ, htr']⟩

theorem packets_of_planned (s : Settings) {d : DeadlineAware} (he : e.scheduler = .deadlineAware d)
    (last : Int) : (result s e last).packets = d.traffic.packets.toList := by
  rw [result, Engine.traffic, he]
  rfl

theorem packets_of_queued (s : Settings) {d : RoundRobin} (he : e.scheduler = .roundRobin d)
    (last : Int) : (result s e last).packets = d.traffic.packets.toList := by
  rw [result, Engine.traffic, he]
  rfl

theorem violations_of_planned {c : Course} {d : DeadlineAware} (hc : c.cell.Sound)
    (h : Course.Over c d) (hrounds : s.rounds ≤ c.rounds) (he : e.scheduler = .deadlineAware d)
    (last : Int) : (result s e last).violations = .ok [] := by
  have hhorizons : (result s e last).horizons = d.book.horizons := by
    rw [result, he]
    rfl
  have hpolicy : (result s e last).policy = DeadlineAware.name := by
    rw [result, he]
    rfl
  have hcomplete : ofHorizons d.traffic.packets.toList (result s e last).completeHorizons =
      .ok [] := by
    apply ofHorizons_eq_nil
    intro r hr
    rw [RunResult.completeHorizons, hhorizons, List.mem_filter] at hr
    obtain ⟨j, hj⟩ := List.getElem?_of_mem hr.1
    have hend : r.start + r.rounds ≤ s.rounds := of_decide_eq_true hr.2
    exact h.ofHorizon hc hj (hend.trans hrounds)
  simp only [RunResult.violations, hpolicy, if_true, packets_of_planned s he, hcomplete,
    filterMap_ofPacket fun p hp => h.closed hc hp]
  rfl

theorem violations_of_queued {c : Cell} {n : Nat} {d : RoundRobin} (hc : c.Sound)
    (h : RoundRobin.Over c n d) (he : e.scheduler = .roundRobin d) (last : Int) :
    (result s e last).violations = .ok [] := by
  have hpolicy : (result s e last).policy ≠ DeadlineAware.name := by
    rw [result, he]
    exact (by decide : RoundRobin.name ≠ DeadlineAware.name)
  simp only [RunResult.violations, hpolicy, if_false, packets_of_queued s he,
    filterMap_ofPacket fun p hp => h.closed hc hp]

theorem set_up_two_stations (hs : s.stations = [⟨1, 2, 0, 5⟩, ⟨2, 1, 1, 10⟩])
    (hwidth : s.width = 20) (hcap : s.cap = 1024) (htype : s.ruType = some 242) :
    Simulation.cell s = .ok ⟨s.stations, 1024, 2, 3, ⟨.mhz20, .tones242, 1, 3, 242⟩⟩ ∧
      Traffic.ofStations s.stations = .ok (Traffic.fresh s.stations) := by
  have horder : Station.inOrder s.stations = s.stations := by
    rw [hs]
    exact List.mergeSort_of_pairwise (by decide)
  constructor
  · rw [Simulation.cell, hwidth, hcap, htype]
    show Cell.make s.stations 20 1024 (some .tones242) = _
    rw [Cell.make, horder, hs]
    rfl
  · rw [Traffic.ofStations, horder, hs]
    rfl

/-- Every checked run conserves its packets: with the deadline-aware scheduler, whatever a planner
replies, unless a plan overfills a round; with the round robin, always. -/
theorem runs_conserve (hcheck : s.check = .ok ()) :
    (∀ cell tr planner channel, Simulation.cell s = .ok cell →
      Traffic.ofStations s.stations = .ok tr →
        let c := Course.mk cell planner s.rounds.toNat
        let start := Engine.make (.deadlineAware (DeadlineAware.make cell tr planner)) channel
        c.Settles →
          (∃ last e, start.run s.rounds = .ok last e ∧
            (result s e last).violations = .ok []) ∨
          (∃ (t : Nat) (e : Engine), start.run s.rounds =
            .error (.showing [t, cell.sizing.perRound]
              (.desync (.overCapacity t cell.sizing.perRound))) e) ∧
            ∃ (k : Nat) (m : Assignment) (r : Int), k * cell.horizonRounds < s.rounds ∧
              c.decision k = some m ∧
                cell.sizing.perRound < (m.entriesIn (c.scheduleOf k) r).length) ∧
    ∀ env, s.scheduler = RoundRobin.name → (∃ e, engine env s = .ok e) →
      ∃ r, run env s = .ok r ∧ r.violations = .ok [] := by
  constructor
  · intro cell tr planner channel hcell htr c start hsettles
    obtain ⟨hc, -⟩ := cell_sound hcell
    have hstart : start = c.engine channel := by
      simp only [start, fresh_of_ofStations hcell htr]
      rfl
    rw [hstart]
    rcases Course.run_over hc hsettles channel rfl
      with ⟨last, e, d, hrun, he, hover⟩ | ⟨t, ht, e, hrun⟩
    · have hrounds : s.rounds ≤ c.rounds := by
        simp only [c]
        omega
      exact Or.inl ⟨last, e, hrun, violations_of_planned hc hover hrounds he last⟩
    · obtain ⟨k, m, r, hk, hm, hlt⟩ := ht.exists_entriesIn hc
      refine Or.inr ⟨⟨t, e, hrun⟩, k, m, r, ?_, hm, hlt⟩
      have h₀ : 0 ≤ (k : Int) * cell.horizonRounds := Int.mul_nonneg (by omega) hc.horizon.pos.le
      simp only [c, Course.length] at hk
      omega
  · intro env hname he
    obtain ⟨e, he⟩ := he
    obtain ⟨cell, duration, most, channel, hcell, rfl⟩ := engine_roundRobin he hname
    have hc := (cell_sound hcell).1
    obtain ⟨last, e', d, hrun, he', hover⟩ := RoundRobin.run_over hc duration most channel s.rounds
    exact ⟨_, run_ok hcheck he hrun, violations_of_queued hc hover he' last⟩

theorem runs_conserve_two_stations :
    let s : Settings :=
      { stations := [⟨1, 2, 0, 5⟩, ⟨2, 1, 1, 10⟩]
        width := 20
        rounds := 5
        scheduler := RoundRobin.name
        ruType := some 242
        roundDuration := .whole 10000
        maxCredit := .whole 1000000
        lossRate := .whole 0
        solver := { timeout := some (.whole 60) } }
    let cell : Cell := ⟨s.stations, 1024, 2, 3, ⟨.mhz20, .tones242, 1, 3, 242⟩⟩
    let planner : Planner := ⟨"", fun _ _ _ => .plan ⟨[(0, -5), (1, 100)], 0, ""⟩⟩
    let start := Engine.make (.deadlineAware
      (DeadlineAware.make cell (Traffic.fresh s.stations) planner)) .ideal
    let env : Environment := ⟨fun _ _ => 0.5, fun _ _ _ => .timedOut, []⟩
    s.check = .ok () ∧ (Course.mk cell planner 5).Settles ∧ (∃ e, engine env s = .ok e) ∧
      (∃ last e, start.run 5 = .ok last e ∧ (result s e last).violations = .ok []) ∧
      ∃ r, run env s = .ok r ∧ r.violations = .ok [] := by
  intro s cell planner start env
  have hcheck : s.check = .ok () := by rfl
  have horder : Station.inOrder s.stations = s.stations := List.mergeSort_of_pairwise (by decide)
  have hcell : Simulation.cell s = .ok cell := by
    show Cell.make s.stations 20 1024 (some .tones242) = .ok cell
    rw [Cell.make, horder]
    rfl
  have htr : Traffic.ofStations s.stations = .ok (Traffic.fresh s.stations) := by
    rw [Traffic.ofStations, horder]
    rfl
  have hsettles : (Course.mk cell planner 5).Settles := fun k _ => Or.inl ⟨_, rfl⟩
  have hengine : ∃ e, engine env s = .ok e := by
    simp only [engine, htr, scheduler, hcell]
    exact ⟨_, rfl⟩
  obtain ⟨hplanned, hqueued⟩ := runs_conserve hcheck
  refine ⟨hcheck, hsettles, hengine, ?_, hqueued env rfl hengine⟩
  rcases hplanned cell _ planner .ideal hcell htr hsettles with hok | ⟨-, k, m, r, -, hm, hlt⟩
  · exact hok
  · have hm' : m = [(0, -5), (1, 100)] := (Option.some.inj hm).symm
    have hle := Assignment.length_entriesIn_le_count m
      ((Course.mk cell planner s.rounds.toNat).scheduleOf k) r
    have hnodup : m.rounds.Nodup := by
      rw [hm']
      decide
    have := List.nodup_iff_count_le_one.mp hnodup r
    have hone : cell.sizing.perRound = 1 := rfl
    omega

end Simulation

end Downlink
