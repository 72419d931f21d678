import Downlink.Proofs.Assignment.OnArrival
import Downlink.Proofs.Drain
import Downlink.Proofs.RoundRobin.Turns

/-!
# Runs without contention

When a round has a unit for every station, nothing is ever dropped. The deadline-aware scheduler
gets plans that serve all entries, and the round robin gives every station with something queued its
turn, so that no queue outlasts a round. A cut that follows from the packets of a horizon is fine
enough as long as the smallest units suffice.
-/

namespace Downlink

open Engine

/-- All packets that arrive in `n` rounds are there and were transmitted. -/
structure AllSent (stations : List Station) (n : Int) (packets : List Packet) : Prop where
  emitted : ∀ s ∈ stations, ∀ a, 0 ≤ a → a < n → a % s.period = 0 →
    ∃ p ∈ packets, p.station = s.id ∧ p.arrival = a
  sent : ∀ p ∈ packets, p.state = .transmitted

theorem Sizing.le_perRound {width packets : Int} {z : Sizing} {n : Nat}
    (hz : Sizing.forPackets width packets none = .ok z) (hn : n ≤ packets)
    (hmost : width = 40 ∧ n ≤ 18 ∨ width = 20 ∧ n ≤ 9) : n ≤ z.perRound := by
  have hcut : ∀ w, Width.ofMegahertz? width = some w →
      RuType.perRound? w (RuType.forPackets w packets) = some z.perRound := by
    intro w hw
    simp only [forPackets, Width.check, hw, Option.getD_none, Sizing.of, RuType.perRound] at hz
    cases hp : RuType.perRound? w (RuType.forPackets w packets) with
    | none => simp [hp] at hz
    | some m =>
      simp only [hp] at hz
      split at hz
      · rename_i hm _
        cases hm
        cases hz
        rfl
      · cases hz
      · cases hz
  rcases hmost with ⟨rfl, hmost⟩ | ⟨rfl, hmost⟩
  · have h := hcut .mhz40 rfl
    simp only [RuType.forPackets] at h
    split_ifs at h <;> (simp only [RuType.perRound?, Option.some.injEq] at h; omega)
  · have h := hcut .mhz20 rfl
    simp only [RuType.forPackets] at h
    split_ifs at h <;> (simp only [RuType.perRound?, Option.some.injEq] at h; omega)

theorem length_le_packetCount {stations : List Station} {H : Int} (h : Horizon stations H) :
    (stations.length : Int) ≤ packetCount stations H := by
  have hone : ∀ t ∈ stations, 1 ≤ H / t.period := by
    intro t ht
    have hp := (h.roster.valid t ht).period
    exact Int.le_ediv_of_mul_le (by omega) (by
      rw [Int.one_mul]
      exact Int.le_of_dvd h.pos (h.dvd t ht))
  clear h
  induction stations with
  | nil => exact le_rfl
  | cons t rest ih =>
    obtain ⟨ht, hrest⟩ := List.forall_mem_cons.mp hone
    have := ih hrest
    simp only [packetCount, List.map_cons, total, List.length_cons, Nat.cast_succ] at this ⊢
    omega

namespace Course

variable {c : Course} {s : Station} {d : DeadlineAware} {a : Int}

theorem Exact.exists_assigned (hc : c.cell.Sound) (h : c.Exact)
    (hunits : c.cell.stations.length ≤ c.cell.sizing.perRound) (hs : s ∈ c.cell.stations)
    (ha : a ∈ Traffic.arrivals s c.rounds) : ∃ r, c.assigned? s a = some r := by
  obtain ⟨⟨h₀, hlt⟩, hdue⟩ := Traffic.mem_arrivals.mp ha
  have hbegins := (horizonOf_bounds hc a).1
  obtain ⟨k, hk⟩ : ∃ k : Nat, c.horizonOf a = k :=
    Int.eq_ofNat_of_zero_le (Int.ediv_nonneg h₀ (length_pos hc).le)
  obtain ⟨p, hp, hopt⟩ := h.plan hc (k := k) (by rw [← hk]; omega)
  have hdecision : c.decision k = some p.assignment := by
    rw [decision, Int.toNat_natCast, hp]
  have hindex := indexOf_mem hc hs hdue
  rw [hk] at hindex
  obtain ⟨r, hr⟩ := hopt.best.serves_all hc.horizon (by exact_mod_cast hunits) hindex
  exact ⟨r, assigned?_eq_some.mpr ⟨p.assignment, hk ▸ hdecision, hr⟩⟩

theorem Over.allSent (hc : c.cell.Sound) (hexact : c.Exact)
    (hunits : c.cell.stations.length ≤ c.cell.sizing.perRound) (h : Over c d) :
    AllSent c.cell.stations c.rounds d.traffic.packets.toList where
  emitted s hs a h₀ hlt hdue := by
    have ha := Traffic.mem_arrivals.mpr ⟨⟨h₀, hlt⟩, hdue⟩
    obtain ⟨p, hp, he⟩ := h.exists_packet hc hs ha
    exact ⟨p, hp, (congrArg Packet.station he).trans (finished_fields c s a).1,
      (congrArg Packet.arrival he).trans (finished_arrival c s a)⟩
  sent p hp := by
    obtain ⟨s, hs, a, ha, he⟩ := h.exists_finished hc hp
    obtain ⟨r, hr⟩ := hexact.exists_assigned hc hunits hs ha
    have hsent := ((hexact.respected hc).feasible.finished_sent hc hs ha hr).1.state
    exact (congrArg Packet.state he).trans hsent

end Course

namespace RoundRobin

variable {c : Cell} {n t perRound : Nat} {flag : Bool} {d : RoundRobin} {start e e' : Engine}
  {out : RoundAssignment} {tr : Traffic} {q : Queue}

theorem TakesTurns.exists_turn (h : TakesTurns perRound t e out e')
    (hr : Station.Roster (e.traffic.generate t).2.stations)
    (hunits : (e.traffic.generate t).2.stations.length ≤ perRound)
    (hq : q ∈ (e.traffic.generate t).2.queues) (hne : q.ids ≠ []) :
    ∃ a ∈ out.allocations, ∃ rest, q.ids = a.packet :: rest := by
  set tr := (e.traffic.generate t).2
  have hids : (tr.queues.map fun q => q.station.id).Nodup := by
    have := hr.ids_nodup
    rwa [Traffic.stations, List.map_map] at this
  have hlength : out.allocations.length = (tr.queues.filter fun q => !q.ids.isEmpty).length := by
    have hle := List.length_filter_le (fun q : Queue => !q.ids.isEmpty) tr.queues
    rw [Traffic.stations, List.length_map] at hunits
    rw [h.count, min_eq_left (hle.trans hunits)]
  have hsub : out.allocations.map Allocation.station ⊆
      (tr.queues.filter fun q => !q.ids.isEmpty).map fun q => q.station.id := by
    intro k hk
    obtain ⟨a, ha, rfl⟩ := List.mem_map.mp hk
    obtain ⟨q', hq', hid, rest, hrest, -⟩ := h.oldest a ha
    exact hid ▸ List.mem_map_of_mem (List.mem_filter.mpr ⟨hq', by simp [hrest]⟩)
  have hperm := (List.subperm_of_subset h.stations hsub).perm_of_length_le
    (by rw [List.length_map, List.length_map, hlength])
  have hmem : q.station.id ∈ out.allocations.map Allocation.station :=
    hperm.mem_iff.mpr (List.mem_map_of_mem (List.mem_filter.mpr ⟨hq, by simpa using hne⟩))
  obtain ⟨a, ha, hstation⟩ := List.mem_map.mp hmem
  obtain ⟨q', hq', hid, rest, hrest, -⟩ := h.oldest a ha
  obtain rfl : q' = q := List.inj_on_of_nodup_map hids hq' hq (hid.trans hstation)
  exact ⟨a, ha, rest, hrest⟩

def SentOnArrival (tr : Traffic) : Prop :=
  ∀ id p, tr.packet? id = some p → p.state = .transmitted ∧ p.txRound = some p.arrival

theorem SentOnArrival.waiting (h : SentOnArrival tr) {u : Int} (hc : tr.InCustody u) (k : Int) :
    tr.waiting k = [] := by
  refine List.eq_nil_iff_forall_not_mem.mpr fun id hid => ?_
  obtain ⟨p, hp, -, hopen⟩ := hc.of_waiting hid
  rw [Packet.isResolved, (h id p hp).1] at hopen
  cases hopen

theorem Resting.arrival {s : Station} {a : Int} {m : Nat} {p : Packet} (h : Resting c n t d)
    (hs : s ∈ c.stations) (hm : m ≤ min t n) (ha : a ∈ Traffic.arrivals s m)
    (hp : d.traffic.packet? (Traffic.idOf c.stations s a) = some p) : p.arrival = a := by
  obtain ⟨live, hkept⟩ := h.kept s hs
  obtain ⟨q, hq, hfate⟩ := hkept.holds.packet a (Traffic.arrivals_mono hm ha)
  obtain rfl := Option.some.inj (hq.symm.trans hp)
  unfold Fate at hfate
  split_ifs at hfate
  · exact hfate.arrival
  · exact hfate.from.arrival

theorem sentOnArrival_step (hc : c.Sound) (hunits : c.stations.length ≤ c.sizing.perRound)
    (ht : t < n) (h : Between c n t true e) (hnext : Between c n (t + 1) true e')
    (htidy : Tidy t e) (ho : Outcome t e out e') (hturns : TakesTurns c.sizing.perRound t e out e')
    (hsent : SentOnArrival e.traffic) : SentOnArrival e'.traffic := by
  obtain ⟨d, he, hresting, hgt, -⟩ := h
  obtain ⟨d', he', hresting', -, -⟩ := hnext
  have htraffic : e.traffic = d.traffic := by rw [Engine.traffic, he]; rfl
  have htraffic' : e'.traffic = d'.traffic := by rw [Engine.traffic, he']; rfl
  obtain ⟨-, hemitted⟩ := hresting.emitted hc ht hgt
  rw [← htraffic] at hemitted
  have hst : (e.traffic.generate t).2.stations = c.stations :=
    hemitted.served.trans (htraffic ▸ hresting.stations)
  have hr : Station.Roster (e.traffic.generate t).2.stations := hst ▸ hc.horizon.roster
  intro id p hp
  rw [htraffic'] at hp
  obtain ⟨s, hs, a, ha, hid⟩ := Traffic.exists_emission hc.horizon.roster.nodup hresting'.size
    (Array.mem_toList_iff.mpr (Array.mem_of_getElem? hp))
  rw [← htraffic'] at hid
  rw [min_eq_left (show t + 1 ≤ n by omega)] at ha
  have hmin : min t n = t := by omega
  have hlt : a < (t + 1 : Nat) := (Traffic.mem_arrivals.mp ha).1.2
  by_cases hat : a = t
  · subst hat
    have hdue := Traffic.mem_dueIn.mpr ⟨hs, (Traffic.mem_arrivals.mp ha).2⟩
    obtain ⟨q, hq, rfl⟩ := List.mem_map.mp
      (show s ∈ (e.traffic.generate t).2.stations from hst ▸ hs)
    have hqueue : q.ids = [Traffic.idOf c.stations q.station t] := by
      rw [← Traffic.waiting_of_mem hr hq, hemitted.waiting _ hs, hsent.waiting htidy.custody,
        if_pos hdue]
      rfl
    obtain ⟨turn, hturn, rest, hrest⟩ :=
      hturns.exists_turn hr (hst ▸ hunits) hq (by rw [hqueue]; simp)
    have hpacket : turn.packet = Traffic.idOf c.stations q.station t := by
      rw [hrest] at hqueue
      exact (List.cons.inj hqueue).1
    obtain ⟨p', hp', hstate, hround⟩ := (hturns.sent _).mp (List.mem_map_of_mem hturn)
    rw [hpacket, hid, Option.some.injEq] at hp'
    subst hp'
    have harrival := hresting'.arrival hs (by omega) ha (htraffic' ▸ hid)
    exact ⟨hstate, hround.trans (congrArg some harrival.symm)⟩
  · have ha' : a ∈ Traffic.arrivals s t :=
      Traffic.mem_arrivals.mpr ⟨⟨(Traffic.mem_arrivals.mp ha).1.1, by omega⟩,
        (Traffic.mem_arrivals.mp ha).2⟩
    have hsize := hresting.size
    rw [hmin, ← htraffic] at hsize
    obtain ⟨p₀, hp₀⟩ := Traffic.exists_packet?_of_lt (hsize ▸ Traffic.idOf_lt hs ha')
    obtain ⟨hstate, hround⟩ := hsent _ _ hp₀
    have hlast := ho.lasting _ p₀ hp₀ (Packet.isResolved_of_transmitted hstate)
    obtain rfl := Option.some.inj (hid.symm.trans hlast)
    exact ⟨hstate, hround⟩

theorem Reaches.sentOnArrival (hc : c.Sound) (hunits : c.stations.length ≤ c.sizing.perRound)
    (hbooks : Books start n 0 start) (hstart : Between c n 0 true start)
    (hnone : start.traffic.packets.size = 0) (h : Reaches start n t flag e) :
    SentOnArrival e.traffic := by
  refine h.preserved (P := fun _ _ e => SentOnArrival e.traffic) (fun id p hp => ?_)
    (fun {t flag e out e'} hx hsent => ?_) (fun {e} hsent => ?_)
  · have := Traffic.lt_size_of_packet? hp
    omega
  · have htidy := (hx.before.books hbooks).tidy
    cases flag with
    | true =>
      have hbetween := (loop hc n).reaches hstart hx.before
      have ht : t < n := by
        rcases hx.phase with ⟨ht, -⟩ | ⟨-, hflag⟩
        · exact ht
        · cases hflag
      exact sentOnArrival_step hc hunits ht hbetween ((loop hc n).reaches hstart hx.after) htidy
        (step_tidy htidy hx.step).2 (step_takesTurns hc hbetween htidy hx.step) hsent
    | false =>
      -- a drain goes on only while something is queued
      have hbacklog := hx.hasBacklog
      rw [Traffic.hasBacklog_eq_false htidy.roster fun s _ =>
        hsent.waiting htidy.custody s.id] at hbacklog
      cases hbacklog
  · rw [traffic_quiet]
    exact hsent

theorem Over.exists_packet {s : Station} {a : Int} (h : Over c n d) (hs : s ∈ c.stations)
    (ha : a ∈ Traffic.arrivals s n) :
    ∃ p ∈ d.traffic.packets.toList, p.station = s.id ∧ p.arrival = a := by
  obtain ⟨p, hp, hsettled⟩ := h.settled s hs a ha
  exact ⟨p, Array.mem_toList_iff.mpr (Array.mem_of_getElem? hp), hsettled.from.station,
    hsettled.from.arrival⟩

theorem run_sentOnArrival (hc : c.Sound) (hunits : c.stations.length ≤ c.sizing.perRound)
    (roundDuration maxCredit : Float) (channel : Channel) {start : Engine}
    (hstart : start = Engine.make (.roundRobin
      (RoundRobin.make c (Traffic.fresh c.stations) roundDuration maxCredit)) channel)
    (hbooks : Books start n 0 start) : ∃ last e, start.run n = .ok last e ∧
      AllSent c.stations n e.traffic.packets.toList ∧ SentOnArrival e.traffic := by
  subst hstart
  obtain ⟨last, e, d, hrun, he, hover⟩ := run_over hc roundDuration maxCredit channel n
  rw [Int.toNat_natCast] at hover
  obtain ⟨⟨t, -, hreaches⟩, -⟩ := (timely hc n roundDuration maxCredit channel).ended last e hrun
  have hsent := Reaches.sentOnArrival hc hunits hbooks
    (between_make c n roundDuration maxCredit channel) rfl hreaches
  have htraffic : e.traffic = d.traffic := by rw [Engine.traffic, he]; rfl
  refine ⟨last, e, hrun, ⟨fun s hs a h₀ hlt hdue => ?_, fun p hp => ?_⟩, hsent⟩
  · rw [htraffic]
    exact hover.exists_packet hs (Traffic.mem_arrivals.mpr ⟨⟨h₀, hlt⟩, hdue⟩)
  · obtain ⟨id, hid⟩ := List.getElem?_of_mem hp
    exact (hsent id p (by rw [Traffic.packet?, ← Array.getElem?_toList]; exact hid)).1

end RoundRobin

namespace Simulation

variable {s : Settings} {cell : Cell} {tr : Traffic}

theorem length_le_perRound (hcell : Simulation.cell s = .ok cell) (htype : s.ruType = none)
    (hmost : s.width = 40 ∧ s.stations.length ≤ 18 ∨ s.width = 20 ∧ s.stations.length ≤ 9) :
    s.stations.length ≤ cell.sizing.perRound := by
  obtain ⟨hc, hstations⟩ := cell_sound hcell
  rw [Simulation.cell, htype] at hcell
  obtain ⟨hpackets, hz⟩ := Cell.make_sizing hcell
  have hlength : cell.stations.length = s.stations.length := by
    rw [hstations]
    exact (Station.inOrder_perm _).length_eq
  refine Sizing.le_perRound hz ?_ hmost
  rw [← hlength, hpackets]
  exact length_le_packetCount hc.horizon

/-- With a unit for every station no packet of a run is lost, zero penalties or not, and the round
robin sends each in the round of its arrival. Unless a size is pinned, the channel offers so many
units to all the stations that its smallest ones suffice for. -/
theorem enough_units_lose_nothing (hcell : Simulation.cell s = .ok cell)
    (htr : Traffic.ofStations s.stations = .ok tr) :
    (s.ruType = none →
      (s.width = 40 ∧ s.stations.length ≤ 18 ∨ s.width = 20 ∧ s.stations.length ≤ 9) →
        s.stations.length ≤ cell.sizing.perRound) ∧
    (s.stations.length ≤ cell.sizing.perRound →
      (∀ planner channel, (Course.mk cell planner s.rounds.toNat).Exact →
        ∃ last e, (Engine.make (.deadlineAware (DeadlineAware.make cell tr planner)) channel).run
            s.rounds = .ok last e ∧
          AllSent s.stations s.rounds e.traffic.packets.toList) ∧
      ∀ env start, s.check = .ok () → engine env s = .ok start →
        (s.scheduler = DeadlineAware.name → s.solver.backend = Plan.matchingName →
          ∃ r, run env s = .ok r ∧ AllSent s.stations s.rounds r.packets) ∧
        (s.scheduler = RoundRobin.name →
          ∃ r, run env s = .ok r ∧ AllSent s.stations s.rounds r.packets ∧
            ∀ p ∈ r.packets, p.txRound = some p.arrival)) := by
  obtain ⟨hc, hstations⟩ := cell_sound hcell
  have hlength : cell.stations.length = s.stations.length := by
    rw [hstations]
    exact (Station.inOrder_perm _).length_eq
  refine ⟨length_le_perRound hcell, fun hunits => ?_⟩
  rw [← hlength] at hunits
  have hall : ∀ {packets}, AllSent cell.stations s.rounds.toNat packets →
      AllSent s.stations s.rounds packets := by
    intro packets h
    refine ⟨fun st hst a h₀ hlt => h.emitted st ?_ a h₀ (by omega), h.sent⟩
    rwa [hstations, Station.mem_inOrder]
  have hplanned : ∀ planner channel, (Course.mk cell planner s.rounds.toNat).Exact →
      ∃ last e, (Engine.make (.deadlineAware (DeadlineAware.make cell tr planner)) channel).run
          s.rounds = .ok last e ∧
        AllSent s.stations s.rounds e.traffic.packets.toList := by
    intro planner channel hexact
    have hplans := hexact.respected hc
    obtain ⟨last, e, d, hrun, he, hover⟩ :=
      Course.run_completes hc hplans.settles (hplans.feasible.not_overfull hc) channel rfl
    have hpackets : e.traffic.packets.toList = d.traffic.packets.toList := by
      rw [Engine.traffic, he]
      rfl
    rw [fresh_of_ofStations hcell htr]
    exact ⟨last, e, hrun, hall (hpackets ▸ hover.allSent hc hexact hunits)⟩
  refine ⟨hplanned, fun env start hcheck hengine => ⟨fun hname hbackend => ?_, fun hname => ?_⟩⟩
  · obtain ⟨cell', solver, channel, hcell', hsolver, rfl⟩ := engine_deadlineAware hengine hname
    obtain rfl : cell = cell' := Except.ok.inj (hcell.symm.trans hcell')
    obtain rfl := solver_of_matching hbackend hsolver
    obtain ⟨last, e, hrun, hsent⟩ := hplanned Planner.matching channel (Course.matching_exact hc _)
    rw [fresh_of_ofStations hcell htr] at hrun
    exact ⟨_, run_ok hcheck hengine hrun, hsent⟩
  · have hbooks := (starts_of_engine hengine).books s.rounds.toNat
    obtain ⟨cell', duration, most, channel, hcell', hstart⟩ := engine_roundRobin hengine hname
    obtain rfl : cell = cell' := Except.ok.inj (hcell.symm.trans hcell')
    have hrounds : ((s.rounds.toNat : Nat) : Int) = s.rounds := by
      have := rounds_of_check hcheck
      omega
    obtain ⟨last, e, hrun, hsent, harrival⟩ :=
      RoundRobin.run_sentOnArrival hc hunits duration most channel hstart hbooks
    rw [hrounds] at hrun
    refine ⟨_, run_ok hcheck hengine hrun, hall hsent, fun p hp => ?_⟩
    obtain ⟨id, hid⟩ := List.getElem?_of_mem (show p ∈ e.traffic.packets.toList from hp)
    exact (harrival id p (by rw [Traffic.packet?, ← Array.getElem?_toList]; exact hid)).2

theorem enough_units_lose_nothing_three_stations :
    let s : Settings :=
      { stations := [⟨1, 1, 0, 5⟩, ⟨2, 1, 1, 10⟩, ⟨3, 1, 2, 0⟩]
        width := 20
        rounds := 3
        roundDuration := .whole 10000
        maxCredit := .whole 1000000
        lossRate := .whole 0
        solver := { timeout := some (.whole 60) } }
    let cell : Cell := ⟨s.stations, 1024, 1, 3, ⟨.mhz20, .tones52, 4, 1, 242⟩⟩
    let env : Environment := ⟨fun _ _ => 0.5, fun _ _ _ => .timedOut, []⟩
    s.stations.length ≤ cell.sizing.perRound ∧
      (∃ last e, (Engine.make (.deadlineAware (DeadlineAware.make cell (Traffic.fresh s.stations)
        Planner.matching)) .ideal).run s.rounds = .ok last e ∧
          AllSent s.stations s.rounds e.traffic.packets.toList) ∧
      (∃ r, run env s = .ok r ∧ AllSent s.stations s.rounds r.packets) ∧
      ∃ r, run env { s with scheduler := RoundRobin.name } = .ok r ∧
        AllSent s.stations s.rounds r.packets ∧ ∀ p ∈ r.packets, p.txRound = some p.arrival := by
  intro s cell env
  have horder : Station.inOrder s.stations = s.stations := List.mergeSort_of_pairwise (by decide)
  have hcell : Simulation.cell s = .ok cell := by
    show Cell.make s.stations 20 1024 none = .ok cell
    rw [Cell.make, horder]
    rfl
  have htr : Traffic.ofStations s.stations = .ok (Traffic.fresh s.stations) := by
    rw [Traffic.ofStations, horder]
    rfl
  have hengine : ∃ e, engine env s = .ok e := by
    simp only [engine, htr, scheduler, hcell]
    exact ⟨_, rfl⟩
  have hengine' : ∃ e, engine env { s with scheduler := RoundRobin.name } = .ok e := by
    have hcell' : Simulation.cell { s with scheduler := RoundRobin.name } = .ok cell := hcell
    simp only [engine, htr, scheduler, hcell']
    exact ⟨_, rfl⟩
  obtain ⟨start, hstart⟩ := hengine
  obtain ⟨start', hstart'⟩ := hengine'
  obtain ⟨hsizing, hall⟩ := enough_units_lose_nothing hcell htr
  have hunits := hsizing rfl (Or.inr ⟨rfl, by decide⟩)
  obtain ⟨hplanned, hruns⟩ := hall hunits
  -- the two schedulers share stations and cell, so that the second half is applied to each of them
  obtain ⟨-, hqueued⟩ := (enough_units_lose_nothing (s := { s with scheduler := RoundRobin.name })
    hcell htr).2 hunits
  exact ⟨hunits, hplanned _ .ideal (Course.matching_exact (cell_sound hcell).1 _),
    (hruns env start rfl hstart).1 rfl rfl, (hqueued env start' rfl hstart').2 rfl⟩

end Simulation

end Downlink
