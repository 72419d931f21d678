import Downlink.Proofs.Conservation
import Downlink.Proofs.DeadlineAware.Custody
import Downlink.Proofs.History
import Downlink.Proofs.RoundRobin.Custody

/-!
# Custody in a run

After every round the queues hold exactly the packets without an outcome, and the rows of the rounds
account for all others: what arrived and was neither sent nor dropped is the backlog, and a dropped
packet weighs in the one row that reports it. This holds for both schedulers, whatever a planner
replies and whatever the credits are.
-/

namespace Downlink

open Traffic

namespace Channel

theorem packets_transmit (c : Channel) (round : Int) (allocations : List Allocation) :
    (c.transmit round allocations).1.map TxReport.packet = allocations.map Allocation.packet := by
  cases c with
  | ideal => simp [transmit]
  | lossy rate draw used =>
    show (reportsFrom rate draw round used allocations).1.map TxReport.packet = _
    induction allocations generalizing used with
    | nil => rfl
    | cons a rest ih => exact congrArg (a.packet :: ·) (ih _)

end Channel

namespace Scheduler

variable {σ σ' : Scheduler} {t round : Int} {format : TxFormat} {out : RoundAssignment}

def unreported : Scheduler → List Nat
  | deadlineAware d => d.unreported
  | roundRobin _ => []

theorem unreported_withTraffic (σ : Scheduler) (tr : Traffic) :
    (σ.withTraffic tr).unreported = σ.unreported := by
  cases σ <;> rfl

theorem select_serves (h : InCustody σ.traffic t) (hselect : σ.select round = .ok format σ') :
    ∃ lost, Serves σ.traffic σ'.traffic t [] lost ∧ σ'.unreported = σ.unreported ++ lost ∧
      (format = .noTx → lost = []) := by
  cases σ with
  | deadlineAware d =>
    obtain ⟨d', hd, rfl⟩ := Engine.of_lift hselect
    exact DeadlineAware.select_serves h hd
  | roundRobin d =>
    obtain ⟨d', hd, rfl⟩ := Engine.of_lift hselect
    have hsame : d'.traffic = d.traffic := (RoundRobin.of_select hd).1
    refine ⟨[], ?_, rfl, fun _ => rfl⟩
    show Serves d.traffic d'.traffic t [] []
    rw [hsame]
    exact h.serves

theorem assign_serves (h : InCustody σ.traffic t) (hassign : σ.assign round = .ok out σ') :
    ∃ lost, Serves σ.traffic σ'.traffic t (out.allocations.map Allocation.packet) lost ∧
      out.drops = σ.unreported ++ lost ∧ σ'.unreported = [] := by
  cases σ with
  | deadlineAware d =>
    obtain ⟨d', hd, rfl⟩ := Engine.of_lift hassign
    exact DeadlineAware.assign_serves h hd
  | roundRobin d =>
    obtain ⟨d', hd, rfl⟩ := Engine.of_lift hassign
    exact ⟨_, (RoundRobin.assign_serves h hd).1, rfl, rfl⟩

theorem decide_serves (h : InCustody σ.traffic t) (hnone : σ.unreported = [])
    (hd : Engine.decide round σ = .ok (format, out) σ') :
    Serves σ.traffic σ'.traffic t (out.allocations.map Allocation.packet) out.drops ∧
      σ'.unreported = [] := by
  rcases Engine.of_decide hd with ⟨hselect, -, rfl⟩ | ⟨σ₁, hselect, -, hassign⟩
  · obtain ⟨lost, hserves, hunreported, hlost⟩ := select_serves h hselect
    obtain rfl := hlost rfl
    exact ⟨hserves, by rw [hunreported, hnone, List.nil_append]⟩
  · obtain ⟨lost, h₁, hunreported, -⟩ := select_serves h hselect
    obtain ⟨lost', h₂, hdrops, hreported⟩ := assign_serves h₁.custody hassign
    rw [hdrops, hunreported, hnone, List.nil_append]
    exact ⟨h₁.trans h₂, hreported⟩

end Scheduler

namespace Engine

variable {start e e' : Engine} {n t : Nat} {round last : Int} {flag : Bool}
  {out : RoundAssignment} {tr : Traffic} {reports : List TxReport} {id : Nat} {p : Packet}

theorem record_packet_of_not_mem (h : id ∉ reports.map TxReport.packet) :
    (record tr reports).packet? id = tr.packet? id := by
  induction reports generalizing tr with
  | nil => rfl
  | cons r reports ih =>
    rw [List.map_cons, List.mem_cons, not_or] at h
    rw [record]
    split
    · exact ih h.2
    · rw [ih h.2, packet?_setPacket_of_ne h.1]

theorem record_packet_of_mem (hnodup : (reports.map TxReport.packet).Nodup) {r : TxReport}
    (hr : r ∈ reports) (hp : tr.packet? r.packet = some p) :
    (record tr reports).packet? r.packet = some (p.noted (some r.status)) := by
  induction reports generalizing tr with
  | nil => cases hr
  | cons r' reports ih =>
    obtain ⟨hfirst, hnodup⟩ := List.nodup_cons.mp hnodup
    rw [record]
    rcases List.mem_cons.mp hr with rfl | hr
    · rw [hp]
      dsimp only
      rw [record_packet_of_not_mem hfirst, packet?_setPacket_self hp]
      rfl
    · have hne : r.packet ≠ r'.packet := ne_of_mem_of_not_mem (List.mem_map_of_mem hr) hfirst
      split
      · exact ih hnodup hr hp
      · exact ih hnodup hr ((packet?_setPacket_of_ne hne).trans hp)

theorem state?_record (tr : Traffic) (reports : List TxReport) (id : Nat) :
    (record tr reports).state? id = tr.state? id := by
  obtain ⟨-, -, hsize, -, hpacket⟩ := record_noted tr reports
  cases hp : tr.packet? id with
  | some p =>
    obtain ⟨x, hx⟩ := hpacket id p hp
    rw [state?_of_packet? hp, state?_of_packet? hx, Packet.noted_state]
  | none =>
    have hnone : (record tr reports).packet? id = none := by
      rw [packet?, Array.getElem?_eq_none_iff] at hp ⊢
      rwa [hsize]
    rw [state?, state?, hp, hnone]

theorem exists_of_record (h : (record tr reports).packet? id = some p) :
    ∃ q x, tr.packet? id = some q ∧ p = q.noted x := by
  obtain ⟨-, -, hsize, -, hpacket⟩ := record_noted tr reports
  obtain ⟨q, hq⟩ := exists_packet?_of_lt (hsize ▸ lt_size_of_packet? h)
  obtain ⟨x, hx⟩ := hpacket id q hq
  exact ⟨q, x, hq, Option.some.inj (h.symm.trans hx)⟩

theorem inCustody_record (h : InCustody tr round) (reports : List TxReport) :
    InCustody (record tr reports) round := by
  obtain ⟨hst, -, hsize, hwaiting, hpacket⟩ := record_noted tr reports
  constructor
  · intro id q hq
    obtain ⟨p, x, hp, rfl⟩ := exists_of_record hq
    rw [hst]
    exact h.owner id p hp
  · intro k
    rw [hwaiting, h.waiting, unresolved, unresolved, hsize]
    refine List.filter_congr fun id hid => ?_
    obtain ⟨p, hp⟩ := exists_packet?_of_lt (List.mem_range.mp hid)
    obtain ⟨x, hx⟩ := hpacket id p hp
    rw [isOpen_of_packet? hp, isOpen_of_packet? hx]
    rfl
  · intro id q hq
    obtain ⟨p, x, hp, rfl⟩ := exists_of_record hq
    exact h.early id p hp
  · intro i j q q' hij hq hq'
    obtain ⟨p, x, hp, rfl⟩ := exists_of_record hq
    obtain ⟨p', x', hp', rfl⟩ := exists_of_record hq'
    exact h.ordered i j p p' hij hp hp'

/-- Between rounds: the queues have custody, and every drop has been reported. -/
structure Tidy (round : Int) (e : Engine) : Prop where
  roster : Station.Roster e.traffic.stations
  custody : InCustody e.traffic round
  reported : e.scheduler.unreported = []

structure Outcome (round : Int) (e : Engine) (out : RoundAssignment) (e' : Engine) : Prop where
  size : e'.traffic.packets.size =
    e.traffic.packets.size + (e.traffic.generate round).1.length
  clears : Clears e.traffic e'.traffic (out.allocations.map Allocation.packet) out.drops
  lasting : ∀ id p, e.traffic.packet? id = some p → p.isResolved = true →
    e'.traffic.packet? id = some p

theorem Outcome.final (h : Outcome round e out e') : Final e.traffic e'.traffic := by
  intro id s hs hid
  obtain ⟨p, hp, rfl⟩ := Option.map_eq_some_iff.mp hid
  exact state?_of_packet? (h.lasting id p hp hs)

theorem Outcome.sent_before (ho : Outcome round e out e') (hp : e'.traffic.packet? id = some p)
    (hstate : p.state = .transmitted) (hid : id ∉ out.allocations.map Allocation.packet) :
    e.traffic.packet? id = some p := by
  have hold := (ho.clears.transmitted_iff ho.final hid).mp (by rw [state?_of_packet? hp, hstate])
  obtain ⟨p₀, hp₀, hsent⟩ := Option.map_eq_some_iff.mp hold
  rwa [hp₀, ← ho.lasting id p₀ hp₀ (Packet.isResolved_of_transmitted hsent)]

theorem Completed.serves {format : TxFormat} {σ : Scheduler}
    (hc : Completed round e out e' format σ) (h : Tidy round e) :
    Grows e.traffic (e.traffic.generate round).2 (e.traffic.generate round).1.length ∧
      Serves (e.traffic.generate round).2 σ.traffic (round + 1)
        (out.allocations.map Allocation.packet) out.drops ∧ σ.unreported = [] := by
  obtain ⟨hcustody, hgrows⟩ := h.custody.generate
  obtain ⟨hserves, hreported⟩ := Scheduler.decide_serves (t := round + 1)
    (by rw [traffic_withTraffic]; exact hcustody)
    (by rw [Scheduler.unreported_withTraffic]; exact h.reported) hc.decided
  rw [traffic_withTraffic] at hserves
  exact ⟨hgrows, hserves, hreported⟩

theorem step_tidy (h : Tidy round e) (hstep : step round e = .ok out e') :
    Tidy (round + 1) e' ∧ Outcome round e out e' := by
  obtain ⟨format, σ, hc⟩ := of_step hstep
  obtain ⟨hgrows, hserves, hreported⟩ := hc.serves h
  obtain ⟨hst, -, hsize, -⟩ :=
    record_noted σ.traffic (e.channel.transmit round out.allocations).1
  have hstates := state?_record σ.traffic (e.channel.transmit round out.allocations).1
  rw [← hc.traffic] at hst hsize hstates
  have hstations : e'.traffic.stations = e.traffic.stations :=
    hst.trans (hserves.advances.stations.trans hgrows.stations)
  refine ⟨⟨hstations ▸ h.roster, ?_, ?_⟩, ?_, ?_, ?_⟩
  · rw [hc.traffic]
    exact inCustody_record hserves.custody _
  · rw [hc.scheduler, Scheduler.unreported_withTraffic, hreported]
  · rw [hsize, hserves.advances.size, hgrows.size]
  · exact (hgrows.clears.trans hgrows.final hserves.clears hserves.advances.final).congr hstates
  · intro id p hp hresolved
    have hold := hgrows.old id p hp
    obtain ⟨q, hq, hbecomes⟩ := hserves.advances.packet id p hold
    obtain rfl := hbecomes.final hresolved
    -- a packet that has its outcome already is not among those that get a report now
    have hnew : id ∉ out.allocations.map Allocation.packet := by
      intro hid
      obtain ⟨hsent, hunsent⟩ := (hserves.clears.sent id).mp hid
      rw [state?_of_packet? hq] at hsent
      rw [state?_of_packet? hold] at hunsent
      exact hunsent hsent
    rw [hc.traffic, record_packet_of_not_mem (by rwa [Channel.packets_transmit])]
    exact hq

structure Accounted (rows : List RoundRow) (tr : Traffic) : Prop where
  arrivals : (rows.map RoundRow.arrivals).sum = tr.packets.size
  transmitted : (rows.map RoundRow.transmitted).sum = (tr.inState .transmitted).length
  dropped : (rows.map RoundRow.dropped).sum = (tr.inState .dropped).length

/-- What arrived by the end of a round and was neither sent nor dropped is its backlog. -/
def Balanced (rows : List RoundRow) : Prop :=
  ∀ i row, rows[i]? = some row → (row.backlog : Int) =
    ((rows.take (i + 1)).map RoundRow.arrivals).sum -
      ((rows.take (i + 1)).map RoundRow.transmitted).sum -
        ((rows.take (i + 1)).map RoundRow.dropped).sum

theorem balanced_concat {rows : List RoundRow} {row : RoundRow} (h : Balanced rows)
    (hrow : row.backlog + ((rows ++ [row]).map RoundRow.transmitted).sum +
      ((rows ++ [row]).map RoundRow.dropped).sum = ((rows ++ [row]).map RoundRow.arrivals).sum) :
    Balanced (rows ++ [row]) := by
  intro i r hr
  rcases Nat.lt_or_ge i rows.length with hlt | hge
  · rw [List.getElem?_append_left hlt] at hr
    rw [List.take_append_of_le_length hlt]
    exact h i r hr
  · obtain ⟨hlt, hr⟩ := List.getElem?_eq_some_iff.mp hr
    have hi : i = rows.length := by
      rw [List.length_append, List.length_singleton] at hlt
      omega
    subst hi
    rw [List.getElem_concat_length rfl] at hr
    subst hr
    rw [List.take_of_length_le (by simp)]
    omega

theorem Completed.accounted {format : TxFormat} {σ : Scheduler}
    (hc : Completed round e out e' format σ) (h' : Tidy (round + 1) e')
    (ho : Outcome round e out e') (ha : Accounted e.rows e.traffic) (hb : Balanced e.rows) :
    Accounted e'.rows e'.traffic ∧ Balanced e'.rows := by
  have hsent := (inState_perm rfl ho.final ho.clears.sent_nodup ho.clears.sent).length_eq
  have hlost := (inState_perm rfl ho.final ho.clears.lost_nodup ho.clears.lost).length_eq
  rw [List.length_append, List.length_map] at hsent
  rw [List.length_append] at hlost
  have haccounted : Accounted e'.rows e'.traffic := by
    rw [hc.rows]
    refine ⟨?_, ?_, ?_⟩
    · rw [List.map_append, List.sum_append, ha.arrivals, ho.size]
      simp [rowOf]
    · rw [List.map_append, List.sum_append, ha.transmitted, hsent]
      simp [rowOf]
    · rw [List.map_append, List.sum_append, ha.dropped, hlost]
      simp [rowOf]
  refine ⟨haccounted, ?_⟩
  have hbacklog := h'.custody.backlog h'.roster
  rw [← haccounted.arrivals, ← haccounted.transmitted, ← haccounted.dropped] at hbacklog
  rw [hc.rows] at hbacklog ⊢
  exact balanced_concat hb hbacklog

/-- A packet whose drop an earlier round of the run has reported. -/
def ReportedBefore (start : Engine) (n t id : Nat) : Prop :=
  ∃ u < t, ∃ flag e out e', Executes start n u flag e out e' ∧ id ∈ out.drops

theorem reportedBefore_succ (h : Executes start n t flag e out e') :
    ReportedBefore start n (t + 1) id ↔ ReportedBefore start n t id ∨ id ∈ out.drops :=
  earlier_succ (P := fun _ _ out => id ∈ out.drops) h

/-- The books of a run after `t` rounds. -/
structure Books (start : Engine) (n t : Nat) (e : Engine) : Prop where
  tidy : Tidy t e
  rows : e.rows.length = t
  accounted : Accounted e.rows e.traffic
  balanced : Balanced e.rows
  reported : ∀ id, e.traffic.state? id = some .dropped ↔ ReportedBefore start n t id

theorem Books.step (h : Books start n t e) (hx : Executes start n t flag e out e') :
    Books start n (t + 1) e' ∧ Outcome t e out e' := by
  obtain ⟨htidy, ho⟩ := step_tidy h.tidy hx.step
  obtain ⟨format, σ, hc⟩ := of_step hx.step
  obtain ⟨haccounted, hbalanced⟩ := hc.accounted htidy ho h.accounted h.balanced
  refine ⟨⟨by exact_mod_cast htidy, by rw [hc.rows, List.length_append, h.rows]; rfl, haccounted,
    hbalanced, fun id => ?_⟩, ho⟩
  rw [reportedBefore_succ hx, ← h.reported, ho.clears.lost]
  constructor
  · intro hid
    by_cases hold : e.traffic.state? id = some .dropped
    · exact Or.inl hold
    · exact Or.inr ⟨hid, hold⟩
  · rintro (hold | ⟨hid, -⟩)
    · exact ho.final id .dropped rfl hold
    · exact hid

theorem traffic_quiet (e : Engine) : e.quiet.traffic = e.traffic.stop := by
  rw [quiet, traffic, traffic]
  cases e.scheduler <;> rfl

theorem Books.quiet (h : Books start n t e) : Books start n t e.quiet := by
  have htraffic := traffic_quiet e
  have hunreported : e.quiet.scheduler.unreported = e.scheduler.unreported := by
    rw [Engine.quiet]
    cases e.scheduler <;> rfl
  constructor
  · exact ⟨by rw [htraffic]; exact h.tidy.roster, by rw [htraffic]; exact h.tidy.custody.stop,
      by rw [hunreported]; exact h.tidy.reported⟩
  · exact h.rows
  · rw [htraffic]
    exact ⟨h.accounted.arrivals, h.accounted.transmitted, h.accounted.dropped⟩
  · exact h.balanced
  · rw [htraffic]
    exact h.reported

theorem Reaches.books (hstart : Books start n 0 start) (h : Reaches start n t flag e) :
    Books start n t e :=
  h.preserved (P := fun t _ e => Books start n t e) hstart (fun hx hb => (hb.step hx).1)
    fun hb => hb.quiet

theorem rows_discardAll {ids : List Int} (h : discardAll round ids e = .ok () e') :
    e'.rows = e.rows := by
  have hdiscard : ∀ {l : List Nat} {k : Int} {e e' : Engine},
      discard round k l e = .ok () e' → e'.rows = e.rows := by
    intro l k
    induction l with
    | nil =>
      intro e e' h
      cases h
      rfl
    | cons id l ih =>
      intro e e' h
      rw [discard] at h
      split at h
      · cases h
      · exact (ih h :)
  induction ids generalizing e with
  | nil =>
    cases h
    rfl
  | cons k ids ih =>
    rw [discardAll] at h
    split at h
    · cases h
    rename_i e₁ hfirst
    rw [ih h, hdiscard hfirst]

end Engine

namespace Simulation

open Engine

variable {s : Settings} {env : Environment} {start e : Engine}

/-- What settings may start with: either scheduler, with any planner, any credits and any channel.
-/
inductive Starts (s : Settings) : Engine → Prop
  | deadlineAware {cell : Cell} {tr : Traffic} (hcell : Simulation.cell s = .ok cell)
    (htr : Traffic.ofStations s.stations = .ok tr) (planner : Planner) (channel : Channel) :
    Starts s (Engine.make (.deadlineAware (DeadlineAware.make cell tr planner)) channel)
  | roundRobin {cell : Cell} {tr : Traffic} (hcell : Simulation.cell s = .ok cell)
    (htr : Traffic.ofStations s.stations = .ok tr) (roundDuration maxCredit : Float)
    (channel : Channel) :
    Starts s (Engine.make (.roundRobin (RoundRobin.make cell tr roundDuration maxCredit)) channel)

theorem starts_of_engine (h : engine env s = .ok e) : Starts s e := by
  obtain ⟨tr, σ, channel, htr, hσ, rfl⟩ := engine_eq_ok h
  unfold scheduler at hσ
  split_ifs at hσ
  · split at hσ
    · cases hσ
    cases hcell : Simulation.cell s with
    | error fault => rw [hcell] at hσ; cases hσ
    | ok cell =>
      rw [hcell] at hσ
      cases hσ
      exact .deadlineAware hcell htr _ channel
  · cases hcell : Simulation.cell s with
    | error fault => rw [hcell] at hσ; cases hσ
    | ok cell =>
      simp only [hcell, Except.bind, roundRobin] at hσ
      split at hσ
      · cases hσ
        exact .roundRobin hcell htr _ _ channel
      · cases hσ

theorem Starts.books (h : Starts s start) (n : Nat) : Books start n 0 start := by
  have hfresh : ∀ {cell tr}, Simulation.cell s = .ok cell →
      Traffic.ofStations s.stations = .ok tr → start.traffic = tr →
        start.scheduler.unreported = [] → start.rows = [] → Books start n 0 start := by
    intro cell tr hcell htr htraffic hunreported hrows
    obtain rfl := fresh_of_ofStations hcell htr
    constructor
    · refine ⟨?_, htraffic ▸ inCustody_fresh _ _, hunreported⟩
      rw [htraffic, stations_fresh]
      exact (cell_sound hcell).1.horizon.roster
    · rw [hrows]
      rfl
    · rw [hrows, htraffic]
      exact ⟨rfl, rfl, rfl⟩
    · intro i row hrow
      rw [hrows] at hrow
      cases hrow
    · intro id
      rw [htraffic]
      constructor
      · intro hid
        cases hid
      · exact fun h => (not_earlier_zero h).elim
  cases h with
  | deadlineAware hcell htr planner channel => exact hfresh hcell htr rfl rfl rfl
  | roundRobin hcell htr roundDuration maxCredit channel => exact hfresh hcell htr rfl rfl rfl

/-- No packet is lost or duplicated between rounds, and the rows account for every packet. -/
theorem runs_keep_books (hstart : Starts s start) (n : Nat) :
    (∀ t flag e out e', Executes start n t flag e out e' → e'.traffic.Queued ∧
      ∃ row, e'.rows = e.rows ++ [row] ∧
        row.droppedWeight = total (out.drops.map (penaltyOf e'.traffic)) ∧ out.drops.Nodup ∧
        ∀ id, id ∈ out.drops ↔
          e'.traffic.state? id = some .dropped ∧ ¬ ReportedBefore start n t id) ∧
    (∀ t flag e, Reaches start n t flag e → e.rows.length = t ∧ Balanced e.rows) ∧
    ∀ last e, start.run n = .ok last e → e.rows.length = last + 1 ∧ Balanced e.rows := by
  have hbooks : ∀ {t flag e}, Reaches start n t flag e → Books start n t e :=
    fun h => h.books (hstart.books n)
  refine ⟨?_, fun t flag e h => ⟨(hbooks h).rows, (hbooks h).balanced⟩, ?_⟩
  · intro t flag e out e' h
    have hb := hbooks h.before
    obtain ⟨hb', ho⟩ := hb.step h
    obtain ⟨format, σ, hc⟩ := of_step h.step
    refine ⟨hb'.tidy.custody.queued hb'.tidy.roster, _, hc.rows, ?_, ho.clears.lost_nodup,
      fun id => ?_⟩
    · rw [rowOf, ← Engine.traffic]
    · rw [ho.clears.lost, ne_eq, hb.reported]
  · intro last e h
    obtain ⟨u, e₁, hreaches, -, rfl, hdiscard, -⟩ := run_reaches h
    have hb := hbooks hreaches
    rw [rows_discardAll hdiscard, hb.rows]
    exact ⟨by omega, hb.balanced⟩

theorem runs_keep_books_two_stations :
    let s : Settings :=
      { stations := [⟨1, 2, 0, 5⟩, ⟨2, 1, 1, 10⟩], width := 20, ruType := some 242 }
    let cell : Cell := ⟨s.stations, 1024, 2, 3, ⟨.mhz20, .tones242, 1, 3, 242⟩⟩
    let turns := Engine.make (.roundRobin
      (RoundRobin.make cell (Traffic.fresh s.stations) 10000 1000000)) .ideal
    let planned := Engine.make (.deadlineAware
      (DeadlineAware.make cell (Traffic.fresh s.stations) Planner.matching)) .ideal
    (Starts s turns ∧ (∃ out e', Executes turns 5 0 true turns out e' ∧ e'.traffic.Queued) ∧
      ∃ last e, turns.run (5 : Nat) = .ok last e ∧ Balanced e.rows) ∧
    Starts s planned ∧ ∃ last e, planned.run (5 : Nat) = .ok last e ∧
      e.rows.length = last + 1 ∧ Balanced e.rows := by
  intro s cell turns planned
  obtain ⟨hcell, htr⟩ := set_up_two_stations (s := s) rfl rfl rfl rfl
  have hc := (cell_sound hcell).1
  refine ⟨?turns, ?planned⟩
  case turns =>
    have hstarts : Starts s turns := .roundRobin hcell htr 10000 1000000 .ideal
    obtain ⟨hrounds, -, hruns⟩ := runs_keep_books hstarts 5
    obtain ⟨out, e', hstep, -⟩ := RoundRobin.step_between hc (Or.inl ⟨Nat.zero_lt_succ 4, rfl⟩)
      (RoundRobin.between_make cell 5 10000 1000000 .ideal)
    have hexecutes : Executes turns 5 0 true turns out e' := .traffic (by decide) rfl hstep
    obtain ⟨last, e, -, hrun, -⟩ := RoundRobin.run_over hc 10000 1000000 .ideal (5 : Nat)
    exact ⟨hstarts, ⟨out, e', hexecutes, (hrounds 0 true turns out e' hexecutes).1⟩, last, e, hrun,
      (hruns last e hrun).2⟩
  case planned =>
    have hstarts : Starts s planned := .deadlineAware hcell htr Planner.matching .ideal
    obtain ⟨-, -, hruns⟩ := runs_keep_books hstarts 5
    have hplans := Course.matching_respected hc 5
    obtain ⟨last, e, d, hrun, -⟩ := Course.run_completes hc hplans.settles
      (hplans.feasible.not_overfull hc) .ideal (show ((5 : Nat) : Int).toNat = 5 from rfl)
    exact ⟨hstarts, last, e, hrun, hruns last e hrun⟩

end Simulation

end Downlink
