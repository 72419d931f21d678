import Downlink.Proofs.Packet
import Downlink.Proofs.Traffic.Queues
import Downlink.Scheduler

/-!
# Scheduling without feedback

A scheduler does the same whether or not the packets carry reports of their transmissions: every one
of its operations commutes with muting the packets, which forgets the reports.
-/

namespace Downlink

open Scheduler (lift)

namespace Packet

variable (p : Packet) (x : Option TxStatus) (round index : Int) (ru : Ru) (reason : DropReason)

theorem move_noted (target : PacketState) :
    (p.noted x).move target = (p.move target).map fun q => q.noted x := by
  unfold move
  rw [noted_state]
  split_ifs <;> rfl

theorem drop_noted :
    (p.noted x).drop round reason = (p.drop round reason).map fun q => q.noted x := by
  unfold drop
  rw [move_noted]
  cases p.move .dropped <;> rfl

theorem schedule_noted :
    (p.noted x).schedule index round = (p.schedule index round).map fun q => q.noted x := by
  unfold schedule
  rw [move_noted]
  cases p.move .scheduled <;> rfl

theorem ready_noted : (p.noted x).ready round = (p.ready round).map fun q => q.noted x := by
  unfold ready
  rw [move_noted, noted_state]
  split_ifs
  · cases p.move .scheduled <;> rfl
  · rfl

theorem transmit_noted :
    (p.noted x).transmit round ru = (p.transmit round ru).map fun q => q.noted x := by
  unfold transmit
  rw [ready_noted]
  cases p.ready round with
  | error fault => rfl
  | ok q =>
    dsimp only [Except.map]
    rw [move_noted]
    cases q.move .transmitted <;> rfl

end Packet

namespace Traffic

variable {tr : Traffic}

def muted (tr : Traffic) : Traffic := { tr with packets := tr.packets.map fun p => p.noted none }

theorem packet?_muted (tr : Traffic) (id : Nat) :
    tr.muted.packet? id = (tr.packet? id).map fun p => p.noted none :=
  Array.getElem?_map

theorem waiting_muted (tr : Traffic) (k : Int) : tr.muted.waiting k = tr.waiting k := rfl

theorem setQueue_muted (tr : Traffic) (k : Int) (ids : List Nat) :
    tr.muted.setQueue k ids = (tr.setQueue k ids).muted := rfl

theorem setPacket_muted (tr : Traffic) (id : Nat) (p : Packet) :
    (tr.setPacket id p).muted = tr.muted.setPacket id (p.noted none) := by
  rw [muted, setPacket, setPacket, muted, Array.map_setIfInBounds]

theorem update_muted (tr : Traffic) (id : Nat) {step : Packet → Except Fault Packet}
    (h : ∀ p : Packet, step (p.noted none) = (step p).map fun q => q.noted none) :
    tr.muted.update id step = (tr.update id step).map muted := by
  unfold update
  rw [packet?_muted]
  cases tr.packet? id with
  | none => rfl
  | some p =>
    dsimp only [Option.map_some]
    rw [h]
    cases step p with
    | error fault => rfl
    | ok q => exact congrArg Except.ok (setPacket_muted tr id q).symm

theorem drop_muted (tr : Traffic) (id : Nat) (round : Int) (reason : DropReason) :
    tr.muted.update id (fun p => p.drop round reason) =
      (tr.update id fun p => p.drop round reason).map muted :=
  update_muted tr id fun p => p.drop_noted none round reason

theorem transmit_muted (tr : Traffic) (id : Nat) (round : Int) (ru : Ru) :
    tr.muted.update id (fun p => p.transmit round ru) =
      (tr.update id fun p => p.transmit round ru).map muted :=
  update_muted tr id fun p => p.transmit_noted none round ru

theorem popFront_muted (tr : Traffic) (k : Int) :
    tr.muted.popFront k = (tr.popFront k).map fun x => (x.1, x.2.muted) := by
  unfold popFront
  rw [show tr.muted.queue k = tr.queue k from rfl]
  split <;> rfl

theorem emitFrom_muted (tr : Traffic) (s : Station) (round : Int) :
    (tr.emitFrom s round).muted = tr.muted.emitFrom s round := by
  have hsize : tr.muted.packets.size = tr.packets.size := Array.size_map
  rw [emitFrom, emitFrom, hsize, muted, Array.map_push]
  rfl

theorem emitAll_muted (tr : Traffic) (round : Int) (due : List Station) :
    (tr.emitAll round due).muted = tr.muted.emitAll round due := by
  induction due generalizing tr with
  | nil => rfl
  | cons s due ih => rw [emitAll, ih, emitFrom_muted, emitAll]

theorem generate_muted (tr : Traffic) (round : Int) :
    tr.muted.generate round = ((tr.generate round).1, (tr.generate round).2.muted) := by
  have hsize : tr.muted.packets.size = tr.packets.size := Array.size_map
  rw [generate, generate, hsize, emitAll_muted]
  rfl

end Traffic

namespace DeadlineAware

variable {d : DeadlineAware} {w : Walk} (round station : Int) (ids : List Nat)
  (stations : List Int)

def muted (d : DeadlineAware) : DeadlineAware := { d with traffic := d.traffic.muted }

theorem expire_muted (d : DeadlineAware) : expire round station ids d.muted =
    lift muted (expire round station ids d) := by
  induction ids generalizing d with
  | nil => rfl
  | cons id ids ih =>
    simp only [expire, muted, Traffic.waiting_muted, Traffic.setQueue_muted, Traffic.drop_muted]
    cases (d.traffic.setQueue station ((d.traffic.waiting station).filter (· ≠ id))).update id
      fun p => p.drop round .late with
    | error fault => rfl
    | ok tr => exact ih { d with traffic := tr, unreported := d.unreported ++ [id] }

theorem stale_muted (tr : Traffic) : stale tr.muted station round = stale tr station round := by
  unfold stale
  rw [Traffic.waiting_muted]
  congr 1
  funext id
  rw [Traffic.packet?_muted]
  cases tr.packet? id <;> rfl

theorem expireAll_muted (d : DeadlineAware) : expireAll round stations d.muted =
    lift muted (expireAll round stations d) := by
  induction stations generalizing d with
  | nil => rfl
  | cons k stations ih =>
    rw [expireAll, expireAll, show d.muted.traffic = d.traffic.muted from rfl, stale_muted,
      expire_muted]
    cases expire round k (stale d.traffic k round) d with
    | error fault d => rfl
    | ok _ d => exact ih d

theorem selectWith_muted {start : Int → DeadlineAware → Attempt DeadlineAware Unit}
    (hstart : ∀ d, start round d.muted = lift muted (start round d)) (d : DeadlineAware) :
    selectWith start round d.muted = lift muted (selectWith start round d) := by
  let noted : DeadlineAware := { d with
    book := { d.book with candidates := Book.withBacklog d.traffic d.book.cell.ids } }
  have hnoted := hstart noted
  have hmuted : Book.withBacklog d.muted.traffic d.muted.book.cell.ids =
      Book.withBacklog d.traffic d.book.cell.ids := rfl
  -- the stations noted in the book have no part in whether a horizon is due
  have hdue : noted.book.startsIn round = d.book.startsIn round := rfl
  simp only [selectWith, hmuted]
  simp only [muted, noted] at hnoted hdue ⊢
  rw [hnoted]
  cases hnone : (Book.withBacklog d.traffic d.book.cell.ids).isEmpty with
  | true => rfl
  | false =>
    cases hstarts : d.book.startsIn round with
    | true =>
      simp only [hdue, hstarts, if_true, Bool.false_eq_true, if_false]
      cases start round noted <;> rfl
    | false =>
      simp only [hdue, hstarts, Bool.false_eq_true, if_false]
      rfl

theorem refuse_muted (d : DeadlineAware) : refuse round d.muted = lift muted (refuse round d) := rfl

theorem consult_muted (reply : Reply) (d : DeadlineAware) :
    consult reply d.muted = lift muted (consult reply d) := by
  -- on the recursion of the reply: a call back selects a format and cannot start a horizon
  induction reply generalizing d with
  | plan | fail | raise => rfl
  | callBack round next ih =>
    rw [consult, consult, selectWith_muted round (refuse_muted round)]
    cases selectWith refuse round d with
    | error fault d => rfl
    | ok _ d => exact ih d

theorem planHorizon_muted (d : DeadlineAware) :
    planHorizon round d.muted = lift muted (planHorizon round d) := by
  rw [planHorizon, planHorizon, expireAll_muted, show d.muted.book = d.book from rfl]
  cases d.book.cell.schedule round with
  | error fault => rfl
  | ok s =>
    cases expireAll round d.book.cell.ids d with
    | error fault d => rfl
    | ok _ d =>
      have hconsult := consult_muted (d.planner.reply d.consulted s d.book.cell.sizing)
        { d with consulted := d.consulted + 1 }
      simp only [muted, lift] at hconsult ⊢
      rw [hconsult]
      cases consult (d.planner.reply d.consulted s d.book.cell.sizing)
        { d with consulted := d.consulted + 1 } <;> rfl

theorem startHorizon_muted (d : DeadlineAware) :
    startHorizon round d.muted = lift muted (startHorizon round d) := by
  have hplanning : d.muted.planning = d.planning := rfl
  rw [startHorizon, startHorizon, hplanning]
  by_cases hbusy : d.planning = true
  · rw [if_pos hbusy, if_pos hbusy]
    rfl
  · have hplan := planHorizon_muted round { d with planning := true }
    rw [if_neg hbusy, if_neg hbusy]
    simp only [muted] at hplan ⊢
    rw [hplan]
    cases planHorizon round { d with planning := true } <;> rfl

theorem select_muted (d : DeadlineAware) : d.muted.select round = lift muted (d.select round) :=
  selectWith_muted round (startHorizon_muted round) d

theorem settle_noted (d : DeadlineAware) (index : Int) (p : Packet) :
    d.muted.settle round index (p.noted none) =
      (d.settle round index p).map fun q => q.noted none := by
  let q : Packet := { p with horizon := some d.book.lastIndex, scheduleIndex := some index }
  have hdrop : ∀ reason, (q.noted none).drop round reason =
      (q.drop round reason).map fun q => q.noted none := fun reason =>
        q.drop_noted none round reason
  have hfailed : d.muted.horizonFailed = d.horizonFailed := rfl
  have hassignment : d.muted.assignment = d.assignment := rfl
  dsimp only [settle]
  rw [hfailed, hassignment]
  by_cases h : d.horizonFailed = true
  · rw [if_pos h, if_pos h]
    exact hdrop .solverFailure
  · rw [if_neg h, if_neg h]
    cases d.assignment.round? index with
    | none => exact hdrop .unmatched
    | some r => exact q.schedule_noted none r index

theorem enroll_muted (id : Nat) (p : Packet) (d : DeadlineAware) :
    enroll round id (p.noted none) d.muted = lift muted (enroll round id p d) := by
  have hbook : d.muted.book = d.book := rfl
  have hcursor : d.muted.cursor? (p.noted none).station = d.cursor? p.station := rfl
  have harrival : (p.noted none).arrival = p.arrival := rfl
  dsimp only [enroll]
  rw [hbook, hcursor, harrival]
  cases d.book.schedule with
  | none => rfl
  | some s =>
    cases d.cursor? p.station with
    | none => rfl
    | some c =>
      dsimp only
      split_ifs
      · rfl
      cases c.advance with
      | error fault => rfl
      | ok x =>
        obtain ⟨index, c⟩ := x
        dsimp only
        cases s.entryAt? index with
        | none => rfl
        | some entry =>
          dsimp only
          have hstation : (p.noted none).station = p.station := rfl
          rw [hstation]
          split_ifs
          · rfl
          -- the fate of a packet follows from the plan and from what the packet is
          have hupdate : (d.muted.setCursor c).traffic.update id
              ((d.muted.setCursor c).settle round index) =
                ((d.setCursor c).traffic.update id ((d.setCursor c).settle round index)).map
                  Traffic.muted :=
            Traffic.update_muted _ id (settle_noted round (d.setCursor c) index)
          rw [hupdate]
          cases (d.setCursor c).traffic.update id ((d.setCursor c).settle round index) <;> rfl

theorem enrollAll_muted (d : DeadlineAware) :
    enrollAll round ids d.muted = lift muted (enrollAll round ids d) := by
  have htraffic : ∀ d : DeadlineAware, d.muted.traffic = d.traffic.muted := fun _ => rfl
  induction ids generalizing d with
  | nil => rfl
  | cons id ids ih =>
    rw [enrollAll, enrollAll, htraffic, Traffic.packet?_muted]
    cases d.traffic.packet? id with
    | none => rfl
    | some p =>
      dsimp only [Option.map_some]
      rw [Packet.noted_state, enroll_muted]
      split_ifs
      · cases enroll round id p d with
        | error fault d => rfl
        | ok _ d => exact ih d
      · exact ih d

def Walk.muted (w : Walk) : Walk := { w with traffic := w.traffic.muted }

theorem visit_muted (sizing : Sizing) (id : Nat) (w : Walk) :
    visit sizing round station id w.muted = lift Walk.muted (visit sizing round station id w) := by
  have htraffic : w.muted.traffic = w.traffic.muted := rfl
  have hallocations : w.muted.allocations = w.allocations := rfl
  rw [visit, visit, htraffic, hallocations, Traffic.packet?_muted]
  cases w.traffic.packet? id with
  | none => rfl
  | some p =>
    have hassigned : (p.noted none).assignedRound = p.assignedRound := rfl
    dsimp only [Option.map_some]
    rw [Packet.noted_state, hassigned]
    split_ifs
    · rfl
    cases p.assignedRound with
    | none => rfl
    | some due =>
      dsimp only
      split_ifs
      · cases sizing.units[w.allocations.length]? with
        | none => rfl
        | some ru =>
          dsimp only
          rw [Traffic.transmit_muted]
          cases w.traffic.update id fun p => p.transmit round ru <;> rfl
      · rw [Traffic.drop_muted]
        cases w.traffic.update id fun p => p.drop round .late <;> rfl
      · rfl

theorem visitAll_muted (sizing : Sizing) (w : Walk) :
    visitAll sizing round station ids w.muted =
      lift Walk.muted (visitAll sizing round station ids w) := by
  induction ids generalizing w with
  | nil => rfl
  | cons id ids ih =>
    rw [visitAll, visitAll, visit_muted]
    cases visit sizing round station id w with
    | error fault w => rfl
    | ok _ w => exact ih w

theorem serveStation_muted (out : RoundAssignment) (d : DeadlineAware) :
    serveStation round station out d.muted = lift muted (serveStation round station out d) := by
  have hwaiting : ∀ d : DeadlineAware, d.muted.traffic.waiting station =
      d.traffic.waiting station :=
    fun _ => rfl
  rw [serveStation, serveStation, hwaiting, enrollAll_muted]
  cases enrollAll round (d.traffic.waiting station) d with
  | error fault d => rfl
  | ok _ d =>
    have hvisit := visitAll_muted round station (d.traffic.waiting station) d.book.cell.sizing
      ⟨d.traffic, out.allocations, out.drops, [], false⟩
    simp only [lift, muted, Walk.muted, Traffic.waiting_muted] at hvisit ⊢
    rw [hvisit]
    cases visitAll d.book.cell.sizing round station (d.traffic.waiting station)
      ⟨d.traffic, out.allocations, out.drops, [], false⟩ <;> rfl

theorem serveAll_muted (out : RoundAssignment) (d : DeadlineAware) :
    serveAll round stations out d.muted = lift muted (serveAll round stations out d) := by
  induction stations generalizing out d with
  | nil => rfl
  | cons k stations ih =>
    rw [serveAll, serveAll, serveStation_muted]
    cases serveStation round k out d with
    | error fault d => rfl
    | ok out d => exact ih out d

theorem assign_muted (d : DeadlineAware) : d.muted.assign round = lift muted (d.assign round) :=
  serveAll_muted round d.book.candidates
    { RoundAssignment.empty round d.book.cell.sizing.ruType with drops := d.unreported }
    { d with unreported := [] }

end DeadlineAware

namespace RoundRobin

variable (round station : Int) (ids : List Nat) (stations : List Int) (out : RoundAssignment)

def muted (d : RoundRobin) : RoundRobin := { d with traffic := d.traffic.muted }

theorem select_muted (d : RoundRobin) : d.muted.select round = lift muted (d.select round) := by
  have hmuted : Book.withBacklog d.muted.traffic d.muted.order =
      Book.withBacklog d.traffic d.order := rfl
  let noted : RoundRobin := { d with
    book := { d.book with candidates := Book.withBacklog d.traffic d.order } }
  have hdue : noted.book.startsIn round = d.book.startsIn round := rfl
  simp only [select, startHorizon, hmuted]
  simp only [muted, noted] at hdue ⊢
  cases hnone : (Book.withBacklog d.traffic d.order).isEmpty with
  | true => rfl
  | false =>
    cases hstarts : d.book.startsIn round with
    | true =>
      simp only [hdue, hstarts, if_true, Bool.false_eq_true, if_false]
      cases d.book.cell.schedule round <;> rfl
    | false =>
      simp only [hdue, hstarts, Bool.false_eq_true, if_false]
      rfl

theorem pair_muted (id : Nat) (d : RoundRobin) : pair id d.muted = lift muted (pair id d) := by
  have hentry : d.muted.cached? id = d.cached? id := rfl
  have htraffic : d.muted.traffic = d.traffic.muted := rfl
  rw [pair, pair, hentry, htraffic, Traffic.packet?_muted]
  split_ifs
  · rfl
  cases d.traffic.packet? id with
  | none => rfl
  | some p =>
    have hlookUp : d.muted.lookUp (p.noted none) = d.lookUp p := rfl
    dsimp only [Option.map_some]
    rw [hlookUp]
    cases d.lookUp p with
    | none => rfl
    | some x =>
      obtain ⟨i, e⟩ := x
      simp only [lift, muted, Traffic.setPacket_muted]
      rfl

theorem pairAll_muted (d : RoundRobin) : pairAll ids d.muted = lift muted (pairAll ids d) := by
  induction ids generalizing d with
  | nil => rfl
  | cons id ids ih =>
    rw [pairAll, pairAll, pair_muted]
    cases pair id d with
    | error fault d => rfl
    | ok _ d => exact ih d

theorem send_muted (ru : Ru) (d : RoundRobin) :
    send round station ru out d.muted = lift muted (send round station ru out d) := by
  have htraffic : d.muted.traffic = d.traffic.muted := rfl
  rw [send, send, htraffic, Traffic.popFront_muted]
  cases d.traffic.popFront station with
  | error fault => rfl
  | ok x =>
    obtain ⟨id, tr⟩ := x
    dsimp only [Except.map]
    rw [Traffic.transmit_muted]
    cases tr.update id fun p => p.transmit round ru <;> rfl

theorem sendAll_muted (pairs : List (Ru × Int)) (d : RoundRobin) :
    sendAll round pairs out d.muted = lift muted (sendAll round pairs out d) := by
  induction pairs generalizing out d with
  | nil => rfl
  | cons x pairs ih =>
    obtain ⟨ru, k⟩ := x
    rw [sendAll, sendAll, send_muted]
    cases send round k ru out d with
    | error fault d => rfl
    | ok out d => exact ih out d

theorem dropAll_muted (d : RoundRobin) :
    dropAll round station ids out d.muted = lift muted (dropAll round station ids out d) := by
  induction ids generalizing out d with
  | nil => rfl
  | cons id ids ih =>
    simp only [dropAll, muted, forget, Traffic.waiting_muted, Traffic.setQueue_muted,
      Traffic.drop_muted]
    cases (d.traffic.setQueue station ((d.traffic.waiting station).filter (· ≠ id))).update id
      fun p => p.drop round .deadline with
    | error fault => rfl
    | ok tr => exact ih { out with drops := out.drops ++ [id] } { d.forget id with traffic := tr }

theorem expired_muted (d : RoundRobin) : d.muted.expired round ids = d.expired round ids := by
  have hexpired : ∀ id, d.muted.isExpired round id = d.isExpired round id := fun _ => rfl
  induction ids with
  | nil => rfl
  | cons id ids ih => rw [expired, expired, hexpired, ih]

theorem purge_muted (passedOver : List Int) (d : RoundRobin) :
    purge round passedOver station out d.muted =
      lift muted (purge round passedOver station out d) := by
  have hwaiting : ∀ d : RoundRobin, d.muted.traffic.waiting station = d.traffic.waiting station :=
    fun _ => rfl
  rw [purge, purge, expired_muted, hwaiting]
  cases d.expired round (d.traffic.waiting station) with
  | error fault => rfl
  | ok late =>
    dsimp only
    rw [dropAll_muted]
    cases dropAll round station late out d with
    | error fault d => rfl
    | ok out d =>
      dsimp only [lift]
      rw [hwaiting]
      split_ifs <;> rfl

theorem purgeAll_muted (passedOver : List Int) (d : RoundRobin) :
    purgeAll round passedOver stations out d.muted =
      lift muted (purgeAll round passedOver stations out d) := by
  induction stations generalizing out d with
  | nil => rfl
  | cons k stations ih =>
    rw [purgeAll, purgeAll, purge_muted]
    cases purge round passedOver k out d with
    | error fault d => rfl
    | ok out d => exact ih out d

theorem settleCredits_muted (served : List Int) (d : RoundRobin) :
    settleCredits served d.muted = (settleCredits served d).muted := by
  unfold settleCredits
  split_ifs <;> rfl

theorem assign_muted (d : RoundRobin) : d.muted.assign round = lift muted (d.assign round) := by
  have hbook : d.muted.book = d.book := rfl
  have hwaiting : d.muted.traffic.waiting = d.traffic.waiting := rfl
  dsimp only [assign]
  rw [hbook, hwaiting, pairAll_muted]
  cases pairAll (d.book.candidates.flatMap d.traffic.waiting) d with
  | error fault d => rfl
  | ok _ d₁ =>
    dsimp only [lift]
    rw [sendAll_muted]
    cases sendAll round (d.book.cell.sizing.units.zip
        (d.book.candidates.take d.book.cell.sizing.perRound))
      (RoundAssignment.empty round d.book.cell.sizing.ruType) d₁ with
    | error fault d => rfl
    | ok out d₂ =>
      dsimp only [lift]
      rw [purgeAll_muted]
      cases purgeAll round (d.book.candidates.drop d.book.cell.sizing.perRound) d.book.candidates
        out d₂ with
      | error fault d => rfl
      | ok out d₃ => exact congrArg (EStateM.Result.ok out) (settleCredits_muted _ d₃)

end RoundRobin

namespace Scheduler

variable (round : Int) (σ : Scheduler)

def muted : Scheduler → Scheduler
  | deadlineAware d => deadlineAware d.muted
  | roundRobin d => roundRobin d.muted

theorem lift_lift {ρ σ τ α : Type} (f : ρ → σ) (g : σ → τ) (x : Attempt ρ α) :
    lift g (lift f x) = lift (g ∘ f) x := by
  cases x <;> rfl

theorem select_muted : σ.muted.select round = lift muted (σ.select round) := by
  cases σ with
  | deadlineAware d =>
    rw [muted, select, select, DeadlineAware.select_muted, lift_lift, lift_lift]
    rfl
  | roundRobin d =>
    rw [muted, select, select, RoundRobin.select_muted, lift_lift, lift_lift]
    rfl

theorem assign_muted : σ.muted.assign round = lift muted (σ.assign round) := by
  cases σ with
  | deadlineAware d =>
    rw [muted, assign, assign, DeadlineAware.assign_muted, lift_lift, lift_lift]
    rfl
  | roundRobin d =>
    rw [muted, assign, assign, RoundRobin.assign_muted, lift_lift, lift_lift]
    rfl

theorem traffic_muted : σ.muted.traffic = σ.traffic.muted := by
  cases σ <;> rfl

theorem withTraffic_muted (tr : Traffic) :
    (σ.withTraffic tr).muted = σ.muted.withTraffic tr.muted := by
  cases σ <;> rfl

theorem book_muted : σ.muted.book = σ.book := by
  cases σ <;> rfl

theorem name_muted : σ.muted.name = σ.name := by
  cases σ <;> rfl

end Scheduler

end Downlink
