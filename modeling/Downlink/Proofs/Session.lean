import Mathlib.Tactic
import Downlink.Proofs.Custody
import Downlink.Proofs.Session.Planned
import Downlink.Proofs.Session.Queued

/-!
# Sessions

Outcomes of packets are final under any use of a scheduler: calls in any order and with any rounds,
faults in between, and a planner that fails, breaks its contract or calls its scheduler while it is
being consulted.
-/

namespace Downlink

open Traffic

@[simp]
theorem Attempt.state_lift {σ τ α : Type} (f : σ → τ) (x : Attempt σ α) :
    Attempt.state (Scheduler.lift f x) = f x.state := by
  cases x <;> rfl

theorem Traffic.Lasts.record (tr : Traffic) (reports : List TxReport) :
    Lasts tr (Engine.record tr reports) [] := by
  obtain ⟨-, -, -, -, hpacket⟩ := Engine.record_noted tr reports
  refine ⟨fun id p hp _ => hpacket id p hp, fun hc id q hq => ?_, .nil, by simp, by simp⟩
  obtain ⟨p, x, hp, rfl⟩ := Engine.exists_of_record hq
  exact (hc id p hp).noted x

theorem Traffic.Ready.record {tr : Traffic} (h : Ready tr) (reports : List TxReport) :
    Ready (Engine.record tr reports) := by
  obtain ⟨-, -, -, hwaiting, hpacket⟩ := Engine.record_noted tr reports
  constructor
  · intro k id hid
    obtain ⟨p, hp, hstation, hpending⟩ := h.pending k id (hwaiting k ▸ hid)
    obtain ⟨x, hx⟩ := hpacket id p hp
    exact ⟨p.noted x, hx, hstation, hpending⟩
  · intro k
    rw [hwaiting]
    exact h.nodup k

theorem Traffic.Allots.lift {σ : Type} {f : σ → Scheduler} {traffic : σ → Traffic} {tr : Traffic}
    {out : RoundAssignment} {x : Attempt σ RoundAssignment} (h : Allots traffic tr out x)
    (hf : ∀ d, (f d).traffic = traffic d) :
    Allots Scheduler.traffic tr out (Scheduler.lift f x) := by
  obtain ⟨sent, hlasts, hsent⟩ := h
  refine ⟨sent, by rwa [Attempt.state_lift, hf], fun out' s' hx => ?_⟩
  cases x with
  | error e d => cases hx
  | ok a d =>
    cases hx
    exact hsent _ d rfl

namespace Scheduler

variable {s : Scheduler} {tr : Traffic}

/-- A scheduler as it is set up, with any planner or any credits. -/
inductive Made : Scheduler → Prop
  | deadlineAware {stations : List Station} {width cap : Int} {pinned : Option RuType} {cell : Cell}
    {tr : Traffic} (hcell : Cell.make stations width cap pinned = .ok cell)
    (htr : Traffic.ofStations stations = .ok tr) (planner : Planner) :
    Made (.deadlineAware (DeadlineAware.make cell tr planner))
  | roundRobin {stations : List Station} {width cap : Int} {pinned : Option RuType} {cell : Cell}
    {tr : Traffic} (hcell : Cell.make stations width cap pinned = .ok cell)
    (htr : Traffic.ofStations stations = .ok tr) (roundDuration maxCredit : Float) :
    Made (.roundRobin (RoundRobin.make cell tr roundDuration maxCredit))

def Sound : Scheduler → Prop
  | deadlineAware _ => True
  | roundRobin d => d.traffic.Ready

theorem Sound.withTraffic (h : s.Sound) (htr : s.traffic.Ready → tr.Ready) :
    (s.withTraffic tr).Sound := by
  cases s with
  | deadlineAware d => trivial
  | roundRobin d => exact htr h

/-- What a call does to a sound scheduler. -/
structure Answers (s : Scheduler) (x : Attempt Scheduler Answer) : Prop where
  sound : x.state.Sound
  lasts : ∃ sent, Lasts s.traffic x.state.traffic sent ∧
    ∀ a s', x = .ok a s' → a.assignments.flatMap RoundAssignment.packets = sent

theorem answers_withTraffic {a : Answer} (h : s.Sound) (hlasts : Lasts s.traffic tr [])
    (htr : s.traffic.Ready → tr.Ready) (ha : a.assignments = []) :
    Answers s (.ok a (s.withTraffic tr)) where
  sound := h.withTraffic htr
  lasts := by
    refine ⟨[], ?_, fun a' s' hx => ?_⟩
    · rw [Attempt.state, Engine.traffic_withTraffic]
      exact hlasts
    · cases hx
      rw [ha]
      rfl

theorem select_lasts (h : s.Sound) (r : Int) :
    Lasts s.traffic (s.select r).state.traffic [] ∧ (s.select r).state.Sound := by
  cases s with
  | deadlineAware d =>
    rw [select, Attempt.state_lift]
    exact ⟨d.select_lasts r, trivial⟩
  | roundRobin d =>
    have hsame := d.select_traffic r
    rw [select, Attempt.state_lift]
    show Lasts d.traffic (d.select r).state.traffic [] ∧ (d.select r).state.traffic.Ready
    rw [hsame]
    exact ⟨.refl d.traffic, h⟩

theorem assign_allots (h : s.Sound) (r : Int) :
    Allots traffic s.traffic (.empty r s.sizing.ruType) (s.assign r) ∧
    (s.assign r).state.Sound := by
  cases s with
  | deadlineAware d =>
    exact ⟨(d.assign_allots r).lift fun _ => rfl, by rw [assign, Attempt.state_lift]; trivial⟩
  | roundRobin d =>
    have hdecides := RoundRobin.assign_decides h r
    exact ⟨hdecides.allots.lift fun _ => rfl, by
      rw [assign, Attempt.state_lift]
      exact hdecides.ready⟩

theorem Sound.answers (h : s.Sound) (c : Call) : Answers s (s.answer c) := by
  cases c with
  | generate round =>
    exact answers_withTraffic h (.generate s.traffic round) (·.generate round) rfl
  | emit station round =>
    rw [answer]
    split
    · exact ⟨h, [], .refl s.traffic, by simp⟩
    · rename_i id tr hemit
      exact answers_withTraffic h (.emit hemit) (·.emit hemit) rfl
  | report reports => exact answers_withTraffic h (.record s.traffic reports) (·.record reports) rfl
  | halt =>
    exact answers_withTraffic h (.of_packet? fun _ => rfl) (fun hr => ⟨hr.pending, hr.nodup⟩) rfl
  | select round =>
    obtain ⟨hlasts, hsound⟩ := select_lasts h round
    rw [answer]
    split
    · rename_i hx
      rw [hx] at hlasts hsound
      exact ⟨hsound, [], hlasts, by simp⟩
    · rename_i hx
      rw [hx] at hlasts hsound
      refine ⟨hsound, [], hlasts, fun a s' hx => ?_⟩
      cases hx
      rfl
  | assign round =>
    obtain ⟨⟨sent, hlasts, hsent⟩, hsound⟩ := assign_allots h round
    rw [answer]
    split
    · rename_i hx
      rw [hx] at hlasts hsound
      exact ⟨hsound, sent, hlasts, by simp⟩
    · rename_i out s₁ hx
      rw [hx] at hlasts hsound
      refine ⟨hsound, sent, hlasts, fun a s' ha => ?_⟩
      cases ha
      have hout := hsent out s₁ hx
      simpa [Answer.assignments, RoundAssignment.empty, RoundAssignment.packets] using hout
  | stop =>
    refine ⟨?_, [], ?_, fun a s' hx => ?_⟩
    · cases s with
      | deadlineAware d => trivial
      | roundRobin d => exact h
    · cases s <;> exact .refl _
    · cases hx
      rfl

theorem Made.start (h : s.Made) : s.Sound ∧ s.traffic.Coherent := by
  have hfresh : ∀ {stations tr}, Traffic.ofStations stations = .ok tr → tr.Ready ∧ tr.Coherent := by
    intro stations tr htr
    rw [ofStations_eq_ok htr]
    refine ⟨ready_fresh _, fun id p hp => ?_⟩
    simp [fresh, packet?] at hp
  cases h with
  | deadlineAware hcell htr planner => exact ⟨trivial, (hfresh htr).2⟩
  | roundRobin hcell htr roundDuration maxCredit => exact hfresh htr

end Scheduler

namespace Session

variable {s s' s'' : Session}

/-- The packets of all allocations that were returned. -/
def allocated (s : Session) : List Nat := s.returned.flatMap RoundAssignment.packets

theorem scheduler_answer (s : Session) (c : Call) :
    (s.answer c).state.scheduler = (s.scheduler.answer c).state := by
  rw [answer]
  cases s.scheduler.answer c <;> rfl

/-- What one stretch of a session, from a sound scheduler on, leaves. -/
structure Onward (s s' : Session) : Prop where
  sound : s'.scheduler.Sound
  lasts : ∃ sent, Lasts s.traffic s'.traffic sent ∧ s'.allocated = s.allocated ++ sent

theorem Onward.refl (h : s.scheduler.Sound) : Onward s s :=
  ⟨h, [], .refl s.traffic, (List.append_nil _).symm⟩

theorem Onward.trans (h₁ : Onward s s') (h₂ : Onward s' s'') : Onward s s'' := by
  obtain ⟨sent₁, hlasts₁, hsent₁⟩ := h₁.lasts
  obtain ⟨sent₂, hlasts₂, hsent₂⟩ := h₂.lasts
  exact ⟨h₂.sound, sent₁ ++ sent₂, hlasts₁.trans hlasts₂, by
    rw [hsent₂, hsent₁, List.append_assoc]⟩

theorem answer_onward (h : s.scheduler.Sound) (c : Call) : Onward s (s.answer c).state := by
  have hanswers := Scheduler.Sound.answers h c
  obtain ⟨sent, hlasts, hsent⟩ := hanswers.lasts
  rw [answer]
  split
  · rename_i hx
    rw [hx] at hlasts hanswers
    exact ⟨hanswers.sound, [], hlasts.untold, (List.append_nil _).symm⟩
  · rename_i a scheduler hx
    have hsound := hanswers.sound
    rw [hx] at hlasts hsound
    refine ⟨hsound, sent, hlasts, ?_⟩
    rw [← hsent a scheduler hx, allocated, allocated, ← List.flatMap_append]
    rfl

theorem answerAll_onward (h : s.scheduler.Sound) (calls : List Call) :
    Onward s (answerAll calls s) := by
  induction calls generalizing s with
  | nil => exact .refl h
  | cons c calls ih =>
    have hfirst := answer_onward h c
    exact hfirst.trans (ih hfirst.sound)

theorem onward_of_lasts (scheduler : Scheduler) (h : scheduler.Sound)
    (hlasts : Lasts s.traffic scheduler.traffic []) :
    Onward s { s with scheduler := scheduler } :=
  ⟨h, [], hlasts, (List.append_nil _).symm⟩

theorem conclude_onward (h : s.scheduler.Sound) (schedule : Schedule) :
    Onward s (s.conclude schedule).state := by
  obtain ⟨scheduler, returned⟩ := s
  cases scheduler with
  | roundRobin d => exact .refl h
  | deadlineAware d =>
    have hsame := d.conclude_traffic schedule
    dsimp only [conclude]
    split
    · rename_i e d₁ hx
      rw [hx] at hsame
      exact onward_of_lasts (.deadlineAware d₁) trivial
        (.of_packet? fun _ => congrArg (Traffic.packet? · _) hsame)
    · rename_i f d₁ hx
      rw [hx] at hsame
      exact onward_of_lasts (.deadlineAware d₁) trivial
        (.of_packet? fun _ => congrArg (Traffic.packet? · _) hsame)

theorem select_onward (h : s.scheduler.Sound) (conduct : Nat → List Call) (round : Int) :
    Onward s (s.select conduct round).state := by
  obtain ⟨scheduler, returned⟩ := s
  cases scheduler with
  | roundRobin d => exact answer_onward h (.select round)
  | deadlineAware d =>
    dsimp only [select]
    split_ifs
    · have hpropose := d.propose_lasts round
      split
      · rename_i e d₁ hx
        rw [hx] at hpropose
        exact onward_of_lasts (.deadlineAware d₁) trivial hpropose
      · rename_i schedule d₁ hx
        rw [hx] at hpropose
        have hproposed : Onward ⟨.deadlineAware d, returned⟩ ⟨.deadlineAware d₁, returned⟩ :=
          onward_of_lasts (.deadlineAware d₁) trivial hpropose
        have hcalls := answerAll_onward hproposed.sound (conduct d.consulted)
        exact (hproposed.trans hcalls).trans (conclude_onward hcalls.sound schedule)
    · exact answer_onward h (.select round)

theorem call_silent (s : Session) (c : Call) : s.call (fun _ => []) c = s.answer c := by
  cases c with
  | select round =>
    obtain ⟨scheduler, returned⟩ := s
    cases scheduler with
    | roundRobin d => rfl
    | deadlineAware d =>
      dsimp only [call, select]
      split_ifs with hconsults
      · rw [answer, Scheduler.answer, Scheduler.select]
        rcases DeadlineAware.select_of_consults hconsults with
          ⟨e, d₁, hpropose, hselect⟩ | ⟨schedule, d₁, hpropose, hselect⟩
        · rw [hpropose, hselect]
          rfl
        · rw [hpropose, hselect]
          dsimp only [answerAll, conclude]
          cases d₁.conclude schedule with
          | error e d₂ => rfl
          | ok f d₂ => simp [Scheduler.lift, Answer.assignments]
      · rfl
  | _ => rfl

theorem call_onward (h : s.scheduler.Sound) (conduct : Nat → List Call) (c : Call) :
    Onward s (s.call conduct c).state := by
  cases c with
  | select round => exact select_onward h conduct round
  | generate round => exact answer_onward h (.generate round)
  | emit station round => exact answer_onward h (.emit station round)
  | report reports => exact answer_onward h (.report reports)
  | halt => exact answer_onward h .halt
  | assign round => exact answer_onward h (.assign round)
  | stop => exact answer_onward h .stop

theorem run_onward (h : s.scheduler.Sound) (conduct : Nat → List Call) (calls : List Call) :
    Onward s (run conduct calls s) := by
  induction calls generalizing s with
  | nil => exact .refl h
  | cons c calls ih =>
    have hfirst := call_onward h conduct c
    exact hfirst.trans (ih hfirst.sound)

theorem run_append (conduct : Nat → List Call) (calls more : List Call) (s : Session) :
    run conduct (calls ++ more) s = run conduct more (run conduct calls s) := by
  induction calls generalizing s with
  | nil => rfl
  | cons c calls ih => exact ih _

/-- Outcomes are final, errors included: every packet records its outcome in full and only once it
has one, a packet that was sent or dropped never changes again but for its report, and no packet is
allocated twice over all assignments that were returned. -/
theorem outcomes_final {scheduler : Scheduler} (h : scheduler.Made) (conduct : Nat → List Call)
    (calls more : List Call) :
    let session := run conduct calls (ofScheduler scheduler)
    let later := run conduct (calls ++ more) (ofScheduler scheduler)
    (∀ id p, session.traffic.packet? id = some p → p.Coherent) ∧
    (∀ id p, session.traffic.packet? id = some p → p.state = .transmitted ∨ p.state = .dropped →
      ∃ x, later.traffic.packet? id = some { p with txStatus := x }) ∧
    session.allocated.Nodup := by
  intro session later
  obtain ⟨hsound, hcoherent⟩ := h.start
  have hsession : Onward (ofScheduler scheduler) session := run_onward hsound conduct calls
  have hlater : Onward session later := by
    show Onward session (run conduct (calls ++ more) (ofScheduler scheduler))
    rw [run_append]
    exact run_onward hsession.sound conduct more
  obtain ⟨sent, hlasts, hsent⟩ := hsession.lasts
  obtain ⟨_, hlasts', -⟩ := hlater.lasts
  refine ⟨hlasts.coherent hcoherent, fun id p hp hstate => hlasts'.resolved id p hp ?_, ?_⟩
  · rcases hstate with hstate | hstate <;> rw [Packet.isResolved, hstate] <;> rfl
  · rw [hsent]
    exact hlasts.nodup

/-- A plan with two packets in a round of one unit, by a planner that first calls back. The first
decision fails when it has sent one packet, the second sends the other. -/
theorem outcomes_final_crowded_round :
    let stations : List Station := [⟨1, 2, 0, 5⟩, ⟨2, 1, 1, 10⟩]
    let cell : Cell := ⟨stations, 1024, 2, 3, ⟨.mhz20, .tones242, 1, 3, 242⟩⟩
    let planner : Planner :=
      ⟨"crowded", fun _ s _ => .plan ⟨[(0, s.start), (1, s.start)], 15, "crowded"⟩⟩
    let scheduler : Scheduler :=
      .deadlineAware (DeadlineAware.make cell (Traffic.fresh stations) planner)
    let session := run (fun _ => [.select 0, .halt]) [.generate 0, .select 0, .assign 0, .assign 0]
      (ofScheduler scheduler)
    scheduler.Made ∧ session.traffic.state? 0 = some .transmitted ∧ session.allocated = [1] ∧
      session.allocated.Nodup ∧ ∀ id p, session.traffic.packet? id = some p → p.Coherent := by
  intro stations cell planner scheduler session
  have horder : Station.inOrder stations = stations := List.mergeSort_of_pairwise (by decide)
  have hcell : Cell.make stations 20 1024 (some .tones242) = .ok cell := by
    rw [Cell.make, horder]
    rfl
  have htr : Traffic.ofStations stations = .ok (Traffic.fresh stations) := by
    rw [Traffic.ofStations, horder]
    rfl
  have hmade : scheduler.Made := .deadlineAware hcell htr planner
  obtain ⟨hcoherent, -, hnodup⟩ := outcomes_final hmade (fun _ => [.select 0, .halt])
    [.generate 0, .select 0, .assign 0, .assign 0] []
  have hsession : session.traffic.state? 0 = some .transmitted ∧ session.allocated = [1] := by
    simp only [session, scheduler, planner, cell, stations]
    constructor <;> cbv
  exact ⟨hmade, hsession.1, hsession.2, hnodup, hcoherent⟩

end Session

end Downlink
