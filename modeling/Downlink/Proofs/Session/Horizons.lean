import Downlink.Proofs.DeadlineAware.Swap
import Downlink.Proofs.Session

/-!
# Horizons in a session

Whatever was asked of a deadline-aware scheduler before, and whatever its planner does, a horizon is
swapped in as a whole or not at all, and no other one starts while it is being planned.
-/

namespace Downlink.Session

open DeadlineAware

variable {s during : Session} {d d' : DeadlineAware} {schedule : Schedule} {asked : List Call}
  {conduct : Nat → List Call} {round r : Int} {cell : Cell} {planner : Planner}

theorem answer_abides (hd : s.scheduler = .deadlineAware d) (c : Call)
    (h : ∀ r, c = .select r → d.consults r = false) :
    ∃ d', (s.answer c).state.scheduler = .deadlineAware d' ∧ Abides d d' ∧
      ((∀ r, c ≠ .assign r) → d'.cursors = d.cursors) := by
  rw [scheduler_answer, hd]
  cases c with
  | generate r => exact ⟨_, rfl, ⟨_, _, _, _, _, rfl⟩, fun _ => rfl⟩
  | emit station r =>
    rw [Scheduler.answer]
    split
    · exact ⟨d, rfl, .refl d, fun _ => rfl⟩
    · exact ⟨_, rfl, ⟨_, _, _, _, _, rfl⟩, fun _ => rfl⟩
  | report reports => exact ⟨_, rfl, ⟨_, _, _, _, _, rfl⟩, fun _ => rfl⟩
  | halt => exact ⟨_, rfl, ⟨_, _, _, _, _, rfl⟩, fun _ => rfl⟩
  | select r =>
    obtain ⟨habides, hcursors⟩ := select_steady (h r rfl)
    rw [Scheduler.answer, Scheduler.select]
    generalize d.select r = x at habides hcursors
    cases x with
    | error e d' => exact ⟨d', rfl, habides, fun _ => hcursors⟩
    | ok f d' => exact ⟨d', rfl, habides, fun _ => hcursors⟩
  | assign r =>
    have habides := (d.assign_works r).abides
    rw [Scheduler.answer, Scheduler.assign]
    generalize d.assign r = x at habides
    cases x with
    | error e d' => exact ⟨d', rfl, habides, fun h => absurd rfl (h r)⟩
    | ok out d' => exact ⟨d', rfl, habides, fun h => absurd rfl (h r)⟩
  | stop => exact ⟨d.stop, rfl, d.stop_steady.1, fun _ => d.stop_steady.2⟩

theorem answerAll_abides (hd : s.scheduler = .deadlineAware d) (hplanning : d.planning = true)
    (calls : List Call) :
    ∃ d', (answerAll calls s).scheduler = .deadlineAware d' ∧ Abides d d' ∧
      ((∀ r, .assign r ∉ calls) → d'.cursors = d.cursors) := by
  induction calls generalizing s d with
  | nil => exact ⟨d, hd, .refl d, fun _ => rfl⟩
  | cons c calls ih =>
    obtain ⟨d₁, hd₁, h₁, hcursors₁⟩ := answer_abides hd c fun r _ => by
      rw [consults_eq, hplanning, Bool.not_true, Bool.and_false]
    obtain ⟨d₂, hd₂, h₂, hcursors₂⟩ := ih hd₁ (h₁.planning.trans hplanning)
    refine ⟨d₂, hd₂, h₁.trans h₂, fun hasked => ?_⟩
    rw [hcursors₂ fun r hr => hasked r (List.mem_cons_of_mem c hr),
      hcursors₁ fun r hr => hasked r (hr ▸ List.mem_cons_self)]

structure Idle (cell : Cell) (planner : Planner) (d : DeadlineAware) : Prop where
  planning : d.planning = false
  cell : d.book.cell = cell
  planner : d.planner = planner

theorem Idle.of_abides (h : Idle cell planner d) (habides : Abides d d') :
    Idle cell planner d' := by
  obtain ⟨_, _, _, _, _, rfl⟩ := habides
  exact ⟨h.planning, h.cell, h.planner⟩

/-- Nothing that belongs to a horizon is replaced. Cursors move only for a planner that asks for
assignments itself. -/
structure Kept (asked : List Call) (d d' : DeadlineAware) : Prop where
  active : d'.book.schedule = d.book.schedule
  assignment : d'.assignment = d.assignment
  cursors : (∀ r, .assign r ∉ asked) → d'.cursors = d.cursors
  failed : d'.horizonFailed = d.horizonFailed
  horizons : d'.book.horizons = d.book.horizons

/-- All that belongs to a horizon is that of a new one, with one record more. -/
structure Started (schedule : Schedule) (decision : Decision) (d d' : DeadlineAware) : Prop where
  active : d'.book.schedule = some schedule
  assignment : d'.assignment = decision.assignment
  cursors : ∀ k, d'.cursor? k =
    (schedule.run? k).map fun run => ⟨k, run.start, run.stop, run.start⟩
  failed : d'.horizonFailed = decision.failure.isSome
  horizons : d'.book.horizons = d.book.horizons ++
    [{ index := d.book.horizons.length
       start := schedule.start
       rounds := schedule.rounds
       packets := schedule.entries.length
       ruType := d.book.cell.sizing.ruType
       perRound := d.book.cell.sizing.perRound
       backend := d.planner.name
       matched := decision.assignment.length
       totalWeight := decision.weight
       maxWeight := schedule.totalPenalty
       failed := decision.failure.isSome
       error := decision.failure.map SolveFault.message }]

/-- The session while a planner is consulted about a schedule, when it has made these calls. -/
def Asking (round : Int) (s : Session) (d : DeadlineAware) (schedule : Schedule) (asked : List Call)
    (during : Session) : Prop :=
  ∃ d₁, d.propose round = .ok schedule d₁ ∧
    during = answerAll asked { s with scheduler := .deadlineAware d₁ }

/-- How an attempt to start a horizon ends: with the horizon as a whole, or with a fault. -/
inductive Ends (conduct : Nat → List Call) (round : Int) (s : Session) (d d' : DeadlineAware) :
    Attempt Session Answer → Prop
  | unproposed {e : Fault} {s' : Session} (hpropose : d.propose round = .error e d')
      (hcause : d.book.cell.schedule round = .error e ∨
        ∃ k ∈ d.book.cell.ids, stale d.traffic k round ≠ [])
      (hkept : Kept [] d d') : Ends conduct round s d d' (.error e s')
  | refused {schedule : Schedule} {during s' : Session} {d₂ : DeadlineAware} {e : Fault}
      (hasking : Asking round s d schedule (conduct d.consulted) during)
      (hduring : during.scheduler = .deadlineAware d₂)
      (hreply : (d.planner.reply d.consulted schedule d.book.cell.sizing).verdict d₂ = .error e)
      (hkept : Kept (conduct d.consulted) d d') : Ends conduct round s d d' (.error e s')
  | started {schedule : Schedule} {during s' : Session} {d₂ : DeadlineAware} {decision : Decision}
      (hasking : Asking round s d schedule (conduct d.consulted) during)
      (hduring : during.scheduler = .deadlineAware d₂)
      (hreply : (d.planner.reply d.consulted schedule d.book.cell.sizing).verdict d₂ = .ok decision)
      (hschedule : d.book.cell.schedule round = .ok schedule) (hstart : schedule.start = round)
      (hstarted : Started schedule decision d d') :
      Ends conduct round s d d' (.ok (.format .dlMuTx) s')

theorem Asking.abides (h : Asking round s d schedule asked during) :
    d.book.cell.schedule round = .ok schedule ∧
      ∃ d₂, during.scheduler = .deadlineAware d₂ ∧ Abides { d with planning := true } d₂ ∧
        ((∀ r, .assign r ∉ asked) → d₂.cursors = d.cursors) := by
  obtain ⟨d₁, hpropose, rfl⟩ := h
  rcases d.propose_cases round with
    ⟨e, d', hx, -⟩ | ⟨schedule', d', hx, hschedule, habides, hcursors⟩
  · rw [hx] at hpropose
    cases hpropose
  · rw [hx] at hpropose
    cases hpropose
    obtain ⟨d₂, hd₂, habides₂, hcursors₂⟩ := answerAll_abides
      (s := { s with scheduler := .deadlineAware d₁ }) rfl habides.planning asked
    exact ⟨hschedule, d₂, hd₂, habides.trans habides₂,
      fun hasked => (hcursors₂ hasked).trans hcursors⟩

theorem select_of_not_consults (hd : s.scheduler = .deadlineAware d) (h : d.consults r = false)
    (conduct : Nat → List Call) : s.select conduct r = s.answer (.select r) := by
  obtain ⟨scheduler, returned⟩ := s
  obtain rfl := hd
  dsimp only [select]
  rw [h, if_neg Bool.false_ne_true]

theorem select_of_planning (hd : during.scheduler = .deadlineAware d)
    (hplanning : d.planning = true) (hattempt : d.attempts r = true) (conduct : Nat → List Call) :
    during.select conduct r = .error (.showing [r] (.desync (.reentered r)))
      { during with scheduler := .deadlineAware d.noteBacklog } := by
  have hconsults : d.consults r = false := by
    rw [consults_eq, hplanning, Bool.not_true, Bool.and_false]
  rw [select_of_not_consults hd hconsults, answer, hd, Scheduler.answer, Scheduler.select,
    DeadlineAware.select_of_planning hplanning hattempt]
  rfl

theorem Asking.ends (hasking : Asking round s d schedule (conduct d.consulted) during)
    (hidle : Idle cell planner d) :
    ∃ d', (during.conclude schedule).state.scheduler = .deadlineAware d' ∧ Idle cell planner d' ∧
      Ends conduct round s d d' (during.conclude schedule) := by
  obtain ⟨hschedule, d₂, hd₂, habides₂, hcursors₂⟩ := hasking.abides
  obtain ⟨scheduler, returned⟩ := during
  obtain rfl := hd₂
  obtain ⟨_, _, _, _, _, rfl⟩ := habides₂
  dsimp only [conclude]
  rcases conclude_cases schedule _ with
    ⟨e, d', hreply, hx, habides, hcursors⟩ | ⟨decision, d', hreply, hx, habides, hcursors⟩
  · rw [hx]
    obtain ⟨_, _, _, _, _, rfl⟩ := habides
    exact ⟨_, rfl, ⟨rfl, hidle.cell, hidle.planner⟩, .refused hasking rfl hreply
      ⟨rfl, rfl, fun hasked => hcursors.trans (hcursors₂ hasked), rfl, rfl⟩⟩
  · rw [hx]
    have hcursor := cursor?_install schedule decision d'
    obtain ⟨_, _, _, _, _, rfl⟩ := habides
    exact ⟨_, rfl, ⟨rfl, hidle.cell, hidle.planner⟩,
      .started hasking rfl hreply hschedule (start_of_schedule hschedule)
        ⟨rfl, rfl, hcursor, rfl, by rw [install, Book.begin, Book.recordOf, Option.isSome_map]⟩⟩

theorem select_ends (hd : s.scheduler = .deadlineAware d) (hidle : Idle cell planner d)
    (hattempt : d.attempts round = true) (conduct : Nat → List Call) :
    ∃ d', (s.select conduct round).state.scheduler = .deadlineAware d' ∧ Idle cell planner d' ∧
      Ends conduct round s d d' (s.select conduct round) := by
  have hconsults : d.consults round = true := by
    rw [consults_eq, hattempt, hidle.planning]
    rfl
  obtain ⟨scheduler, returned⟩ := s
  obtain rfl := hd
  dsimp only [select]
  rw [if_pos hconsults]
  rcases d.propose_cases round with ⟨e, d', hx, hcause, habides, hcursors⟩ | ⟨schedule, d₁, hx, -⟩
  · rw [hx]
    obtain ⟨_, _, _, _, _, rfl⟩ := habides
    exact ⟨_, rfl, ⟨rfl, hidle.cell, hidle.planner⟩,
      .unproposed hx hcause ⟨rfl, rfl, fun _ => hcursors, rfl, rfl⟩⟩
  · rw [hx]
    exact Asking.ends ⟨d₁, hx, rfl⟩ hidle

theorem verdict_callBack (next : Reply) (hattempt : d.attempts r = true) :
    (Reply.callBack r next).verdict d = .error (.showing [r] (.desync (.reentered r))) := by
  rw [Reply.verdict, if_pos hattempt]

theorem select_of_call_back (conduct : Nat → List Call) (hd : s.scheduler = .deadlineAware d)
    (hattempt : d.attempts r = true) (hplanning : d.planning = false)
    (hasked : conduct d.consulted = []) (hschedule : d.book.cell.schedule r = .ok schedule)
    (hfresh : ∀ k ∈ d.book.cell.ids, stale d.traffic k r = []) {next : Reply}
    (hreply : d.planner.reply d.consulted schedule d.book.cell.sizing = .callBack r next) :
    ∃ s', s.select conduct r = .error (.showing [r] (.desync (.reentered r))) s' := by
  have hconsults : d.consults r = true := by
    rw [consults_eq, hattempt, hplanning]
    rfl
  have hpropose : d.propose r = .ok schedule { d.noteBacklog with planning := true } := by
    have hexpire := expireAll_of_not_stale (d := { d.noteBacklog with planning := true }) hfresh
    rw [noteBacklog] at hexpire ⊢
    simp only [propose, hschedule, hexpire]
  have hrefused := verdict_callBack (d := { d.noteBacklog with planning := true }) next hattempt
  obtain ⟨scheduler, returned⟩ := s
  obtain rfl := hd
  dsimp only [select]
  rw [if_pos hconsults, hpropose]
  dsimp only
  rw [hasked, answerAll, conclude]
  dsimp only
  rcases conclude_cases schedule { d.noteBacklog with planning := true } with
    ⟨e, d', hverdict, hx, -⟩ | ⟨decision, d', hverdict, hx, -⟩
  · obtain rfl := Except.error.inj (hverdict.symm.trans ((congrArg _ hreply).trans hrefused))
    rw [hx]
    exact ⟨_, rfl⟩
  · cases hverdict.symm.trans ((congrArg _ hreply).trans hrefused)

theorem call_idle (hd : s.scheduler = .deadlineAware d) (hidle : Idle cell planner d)
    (conduct : Nat → List Call) (c : Call) :
    ∃ d', (s.call conduct c).state.scheduler = .deadlineAware d' ∧ Idle cell planner d' := by
  have hother : (∀ r, c = .select r → d.consults r = false) →
      ∃ d', (s.answer c).state.scheduler = .deadlineAware d' ∧ Idle cell planner d' := fun h => by
    obtain ⟨d', hd', habides, -⟩ := answer_abides hd c h
    exact ⟨d', hd', hidle.of_abides habides⟩
  cases c with
  | select r =>
    rw [call]
    cases hconsults : d.consults r with
    | false =>
      rw [select_of_not_consults hd hconsults]
      exact hother fun r' hr => by cases hr; exact hconsults
    | true =>
      rw [consults_eq, Bool.and_eq_true] at hconsults
      obtain ⟨d', hd', hidle', -⟩ := select_ends hd hidle hconsults.1 conduct
      exact ⟨d', hd', hidle'⟩
  | generate r => exact hother fun _ hr => by cases hr
  | emit station r => exact hother fun _ hr => by cases hr
  | report reports => exact hother fun _ hr => by cases hr
  | halt => exact hother fun _ hr => by cases hr
  | assign r => exact hother fun _ hr => by cases hr
  | stop => exact hother fun _ hr => by cases hr

theorem run_idle (hd : s.scheduler = .deadlineAware d) (hidle : Idle cell planner d)
    (conduct : Nat → List Call) (calls : List Call) :
    ∃ d', (run conduct calls s).scheduler = .deadlineAware d' ∧ Idle cell planner d' := by
  induction calls generalizing s d with
  | nil => exact ⟨d, hd, hidle⟩
  | cons c calls ih =>
    obtain ⟨d₁, hd₁, hidle₁⟩ := call_idle hd hidle conduct c
    exact ih hd₁ hidle₁

/-- A selection that tries to start a horizon ends with the new horizon as a whole, or with a fault
and the old one untouched. No attempt of its planner to start another one succeeds, each is refused
as a desynchronisation if its round can be written, and afterwards none is being planned. -/
theorem horizons_swap_whole (cell : Cell) (tr : Traffic) (planner : Planner)
    (conduct : Nat → List Call) (calls : List Call) (round : Int) :
    let session := run conduct calls
      (ofScheduler (.deadlineAware (DeadlineAware.make cell tr planner)))
    ∃ d, session.scheduler = .deadlineAware d ∧ Idle cell planner d ∧
      (d.attempts round = true →
        (∃ d', (session.select conduct round).state.scheduler = .deadlineAware d' ∧
          Idle cell planner d' ∧ Ends conduct round session d d' (session.select conduct round)) ∧
        ∀ schedule asked during, Asking round session d schedule asked during →
          ∃ d₂, during.scheduler = .deadlineAware d₂ ∧ d₂.planning = true ∧ Kept asked d d₂ ∧
            ∀ r, d₂.attempts r = true → ∃ f d₃, Fault.Shows [r] (.desync (.reentered r)) f ∧
              during.select conduct r = .error f { during with scheduler := .deadlineAware d₃ } ∧
              d₃.planning = true ∧ Kept asked d d₃) := by
  intro session
  obtain ⟨d, hd, hidle⟩ := run_idle (s := ofScheduler (.deadlineAware (.make cell tr planner)))
    rfl ⟨rfl, rfl, rfl⟩ conduct calls
  refine ⟨d, hd, hidle, fun hattempt => ⟨select_ends hd hidle hattempt conduct, ?_⟩⟩
  intro schedule asked during hasking
  obtain ⟨-, d₂, hd₂, habides, hcursors⟩ := hasking.abides
  have hkept : Kept asked d d₂ := by
    obtain ⟨_, _, _, _, _, rfl⟩ := habides
    exact ⟨rfl, rfl, hcursors, rfl, rfl⟩
  exact ⟨d₂, hd₂, habides.planning, hkept, fun r hr =>
    ⟨_, _, Fault.shows_desync _ _, select_of_planning hd₂ habides.planning hr conduct,
      habides.planning, hkept.active, hkept.assignment, hkept.cursors, hkept.failed,
      hkept.horizons⟩⟩

/-- A planner that calls back for another horizon the first time it is consulted: that attempt
leaves everything as it was, the next one starts a horizon. -/
theorem horizons_swap_whole_after_call_back :
    let stations : List Station := [⟨1, 2, 0, 5⟩, ⟨2, 1, 1, 10⟩]
    let cell : Cell := ⟨stations, 1024, 2, 3, ⟨.mhz20, .tones242, 1, 3, 242⟩⟩
    let plan : Reply := .plan ⟨[(0, 0)], 5, "eager"⟩
    let planner : Planner := ⟨"eager", fun k _ _ => if k = 0 then .callBack 0 plan else plan⟩
    let conduct : Nat → List Call := fun _ => [.select 0]
    let session := run conduct [.generate 0, .select 0]
      (ofScheduler (.deadlineAware (DeadlineAware.make cell (Traffic.fresh stations) planner)))
    ∃ d d', session.scheduler = .deadlineAware d ∧ d.attempts 0 = true ∧ d.book.horizons = [] ∧
      (session.select conduct 0).state.scheduler = .deadlineAware d' ∧ d'.planning = false ∧
      Ends conduct 0 session d d' (session.select conduct 0) ∧
      d'.book.horizons.map HorizonRecord.matched = [1] := by
  intro stations cell plan planner conduct session
  have hbefore : (!(Book.withBacklog session.traffic session.scheduler.book.cell.ids).isEmpty &&
      session.scheduler.book.startsIn 0) = true ∧ session.scheduler.horizons = [] := by
    simp only [session, conduct, planner, plan, cell, stations]
    constructor <;> cbv
  have hafter : (session.select conduct 0).state.scheduler.horizons.map HorizonRecord.matched =
      [1] := by
    simp only [session, conduct, planner, plan, cell, stations]
    cbv
  obtain ⟨d, hd, -, hswap⟩ := horizons_swap_whole cell (Traffic.fresh stations) planner conduct
    [.generate 0, .select 0] 0
  rw [traffic, show session.scheduler = .deadlineAware d from hd] at hbefore
  obtain ⟨⟨d', hd', hidle, hends⟩, -⟩ := hswap hbefore.1
  rw [show (session.select conduct 0).state.scheduler = .deadlineAware d' from hd'] at hafter
  exact ⟨d, d', hd, hbefore.1, hbefore.2, hd', hidle.planning, hends, hafter⟩

/-- A planner that calls back in its own round, which has too many digits: what is raised is that
the refusal cannot be put in words. -/
theorem reentered_round_too_long :
    let stations : List Station := [⟨1, 1, 0, 5⟩]
    let cell : Cell := ⟨stations, 1024, 1, 1, ⟨.mhz20, .tones242, 1, 3, 242⟩⟩
    let planner : Planner := ⟨"stub", fun _ s _ => .callBack s.start (.plan ⟨[], 0, "stub"⟩)⟩
    let round : Int := 10 ^ Text.digitLimit
    let session := run (fun _ => []) [.emit 1 round]
      (ofScheduler (.deadlineAware (DeadlineAware.make cell (Traffic.fresh stations) planner)))
    Cell.make stations 20 1024 (some .tones242) = .ok cell ∧
      Traffic.ofStations stations = .ok (Traffic.fresh stations) ∧
      (∃ d, session.scheduler = .deadlineAware d ∧ d.attempts round = true) ∧
      ∃ s, session.select (fun _ => []) round = .error (.value .tooManyDigits) s := by
  intro stations cell planner round
  have hlong : Text.isWritable round = false := by decide +kernel
  have hpos : 0 ≤ round := by decide +kernel
  clear_value round
  intro session
  have horder : Station.inOrder stations = stations := List.mergeSort_of_pairwise (by decide)
  have hcell : Cell.make stations 20 1024 (some .tones242) = .ok cell := by
    rw [Cell.make, horder]
    rfl
  have htr : Traffic.ofStations stations = .ok (Traffic.fresh stations) := by
    rw [Traffic.ofStations, horder]
    rfl
  let d : DeadlineAware := { DeadlineAware.make cell (Traffic.fresh stations) planner with
    traffic := (Traffic.fresh stations).emitFrom ⟨1, 1, 0, 5⟩ round }
  have hd : session.scheduler = .deadlineAware d := rfl
  have hattempt : d.attempts round = true := by
    have hperiod : round % d.book.cell.horizonRounds = 0 := Int.emod_one round
    rw [attempts, Book.startsIn, hperiod]
    rfl
  have hstale : ∀ k ∈ d.book.cell.ids, stale d.traffic k round = [] := by
    intro k hk
    obtain rfl : k = 1 := List.mem_singleton.mp hk
    refine List.filter_eq_nil_iff.mpr fun id hid => ?_
    obtain rfl : id = 0 := List.mem_singleton.mp hid
    show ¬ decide (round < round) = true
    simp
  obtain ⟨s, hs⟩ := select_of_call_back (fun _ => []) hd hattempt rfl rfl
    ((Cell.make_eq_ok hcell).1.schedule round hpos) hstale rfl
  rw [Fault.showing_of_unwritable List.mem_cons_self hlong] at hs
  exact ⟨hcell, htr, ⟨d, hd, hattempt⟩, s, hs⟩

end Downlink.Session
