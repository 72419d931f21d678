import Downlink.Proofs.Session.Horizons
import Downlink.Proofs.Session.Rounds

/-!
# Succession of horizons

Where the selected rounds never go back, horizons follow one another without overlap, whatever fails
in between: one is recorded only by a selection, with something queued, when the last one is over
and nobody has stopped the horizons.
-/

namespace Downlink

def Call.selected? : Call → Option Int
  | .select round => some round
  | _ => none

namespace DeadlineAware

variable {d : DeadlineAware}

theorem consult_generating (reply : Reply) (d : DeadlineAware) :
    (consult reply d).state.book.generating = d.book.generating := by
  induction reply generalizing d with
  | callBack round next ih =>
    rw [consult]
    rcases selectWith_refuse round d with ⟨-, hrefused⟩ | ⟨-, f, hselect⟩
    · rw [hrefused]
      rfl
    · rw [hselect]
      exact ih d.noteBacklog
  | _ => rfl

theorem propose_generating (r : Int) (d : DeadlineAware) :
    (propose r d).state.book.generating = d.book.generating := by
  have hexpire :=
    (expireAll_works r d.book.cell.ids { d.noteBacklog with planning := true }).1.generating
  rw [propose]
  dsimp only
  split
  · rfl
  · split
    · rename_i hx
      rw [noteBacklog, hx] at hexpire
      exact hexpire
    · rename_i hx
      rw [noteBacklog, hx] at hexpire
      exact hexpire

theorem conclude_generating (s : Schedule) (d : DeadlineAware) :
    (conclude s d).state.book.generating = d.book.generating := by
  have hconsult := consult_generating (d.planner.reply d.consulted s d.book.cell.sizing)
    { d with consulted := d.consulted + 1 }
  rw [conclude]
  dsimp only
  split
  · rename_i hx
    rwa [hx] at hconsult
  · rename_i hx
    rwa [hx] at hconsult

theorem select_generating (r : Int) (d : DeadlineAware) :
    (d.select r).state.book.generating = d.book.generating := by
  cases hconsults : d.consults r with
  | true =>
    have hpropose := d.propose_generating r
    rcases select_of_consults hconsults with ⟨e, d₁, hp, hselect⟩ | ⟨s, d₁, hp, hselect⟩
    · rw [hp] at hpropose
      rw [hselect]
      exact hpropose
    · rw [hp] at hpropose
      rw [hselect, conclude_generating]
      exact hpropose
  | false =>
    by_cases hattempt : d.attempts r = true
    · have hplanning : d.planning = true := by simpa [consults_eq, hattempt] using hconsults
      rw [select_of_planning hplanning hattempt]
      rfl
    · rw [select, selectWith]
      dsimp only
      split_ifs with hempty hstarts
      · rfl
      · have hstarts : d.book.startsIn r = true := hstarts
        simp [attempts, hempty, hstarts] at hattempt
      · rfl

end DeadlineAware

theorem RoundRobin.select_generating (r : Int) (d : RoundRobin) :
    (d.select r).state.book.generating = d.book.generating := by
  unfold RoundRobin.select startHorizon
  dsimp only
  split_ifs
  · rfl
  · cases d.book.cell.schedule r <;> rfl
  · rfl

theorem Scheduler.answer_generating {s : Scheduler} (h : s.Sound) (c : Call) :
    (s.answer c).state.book.generating = (s.book.generating && c ≠ .stop) := by
  have hsteady : ∀ x : Attempt Scheduler Answer, x.state.book.generating = s.book.generating →
      c ≠ .stop → x.state.book.generating = (s.book.generating && c ≠ .stop) := by
    intro x hx hc
    rw [hx, decide_eq_true hc, Bool.and_true]
  cases c with
  | generate round => exact hsteady _ (by cases s <;> rfl) (by simp)
  | emit station round =>
    refine hsteady _ ?_ (by simp)
    rw [answer]
    cases s.traffic.emit station round with
    | error e => rfl
    | ok x => cases s <;> rfl
  | report reports => exact hsteady _ (by cases s <;> rfl) (by simp)
  | halt => exact hsteady _ (by cases s <;> rfl) (by simp)
  | select round =>
    have hselect : (s.select round).state.book.generating = s.book.generating := by
      cases s with
      | deadlineAware d =>
        rw [select, Attempt.state_lift]
        exact d.select_generating round
      | roundRobin d =>
        rw [select, Attempt.state_lift]
        exact d.select_generating round
    refine hsteady _ ?_ (by simp)
    rw [answer]
    generalize s.select round = x at hselect
    cases x <;> exact hselect
  | assign round =>
    have hassign : (s.assign round).state.book.generating = s.book.generating := by
      cases s with
      | deadlineAware d =>
        rw [assign, Attempt.state_lift]
        exact (d.assign_works round).generating
      | roundRobin d =>
        rw [assign, Attempt.state_lift]
        exact congrArg Book.generating (RoundRobin.assign_same h round).book
    refine hsteady _ ?_ (by simp)
    rw [answer]
    generalize s.assign round = x at hassign
    cases x <;> exact hassign
  | stop => cases s <;> simp [answer, Attempt.state, stop, book, DeadlineAware.stop,
      RoundRobin.stop, Book.stop]

namespace Session

variable {s : Session} {conduct : Nat → List Call}

def generating (s : Session) : Bool := s.scheduler.book.generating

theorem answer_generating (h : s.scheduler.Sound) (c : Call) :
    (s.answer c).state.generating = (s.generating && c ≠ .stop) := by
  rw [generating, scheduler_answer]
  exact Scheduler.answer_generating h c

theorem answerAll_generating (h : s.scheduler.Sound) (calls : List Call)
    (hlater : (answerAll calls s).generating = true) : s.generating = true := by
  induction calls generalizing s with
  | nil => exact hlater
  | cons c calls ih =>
    have hnext := ih (answer_onward h c).sound hlater
    rw [answer_generating h, Bool.and_eq_true] at hnext
    exact hnext.1

theorem conclude_generating (schedule : Schedule) (s : Session) :
    (s.conclude schedule).state.generating = s.generating := by
  obtain ⟨scheduler, returned⟩ := s
  cases scheduler with
  | roundRobin d => rfl
  | deadlineAware d =>
    have hconclude := d.conclude_generating schedule
    dsimp only [conclude]
    generalize d.conclude schedule = x at hconclude
    cases x <;> exact hconclude

theorem select_generating (h : s.scheduler.Sound) (conduct : Nat → List Call) (round : Int)
    (hlater : (s.select conduct round).state.generating = true) : s.generating = true := by
  have hanswer : (s.answer (.select round)).state.generating = true → s.generating = true := by
    intro ha
    rw [answer_generating h, Bool.and_eq_true] at ha
    exact ha.1
  obtain ⟨scheduler, returned⟩ := s
  cases scheduler with
  | roundRobin d => exact hanswer hlater
  | deadlineAware d =>
    have hpropose := d.propose_generating round
    dsimp only [select] at hlater
    split_ifs at hlater
    · split at hlater
      · rename_i e d₁ hx
        rw [hx] at hpropose
        exact hpropose.symm.trans hlater
      · rename_i schedule d₁ hx
        rw [hx] at hpropose
        rw [conclude_generating] at hlater
        exact hpropose.symm.trans (answerAll_generating (s := ⟨.deadlineAware d₁, returned⟩) trivial
          (conduct d.consulted) hlater)
    · exact hanswer hlater

theorem call_generating (h : s.scheduler.Sound) (conduct : Nat → List Call) (c : Call)
    (hlater : (s.call conduct c).state.generating = true) : s.generating = true ∧ c ≠ .stop := by
  have hanswer : (s.answer c).state.generating = true → s.generating = true ∧ c ≠ .stop := by
    intro ha
    rw [answer_generating h, Bool.and_eq_true, decide_eq_true_eq] at ha
    exact ha
  cases c with
  | select round => exact ⟨select_generating h conduct round hlater, by simp⟩
  | _ => exact hanswer hlater

theorem run_generating (h : s.scheduler.Sound) (conduct : Nat → List Call) (calls : List Call)
    (hlater : (run conduct calls s).generating = true) :
    s.generating = true ∧ .stop ∉ calls := by
  induction calls generalizing s with
  | nil => exact ⟨hlater, List.not_mem_nil⟩
  | cons c calls ih =>
    obtain ⟨hnext, hcalls⟩ := ih (call_onward h conduct c).sound hlater
    obtain ⟨hfirst, hc⟩ := call_generating h conduct c hnext
    exact ⟨hfirst, List.not_mem_cons_of_ne_of_not_mem hc.symm hcalls⟩

end Session

namespace Book

variable {c : Cell} {b b' : Book} {r : Int}

/-- The horizons are numbered in the order of their starts; each starts at a multiple of their
length and none before the last one is over, and the last one is active. -/
structure Successive (c : Cell) (b : Book) : Prop where
  index : ∀ (i : Nat) (h : HorizonRecord), b.horizons[i]? = some h → h.index = i
  aligned : ∀ h ∈ b.horizons, c.horizonRounds ∣ h.start
  increasing : b.horizons.Pairwise fun h h' => h.start < h'.start
  apart : b.horizons.Pairwise fun h h' => h.start + c.horizonRounds ≤ h'.start
  active : b.schedule = b.horizons.getLast?.map fun h =>
    Schedule.ofStations c.stations h.start c.horizonRounds

structure Keeps (b b' : Book) : Prop where
  schedule : b'.schedule = b.schedule
  horizons : b'.horizons = b.horizons

structure Begins (c : Cell) (r : Int) (b b' : Book) : Prop where
  starts : b.startsIn r = true
  schedule : b'.schedule = some (Schedule.ofStations c.stations r c.horizonRounds)
  horizons : ∃ h : HorizonRecord, b'.horizons = b.horizons ++ [h] ∧
    h.index = b.horizons.length ∧ h.start = r

theorem Keeps.successive (hk : Keeps b b') (h : Successive c b) : Successive c b' where
  index := hk.horizons ▸ h.index
  aligned := hk.horizons ▸ h.aligned
  increasing := hk.horizons ▸ h.increasing
  apart := hk.horizons ▸ h.apart
  active := by rw [hk.schedule, hk.horizons, h.active]

theorem Successive.over (h : Successive c b) (hstarts : b.startsIn r = true)
    (hpast : ∀ h ∈ b.horizons, h.start ≤ r) :
    ∀ h ∈ b.horizons, h.start + c.horizonRounds ≤ r := by
  intro g hg
  obtain ⟨last, hlast⟩ : ∃ last, b.horizons.getLast? = some last :=
    ⟨_, List.getLast?_eq_some_getLast (List.ne_nil_of_mem hg)⟩
  have hinactive : b.active r = false := by
    simp only [startsIn, Bool.and_eq_true, Bool.not_eq_true'] at hstarts
    exact hstarts.2
  have hover : last.start + c.horizonRounds ≤ r := by
    have hbegun := hpast last (List.mem_of_getLast? hlast)
    rw [Book.active, h.active, hlast] at hinactive
    simp only [Option.map_some, Schedule.contains, Bool.and_eq_false_iff,
      decide_eq_false_iff_not] at hinactive
    simp only [Schedule.stop, Schedule.ofStations] at hinactive
    omega
  obtain ⟨before, hsplit⟩ := List.getLast?_eq_some_iff.mp hlast
  rw [hsplit] at hg
  rcases List.mem_append.mp hg with hbefore | hg
  · have hbelow := h.increasing
    rw [hsplit, List.pairwise_append] at hbelow
    have := hbelow.2.2 g hbefore last (List.mem_singleton_self last)
    omega
  · rwa [List.mem_singleton.mp hg]

theorem Begins.successive (hpos : 0 < c.horizonRounds) (hcell : b.cell = c) (hb : Begins c r b b')
    (h : Successive c b) (hpast : ∀ h ∈ b.horizons, h.start ≤ r) : Successive c b' := by
  have hover := h.over hb.starts hpast
  obtain ⟨new, hnew, hindex, hstart⟩ := hb.horizons
  have haligned : c.horizonRounds ∣ r := by
    have hstarts := hb.starts
    simp only [startsIn, Bool.and_eq_true, decide_eq_true_eq, hcell] at hstarts
    exact Int.dvd_of_emod_eq_zero hstarts.1.2
  refine ⟨fun i g hg => ?_, fun g hg => ?_, ?_, ?_, ?_⟩
  · rw [hnew] at hg
    rcases Nat.lt_or_ge i b.horizons.length with hi | hi
    · rw [List.getElem?_append_left hi] at hg
      exact h.index i g hg
    · rw [List.getElem?_append_right hi, List.getElem?_singleton] at hg
      split_ifs at hg with hlast
      obtain rfl := Option.some.inj hg
      rw [hindex]
      omega
  · rw [hnew] at hg
    rcases List.mem_append.mp hg with hg | hg
    · exact h.aligned g hg
    · rwa [List.mem_singleton.mp hg, hstart]
  · rw [hnew]
    refine List.pairwise_append.mpr ⟨h.increasing, List.pairwise_singleton _ _,
      fun g hg g' hg' => ?_⟩
    have := hover g hg
    rw [List.mem_singleton.mp hg', hstart]
    omega
  · rw [hnew]
    refine List.pairwise_append.mpr ⟨h.apart, List.pairwise_singleton _ _, fun g hg g' hg' => ?_⟩
    rw [List.mem_singleton.mp hg', hstart]
    exact hover g hg
  · rw [hb.schedule, hnew, List.getLast?_concat, Option.map_some, hstart]

theorem exists_waiting {tr : Traffic} {order : List Int}
    (h : (withBacklog tr order).isEmpty = false) : ∃ k id, id ∈ tr.waiting k := by
  obtain ⟨k, hk⟩ := List.exists_mem_of_ne_nil _ (List.isEmpty_eq_false_iff.mp h)
  have hwaiting := (List.mem_filter.mp hk).2
  rw [Bool.not_eq_true', List.isEmpty_eq_false_iff] at hwaiting
  exact ⟨k, List.exists_mem_of_ne_nil _ hwaiting⟩

end Book

namespace Session

open Book

variable {c : Cell} {s s' : Session} {r : Int}

def Fits (c : Cell) : Scheduler → Prop
  | .deadlineAware d => Idle c d.planner d
  | .roundRobin d => RoundRobin.Orderly c d

theorem Fits.cell {scheduler : Scheduler} (h : Fits c scheduler) : scheduler.book.cell = c := by
  cases scheduler with
  | deadlineAware d => exact Idle.cell h
  | roundRobin d => exact RoundRobin.Orderly.cell h

inductive Turn (c : Cell) (s s' : Session) : Call → Prop
  | keeps {call : Call} (keeps : Keeps s.scheduler.book s'.scheduler.book) : Turn c s s' call
  | begins {r : Int} (queued : ∃ k id, id ∈ s.traffic.waiting k)
    (begins : Begins c r s.scheduler.book s'.scheduler.book) : Turn c s s' (.select r)

theorem turn_deadlineAware {d : DeadlineAware} (hc : c.Sound) (hd : s.scheduler = .deadlineAware d)
    (h : Idle c d.planner d) (conduct : Nat → List Call) (call : Call) :
    Turn c s (s.call conduct call).state call := by
  have hother : (∀ r, call = .select r → d.consults r = false) →
      Turn c s (s.answer call).state call := fun hnone => by
    obtain ⟨d', hd', habides, -⟩ := answer_abides hd call hnone
    obtain ⟨_, _, _, _, _, rfl⟩ := habides
    exact .keeps (by rw [hd, hd']; exact ⟨rfl, rfl⟩)
  cases call with
  | select r =>
    rw [call]
    cases hconsults : d.consults r with
    | false =>
      rw [select_of_not_consults hd hconsults]
      exact hother fun r' hr => by cases hr; exact hconsults
    | true =>
      rw [DeadlineAware.consults_eq, Bool.and_eq_true] at hconsults
      obtain ⟨hattempt, -⟩ := hconsults
      obtain ⟨d', hd', -, hends⟩ := select_ends hd h hattempt conduct
      have hkeeps : ∀ {asked}, Kept asked d d' →
          Turn c s (s.select conduct r).state (.select r) := fun hkept =>
        .keeps (by rw [hd, hd']; exact ⟨hkept.active, hkept.horizons⟩)
      simp only [DeadlineAware.attempts, Bool.and_eq_true, Bool.not_eq_true'] at hattempt
      generalize s.select conduct r = x at hd' hends hkeeps
      cases hends with
      | unproposed _ _ hkept => exact hkeeps hkept
      | refused _ _ _ hkept => exact hkeeps hkept
      | started _ _ _ hschedule hstart hstarted =>
        rw [h.cell] at hschedule
        obtain rfl := RoundRobin.schedule_eq_ok hc hschedule
        refine .begins ?_ ?_
        · rw [traffic, hd]
          exact exists_waiting hattempt.1
        · rw [hd, hd']
          exact ⟨hattempt.2, hstarted.active, _, hstarted.horizons, rfl, rfl⟩
  | _ => exact hother fun _ hr => by cases hr

theorem turn_roundRobin {d : RoundRobin} (hc : c.Sound) (hd : s.scheduler = .roundRobin d)
    (h : RoundRobin.Orderly c d) (call : Call) : Turn c s (s.answer call).state call := by
  have hsame : ((Scheduler.roundRobin d).answer call).state.book = d.book →
      Turn c s (s.answer call).state call := fun hbook =>
    .keeps (by rw [scheduler_answer, hd, hbook]; exact ⟨rfl, rfl⟩)
  cases call with
  | emit station round =>
    refine hsame ?_
    rw [Scheduler.answer]
    split <;> rfl
  | select r =>
    have hstate : (s.answer (.select r)).state.scheduler.book = (d.select r).state.book := by
      rw [scheduler_answer, hd, Scheduler.answer_select]
      rfl
    have hkeeps : Keeps d.book (d.select r).state.book → Turn c s (s.answer (.select r)).state
        (.select r) := fun hkeeps => .keeps (by rw [hstate, hd]; exact hkeeps)
    have hbegins : (∃ k id, id ∈ d.traffic.waiting k) → Begins c r d.book (d.select r).state.book →
        Turn c s (s.answer (.select r)).state (.select r) := fun hqueued hbegins =>
      .begins (by rw [traffic, hd]; exact hqueued) (by rw [hstate, hd]; exact hbegins)
    obtain rfl := h.cell
    unfold RoundRobin.select RoundRobin.startHorizon at hkeeps hbegins
    dsimp only at hkeeps hbegins
    split_ifs at hkeeps hbegins with hempty hstarts
    · exact hkeeps ⟨rfl, rfl⟩
    · cases hschedule : d.book.cell.schedule r with
      | error e =>
        rw [hschedule] at hkeeps
        exact hkeeps ⟨rfl, rfl⟩
      | ok schedule =>
        obtain rfl := RoundRobin.schedule_eq_ok hc hschedule
        rw [hschedule] at hbegins
        exact hbegins (exists_waiting (Bool.eq_false_iff.mpr hempty))
          ⟨hstarts, rfl, _, rfl, rfl, rfl⟩
    · exact hkeeps ⟨rfl, rfl⟩
  | assign round =>
    refine hsame ?_
    rw [Scheduler.answer_assign]
    exact (RoundRobin.assign_same h.ready round).book
  | stop => exact .keeps (by rw [scheduler_answer, hd]; exact ⟨rfl, rfl⟩)
  | _ => exact hsame rfl

theorem call_turn (hc : c.Sound) (h : Fits c s.scheduler) (conduct : Nat → List Call)
    (call : Call) :
    Fits c (s.call conduct call).state.scheduler ∧ Turn c s (s.call conduct call).state call := by
  obtain ⟨scheduler, returned⟩ := s
  cases scheduler with
  | deadlineAware d =>
    obtain ⟨d', hd', hidle⟩ := call_idle (s := ⟨.deadlineAware d, returned⟩) rfl h conduct call
    refine ⟨?_, turn_deadlineAware hc rfl h conduct call⟩
    rw [hd']
    exact ⟨hidle.planning, hidle.cell, rfl⟩
  | roundRobin d =>
    have hanswer : (Session.mk (.roundRobin d) returned).call conduct call =
        (Session.mk (.roundRobin d) returned).answer call := by
      cases call <;> rfl
    obtain ⟨d', hd', horderly⟩ := RoundRobin.Orderly.answer hc h call
    rw [hanswer]
    refine ⟨?_, turn_roundRobin hc rfl h call⟩
    rw [scheduler_answer, hd']
    exact horderly

theorem run_fits (hc : c.Sound) (h : Fits c s.scheduler) (conduct : Nat → List Call)
    (calls : List Call) : Fits c (run conduct calls s).scheduler := by
  induction calls generalizing s with
  | nil => exact h
  | cons call calls ih => exact ih (call_turn hc h conduct call).1

theorem run_successive (hc : c.Sound) (h : Fits c s.scheduler) (conduct : Nat → List Call)
    (calls : List Call) (hrounds : (calls.filterMap Call.selected?).Pairwise (· ≤ ·))
    (hpast : ∀ r ∈ calls.filterMap Call.selected?, ∀ h ∈ s.scheduler.horizons, h.start ≤ r)
    (hsuccessive : Successive c s.scheduler.book) :
    Successive c (run conduct calls s).scheduler.book := by
  induction calls generalizing s with
  | nil => exact hsuccessive
  | cons call calls ih =>
    obtain ⟨hfits, hturn⟩ := call_turn hc h conduct call
    have hlater : ∀ r ∈ calls.filterMap Call.selected?,
        r ∈ (call :: calls).filterMap Call.selected? :=
      fun r hr => by
        obtain ⟨call', hmem, hcall'⟩ := List.mem_filterMap.mp hr
        exact List.mem_filterMap.mpr ⟨call', List.mem_cons_of_mem call hmem, hcall'⟩
    have hrest : (calls.filterMap Call.selected?).Pairwise (· ≤ ·) :=
      hrounds.sublist ((List.sublist_cons_self call calls).filterMap Call.selected?)
    cases hturn with
    | keeps hkeeps =>
      refine ih hfits hrest (fun r hr h hh => ?_) (hkeeps.successive hsuccessive)
      rw [Scheduler.horizons, hkeeps.horizons] at hh
      exact hpast r (hlater r hr) h hh
    | @begins round hqueued hbegins =>
      have hround : ∀ h ∈ s.scheduler.horizons, h.start ≤ round :=
        hpast round (List.mem_filterMap.mpr ⟨_, List.mem_cons_self, rfl⟩)
      obtain ⟨new, hnew, -, hstart⟩ := hbegins.horizons
      refine ih hfits hrest (fun r hr h hh => ?_)
        (hbegins.successive hc.horizon.pos h.cell hsuccessive hround)
      rw [Scheduler.horizons, hnew] at hh
      rcases List.mem_append.mp hh with hh | hh
      · exact hpast r (hlater r hr) h hh
      · rw [List.mem_singleton.mp hh, hstart]
        exact List.rel_of_pairwise_cons hrounds hr

theorem fits_of_made {scheduler : Scheduler} (h : scheduler.Made) :
    scheduler.book.cell.Sound ∧ Fits scheduler.book.cell scheduler ∧
      scheduler.book.schedule = none ∧
      scheduler.horizons = [] := by
  cases h with
  | deadlineAware hcell htr planner =>
    exact ⟨(Cell.make_eq_ok hcell).1, ⟨rfl, rfl, rfl⟩, rfl, rfl⟩
  | roundRobin hcell htr roundDuration maxCredit =>
    obtain ⟨d, hd, horderly⟩ := serves_make hcell htr roundDuration maxCredit
    cases hd
    exact ⟨(Cell.make_eq_ok hcell).1, horderly, rfl, rfl⟩

/-- Horizons succeed one another without overlap while the selected rounds never go back, whatever
fails, and whatever a planner does while it is being consulted. A call records at most one, and only
a selection does, for its round, with a packet queued, while horizons have not been stopped. -/
theorem horizons_succeed {scheduler : Scheduler} (h : scheduler.Made) (conduct : Nat → List Call)
    (calls : List Call) (hrounds : (calls.filterMap Call.selected?).Pairwise (· ≤ ·)) :
    Successive scheduler.book.cell (run conduct calls (ofScheduler scheduler)).scheduler.book ∧
    ∀ before call after, calls = before ++ call :: after →
      let session := run conduct before (ofScheduler scheduler)
      let later := (session.call conduct call).state
      later.scheduler.horizons = session.scheduler.horizons ∨
        ∃ round h, call = .select round ∧
          later.scheduler.horizons = session.scheduler.horizons ++ [h] ∧ h.start = round ∧
          (∃ k id, id ∈ session.traffic.waiting k) ∧ session.generating = true ∧
          .stop ∉ before := by
  obtain ⟨hc, hfits, hschedule, hhorizons⟩ := fits_of_made h
  rw [Scheduler.horizons] at hhorizons
  have hstart : Successive scheduler.book.cell scheduler.book :=
    ⟨by simp [hhorizons], by simp [hhorizons], by simp [hhorizons], by simp [hhorizons],
      by simp [hschedule, hhorizons]⟩
  refine ⟨run_successive (s := ofScheduler scheduler) hc hfits conduct calls hrounds
    (by simp [ofScheduler, Scheduler.horizons, hhorizons]) hstart, ?_⟩
  intro before call after hsplit session later
  have hsession : Fits scheduler.book.cell session.scheduler :=
    run_fits (s := ofScheduler scheduler) hc hfits conduct before
  cases (call_turn hc hsession conduct call).2 with
  | keeps hkeeps => exact Or.inl hkeeps.horizons
  | @begins round hqueued hbegins =>
    obtain ⟨new, hnew, -, hround⟩ := hbegins.horizons
    have hgenerating : session.generating = true := by
      have hstarts := hbegins.starts
      simp only [Book.startsIn, Bool.and_eq_true] at hstarts
      exact hstarts.1.1
    obtain ⟨-, hstopped⟩ := run_generating (s := ofScheduler scheduler) h.start.1 conduct before
      hgenerating
    exact Or.inr ⟨round, new, rfl, hnew, hround, hqueued, hgenerating, hstopped⟩

/-- A planner that raises when it is first consulted and asks for a horizon of its own every time.
The round is selected again, boundaries are skipped, and nothing begins once horizons have been
stopped. -/
theorem horizons_succeed_after_fault :
    let stations : List Station := [⟨1, 2, 0, 5⟩, ⟨2, 1, 1, 10⟩]
    let cell : Cell := ⟨stations, 1024, 2, 3, ⟨.mhz20, .tones242, 1, 3, 242⟩⟩
    let planner : Planner :=
      ⟨"late", fun k s _ => if k = 0 then .raise .outOfRange else .plan ⟨[(0, s.start)], 5, "late"⟩⟩
    let scheduler : Scheduler :=
      .deadlineAware (DeadlineAware.make cell (Traffic.fresh stations) planner)
    let calls : List Call := [.generate 0, .select 0, .select 0, .select 3, .generate 4, .select 4,
      .select 5, .stop, .generate 6, .select 6]
    let session := run (fun _ => [.select 8]) calls (ofScheduler scheduler)
    scheduler.Made ∧ (calls.filterMap Call.selected?).Pairwise (· ≤ ·) ∧
      Successive cell session.scheduler.book ∧
      session.scheduler.horizons.map HorizonRecord.start = [0, 4] := by
  intro stations cell planner scheduler calls session
  have horder : Station.inOrder stations = stations := List.mergeSort_of_pairwise (by decide)
  have hcell : Cell.make stations 20 1024 (some .tones242) = .ok cell := by
    rw [Cell.make, horder]
    rfl
  have htr : Traffic.ofStations stations = .ok (Traffic.fresh stations) := by
    rw [Traffic.ofStations, horder]
    rfl
  have hmade : scheduler.Made := .deadlineAware hcell htr planner
  have hrounds : (calls.filterMap Call.selected?).Pairwise (· ≤ ·) := by decide
  have hstarts : session.scheduler.horizons.map HorizonRecord.start = [0, 4] := by
    simp only [session, calls, scheduler, planner, cell, stations]
    cbv
  exact ⟨hmade, hrounds, (horizons_succeed hmade (fun _ => [.select 8]) calls hrounds).1, hstarts⟩

end Session

end Downlink
