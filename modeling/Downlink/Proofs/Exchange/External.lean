import Downlink.Exchange.External
import Downlink.Proofs.Assignment.Permuted
import Downlink.Proofs.Exchange.Text
import Downlink.Proofs.Plan

/-!
# Planning with an untrusted process

A plan comes out exactly when the process ended well and its text, read back, can be permuted within
stations into the windows; whatever the process did, a plan that comes out is sound and does not
depend on what the folder held before. A fallback turns every solve fault into a plan, whichever
heaviest matching it finds. What escapes both is a fault of the call itself, or a number with too
many digits for the command line or for the wording of a refusal.
-/

namespace Downlink

variable {stations : List Station} {start H cap : Int} {s : Schedule} {z : Sizing}
  {m : Assignment} {p : Plan} {f : Fault} {backend : String}

namespace Plan

structure Sound (s : Schedule) (z : Sizing) (p : Plan) : Prop where
  distinct : p.assignment.Distinct
  feasible : p.assignment.Feasible s z.perRound
  ordered : Assignment.Ordered s p.assignment
  total : p.totalWeight = p.assignment.weight s

theorem finish_eq_ok : finish s z backend m = .ok p ↔
    Assignment.Feasible s z.perRound (Assignment.redeal s m) ∧
      p = ⟨Assignment.redeal s m, (Assignment.redeal s m).weight s, backend⟩ := by
  rw [← Assignment.check_eq_ok_iff_feasible, finish]
  cases Assignment.check s (Assignment.redeal s m) z.perRound with
  | error e => simp
  | ok u => simp [eq_comm]

theorem finish_sound (h : Horizon stations H) (hd : m.Distinct)
    (hi : ∀ p ∈ m, 0 ≤ p.1 ∧ p.1 < (Schedule.ofStations stations start H).entries.length)
    (hp : finish (Schedule.ofStations stations start H) z backend m = .ok p) :
    p.Sound (Schedule.ofStations stations start H) z := by
  obtain ⟨hf, rfl⟩ := finish_eq_ok.mp hp
  exact ⟨Assignment.redeal_distinct h hd hi, hf, Assignment.redeal_ordered h m, rfl⟩

theorem ofMatching_sound (h : Horizon stations H) {M : List SlotEdge}
    (hM : SlotGraph.Heaviest (Schedule.ofStations stations start H) z.perRound M) :
    ∃ p, ofMatching (Schedule.ofStations stations start H) z M = .ok p ∧
      p.Sound (Schedule.ofStations stations start H) z := by
  obtain ⟨hd, hf, -, -⟩ := hM.best
  have hok := finish_ok h matchingName hd hf
  exact ⟨_, hok, finish_sound h hd hf.index hok⟩

theorem byMatching_sound (h : Horizon stations H) (z : Sizing) (start : Int) :
    ∃ p, byMatching (Schedule.ofStations stations start H) z = .ok p ∧
      p.Sound (Schedule.ofStations stations start H) z := by
  obtain ⟨M, hM, he⟩ := byMatching_eq h z start
  rw [he]
  exact ofMatching_sound h hM

end Plan

namespace Assignment

theorem bounded_ofStations (h : Horizon stations H) (hs : 0 ≤ start) :
    Bounded (Schedule.ofStations stations start H)
      (max (Schedule.ofStations stations start H).entries.length
        (Schedule.ofStations stations start H).stop) := by
  have hstop : (Schedule.ofStations stations start H).stop = start + H := rfl
  have hclip : ∀ e ∈ (Schedule.ofStations stations start H).entries,
      start ≤ ((Schedule.ofStations stations start H).clip e).1 ∧
        ((Schedule.ofStations stations start H).clip e).1 ≤
          ((Schedule.ofStations stations start H).clip e).2 ∧
        ((Schedule.ofStations stations start H).clip e).2 < start + H := by
    intro e he
    obtain ⟨s, hs, he⟩ := List.mem_flatMap.mp he
    rw [Schedule.stationPackets_eq] at he
    obtain ⟨k, hk, rfl⟩ := List.mem_map.mp he
    exact Schedule.clip_nonempty h hs (List.mem_range.mp hk) start
  refine ⟨le_max_left _ _, fun e he => ?_, fun e he => ?_⟩ <;>
  · have := hclip e he
    omega

end Assignment

namespace External

variable {x : External} {process : List String → List String → ProcessOutcome} {folder : Folder}
  {spare : Except Fault Plan}

/-- The process is called, exits with zero and writes a text that reads as `m`. -/
def Delivers (x : External) (process : List String → List String → ProcessOutcome) (s : Schedule)
    (z : Sizing) (m : Assignment) : Prop :=
  ∃ words complaint text, Exchange.arguments s z = .ok words ∧
    process x.command words = .finished 0 complaint (some text) ∧
    Exchange.parse text.toList s.entries.length s.start = .ok m

/-- A number of the call, a round of the answer or the end of the horizon has too many digits. -/
def Unwritable (x : External) (process : List String → List String → ProcessOutcome) (s : Schedule)
    (z : Sizing) : Prop :=
  (∃ i ∈ Exchange.numbers s z, Text.isWritable i = false) ∨
    ∃ m, x.Delivers process s z m ∧ ∃ r ∈ s.stop :: m.rounds, Text.isWritable r = false

/-- The process call breaks with a fault, or ends well and leaves a file that breaks the reading. -/
def Broken (x : External) (process : List String → List String → ProcessOutcome) (s : Schedule)
    (z : Sizing) (f : Fault) : Prop :=
  ∃ words, Exchange.arguments s z = .ok words ∧
    (process x.command words = .broken f ∨
      ∃ complaint, process x.command words = .garbled 0 complaint f)

/-- The faults that are no failures to plan, so that no fallback catches them. -/
inductive Escapes (x : External) (process : List String → List String → ProcessOutcome)
    (s : Schedule) (z : Sizing) : Fault → Prop
  | unwritable (h : x.Unwritable process s z) : Escapes x process s z (.value .tooManyDigits)
  | broken {f : Fault} (h : x.Broken process s z f) (hf : ∀ cause, f ≠ .solve cause) :
    Escapes x process s z f

theorem judge_folder (folder folder' : Folder) (o : ProcessOutcome) :
    x.judge s z folder' o = x.judge s z folder o := by
  cases o <;> rfl

theorem planOr_folder (folder' : Folder) :
    x.planOr spare process folder' s z = x.planOr spare process folder s z := by
  unfold planOr
  cases Exchange.arguments s z with
  | error e => rfl
  | ok words => simp only [judge_folder folder folder']

theorem delivers_iff {words : List String} (hw : Exchange.arguments s z = .ok words) :
    x.Delivers process s z m ↔ ∃ complaint text,
      process x.command words = .finished 0 complaint (some text) ∧
        Exchange.parse text.toList s.entries.length s.start = .ok m := by
  simp only [Delivers, hw, Except.ok.injEq]
  exact ⟨fun ⟨_, complaint, text, he, h⟩ => ⟨complaint, text, he ▸ h⟩,
    fun ⟨complaint, text, h⟩ => ⟨words, complaint, text, rfl, h⟩⟩

theorem planOr_eq {words : List String} (hw : Exchange.arguments s z = .ok words) :
    x.planOr spare process folder s z =
      x.orFallback spare (x.judge s z folder (process x.command words)) := by
  unfold planOr
  rw [hw]

theorem Delivers.unique {m' : Assignment} (h : x.Delivers process s z m)
    (h' : x.Delivers process s z m') : m' = m := by
  obtain ⟨words, complaint, text, hw, hp, hm⟩ := h
  obtain ⟨complaint', text', hp', hm'⟩ := (delivers_iff hw).mp h'
  rw [hp, ProcessOutcome.finished.injEq, Option.some.injEq] at hp'
  obtain ⟨-, -, rfl⟩ := hp'
  rw [hm] at hm'
  exact (Except.ok.inj hm').symm

theorem readBack_written (s : Schedule) (z : Sizing) (folder : Folder) (code : Int)
    (complaint text : String) :
    readBack s z (leave folder (.finished code complaint (some text))) =
      (Exchange.parse text.toList s.entries.length s.start).bind (Plan.finish s z name) := by
  simp only [readBack, leave, Folder.write, Option.some_or]
  cases Exchange.parse text.toList s.entries.length s.start <;> rfl

theorem judge_cases (x : External) (process : List String → List String → ProcessOutcome)
    (folder : Folder) {words : List String} (hw : Exchange.arguments s z = .ok words) :
    (∃ m, x.Delivers process s z m ∧
      x.judge s z folder (process x.command words) = Plan.finish s z name m) ∨
    ∃ f, x.judge s z folder (process x.command words) = .error f ∧
      (∀ m, ¬ x.Delivers process s z m) ∧
      ((∃ cause, f = .solve cause) ∨ x.Broken process s z f) := by
  cases ho : process x.command words with
  | timedOut => exact .inr ⟨_, rfl, by simp [delivers_iff hw, ho], .inl ⟨_, rfl⟩⟩
  | notStarted reason => exact .inr ⟨_, rfl, by simp [delivers_iff hw, ho], .inl ⟨_, rfl⟩⟩
  | broken fault =>
    exact .inr ⟨fault, rfl, by simp [delivers_iff hw, ho], .inr ⟨words, hw, .inl ho⟩⟩
  | garbled code complaint fault =>
    have hnone : ∀ m, ¬ x.Delivers process s z m := by simp [delivers_iff hw, ho]
    by_cases hc : code = 0
    · subst hc
      exact .inr ⟨fault, rfl, hnone, .inr ⟨words, hw, .inr ⟨complaint, ho⟩⟩⟩
    · exact .inr ⟨_, if_pos hc, hnone, .inl ⟨_, rfl⟩⟩
  | finished code complaint written =>
    by_cases hc : code = 0
    · subst hc
      have hjudge : x.judge s z folder (.finished 0 complaint written) =
          readBack s z (leave folder (.finished 0 complaint written)) := rfl
      cases written with
      | none => exact .inr ⟨_, rfl, by simp [delivers_iff hw, ho], .inl ⟨_, rfl⟩⟩
      | some text =>
        rw [hjudge, readBack_written]
        cases hm : Exchange.parse text.toList s.entries.length s.start with
        | error e =>
          exact .inr ⟨e, rfl, by simp [delivers_iff hw, ho, hm], .inl (Exchange.parse_error hm)⟩
        | ok m => exact .inl ⟨m, (delivers_iff hw).mpr ⟨complaint, text, ho, hm⟩, rfl⟩
    · exact .inr ⟨_, if_pos hc, by simp [delivers_iff hw, ho, hc], .inl ⟨_, rfl⟩⟩

theorem Delivers.judge_eq {words : List String} (hw : Exchange.arguments s z = .ok words)
    (hm : x.Delivers process s z m) (folder : Folder) :
    x.judge s z folder (process x.command words) = Plan.finish s z name m := by
  rcases judge_cases x process folder hw with
    ⟨m', hm', hj⟩ | ⟨-, -, hnone, -⟩
  · rw [hj, hm.unique hm']
  · exact absurd hm (hnone m)

theorem Delivers.decoded (h : x.Delivers process s z m) :
    Exchange.Decoded s.entries.length m := by
  obtain ⟨-, -, text, -, -, hm⟩ := h
  exact Exchange.parse_decoded hm

theorem mem_numbers_length : (s.entries.length : Int) ∈ Exchange.numbers s z := by
  simp [Exchange.numbers]

theorem planOr_of_unwritable (x : External) (spare : Except Fault Plan)
    (process : List String → List String → ProcessOutcome) (folder : Folder) {i : Int}
    (hi : i ∈ Exchange.numbers s z) (hw : Text.isWritable i = false) :
    x.planOr spare process folder s z = .error (.value .tooManyDigits) := by
  have hargs : Exchange.arguments s z = .error (.value .tooManyDigits) := by
    rw [Exchange.arguments, if_neg]
    rw [List.all_eq_true]
    exact fun hall => Bool.eq_false_iff.mp hw (hall i hi)
  unfold planOr
  rw [hargs]

theorem Delivers.finish_error (h : Horizon stations H) (hs : 0 ≤ start)
    (hm : x.Delivers process (Schedule.ofStations stations start H) z m)
    (hf : Plan.finish (Schedule.ofStations stations start H) z backend m = .error f) :
    (∃ cause, f = .solve cause) ∨
      f = .value .tooManyDigits ∧
        x.Unwritable process (Schedule.ofStations stations start H) z := by
  obtain ⟨hd, hi⟩ := hm.decoded
  have hd' := Assignment.redeal_distinct h hd hi
  have hi' : ∀ p ∈ Assignment.redeal (Schedule.ofStations stations start H) m,
      0 ≤ p.1 ∧ p.1 < (Schedule.ofStations stations start H).entries.length := by
    intro p hp
    obtain ⟨q, hq, he⟩ := List.mem_map.mp
      ((Assignment.redeal_indices h hd hi).mem_iff.mp (List.mem_map_of_mem (f := Prod.fst) hp))
    exact he ▸ hi q hq
  have hrounds := Assignment.redeal_rounds h hd hi
  have hcheck : Assignment.check (Schedule.ofStations stations start H)
      (Assignment.redeal (Schedule.ofStations stations start H) m) z.perRound = .error f := by
    rw [Plan.finish] at hf
    split at hf
    · cases hf
      assumption
    · cases hf
  obtain ⟨numbers, cause, rfl, hn⟩ := Assignment.check_refusal
    (Assignment.bounded_ofStations h hs) hd' hi' (Int.natCast_nonneg _) hcheck
  rcases Fault.showing_eq numbers (.solve cause) with he | ⟨he, i, hmem, hw⟩
  · exact .inl ⟨cause, he⟩
  · refine .inr ⟨he, ?_⟩
    have hlarge : ∀ j, 0 ≤ i → i ≤ j → Text.isWritable j = false := by
      intro j h₀ hij
      rw [Bool.eq_false_iff] at hw ⊢
      exact fun hj => hw (Text.isWritable_mono h₀ hij hj)
    rcases hn i hmem with hr | ⟨h₀, hle⟩
    · exact .inr ⟨m, hm, i, List.mem_cons_of_mem _ (hrounds.mem_iff.mp hr), hw⟩
    · rcases le_max_iff.mp hle with hle | hle
      · exact .inl ⟨_, mem_numbers_length, hlarge _ h₀ hle⟩
      · exact .inr ⟨m, hm, _, List.mem_cons_self, hlarge _ h₀ hle⟩

theorem exists_unwritable (h : Exchange.arguments s z = .error f) :
    ∃ i ∈ Exchange.numbers s z, Text.isWritable i = false := by
  rw [Exchange.arguments] at h
  split_ifs at h with hall
  simpa using hall

theorem orFallback_of_none (hx : x.fallback = none) (a : Except Fault Plan) :
    x.orFallback spare a = a := by
  unfold orFallback
  split
  · rw [hx]
  · rfl

theorem orFallback_eq_ok {a : Except Fault Plan} (h : x.orFallback spare a = .ok p) :
    a = .ok p ∨ spare = .ok p := by
  unfold orFallback at h
  split at h
  · split at h
    · exact .inr h
    · cases h
  · exact .inl h

theorem orFallback_eq_error {a : Except Fault Plan} (h : x.orFallback spare a = .error f) :
    spare = .error f ∨ a = .error f ∧ (x.fallback = none ∨ ∀ cause, f ≠ .solve cause) := by
  unfold orFallback at h
  split at h
  · split at h
    · exact .inl h
    · rename_i cause _ hx
      exact .inr ⟨h, .inl hx⟩
  · rename_i hnot
    refine .inr ⟨h, .inr ?_⟩
    rintro cause rfl
    exact hnot cause h

section Judged

variable {words : List String} (h : Horizon stations H)
  (hw : Exchange.arguments (Schedule.ofStations stations start H) z = .ok words)

include h hw

theorem judge_sound (hp : x.judge (Schedule.ofStations stations start H) z folder
    (process x.command words) = .ok p) : p.Sound (Schedule.ofStations stations start H) z := by
  rcases judge_cases x process folder hw with ⟨m, hm, hj⟩ | ⟨f, hj, -, -⟩
  · rw [hj] at hp
    exact Plan.finish_sound h hm.decoded.distinct hm.decoded.index hp
  · rw [hj] at hp
    cases hp

theorem judge_ok_iff : (∃ p, x.judge (Schedule.ofStations stations start H) z folder
      (process x.command words) = .ok p) ↔
    ∃ m, x.Delivers process (Schedule.ofStations stations start H) z m ∧
      (∀ r ∈ m.rounds, m.rounds.count r ≤ z.perRound) ∧
      ∃ m', Assignment.Permuted (Schedule.ofStations stations start H) m m' ∧
        ∀ p ∈ m', Assignment.InWindow (Schedule.ofStations stations start H) p.1 p.2 := by
  have hiff : ∀ m, x.Delivers process (Schedule.ofStations stations start H) z m →
      ((∃ p, Plan.finish (Schedule.ofStations stations start H) z name m = .ok p) ↔
        (∀ r ∈ m.rounds, m.rounds.count r ≤ z.perRound) ∧
        ∃ m', Assignment.Permuted (Schedule.ofStations stations start H) m m' ∧
          ∀ p ∈ m', Assignment.InWindow (Schedule.ofStations stations start H) p.1 p.2) := by
    intro m hm
    simp only [Plan.finish_eq_ok, exists_and_left, exists_eq, and_true,
      Assignment.redeal_feasible_iff h hm.decoded.distinct hm.decoded.index, Nat.cast_le]
  rcases judge_cases x process folder hw with ⟨m, hm, hj⟩ | ⟨f, hj, hnone, -⟩
  · rw [hj, hiff m hm]
    constructor
    · exact fun hr => ⟨m, hm, hr⟩
    · rintro ⟨m', hm', hr⟩
      rwa [hm.unique hm'] at hr
  · rw [hj]
    constructor
    · rintro ⟨p, hp⟩
      cases hp
    · rintro ⟨m, hm, -⟩
      exact absurd hm (hnone m)

theorem judge_error (hs : 0 ≤ start) (hf : x.judge (Schedule.ofStations stations start H) z folder
    (process x.command words) = .error f) : (∃ cause, f = .solve cause) ∨
      x.Escapes process (Schedule.ofStations stations start H) z f := by
  rcases judge_cases x process folder hw with ⟨m, hm, hj⟩ | ⟨e, hj, -, he⟩
  · rw [hj] at hf
    rcases hm.finish_error h hs hf with hcause | ⟨rfl, hlong⟩
    · exact .inl hcause
    · exact .inr (.unwritable hlong)
  · rw [hj] at hf
    obtain rfl := Except.error.inj hf
    by_cases hcause : ∃ cause, e = .solve cause
    · exact .inl hcause
    · exact .inr (.broken (he.resolve_left hcause) (not_exists.mp hcause))

end Judged

section Planned

variable (h : Horizon stations H)
  (hspare : ∃ q, spare = .ok q ∧ q.Sound (Schedule.ofStations stations start H) z)

include h hspare

theorem planOr_sound
    (hp : x.planOr spare process folder (Schedule.ofStations stations start H) z = .ok p) :
    p.Sound (Schedule.ofStations stations start H) z := by
  cases hw : Exchange.arguments (Schedule.ofStations stations start H) z with
  | error f =>
    obtain ⟨i, hi, hlong⟩ := exists_unwritable hw
    rw [planOr_of_unwritable x spare process folder hi hlong] at hp
    cases hp
  | ok words =>
    rw [planOr_eq hw] at hp
    obtain ⟨q, rfl, hq⟩ := hspare
    rcases orFallback_eq_ok hp with hj | hspare
    · exact judge_sound h hw hj
    · cases hspare
      exact hq

theorem planOr_error (hs : 0 ≤ start)
    (hf : x.planOr spare process folder (Schedule.ofStations stations start H) z = .error f) :
    (x.fallback = none ∧ ∃ cause, f = .solve cause) ∨
      x.Escapes process (Schedule.ofStations stations start H) z f := by
  cases hw : Exchange.arguments (Schedule.ofStations stations start H) z with
  | error e =>
    obtain ⟨i, hi, hlong⟩ := exists_unwritable hw
    rw [planOr_of_unwritable x spare process folder hi hlong] at hf
    cases hf
    exact .inr (.unwritable (.inl ⟨i, hi, hlong⟩))
  | ok words =>
    rw [planOr_eq hw] at hf
    obtain ⟨q, rfl, -⟩ := hspare
    rcases orFallback_eq_error hf with hspare | ⟨hj, hx⟩
    · cases hspare
    · rcases judge_error h hw hs hj with ⟨cause, rfl⟩ | hescapes
      · exact .inl ⟨hx.resolve_right fun hne => hne cause rfl, cause, rfl⟩
      · exact .inr hescapes

end Planned

/-- Whatever the process does and whichever heaviest matching the fallback finds, a plan that comes
out is sound and owes nothing to what the folder held before. Without a fallback it comes out
exactly when the answer can be repaired; with one, unless a fault escapes. -/
theorem plan_trusts_nothing (hg : Schedule.generate stations start cap = .ok s) (z : Sizing)
    {M : List SlotEdge} (hM : SlotGraph.Heaviest s z.perRound M) (x : External)
    (process : List String → List String → ProcessOutcome) (folder : Folder) :
    let plan := fun folder => x.planOr (Plan.ofMatching s z M) process folder s z
    (∀ p, plan folder = .ok p → p.Sound s z) ∧
      (∀ folder', plan folder' = plan folder) ∧
      (x.fallback = none → ((∃ p, plan folder = .ok p) ↔
        ∃ m, x.Delivers process s z m ∧ (∀ r ∈ m.rounds, m.rounds.count r ≤ z.perRound) ∧
          ∃ m', Assignment.Permuted s m m' ∧ ∀ p ∈ m', Assignment.InWindow s p.1 p.2)) ∧
      (∀ f, plan folder = .error f →
        (x.fallback = none ∧ ∃ cause, f = .solve cause) ∨ x.Escapes process s z f) ∧
      ∃ N, SlotGraph.Heaviest s z.perRound N ∧
        x.plan process folder s z = x.planOr (Plan.ofMatching s z N) process folder s z := by
  obtain ⟨hs, H, -, h, rfl⟩ := Schedule.generate_eq_ok hg
  intro plan
  have hspare := Plan.ofMatching_sound h hM
  obtain ⟨N, hN, hbyMatching⟩ := Plan.byMatching_eq h z start
  refine ⟨fun p hp => planOr_sound h hspare hp, fun folder' => planOr_folder folder', fun hx => ?_,
    fun f hf => planOr_error h hspare hs hf, N, hN, by rw [External.plan, hbyMatching]⟩
  cases hw : Exchange.arguments (Schedule.ofStations (Station.inOrder stations) start H) z with
  | error e =>
    -- The command line cannot be written, so nothing is called and nothing delivered.
    obtain ⟨i, hi, hlong⟩ := exists_unwritable hw
    rw [show plan folder = _ from planOr_of_unwritable x _ process folder hi hlong]
    simp [Delivers, hw]
  | ok words =>
    rw [show plan folder = _ from planOr_eq hw, orFallback_of_none hx]
    exact judge_ok_iff h hw

theorem plan_trusts_nothing_crossed :
    let s := Schedule.ofStations [⟨1, 1, 1, 5⟩, ⟨2, 2, 0, 9⟩] 4 2
    let z : Sizing := ⟨.mhz20, .tones242, 1, 3, 242⟩
    let M := SlotGraph.seat s (Plan.heaviest s z.perRound)
    let x : External := ⟨["ilp"], none, none⟩
    let answer : ProcessOutcome := .finished 0 "" (some (Exchange.written [(0, 1), (1, 0)]))
    Schedule.generate [⟨1, 1, 1, 5⟩, ⟨2, 2, 0, 9⟩] 4 1024 = .ok s ∧
      SlotGraph.Heaviest s z.perRound M ∧ x.fallback = none ∧
      ∃ p, x.planOr (Plan.ofMatching s z M) (fun _ _ => answer) ⟨some "stale"⟩ s z = .ok p ∧
        p.Sound s z := by
  intro s z M x answer
  have horder : Station.inOrder [⟨1, 1, 1, 5⟩, ⟨2, 2, 0, 9⟩] = [⟨1, 1, 1, 5⟩, ⟨2, 2, 0, 9⟩] :=
    List.mergeSort_of_pairwise (by decide)
  have hg : Schedule.generate [⟨1, 1, 1, 5⟩, ⟨2, 2, 0, 9⟩] 4 1024 = .ok s := by
    rw [Schedule.generate, horder]
    rfl
  have hM : SlotGraph.Heaviest s z.perRound M := by
    obtain ⟨-, H, hl, h, -⟩ := Schedule.generate_eq_ok hg
    rw [horder] at hl h
    obtain rfl : H = 2 := (Except.ok.inj hl).symm
    exact SlotGraph.heaviest_seat (Plan.generated_heaviest_best h 4 1)
  have hread :
      Exchange.parse (Exchange.written [(0, 1), (1, 0)]).toList 3 4 = .ok [(0, 5), (1, 4)] :=
    Exchange.parse_written (by decide) (by decide) (by decide +kernel)
  have hrepair : Assignment.Permuted s [(0, 5), (1, 4)] [(0, 4), (1, 5)] :=
    ⟨by decide, by decide⟩
  have hwindows : ∀ p ∈ [(0, 4), (1, 5)], Assignment.InWindow s p.1 p.2 := by
    simp [Assignment.InWindow, Schedule.entryAt?, s, Schedule.ofStations, Schedule.stationPackets,
      Schedule.clip, Schedule.stop]
  obtain ⟨hsound, -, hiff, -, -⟩ :=
    plan_trusts_nothing hg z hM x (fun _ _ => answer) ⟨some "stale"⟩
  obtain ⟨p, hp⟩ := (hiff rfl).mpr ⟨[(0, 5), (1, 4)],
    ⟨_, "", _, if_pos (by decide +kernel), rfl, hread⟩, by decide, _, hrepair, hwindows⟩
  exact ⟨hg, hM, rfl, p, hp, hsound p hp⟩

/-- A round that is still readable but moves over the limit by the start of the horizon is refused
by a message that cannot be written, with a fallback or without. -/
theorem plan_of_long_round {words : List String} (folder : Folder)
    (hargs : Exchange.arguments (Schedule.ofStations [⟨1, 1, 0, 5⟩] 1 1) z = .ok words) {n : Int}
    (hn : 0 < n) (hw : Text.isWritable n) (hlong : Text.isWritable (n + 1) = false) :
    x.plan (fun _ _ => .finished 0 "" (some (Exchange.written [(0, n)]))) folder
      (Schedule.ofStations [⟨1, 1, 0, 5⟩] 1 1) z = .error (.value .tooManyDigits) := by
  let s := Schedule.ofStations [⟨1, 1, 0, 5⟩] 1 1
  have hdeal : Assignment.redeal s [(0, n + 1)] = [(0, n + 1)] := by
    simp [Assignment.redeal, s, Schedule.ofStations, Schedule.runsFrom, Schedule.stationPackets,
      Assignment.redealRun, Assignment.servedIn, Assignment.serves, Assignment.round?,
      Assignment.sortByIndex]
  have hwindow : s.window 0 = .ok (1, 1) := rfl
  have hpair : Assignment.checkPair s (0, n + 1) =
      .error (.showing [0, n + 1, 1, 1] (.solve (.roundOutside 0 (n + 1) 1 1))) := by
    rw [Assignment.checkPair, if_pos (by simp [s, Schedule.ofStations, Schedule.stationPackets]),
      hwindow]
    exact if_neg (by simp only [Bool.and_eq_true, decide_eq_true_eq]; omega)
  have hfinish : Plan.finish s z name [(0, n + 1)] = .error (.value .tooManyDigits) := by
    rw [Plan.finish, hdeal, Assignment.check, Assignment.checkPairs, hpair,
      Fault.showing_of_unwritable (i := n + 1) (by simp) hlong]
  have hread : Exchange.parse (Exchange.written [(0, n)]).toList 1 1 = .ok [(0, n + 1)] :=
    Exchange.parse_written (by simp) (by simp) (by simpa [hw] using by decide +kernel)
  have hdelivers : x.Delivers
      (fun _ _ => .finished 0 "" (some (Exchange.written [(0, n)]))) s z [(0, n + 1)] :=
    ⟨_, "", _, hargs, rfl, hread⟩
  rw [plan, planOr_eq hargs, hdelivers.judge_eq hargs, hfinish]
  rfl

theorem plan_refusal_too_long :
    let s := Schedule.ofStations [⟨1, 1, 0, 5⟩] 1 1
    let z : Sizing := ⟨.mhz40, .tones484, 1, 4, 484⟩
    let x : External := ⟨["ilp"], none, none⟩
    let answer : ProcessOutcome :=
      .finished 0 "" (some (Exchange.written [(0, 10 ^ Text.digitLimit - 1)]))
    Schedule.generate [⟨1, 1, 0, 5⟩] 1 1024 = .ok s ∧ Sizing.forPackets 40 1 none = .ok z ∧
      x.plan (fun _ _ => answer) ⟨none⟩ s z = .error (.value .tooManyDigits) := by
  intro s z x answer
  have horder : Station.inOrder [⟨1, 1, 0, 5⟩] = [⟨1, 1, 0, 5⟩] :=
    List.mergeSort_of_pairwise (by decide)
  have hg : Schedule.generate [⟨1, 1, 0, 5⟩] 1 1024 = .ok s := by
    rw [Schedule.generate, horder]
    rfl
  have hargs : Exchange.arguments s z = .ok _ := if_pos (by decide +kernel)
  exact ⟨hg, rfl, plan_of_long_round _ hargs (by decide +kernel) (by decide +kernel)
    (by decide +kernel)⟩

end External

end Downlink
