import Downlink.Proofs.Exchange.External

/-!
# The layout of an answer

What an answer says is in its lines that are not blank, without the white space around them. A text
is read if each of these lines gives a pair, with indices in range and no index twice, and none of
this depends on their order. The map that is read still has the order of the lines; it is lost when
the rounds are dealt again, so that neither a plan nor the refusal of one shows the layout.
-/

namespace Downlink

variable {s : Schedule} {z : Sizing} {backend : String} {m m' : Assignment}

namespace Exchange

variable {packets offset : Int} {number : Nat} {ls : List (List Char)} {raw : List Char}
  {text text' : List Char}

def contentOf (ls : List (List Char)) : List (List Char) :=
  (ls.map Text.strip).filter fun l => !l.isEmpty

/-- The lines that are not blank, without the white space around them. -/
def content (text : List Char) : List (List Char) := contentOf (Text.lines text)

def pair? (l : List Char) : Option (Int × Int) :=
  match Text.pieces (· = ',') l with
  | [a, b] => (Text.integer? a).bind fun index => (Text.integer? b).map fun round => (index, round)
  | _ => none

def readings (offset : Int) (content : List (List Char)) : Assignment :=
  (content.filterMap pair?).map (shift offset)

theorem contentOf_cons_of_blank (h : (Text.strip raw).isEmpty = true) :
    contentOf (raw :: ls) = contentOf ls := by
  rw [contentOf, List.map_cons, List.filter_cons_of_neg (by simp [h])]
  rfl

theorem contentOf_cons_of_not_blank (h : (Text.strip raw).isEmpty = false) :
    contentOf (raw :: ls) = Text.strip raw :: contentOf ls := by
  rw [contentOf, List.map_cons, List.filter_cons_of_pos (by simp [h])]
  rfl

theorem readings_cons {l : List Char} {p : Int × Int} (hp : pair? l = some p) :
    readings offset (l :: ls) = [shift offset p] ++ readings offset ls := by
  rw [readings, List.filterMap_cons_some hp, List.map_cons]
  rfl

theorem parseLine_eq_ok_iff {p : Int × Int} :
    parseLine number raw = .ok p ↔ pair? (Text.strip raw) = some p := by
  rw [parseLine, pair?]
  generalize Text.pieces (· = ',') (Text.strip raw) = pieces
  rcases pieces with _ | ⟨a, _ | ⟨b, _ | ⟨c, rest⟩⟩⟩
  · simp
  · simp
  · cases ha : Text.integer? a <;> cases hb : Text.integer? b <;> simp [ha, hb]
  · simp

theorem Decoded.of_append (h : Decoded packets (m ++ m')) : Decoded packets m where
  distinct := by
    have hd := h.distinct
    rw [Assignment.Distinct, List.map_append] at hd
    exact hd.of_append_left
  index p hp := h.index p (List.mem_append_left _ hp)

theorem decoded_concat_iff {p : Int × Int} : Decoded packets (m ++ [p]) ↔
    Decoded packets m ∧ (0 ≤ p.1 ∧ p.1 < packets) ∧ m.serves p.1 = false := by
  constructor
  · intro h
    refine ⟨h.of_append, h.index p (by simp), ?_⟩
    rw [Bool.eq_false_iff, ne_eq, Assignment.serves_iff]
    rintro ⟨r, hr⟩
    have hd := h.distinct
    rw [Assignment.Distinct, List.map_append, List.nodup_append] at hd
    exact hd.2.2 p.1 (List.mem_map.mpr ⟨_, hr, rfl⟩) p.1 (by simp) rfl
  · rintro ⟨h, hi, hserves⟩
    exact h.append hi hserves

theorem parseLines_cons_of_not_blank (hm : Decoded packets m)
    (h : (Text.strip raw).isEmpty = false) :
    parseLines packets offset number (raw :: ls) m = .ok m' ↔
      ∃ p, pair? (Text.strip raw) = some p ∧ Decoded packets (m ++ [shift offset p]) ∧
        parseLines packets offset (number + 1) ls (m ++ [shift offset p]) = .ok m' := by
  rw [parseLines, if_neg (by simp [h])]
  cases hline : parseLine number raw with
  | error e =>
    refine iff_of_false (fun he => by cases he) ?_
    rintro ⟨p, hp, -⟩
    rw [parseLine_eq_ok_iff.mpr hp] at hline
    cases hline
  | ok p =>
    simp only [parseLine_eq_ok_iff.mp hline, Option.some.injEq, exists_eq_left', decoded_concat_iff,
      hm, true_and]
    by_cases hi : 0 ≤ p.1 ∧ p.1 < packets
    · cases hserves : m.serves p.1 <;> simp [hi, hserves, shift]
    · have hout : (decide (0 ≤ p.1) && decide (p.1 < packets)) = false := by
        rw [← Bool.decide_and, decide_eq_false hi]
      simp only [hout, Bool.not_false, if_true, reduceCtorEq, shift, hi, false_and]

theorem parseLines_eq_ok_iff (hm : Decoded packets m) :
    parseLines packets offset number ls m = .ok m' ↔
      (∀ l ∈ contentOf ls, (pair? l).isSome) ∧ Decoded packets m' ∧
        m' = m ++ readings offset (contentOf ls) := by
  induction ls generalizing number m with
  | nil =>
    rw [parseLines, Except.ok.injEq, readings, contentOf, List.map_nil, List.filter_nil,
      List.filterMap_nil, List.map_nil, List.append_nil]
    constructor
    · rintro rfl
      exact ⟨by simp, hm, rfl⟩
    · rintro ⟨-, -, rfl⟩
      rfl
  | cons raw ls ih =>
    cases hblank : (Text.strip raw).isEmpty with
    | true => rw [parseLines, if_pos hblank, contentOf_cons_of_blank hblank, ih hm]
    | false =>
      rw [parseLines_cons_of_not_blank hm hblank, contentOf_cons_of_not_blank hblank,
        List.forall_mem_cons]
      constructor
      · rintro ⟨p, hp, hnext, hrest⟩
        obtain ⟨hlines, hd, he⟩ := (ih hnext).mp hrest
        refine ⟨⟨by simp [hp], hlines⟩, hd, ?_⟩
        rw [he, readings_cons hp, List.append_assoc]
      · rintro ⟨⟨hsome, hlines⟩, hd, he⟩
        obtain ⟨p, hp⟩ := Option.isSome_iff_exists.mp hsome
        rw [readings_cons hp, ← List.append_assoc] at he
        have hnext : Decoded packets (m ++ [shift offset p]) := by
          rw [he] at hd
          exact hd.of_append
        exact ⟨p, hp, hnext, (ih hnext).mpr ⟨hlines, hd, he⟩⟩

theorem parse_eq_ok_iff : parse text packets offset = .ok m ↔
    (∀ l ∈ content text, (pair? l).isSome) ∧ Decoded packets m ∧
      m = readings offset (content text) :=
  parseLines_eq_ok_iff (m := []) ⟨List.nodup_nil, by simp⟩

theorem Decoded.perm (h : Decoded packets m) (hp : m'.Perm m) : Decoded packets m' :=
  ⟨(hp.map Prod.fst).nodup_iff.mpr h.distinct, fun p hmem => h.index p (hp.mem_iff.mp hmem)⟩

theorem parse_perm (h : (content text).Perm (content text'))
    (hm : parse text packets offset = .ok m) :
    ∃ m', parse text' packets offset = .ok m' ∧ m'.Perm m := by
  obtain ⟨hlines, hd, rfl⟩ := parse_eq_ok_iff.mp hm
  have hperm : (readings offset (content text')).Perm (readings offset (content text)) :=
    ((h.filterMap pair?).map (shift offset)).symm
  exact ⟨_, parse_eq_ok_iff.mpr ⟨fun l hl => hlines l (h.mem_iff.mpr hl), hd.perm hperm, rfl⟩,
    hperm⟩

theorem parse_ok_perm_iff (h : (content text).Perm (content text')) :
    (∃ m, parse text packets offset = .ok m) ↔ ∃ m, parse text' packets offset = .ok m := by
  constructor
  · rintro ⟨m, hm⟩
    obtain ⟨m', hm', -⟩ := parse_perm h hm
    exact ⟨m', hm'⟩
  · rintro ⟨m, hm⟩
    obtain ⟨m', hm', -⟩ := parse_perm h.symm hm
    exact ⟨m', hm'⟩

end Exchange

theorem Assignment.permuted_of_perm (s : Schedule) (h : m'.Perm m) : Permuted s m m' :=
  ⟨h.map Prod.fst, fun _ _ => (h.filter _).map Prod.snd⟩

theorem Plan.finish_perm (hd : m.Distinct) (h : m'.Perm m) :
    finish s z backend m' = finish s z backend m := by
  rw [finish, finish, (Assignment.permuted_of_perm s h).redeal_eq hd]

namespace External

variable {x : External} {process process' : List String → List String → ProcessOutcome}
  {text text' : String}

/-- Called for this horizon, the process ends well and has written this text. -/
def Writes (x : External) (process : List String → List String → ProcessOutcome) (s : Schedule)
    (z : Sizing) (text : String) : Prop :=
  ∀ words, Exchange.arguments s z = .ok words →
    ∃ complaint, process x.command words = .finished 0 complaint (some text)

def Alike (a b : Except Fault Plan) : Prop :=
  a = b ∨ (∃ cause, a = .error (.solve cause)) ∧ ∃ cause, b = .error (.solve cause)

theorem judge_writes {words : List String} (hw : Exchange.arguments s z = .ok words)
    (h : x.Writes process s z text) (folder : Folder) :
    x.judge s z folder (process x.command words) =
      (Exchange.parse text.toList s.entries.length s.start).bind (Plan.finish s z name) := by
  obtain ⟨complaint, hp⟩ := h words hw
  rw [hp, ← readBack_written s z folder 0 complaint text]
  rfl

theorem read_alike (s : Schedule) (z : Sizing)
    (h : (Exchange.content text.toList).Perm (Exchange.content text'.toList)) :
    Alike ((Exchange.parse text.toList s.entries.length s.start).bind (Plan.finish s z name))
      ((Exchange.parse text'.toList s.entries.length s.start).bind (Plan.finish s z name)) := by
  cases hm : Exchange.parse text.toList s.entries.length s.start with
  | ok m =>
    obtain ⟨m', hm', hperm⟩ := Exchange.parse_perm h hm
    rw [hm']
    exact .inl (Plan.finish_perm (Exchange.parse_decoded hm).distinct hperm).symm
  | error e =>
    cases hm' : Exchange.parse text'.toList s.entries.length s.start with
    | ok m' =>
      obtain ⟨m, hread⟩ := (Exchange.parse_ok_perm_iff h).mpr ⟨m', hm'⟩
      rw [hm] at hread
      cases hread
    | error e' =>
      obtain ⟨cause, rfl⟩ := Exchange.parse_error hm
      obtain ⟨cause', rfl⟩ := Exchange.parse_error hm'
      exact .inr ⟨⟨cause, rfl⟩, cause', rfl⟩

theorem Alike.orFallback {a b : Except Fault Plan} (h : Alike a b) (x : External)
    (spare : Except Fault Plan) : Alike (x.orFallback spare a) (x.orFallback spare b) := by
  rcases h with rfl | ⟨⟨cause, rfl⟩, cause', rfl⟩
  · exact .inl rfl
  · rw [External.orFallback, External.orFallback]
    cases x.fallback with
    | none => exact .inr ⟨⟨cause, rfl⟩, cause', rfl⟩
    | some f => exact .inl rfl

theorem plan_alike (h : (Exchange.content text.toList).Perm (Exchange.content text'.toList))
    (hp : x.Writes process s z text) (hp' : x.Writes process' s z text') (folder folder' : Folder) :
    Alike (x.plan process folder s z) (x.plan process' folder' s z) := by
  cases hw : Exchange.arguments s z with
  | error e =>
    obtain ⟨i, hi, hlong⟩ := exists_unwritable hw
    exact .inl ((planOr_of_unwritable x _ process folder hi hlong).trans
      (planOr_of_unwritable x _ process' folder' hi hlong).symm)
  | ok words =>
    rw [plan, plan, planOr_eq hw, planOr_eq hw, judge_writes hw hp, judge_writes hw hp']
    exact (read_alike s z h).orFallback x _

theorem Alike.ok_iff {a b : Except Fault Plan} (h : Alike a b) (p : Plan) :
    a = .ok p ↔ b = .ok p := by
  rcases h with rfl | ⟨⟨cause, rfl⟩, cause', rfl⟩
  · exact Iff.rfl
  · simp only [reduceCtorEq]

theorem Alike.solve_iff {a b : Except Fault Plan} (h : Alike a b) :
    (∃ cause, a = .error (.solve cause)) ↔ ∃ cause, b = .error (.solve cause) := by
  rcases h with rfl | ⟨ha, hb⟩
  · exact Iff.rfl
  · exact iff_of_true ha hb

/-- Two answers with the same lines, up to their order, their ends, blank lines and the white space
around them, are both refused with a solve fault or lead to the same plan. -/
theorem plan_ignores_layout
    (h : (Exchange.content text.toList).Perm (Exchange.content text'.toList))
    (hp : x.Writes process s z text) (hp' : x.Writes process' s z text') (folder folder' : Folder) :
    ((∃ cause, x.plan process folder s z = .error (.solve cause)) ↔
        ∃ cause, x.plan process' folder' s z = .error (.solve cause)) ∧
      ∀ p, x.plan process folder s z = .ok p ↔ x.plan process' folder' s z = .ok p :=
  ⟨(plan_alike h hp hp' folder folder').solve_iff, (plan_alike h hp hp' folder folder').ok_iff⟩

/-- The first text has its lines in the order of the entries; the second has them in the other
order, with indentation, other line ends and blank lines. -/
theorem plan_ignores_layout_two_lines :
    let s := Schedule.ofStations [⟨1, 1, 1, 5⟩, ⟨2, 2, 0, 9⟩] 4 2
    let z : Sizing := ⟨.mhz20, .tones242, 1, 3, 242⟩
    let x : External := ⟨["ilp"], none, none⟩
    let answer (text : String) : ProcessOutcome := .finished 0 "" (some text)
    let text := "0,1\n1,0\n"
    let text' := "\r\n\t1,0 \x0b   \r 0,1"
    Schedule.generate [⟨1, 1, 1, 5⟩, ⟨2, 2, 0, 9⟩] 4 1024 = .ok s ∧
      Exchange.content text.toList = ["0,1".toList, "1,0".toList] ∧
      Exchange.content text'.toList = ["1,0".toList, "0,1".toList] ∧
      x.Writes (fun _ _ => answer text) s z text ∧ x.Writes (fun _ _ => answer text') s z text' ∧
      (∀ p, x.plan (fun _ _ => answer text) ⟨none⟩ s z = .ok p ↔
        x.plan (fun _ _ => answer text') ⟨some "stale"⟩ s z = .ok p) ∧
      x.plan (fun _ _ => answer text') ⟨none⟩ s z = .ok ⟨[(0, 4), (1, 5)], 10, "ilp"⟩ := by
  intro s z x answer text text'
  have horder : Station.inOrder [⟨1, 1, 1, 5⟩, ⟨2, 2, 0, 9⟩] = [⟨1, 1, 1, 5⟩, ⟨2, 2, 0, 9⟩] :=
    List.mergeSort_of_pairwise (by decide)
  have hg : Schedule.generate [⟨1, 1, 1, 5⟩, ⟨2, 2, 0, 9⟩] 4 1024 = .ok s := by
    rw [Schedule.generate, horder]
    rfl
  have hc : Exchange.content text.toList = ["0,1".toList, "1,0".toList] := by decide +kernel
  have hc' : Exchange.content text'.toList = ["1,0".toList, "0,1".toList] := by decide +kernel
  have hperm : (Exchange.content text.toList).Perm (Exchange.content text'.toList) := by
    rw [hc, hc']
    exact .swap _ _ []
  have hw : x.Writes (fun _ _ => answer text) s z text := fun _ _ => ⟨"", rfl⟩
  have hw' : x.Writes (fun _ _ => answer text') s z text' := fun _ _ => ⟨"", rfl⟩
  have hargs : Exchange.arguments s z = .ok _ := if_pos (by decide +kernel)
  have htext : text = Exchange.written [(0, 1), (1, 0)] := by decide +kernel
  have hread : Exchange.parse text.toList 3 4 = .ok [(0, 5), (1, 4)] := by
    rw [htext]
    exact Exchange.parse_written (by decide) (by decide) (by decide +kernel)
  have hdeal : Assignment.redeal s [(0, 5), (1, 4)] = [(0, 4), (1, 5)] := by
    have hruns : s.runs = [⟨1, 0, 2⟩, ⟨2, 2, 3⟩] := rfl
    have hdealt : s.runs.flatMap (Assignment.redealRun [(0, 5), (1, 4)]) = [(0, 4), (1, 5)] := by
      simp [hruns, Assignment.redealRun, Assignment.servedIn, Assignment.serves, Assignment.round?,
        List.range', List.mergeSort]
    rw [Assignment.redeal, hdealt]
    exact List.mergeSort_of_pairwise (by decide)
  have hfinish : Plan.finish s z name [(0, 5), (1, 4)] = .ok ⟨[(0, 4), (1, 5)], 10, "ilp"⟩ := by
    rw [Plan.finish, hdeal]
    rfl
  have hplan : x.plan (fun _ _ => answer text) ⟨none⟩ s z = .ok ⟨[(0, 4), (1, 5)], 10, "ilp"⟩ := by
    have hdelivers : x.Delivers (fun _ _ => answer text) s z [(0, 5), (1, 4)] :=
      ⟨_, "", text, hargs, rfl, hread⟩
    rw [plan, planOr_eq hargs, orFallback_of_none rfl, hdelivers.judge_eq hargs, hfinish]
  exact ⟨hg, hc, hc', hw, hw', (plan_ignores_layout hperm hw hw' ⟨none⟩ ⟨some "stale"⟩).2,
    ((plan_ignores_layout hperm hw hw' ⟨none⟩ ⟨none⟩).2 _).mp hplan⟩

end External

end Downlink
