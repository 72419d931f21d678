import Mathlib.Data.List.TakeWhile
import Downlink.Arguments.Reading
import Downlink.Proofs.Text.Integer

/-!
# Reading plain words

Words that do not start with a minus sign are plain. A line of plain numbers fills positional
arguments one by one, and the last one, which takes many, with all that are left.
-/

namespace Downlink.Arguments

variable {g : Grammar} {r : Reading} {p last : Positional} {ps : List Positional} {s : String}
  {words rest : List String} {n : Int} {ns : List Int}

def IsPlain (s : String) : Prop := ∀ cs, s.toList ≠ '-' :: cs

theorem classify_plain (h : IsPlain s) : classify g s = .ok (.plain s) := by
  rw [classify]
  split
  · exact absurd ‹_› (h _)
  · rfl

theorem classifyAll_plain (h : ∀ s ∈ words, IsPlain s) :
    classifyAll g words = .ok (words.map Word.plain) := by
  induction words with
  | nil => rfl
  | cons s words ih =>
    have hs : s ≠ "--" := by
      rintro rfl
      exact h "--" List.mem_cons_self ['-'] rfl
    rw [classifyAll, classify_plain (h s List.mem_cons_self),
      ih fun s hs => h s (List.mem_cons_of_mem _ hs)]
    · rfl
    · exact fun he => hs he

theorem takeWhile_separator (words : List String) :
    (words.map Word.plain).takeWhile isSeparator = [] := by
  cases words <;> rfl

theorem dropWhile_separator (words : List String) :
    (words.map Word.plain).dropWhile isSeparator = words.map Word.plain := by
  cases words <;> rfl

theorem take_one (hp : p.many = false) :
    p.take ((s :: words).map Word.plain) = some ([s], words.map Word.plain) := by
  rw [Positional.take, hp, dropWhile_separator, takeWhile_separator]
  simp [takeWhile_separator, dropWhile_separator]

theorem take_many (hp : p.many = true) (words : List String) :
    p.take (words.map Word.plain) = some (words, []) := by
  have hplain : ∀ w ∈ words.map Word.plain, (!w.isOption) = true := by
    intro w hw
    obtain ⟨s, -, rfl⟩ := List.mem_map.mp hw
    rfl
  have hwritten : (words.map Word.plain).map Word.written = words := by
    rw [List.map_map]
    exact List.map_id words
  rw [Positional.take, if_pos hp, List.takeWhile_eq_self_iff.mpr hplain,
    List.dropWhile_eq_nil_iff.mpr hplain, hwritten]

theorem takeAll_plain (hps : ∀ p ∈ ps, p.many = false) (hlast : last.many = true)
    (hl : words.length = ps.length) :
    takeAll (ps ++ [last]) ((words ++ rest).map Word.plain) =
      some (ps.zip (words.map fun s => [s]) ++ [(last, rest)], []) := by
  induction ps generalizing words with
  | nil =>
    rw [List.length_nil, List.length_eq_zero_iff] at hl
    subst hl
    rw [List.nil_append, List.nil_append, takeAll, take_many hlast]
    rfl
  | cons p ps ih =>
    cases words with
    | nil => simp at hl
    | cons s words =>
      rw [List.cons_append, List.cons_append, takeAll, take_one (hps p List.mem_cons_self)]
      dsimp only
      rw [ih (fun p hp => hps p (List.mem_cons_of_mem _ hp)) (by simpa using hl)]
      rfl

theorem isPlain_decimal (h : 0 ≤ n) : IsPlain (Text.decimal n) := by
  intro cs he
  rw [Text.decimal, String.toList_ofList, Text.intDigits, if_neg (not_lt.mpr h)] at he
  obtain ⟨d, hd, hc⟩ := Text.mem_natDigits (n := n.natAbs) (c := '-') (by simp [he])
  exact (Text.digitChar_ne hd).2.1 hc.symm

theorem erase_separator (h : ∀ n ∈ ns, 0 ≤ n) :
    (ns.map Text.decimal).erase "--" = ns.map Text.decimal := by
  refine List.erase_of_not_mem fun hmem => ?_
  obtain ⟨n, hn, he⟩ := List.mem_map.mp hmem
  exact isPlain_decimal (h n hn) ['-'] (by rw [he]; rfl)

theorem readAll_numbers (hp : p.domain = .whole) (h : ∀ n ∈ ns, Text.isWritable n) :
    readAll p (ns.map Text.decimal) = .ok (ns.map Content.whole) := by
  induction ns with
  | nil => rfl
  | cons n ns ih =>
    have hread : p.domain.read p.name (Text.decimal n) = .ok (.whole n) := by
      rw [hp, Domain.read, readWhole, Text.decimal, String.toList_ofList,
        Text.integer?_intDigits (h n List.mem_cons_self)]
      rfl
    rw [List.map_cons, readAll, hread]
    dsimp only
    rw [ih fun n hn => h n (List.mem_cons_of_mem _ hn)]
    rfl

theorem fill_numbers {filled : List (Positional × List Int)}
    (hw : ∀ q ∈ filled, q.1.domain = .whole)
    (hn : ∀ q ∈ filled, ∀ n ∈ q.2, 0 ≤ n ∧ Text.isWritable n) :
    fill (filled.map fun q => (q.1, q.2.map Text.decimal)) r =
      .ok { r with given := r.given ++ filled.map fun q => (q.1.name, q.2.map Content.whole) } := by
  induction filled generalizing r with
  | nil => rw [List.map_nil, fill, List.map_nil, List.append_nil]
  | cons q filled ih =>
    have hq := hn q List.mem_cons_self
    rw [List.map_cons, fill, erase_separator fun n hn => (hq n hn).1,
      readAll_numbers (hw q List.mem_cons_self) fun n hn => (hq n hn).2]
    dsimp only
    rw [ih (fun q hq => hw q (List.mem_cons_of_mem _ hq))
      fun q hq => hn q (List.mem_cons_of_mem _ hq)]
    simp [Reading.give]

structure Numeric (g : Grammar) (ps : List Positional) (last : Positional) : Prop where
  positionals : g.positionals = ps ++ [last]
  one : ∀ p ∈ ps, p.many = false
  many : last.many = true
  whole : ∀ p ∈ g.positionals, p.domain = .whole
  free : ∀ c ∈ g.choices, c.required = false

def shares (ps : List Positional) (last : Positional) (first others : List Int) :
    List (Positional × List Int) :=
  ps.zip (first.map fun n => [n]) ++ [(last, others)]

def given (ps : List Positional) (last : Positional) (first others : List Int) :
    List (String × List Content) :=
  (shares ps last first others).map fun q => (q.1.name, q.2.map Content.whole)

section Numbers

variable {first others : List Int} (hg : Numeric g ps last) (hl : first.length = ps.length)
  (hn : ∀ n ∈ first ++ others, 0 ≤ n ∧ Text.isWritable n)

include hg hl

theorem takeAll_numbers :
    takeAll (ps ++ [last]) (((first ++ others).map Text.decimal).map Word.plain) =
      some ((shares ps last first others).map fun q => (q.1, q.2.map Text.decimal), []) := by
  have hcells : (first.map Text.decimal).map (fun s => [s]) =
      (first.map fun n => [n]).map (List.map Text.decimal) := by
    rw [List.map_map, List.map_map]
    rfl
  rw [List.map_append, takeAll_plain hg.one hg.many (by simpa using hl), hcells, List.zip_map_right,
    shares, List.map_append]
  rfl

include hn

theorem fillMost_numbers :
    fillMost (.start g) (((first ++ others).map Text.decimal).map Word.plain) =
      .ok (⟨[], given ps last first others, []⟩, []) := by
  have hlen : (Reading.start g).waiting.length = ps.length + 1 := by
    rw [Reading.start, hg.positionals, List.length_append]
    rfl
  have htake : (Reading.start g).waiting.take (ps.length + 1) = ps ++ [last] := by
    rw [← hlen, List.take_length]
    exact hg.positionals
  have hdrop : (Reading.start g).waiting.drop (ps.length + 1) = [] := by
    rw [← hlen, List.drop_length]
  rw [fillMost, hlen, takeMost, htake, takeAll_numbers hg hl, hdrop]
  dsimp only
  rw [fill_numbers]
  · rfl
  · intro q hq
    refine hg.whole q.1 ?_
    rw [hg.positionals]
    rcases List.mem_append.mp hq with hq | hq
    · exact List.mem_append_left _ (List.of_mem_zip hq).1
    · rw [List.mem_singleton.mp hq]
      exact List.mem_append_right _ List.mem_cons_self
  · intro q hq n hmem
    rcases List.mem_append.mp hq with hq | hq
    · obtain ⟨k, hk, he⟩ := List.mem_map.mp (List.of_mem_zip hq).2
      rw [← he, List.mem_singleton] at hmem
      exact hn n (hmem ▸ List.mem_append_left _ hk)
    · rw [List.mem_singleton.mp hq] at hmem
      exact hn n (List.mem_append_right _ hmem)

end Numbers

theorem run_filled {r' : Reading} (h : fillMost r ((s :: words).map Word.plain) = .ok (r', []))
    (hr : r'.waiting = []) : run r ((s :: words).map Word.plain) = .ok r' := by
  have hdone : run r' [] = .ok r' := by
    obtain ⟨waiting, given, left⟩ := r'
    cases hr
    rw [run.eq_def]
    rfl
  rw [List.map_cons] at h ⊢
  rw [run.eq_def]
  dsimp only
  rw [h]
  exact (dif_pos (Nat.succ_pos _)).trans hdone

theorem finish_complete (hf : ∀ c ∈ g.choices, c.required = false) (hw : r.waiting = [])
    (hl : r.left = []) : finish g r = .ok r := by
  have hrequired : (g.choices.filter fun c => c.required && !r.has c.long) = [] :=
    List.filter_eq_nil_iff.mpr fun c hc => by simp [hf c hc]
  rw [finish, missing, hw, hrequired, hl]
  rfl

theorem read_numbers (hg : Numeric g ps last) {n : Int} {first others : List Int}
    (hl : (n :: first).length = ps.length)
    (hn : ∀ k ∈ (n :: first) ++ others, 0 ≤ k ∧ Text.isWritable k) :
    g.read (((n :: first) ++ others).map Text.decimal) =
      .ok ⟨[], given ps last (n :: first) others, []⟩ := by
  have hclass : classifyAll g (((n :: first) ++ others).map Text.decimal) =
      .ok ((((n :: first) ++ others).map Text.decimal).map Word.plain) := by
    refine classifyAll_plain fun s hs => ?_
    obtain ⟨k, hk, rfl⟩ := List.mem_map.mp hs
    exact isPlain_decimal (hn k hk).1
  have hmost := fillMost_numbers hg hl hn
  rw [Grammar.read, hclass]
  dsimp only
  rw [List.cons_append, List.map_cons] at hmost ⊢
  rw [run_filled hmost rfl]
  exact finish_complete hg.free rfl rfl

end Downlink.Arguments
