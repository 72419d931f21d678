import Downlink.Exchange.Text
import Downlink.Proofs.Assignment.Check
import Downlink.Proofs.Text.Integer

/-!
# The solver's answer as text

Whatever a text says, reading it gives an assignment of distinct entries or a solve fault. A written
assignment reads back as it was, with its rounds shifted, whatever the order in which it is written.
-/

namespace Downlink

namespace Text

variable {sep : Char → Bool} {c : Char} {cs ds : List Char}

theorem pieces_of_none (h : ∀ c ∈ cs, sep c = false) : pieces sep cs = [cs] := by
  induction cs with
  | nil => rfl
  | cons c cs ih =>
    rw [pieces, if_neg (by simp [h c List.mem_cons_self]),
      ih fun c hc => h c (List.mem_cons_of_mem _ hc)]

theorem pieces_append (h : ∀ c ∈ cs, sep c = false) (hc : sep c = true) :
    pieces sep (cs ++ c :: ds) = cs :: pieces sep ds := by
  induction cs with
  | nil => rw [List.nil_append, pieces, if_pos hc]
  | cons a cs ih =>
    rw [List.cons_append, pieces, if_neg (by simp [h a List.mem_cons_self]),
      ih fun c hc => h c (List.mem_cons_of_mem _ hc)]

theorem lines_append (h : ∀ c ∈ cs, isLineEnd c = false) :
    lines (cs ++ '\n' :: ds) = cs :: lines ds := by
  induction cs with
  | nil => rfl
  | cons c cs ih =>
    have hc := h c List.mem_cons_self
    have hr : c ≠ '\r' := by
      rintro rfl
      exact absurd hc (by decide)
    rw [List.cons_append, lines, if_neg (by simp [hc]),
      ih fun c hc => h c (List.mem_cons_of_mem _ hc)]
    rintro cs' rfl
    exact absurd rfl hr

end Text

namespace Exchange

variable {packets offset index round : Int} {number : Nat} {raw : List Char} {m m' : Assignment}
  {pairs : List (Int × Int)} {e : Fault}

structure Decoded (packets : Int) (m : Assignment) : Prop where
  distinct : m.Distinct
  index : ∀ p ∈ m, 0 ≤ p.1 ∧ p.1 < packets

theorem Decoded.append (h : Decoded packets m) (hi : 0 ≤ index ∧ index < packets)
    (hm : m.serves index = false) : Decoded packets (m ++ [(index, round)]) := by
  have hnew : ∀ p ∈ m, p.1 ≠ index := by
    rintro p hp rfl
    exact Bool.eq_false_iff.mp hm (Assignment.serves_iff.mpr ⟨p.2, hp⟩)
  constructor
  · rw [Assignment.Distinct, List.map_append, List.nodup_append]
    refine ⟨h.distinct, by simp, ?_⟩
    simpa using fun i r hr => hnew (i, r) hr
  · intro p hp
    rcases List.mem_append.mp hp with hp | hp
    · exact h.index p hp
    · rw [List.mem_singleton.mp hp]
      exact hi

theorem parseLine_error (h : parseLine number raw = .error e) : ∃ cause, e = .solve cause := by
  unfold parseLine at h
  split at h
  · split at h
    · cases h
    · exact ⟨_, (Except.error.inj h).symm⟩
  · exact ⟨_, (Except.error.inj h).symm⟩

theorem parseLines_decoded {ls : List (List Char)} (hm : Decoded packets m)
    (h : parseLines packets offset number ls m = .ok m') : Decoded packets m' := by
  induction ls generalizing number m with
  | nil =>
    cases h
    exact hm
  | cons raw ls ih =>
    rw [parseLines] at h
    split_ifs at h
    · exact ih hm h
    split at h
    · cases h
    split_ifs at h with hindex hserves
    refine ih (hm.append (by simpa using hindex) (by simpa using hserves)) h

theorem parseLines_error {ls : List (List Char)}
    (h : parseLines packets offset number ls m = .error e) : ∃ cause, e = .solve cause := by
  induction ls generalizing number m with
  | nil => cases h
  | cons raw ls ih =>
    rw [parseLines] at h
    split_ifs at h
    · exact ih h
    split at h
    · cases h
      exact parseLine_error ‹_›
    split_ifs at h
    · exact ⟨_, (Except.error.inj h).symm⟩
    · exact ⟨_, (Except.error.inj h).symm⟩
    · exact ih h

theorem parse_decoded {text : List Char} (h : parse text packets offset = .ok m) :
    Decoded packets m :=
  parseLines_decoded (m := []) ⟨List.nodup_nil, by simp⟩ h

theorem parse_error {text : List Char} (h : parse text packets offset = .error e) :
    ∃ cause, e = .solve cause :=
  parseLines_error h

def line (p : Int × Int) : List Char := Text.intDigits p.1 ++ ',' :: Text.intDigits p.2

def shift (offset : Int) (p : Int × Int) : Int × Int := (p.1, p.2 + offset)

theorem mem_line {c : Char} {p : Int × Int} (h : c ∈ line p) :
    Text.isBlank c = false ∧ Text.isLineEnd c = false := by
  rcases List.mem_append.mp h with h | h
  · exact (Text.mem_intDigits h).2
  · rcases List.mem_cons.mp h with rfl | h
    · decide
    · exact (Text.mem_intDigits h).2

theorem strip_line (p : Int × Int) : Text.strip (line p) = line p :=
  Text.trim_eq_self fun _ hc => (mem_line hc).1

theorem lines_written (pairs : List (Int × Int)) :
    Text.lines (writtenChars pairs) = pairs.map line := by
  induction pairs with
  | nil => rfl
  | cons p pairs ih =>
    have hwritten : writtenChars (p :: pairs) = line p ++ '\n' :: writtenChars pairs := by
      simp [writtenChars, line]
    rw [hwritten, Text.lines_append fun _ hc => (mem_line hc).2, ih, List.map_cons]

theorem parseLine_line {p : Int × Int} (h₁ : Text.isWritable p.1) (h₂ : Text.isWritable p.2) :
    parseLine number (line p) = .ok p := by
  have hcomma : ∀ i, ∀ c ∈ Text.intDigits i, decide (c = ',') = false := fun i c hc =>
    decide_eq_false (Text.mem_intDigits hc).1
  rw [parseLine, strip_line, line, Text.pieces_append (hcomma p.1) (by decide),
    Text.pieces_of_none (hcomma p.2)]
  simp only [Text.integer?_intDigits h₁, Text.integer?_intDigits h₂]

theorem parseLines_lines (hd : ((m ++ pairs).map Prod.fst).Nodup)
    (hi : ∀ p ∈ pairs, 0 ≤ p.1 ∧ p.1 < packets)
    (hw : ∀ p ∈ pairs, Text.isWritable p.1 ∧ Text.isWritable p.2) :
    parseLines packets offset number (pairs.map line) m =
      .ok (m ++ pairs.map (shift offset)) := by
  induction pairs generalizing number m with
  | nil => rw [List.map_nil, parseLines, List.map_nil, List.append_nil]
  | cons p pairs ih =>
    have hp := hi p List.mem_cons_self
    have hline : parseLine number (line p) = .ok (p.1, p.2) :=
      parseLine_line (hw p List.mem_cons_self).1 (hw p List.mem_cons_self).2
    have hblank : (Text.strip (line p)).isEmpty = false := by
      rw [strip_line]
      simp [line]
    have hnew : m.serves p.1 = false := by
      rw [Bool.eq_false_iff, ne_eq, Assignment.serves_iff]
      rintro ⟨r, hr⟩
      rw [List.map_append, List.nodup_append] at hd
      exact hd.2.2 p.1 (List.mem_map.mpr ⟨_, hr, rfl⟩) p.1 (by simp) rfl
    rw [List.map_cons, parseLines, hblank, hline]
    simp only [Bool.false_eq_true, if_false, hp, decide_true, Bool.and_self, Bool.not_true, hnew]
    rw [ih (by simpa using hd) (fun p hp => hi p (List.mem_cons_of_mem _ hp))
      fun p hp => hw p (List.mem_cons_of_mem _ hp)]
    simp [shift]

theorem parse_written (hd : (pairs.map Prod.fst).Nodup)
    (hi : ∀ p ∈ pairs, 0 ≤ p.1 ∧ p.1 < packets)
    (hw : ∀ p ∈ pairs, Text.isWritable p.1 ∧ Text.isWritable p.2) :
    parse (written pairs).toList packets offset = .ok (pairs.map (shift offset)) := by
  rw [parse, written, String.toList_ofList, lines_written, parseLines_lines (m := []) hd hi hw,
    List.nil_append]

theorem round?_shift (m : Assignment) (offset i : Int) :
    Assignment.round? (m.map (shift offset)) i = (m.round? i).map (· + offset) := by
  have hkey : (fun p : Int × Int => decide (p.1 = i)) ∘ shift offset =
      fun p => decide (p.1 = i) := rfl
  rw [Assignment.round?, Assignment.round?, List.find?_map, hkey, Option.map_map, Option.map_map]
  rfl

theorem round?_perm (hd : m.Distinct) (h : m'.Perm m) (i : Int) : m'.round? i = m.round? i := by
  have hd' : m'.Distinct := (h.map Prod.fst).nodup_iff.mpr hd
  apply Option.ext
  intro r
  rw [hd'.round?_eq_some_iff, hd.round?_eq_some_iff, h.mem_iff]

/-- The map serves what `m` serves, each entry `offset` rounds later. -/
structure Shifted (offset : Int) (m m' : Assignment) : Prop where
  distinct : m'.Distinct
  round? : ∀ i, m'.round? i = (m.round? i).map (· + offset)

theorem shifted_of_perm (hd : m.Distinct) (h : m'.Perm m) (offset : Int) :
    Shifted offset m (m'.map (shift offset)) := by
  constructor
  · rw [Assignment.Distinct, List.map_map]
    exact (h.map Prod.fst).nodup_iff.mpr hd
  · intro i
    rw [round?_shift, round?_perm hd h]

/-- A map that is written in the order of its entries, or in any other order, reads back with all of
its rounds shifted. -/
theorem written_reads_back (hd : m.Distinct) (hi : ∀ p ∈ m, 0 ≤ p.1 ∧ p.1 < packets)
    (hw : ∀ p ∈ m, Text.isWritable p.1 ∧ Text.isWritable p.2) (offset : Int) :
    (∃ m', parse (written m.sortByIndex).toList packets offset = .ok m' ∧ Shifted offset m m') ∧
      ∀ pairs : Assignment, pairs.Perm m →
        parse (written pairs).toList packets offset = .ok (pairs.map (shift offset)) ∧
          Shifted offset m (pairs.map (shift offset)) := by
  have hany : ∀ pairs : Assignment, pairs.Perm m →
      parse (written pairs).toList packets offset = .ok (pairs.map (shift offset)) ∧
        Shifted offset m (pairs.map (shift offset)) := by
    intro pairs h
    have hread : parse (written pairs).toList packets offset = .ok (pairs.map (shift offset)) :=
      parse_written ((h.map Prod.fst).nodup_iff.mpr hd)
        (fun p hp => hi p (h.mem_iff.mp hp)) fun p hp => hw p (h.mem_iff.mp hp)
    exact ⟨hread, shifted_of_perm hd h offset⟩
  exact ⟨⟨_, hany _ (List.mergeSort_perm _ _)⟩, hany⟩

theorem written_reads_back_two_entries :
    let m : Assignment := [(2, -7), (0, 18446744073709551617)]
    m.Distinct ∧ (∀ p ∈ m, 0 ≤ p.1 ∧ p.1 < 3) ∧
      (∀ p ∈ m, Text.isWritable p.1 ∧ Text.isWritable p.2) ∧
      written m.sortByIndex = "0,18446744073709551617\n2,-7\n" ∧
      parse (written m.sortByIndex).toList 3 5 = .ok [(0, 18446744073709551622), (2, -2)] ∧
      Shifted 5 m [(0, 18446744073709551622), (2, -2)] := by
  intro m
  have hd : m.Distinct := by simp [Assignment.Distinct, m]
  have hi : ∀ p ∈ m, 0 ≤ p.1 ∧ p.1 < 3 := by decide
  have hw : ∀ p ∈ m, Text.isWritable p.1 ∧ Text.isWritable p.2 := by decide +kernel
  have hsort : m.sortByIndex = [(0, 18446744073709551617), (2, -7)] := by
    simp [m, Assignment.sortByIndex, List.mergeSort]
  have hperm : m.sortByIndex.Perm m := List.mergeSort_perm _ _
  have h := (written_reads_back hd hi hw 5).2 _ hperm
  have hshift : m.sortByIndex.map (shift 5) = [(0, 18446744073709551622), (2, -2)] := by
    rw [hsort]
    rfl
  rw [hshift] at h
  refine ⟨hd, hi, hw, ?_, h⟩
  rw [hsort]
  decide +kernel

end Exchange

end Downlink
