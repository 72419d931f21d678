import Mathlib.Data.Nat.Basic
import Mathlib.Tactic.Common
import Mathlib.Tactic.Ring
import Downlink.Text.Integer

/-!
# Numbers written and read back

A number that can be written reads back as itself. Its text is made of digits after an optional
minus sign, and has as many digits as the number has, so the limit on reading is the limit on
writing.
-/

namespace Downlink.Text

variable {n k v d : Nat} {c : Char} {cs ds : List Char} {i : Int}

theorem digitChar_ne (h : d < 10) : digitChar d ≠ '_' ∧ digitChar d ≠ '-' ∧ digitChar d ≠ '+' ∧
    digitChar d ≠ ',' ∧ isBlank (digitChar d) = false ∧ isLineEnd (digitChar d) = false := by
  match d, h with
  | 0, _ | 1, _ | 2, _ | 3, _ | 4, _ | 5, _ | 6, _ | 7, _ | 8, _ | 9, _ => decide

theorem mem_natDigits (h : c ∈ natDigits n) : ∃ d < 10, c = digitChar d := by
  induction n using Nat.strong_induction_on with
  | _ n ih =>
    rw [natDigits] at h
    split at h
    · rename_i hn
      exact ⟨n, hn, List.mem_singleton.mp h⟩
    · rcases List.mem_append.mp h with h | h
      · exact ih (n / 10) (by omega) h
      · exact ⟨n % 10, by omega, List.mem_singleton.mp h⟩

theorem natDigits_ne_nil (n : Nat) : natDigits n ≠ [] := by
  rw [natDigits]
  split <;> simp

theorem length_natDigits_le_iff (hk : 0 < k) : (natDigits n).length ≤ k ↔ n < 10 ^ k := by
  induction n using Nat.strong_induction_on generalizing k with
  | _ n ih =>
    obtain ⟨k, rfl⟩ := Nat.exists_eq_add_of_lt hk
    rw [Nat.zero_add, natDigits]
    split
    · rename_i hn
      have : 10 ^ 1 ≤ 10 ^ (k + 1) := Nat.pow_le_pow_right (by decide) (by omega)
      simp only [List.length_singleton]
      omega
    · rename_i hn
      rw [List.length_append, List.length_singleton, Nat.add_le_add_iff_right, Nat.pow_succ]
      rcases Nat.eq_zero_or_pos k with rfl | hk
      · have := natDigits_ne_nil (n / 10)
        simp only [Nat.le_zero, List.length_eq_zero_iff, this, false_iff]
        omega
      · rw [ih (n / 10) (by omega) hk]
        omega

theorem moreDigits_cons (hc : c ≠ '_') :
    moreDigits v (c :: cs) = (digit? c).bind fun d => moreDigits (10 * v + d) cs := by
  rw [moreDigits]
  rintro c' cs' rfl
  exact absurd rfl hc

theorem moreDigits_append (hcs : ∀ c ∈ cs, c ≠ '_') :
    moreDigits v (cs ++ ds) = (moreDigits v cs).bind (moreDigits · ds) := by
  induction cs generalizing v with
  | nil => rfl
  | cons c cs ih =>
    have hc := hcs c List.mem_cons_self
    rw [List.cons_append, moreDigits_cons hc, moreDigits_cons hc]
    cases digit? c with
    | none => rfl
    | some d => exact ih fun c hc => hcs c (List.mem_cons_of_mem _ hc)

theorem natural?_append (hcs : ∀ c ∈ cs, c ≠ '_') (hne : cs ≠ []) :
    natural? (cs ++ ds) = (natural? cs).bind (moreDigits · ds) := by
  cases cs with
  | nil => exact absurd rfl hne
  | cons c cs =>
    simp only [List.cons_append, natural?]
    cases digit? c with
    | none => rfl
    | some d => exact moreDigits_append fun c hc => hcs c (List.mem_cons_of_mem _ hc)

theorem natural?_natDigits (n : Nat) : natural? (natDigits n) = some n := by
  induction n using Nat.strong_induction_on with
  | _ n ih =>
    rw [natDigits]
    split
    · rename_i hn
      simp [natural?, digit?_digitChar hn, moreDigits]
    · have hd : n % 10 < 10 := by omega
      have hcs : ∀ c ∈ natDigits (n / 10), c ≠ '_' := by
        intro c hc
        obtain ⟨d, hd, rfl⟩ := mem_natDigits hc
        exact (digitChar_ne hd).1
      rw [natural?_append hcs (natDigits_ne_nil _), ih (n / 10) (by omega), Option.bind_some,
        moreDigits_cons (digitChar_ne hd).1, digit?_digitChar hd, Option.bind_some, moreDigits]
      congr 1
      omega

theorem isWritable_iff : isWritable i ↔ i.natAbs < 10 ^ digitLimit := by
  have hhundreds : 100 ∣ digitLimit := by decide
  rw [isWritable, power_eq, power_eq, Nat.pow_eq, Nat.pow_eq, ← pow_mul,
    Nat.mul_div_cancel' hhundreds, decide_eq_true_iff]

theorem isWritable_mono {j : Int} (hi : 0 ≤ i) (hij : i ≤ j) (h : isWritable j) :
    isWritable i := by
  rw [isWritable_iff] at h ⊢
  exact lt_of_le_of_lt (by omega) h

theorem limitedNatural?_natDigits (h : n < 10 ^ digitLimit) :
    limitedNatural? (natDigits n) = some n := by
  have hfilter : (natDigits n).filter (· != '_') = natDigits n := by
    refine List.filter_eq_self.mpr fun c hc => ?_
    obtain ⟨d, hd, rfl⟩ := mem_natDigits hc
    simpa using (digitChar_ne hd).1
  rw [limitedNatural?, hfilter, if_pos ((length_natDigits_le_iff (by decide)).mpr h),
    natural?_natDigits]

theorem mem_intDigits (h : c ∈ intDigits i) :
    c ≠ ',' ∧ isBlank c = false ∧ isLineEnd c = false := by
  have hdigit : ∀ c ∈ natDigits i.natAbs, c ≠ ',' ∧ isBlank c = false ∧ isLineEnd c = false := by
    intro c hc
    obtain ⟨d, hd, rfl⟩ := mem_natDigits hc
    exact (digitChar_ne hd).2.2.2
  rw [intDigits] at h
  split at h
  · rcases List.mem_cons.mp h with rfl | h
    · decide
    · exact hdigit c h
  · exact hdigit c h

theorem trim_eq_self {blank : Char → Bool} (h : ∀ c ∈ cs, blank c = false) :
    trim blank cs = cs := by
  have hdrop : ∀ ds : List Char, (∀ c ∈ ds, blank c = false) → ds.dropWhile blank = ds := by
    intro ds hds
    cases ds with
    | nil => rfl
    | cons c ds => rw [List.dropWhile_cons_of_neg (by simp [hds c List.mem_cons_self])]
  rw [trim, trimLeft, hdrop cs h, trimRight, hdrop _ fun c hc => h c (List.mem_reverse.mp hc),
    List.reverse_reverse]

theorem integer?_intDigits (h : isWritable i) : integer? (intDigits i) = some i := by
  have hread := limitedNatural?_natDigits (isWritable_iff.mp h)
  have htrim : trim isNumberBlank (intDigits i) = intDigits i := by
    refine trim_eq_self fun c hc => ?_
    simp [isNumberBlank, (mem_intDigits hc).2.1]
  have hhead : ∀ cs, natDigits i.natAbs ≠ '-' :: cs ∧ natDigits i.natAbs ≠ '+' :: cs := by
    intro cs
    constructor <;> intro he
    · obtain ⟨d, hd, hc⟩ := mem_natDigits (n := i.natAbs) (c := '-') (by simp [he])
      exact (digitChar_ne hd).2.1 hc.symm
    · obtain ⟨d, hd, hc⟩ := mem_natDigits (n := i.natAbs) (c := '+') (by simp [he])
      exact (digitChar_ne hd).2.2.1 hc.symm
  rw [integer?, htrim, intDigits]
  split_ifs with hi
  · simp only [hread, Option.map_some, Int.ofNat_natAbs_of_nonpos hi.le, neg_neg]
  · split
    · exact absurd ‹_› (hhead _).1
    · exact absurd ‹_› (hhead _).2
    · simp only [hread, Option.map_some, Int.natAbs_of_nonneg (not_lt.mp hi)]

end Downlink.Text
