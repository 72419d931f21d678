import Mathlib.Tactic.Common
import Downlink.Fault

/-!
# Faults that show numbers

A message that shows a number can be worded exactly when all the numbers that it shows can be
written; otherwise what is raised is the fault of writing the number.
-/

namespace Downlink.Fault

variable {numbers : List Int} {f : Fault}

theorem showing_of_writable (h : ∀ i ∈ numbers, Text.isWritable i) (f : Fault) :
    showing numbers f = f := by
  rw [showing, if_pos (List.all_eq_true.mpr h)]

theorem showing_of_unwritable {i : Int} (hi : i ∈ numbers) (hw : Text.isWritable i = false)
    (f : Fault) : showing numbers f = .value .tooManyDigits := by
  rw [showing, if_neg]
  rw [List.all_eq_true]
  exact fun hall => Bool.eq_false_iff.mp hw (hall i hi)

theorem showing_eq (numbers : List Int) (f : Fault) :
    showing numbers f = f ∨
      showing numbers f = .value .tooManyDigits ∧ ∃ i ∈ numbers, Text.isWritable i = false := by
  by_cases h : ∃ i ∈ numbers, Text.isWritable i = false
  · obtain ⟨i, hi, hw⟩ := h
    exact .inr ⟨showing_of_unwritable hi hw f, i, hi, hw⟩
  · refine .inl (showing_of_writable (fun i hi => ?_) f)
    exact Bool.of_not_eq_false fun hw => h ⟨i, hi, hw⟩

theorem showing_eq_unwritable_iff (hf : f ≠ .value .tooManyDigits) :
    showing numbers f = .value .tooManyDigits ↔ ∃ i ∈ numbers, Text.isWritable i = false := by
  constructor
  · intro he
    rcases showing_eq numbers f with hshown | ⟨-, hlong⟩
    · exact absurd (hshown.symm.trans he) hf
    · exact hlong
  · rintro ⟨i, hi, hw⟩
    exact showing_of_unwritable hi hw f

theorem showing_eq_self_iff (hf : f ≠ .value .tooManyDigits) :
    showing numbers f = f ↔ ∀ i ∈ numbers, Text.isWritable i := by
  refine ⟨fun he i hi => ?_, fun h => showing_of_writable h f⟩
  by_contra hw
  exact hf (he.symm.trans (showing_of_unwritable hi (Bool.eq_false_iff.mpr hw) f))

/-- What raising `cause` comes to when its message shows these numbers. -/
structure Shows (numbers : List Int) (cause f : Fault) : Prop where
  fault : f = showing numbers cause
  worded_iff : f = cause ↔ ∀ i ∈ numbers, Text.isWritable i
  digits_iff : f = .value .tooManyDigits ↔ ∃ i ∈ numbers, Text.isWritable i = false

theorem shows_desync (numbers : List Int) (cause : DesyncFault) :
    Shows numbers (.desync cause) (showing numbers (.desync cause)) where
  fault := rfl
  worded_iff := showing_eq_self_iff Fault.noConfusion
  digits_iff := showing_eq_unwritable_iff Fault.noConfusion

end Downlink.Fault
