/-!
The sum of a list of whole numbers; `total_append` splits it over the parts of a list.
-/

namespace Downlink

def total : List Int → Int
  | [] => 0
  | x :: xs => x + total xs

theorem total_append (xs ys : List Int) : total (xs ++ ys) = total xs + total ys := by
  induction xs with
  | nil => simp [total]
  | cons x xs ih => simp only [List.cons_append, total, ih, Int.add_assoc]

end Downlink
