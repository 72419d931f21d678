import Downlink.Value

/-!
Tables of a report: named columns over rows of scalar values. A table of records takes its columns
from the records, so without any record it has none.
-/

namespace Downlink

def Value.cell : Value → String
  | null => ""
  | number (.real x) => if x.isNaN then "" else Text.real x
  | v => v.shown

structure Table where
  columns : List String
  rows : List (List Value)

namespace Table

/-- A record is a list of named entries; the records of one table have the same names. -/
abbrev Record := List (String × Value)

def ofRecords : List Record → Table
  | [] => ⟨[], []⟩
  | r :: rs => ⟨r.map Prod.fst, (r :: rs).map fun r => r.map Prod.snd⟩

def cells (t : Table) : List (List String) := t.columns :: t.rows.map fun r => r.map Value.cell

def separated (cell : String) : String :=
  let cs := cell.toList
  if cs.any fun c => c = ',' || c = '"' || c = '\n' || c = '\r' then
    String.ofList ('"' :: (cs.flatMap fun c => if c = '"' then ['"', '"'] else [c]) ++ ['"'])
  else cell

def written (t : Table) : String :=
  String.join (t.cells.map fun row => ",".intercalate (row.map separated) ++ "\n")

end Table

end Downlink
