import Downlink.Text.Blank

/-!
File paths as text. A path is its components between slashes; components that are empty or a single
dot say nothing and are left out, and a path of none is written as a dot.
-/

namespace Downlink.Text

structure Path where
  absolute : Bool
  components : List (List Char)
  deriving DecidableEq, Repr

namespace Path

def ofText (s : String) : Path :=
  let cs := s.toList
  ⟨cs.head? = some '/', (pieces (· = '/') cs).filter fun c => c ≠ [] && c ≠ ['.']⟩

def join (p q : Path) : Path :=
  if q.absolute then q else ⟨p.absolute, p.components ++ q.components⟩

def text (p : Path) : String :=
  let body := "/".intercalate (p.components.map String.ofList)
  if p.absolute then "/" ++ body else if body.isEmpty then "." else body

def name (p : Path) : String := String.ofList (p.components.getLastD [])

/-- Whether the path names something in the folder that it starts from. -/
def isLocal (p : Path) : Bool := !p.absolute && p.components.length = 1

end Path

end Downlink.Text
