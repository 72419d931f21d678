import Downlink.Arguments.Reading
import Downlink.Figure.Basic
import Downlink.Text.Path

/-!
What a command does to the world: the lines it prints, what it complains about, the documents it
writes and how it ends. A command line that is refused leaves no documents.
-/

namespace Downlink

inductive Exit where
  | done
  | help
  | unsolved
  | misuse
  deriving DecidableEq, Repr

def Exit.code : Exit → Nat
  | done => 0
  | help => 0
  | unsolved => 1
  | misuse => 2

inductive Document where
  | text (s : String)
  | table (t : Table)
  | figure (d : Figure.Drawing)

structure Finished where
  exit : Exit
  lines : List String := []
  complaint : Option String := none
  documents : List (String × Document) := []

namespace Finished

def refused (g : Arguments.Grammar) : Arguments.Refusal → Finished
  | .help => { exit := .help }
  | .misuse cause =>
    { exit := .misuse, complaint := some (g.program ++ ": error: " ++ cause.message) }

def refusedSetup (g : Arguments.Grammar) (cause : SetupFault) : Finished :=
  refused g (.misuse (.refused cause))

def text? (f : Finished) (name : String) : Option String :=
  f.documents.findSome? fun
    | (n, .text s) => if n = name then some s else none
    | _ => none

def tables (f : Finished) : List (String × Table) :=
  f.documents.filterMap fun
    | (n, .table t) => some (n, t)
    | _ => none

def figureFiles (f : Finished) : List String :=
  f.documents.flatMap fun
    | (_, .figure d) => Figure.files d
    | _ => []

end Finished

namespace Command

def need {α : Type} : Option α → Except Fault α
  | some a => .ok a
  | none => .error .wrongKind

def document (name : String) (d : Document) : Except Fault (String × Document) :=
  let path := Text.Path.ofText name
  if path.isLocal then .ok (path.text, d) else .error .noFile

end Command

end Downlink
