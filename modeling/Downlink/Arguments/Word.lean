import Downlink.Arguments.Grammar

/-!
The words of a command line, told apart. An option may be shortened as long as one spelling remains
and may carry its value after an equals sign; a negative number and a text with a space are plain
words, and after a double dash everything is.
-/

namespace Downlink

namespace Arguments

inductive Word where
  | plain (s : String)
  | separator
  | choice (c : Choice) (spelling : String) (attached : Option String)
  | unknown (s : String)

namespace Word

def isOption : Word → Bool
  | choice _ _ _ => true
  | unknown _ => true
  | _ => false

def written : Word → String
  | plain s => s
  | separator => "--"
  | choice _ spelling _ => spelling
  | unknown s => s

end Word

/-- A minus sign and digits, with or without a point; a line end may follow. -/
def isNegativeNumber (s : String) : Bool :=
  let isDigit (c : Char) : Bool := (Text.digit? c).isSome
  let body : List Char → Bool := fun cs =>
    let fraction := cs.dropWhile isDigit
    match fraction with
    | [] => !cs.isEmpty
    | '.' :: ds => !ds.isEmpty && ds.all isDigit
    | _ => false
  match s.toList with
  | '-' :: cs => body (if cs.getLast? = some '\n' then cs.dropLast else cs)
  | _ => false

def splitAtEquals (s : String) : String × Option String :=
  let cs := s.toList
  let before := cs.takeWhile (· ≠ '=')
  let rest := cs.drop before.length
  (String.ofList before, if rest.isEmpty then none else some (String.ofList (rest.drop 1)))

def startsWith (s start : String) : Bool := start.toList.isPrefixOf s.toList

/-- The options that a word which is no exact spelling may stand for. -/
def candidates (g : Grammar) (s : String) : List (String × Choice × Option String) :=
  if startsWith s "--" then
    let (start, attached) := splitAtEquals s
    (g.spellings.filter fun p => startsWith p.1 start).map fun p => (p.1, p.2, attached)
  else
    let short := String.ofList (s.toList.take 2)
    g.spellings.filterMap fun p =>
      if p.1 = short then some (p.1, p.2, some (String.ofList (s.toList.drop 2)))
      else if startsWith p.1 s then some (p.1, p.2, none)
      else none

def guess (g : Grammar) (s : String) : Except Misuse Word :=
  match candidates g s with
  | [(spelling, c, attached)] => .ok (.choice c spelling attached)
  | [] =>
    if isNegativeNumber s || s.toList.contains ' ' then .ok (.plain s) else .ok (.unknown s)
  | many => .error (.ambiguous s (many.map Prod.fst))

def classify (g : Grammar) (s : String) : Except Misuse Word :=
  match s.toList with
  | '-' :: rest =>
    match g.find? s with
    | some c => .ok (.choice c s none)
    | none =>
      if rest.isEmpty then .ok (.plain s)
      else
        match splitAtEquals s with
        | (before, some after) =>
          match g.find? before with
          | some c => .ok (.choice c before (some after))
          | none => guess g s
        | _ => guess g s
  | _ => .ok (.plain s)

def classifyAll (g : Grammar) : List String → Except Misuse (List Word)
  | [] => .ok []
  | "--" :: rest => .ok (.separator :: rest.map Word.plain)
  | s :: rest =>
    match classify g s with
    | .error e => .error e
    | .ok w => (classifyAll g rest).map (w :: ·)

end Arguments

end Downlink
