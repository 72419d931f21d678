import Downlink.Arguments.Word

/-!
Reading a command line against a grammar. Plain words go to the positional arguments, as many of
them at a time as the words before the next option can fill; a word that nothing takes is left over,
and a line with words left over or arguments missing is refused.
-/

namespace Downlink

namespace Arguments

structure Reading where
  /-- The positional arguments still to be filled. -/
  waiting : List Positional
  /-- What was given, by argument, in the order in which it was taken. -/
  given : List (String × List Content)
  left : List String

namespace Reading

def start (g : Grammar) : Reading := ⟨g.positionals, [], []⟩

def give (r : Reading) (name : String) (contents : List Content) : Reading :=
  { r with given := r.given ++ [(name, contents)] }

def leave (r : Reading) (words : List String) : Reading := { r with left := r.left ++ words }

def given? (r : Reading) (name : String) : Option (List Content) :=
  (r.given.reverse.find? fun p => p.1 = name).map Prod.snd

def has (r : Reading) (name : String) : Bool := (r.given? name).isSome

def wholes (r : Reading) (name : String) : List Int :=
  ((r.given? name).getD []).filterMap fun
    | .whole n => some n
    | _ => none

def whole? (r : Reading) (name : String) : Option Int := (r.wholes name).head?

def text? (r : Reading) (name : String) : Option String :=
  ((r.given? name).getD []).findSome? fun
    | .text s => some s
    | _ => none

def real? (r : Reading) (name : String) : Option Float :=
  ((r.given? name).getD []).findSome? fun
    | .real x => some x
    | _ => none

end Reading

def isSeparator : Word → Bool
  | .separator => true
  | _ => false

def Positional.take (p : Positional) (ws : List Word) : Option (List String × List Word) :=
  if p.many then
    some ((ws.takeWhile (!·.isOption)).map Word.written, ws.dropWhile (!·.isOption))
  else
    match ws.dropWhile isSeparator with
    | .plain s :: rest =>
      let before := (ws.takeWhile isSeparator).map Word.written
      let after := (rest.takeWhile isSeparator).map Word.written
      some (before ++ s :: after, rest.dropWhile isSeparator)
    | _ => none

def takeAll : List Positional → List Word → Option (List (Positional × List String) × List Word)
  | [], ws => some ([], ws)
  | p :: ps, ws =>
    match p.take ws with
    | none => none
    | some (mine, ws) => (takeAll ps ws).map fun r => ((p, mine) :: r.1, r.2)

structure Taken where
  filled : List (Positional × List String)
  waiting : List Positional
  rest : List Word

/-- Fills as many of the first `n` positional arguments as the words allow. -/
def takeMost (ps : List Positional) (ws : List Word) : Nat → Taken
  | 0 => ⟨[], ps, ws⟩
  | n + 1 =>
    match takeAll (ps.take (n + 1)) ws with
    | some (filled, rest) => ⟨filled, ps.drop (n + 1), rest⟩
    | none => takeMost ps ws n

def readAll (p : Positional) : List String → Except Misuse (List Content)
  | [] => .ok []
  | s :: ss =>
    match p.domain.read p.name s with
    | .error e => .error e
    | .ok c => (readAll p ss).map (c :: ·)

/-- Reads what was taken; the first double dash among an argument's words is not one of them. -/
def fill : List (Positional × List String) → Reading → Except Misuse Reading
  | [], r => .ok r
  | (p, words) :: rest, r =>
    match readAll p (words.erase "--") with
    | .error e => .error e
    | .ok contents => fill rest (r.give p.name contents)

def fillMost (r : Reading) (ws : List Word) : Except Misuse (Reading × List Word) :=
  let t := takeMost r.waiting ws r.waiting.length
  (fill t.filled { r with waiting := t.waiting }).map fun r => (r, t.rest)

def valueOf (c : Choice) (domain : Domain) (value : String) (r : Reading) :
    Except Refusal Reading :=
  match domain.read c.name value with
  | .error e => .error (.misuse e)
  | .ok content => .ok (r.give c.long [content])

/-- Letters after a short option without a value are further short options; only the one for help
exists. -/
def attachedLetters (c : Choice) (spelling value : String) : Refusal :=
  if startsWith spelling "--" || value.isEmpty then .misuse (.valueIgnored c.name value)
  else
    match value.toList.dropWhile (· = 'h') with
    | [] => .help
    | letters => .misuse (.valueIgnored c.name (String.ofList letters))

def attached (c : Choice) (spelling value : String) (r : Reading) : Except Refusal Reading :=
  match c.role with
  | .value domain => valueOf c domain value r
  | _ => .error (attachedLetters c spelling value)

def run (r : Reading) (ws : List Word) : Except Refusal Reading :=
  match ws with
  | [] => (fillMost r []).mapError Refusal.misuse |>.map Prod.fst
  | .unknown s :: rest => run (r.leave [s]) rest
  | .choice c spelling (some value) :: rest =>
    match attached c spelling value r with
    | .error e => .error e
    | .ok r => run r rest
  | .choice c _ none :: rest =>
    match c.role with
    | .help => .error .help
    | .flag => run (r.give c.long []) rest
    | .value domain =>
      match rest with
      | .plain value :: rest =>
        match valueOf c domain value r with
        | .error e => .error e
        | .ok r => run r rest
      | _ => .error (.misuse (.valueExpected c.name))
  | w :: rest =>
    match fillMost r (w :: rest) with
    | .error e => .error (.misuse e)
    | .ok (r, others) =>
      if _h : others.length < (w :: rest).length then run r others
      else
        let stray := (rest.takeWhile (!·.isOption)).map Word.written
        run (r.leave (w.written :: stray)) (rest.dropWhile (!·.isOption))
termination_by ws.length
decreasing_by
  · exact Nat.lt_succ_self _
  · exact Nat.lt_succ_self _
  · exact Nat.lt_succ_self _
  · exact Nat.lt_succ_of_lt (Nat.lt_succ_self _)
  · assumption
  · exact Nat.lt_succ_of_le (List.dropWhile_sublist _).length_le

def missing (g : Grammar) (r : Reading) : List String :=
  r.waiting.map Positional.name ++
    (g.choices.filter fun c => c.required && !r.has c.long).map Choice.name

def finish (g : Grammar) (r : Reading) : Except Refusal Reading :=
  let absent := missing g r
  if !absent.isEmpty then .error (.misuse (.missing absent))
  else if !r.left.isEmpty then .error (.misuse (.unrecognized r.left))
  else .ok r

def Grammar.read (g : Grammar) (line : List String) : Except Refusal Reading :=
  match classifyAll g line with
  | .error e => .error (.misuse e)
  | .ok ws => (run (.start g) ws).bind (finish g)

end Arguments

end Downlink
