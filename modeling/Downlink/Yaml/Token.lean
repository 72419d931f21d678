import Downlink.Yaml.Scalar

/-!
Places in a YAML document and the scalars found there. A place knows its column, because block
structure is told by indentation; comments and line ends are passed over between tokens.
-/

namespace Downlink.Yaml

structure Place where
  rest : List Char
  column : Nat

/-- A reader gives what it read and the place after it; none when the text is not well formed. -/
abbrev Read (α : Type) := Option (α × Place)

def isSpace (c : Char) : Bool := c = ' ' || c = '\t'

def isEnd (c : Char) : Bool := c = '\n' || c = '\r'

def blankAhead : List Char → Bool
  | [] => true
  | c :: _ => isSpace c || isEnd c

def isFlowMark (c : Char) : Bool := [',', '[', ']', '\x7b', '\x7d'].contains c

def skipSpacesFrom : List Char → Nat → Place
  | [], n => ⟨[], n⟩
  | c :: cs, n => if isSpace c then skipSpacesFrom cs (n + 1) else ⟨c :: cs, n⟩

def Place.skipSpaces (p : Place) : Place := skipSpacesFrom p.rest p.column

/-- Passes over spaces, comments and line ends; `fresh` tells whether a comment may start here. -/
def skipGapFrom (fresh comment : Bool) : List Char → Nat → Place
  | [], n => ⟨[], n⟩
  | c :: cs, n =>
    if isEnd c then skipGapFrom true false cs 0
    else if comment then skipGapFrom fresh true cs (n + 1)
    else if isSpace c then skipGapFrom true false cs (n + 1)
    else if c = '#' && fresh then skipGapFrom fresh true cs (n + 1)
    else ⟨c :: cs, n⟩

def Place.skipGap (p : Place) : Place := skipGapFrom (p.column = 0) false p.rest p.column

def simpleEscape? (c : Char) : Option Char :=
  [('0', 0), ('a', 7), ('b', 8), ('t', 9), ('\t', 9), ('n', 10), ('v', 11), ('f', 12), ('r', 13),
   ('e', 27), (' ', 32), ('"', 34), ('/', 47), ('\\', 92), ('N', 0x85), ('_', 0xa0), ('L', 0x2028),
   ('P', 0x2029)].find? (fun e => e.1 = c) |>.map fun e => Char.ofNat e.2

def codeEscape? (c : Char) : Option Nat :=
  if c = 'x' then some 2 else if c = 'u' then some 4 else if c = 'U' then some 8 else none

/-- Breaks inside a quoted scalar: one is a space, each further one is kept. -/
def folded (breaks : Nat) : List Char :=
  if breaks = 1 then [' '] else List.replicate (breaks - 1) '\n'

def takeBreaks : List Char → Nat → Nat → Nat × Place
  | [], n, k => (k, ⟨[], n⟩)
  | c :: cs, n, k =>
    if c = '\n' then takeBreaks cs 0 (k + 1)
    else if isSpace c || c = '\r' then takeBreaks cs (n + 1) k
    else (k, ⟨c :: cs, n⟩)

def dropSpacesEnd (cs : List Char) : List Char := Text.trimRight isSpace cs

def doubleQuoted : Nat → List Char → Nat → List Char → Read (List Char)
  | 0, _, _, _ => none
  | fuel + 1, acc, n, cs =>
    match cs with
    | [] => none
    | '"' :: r => some (acc, ⟨r, n + 1⟩)
    | '\\' :: c :: r =>
      match simpleEscape? c, codeEscape? c with
      | some e, _ => doubleQuoted fuel (acc ++ [e]) (n + 2) r
      | none, some width =>
        match inBase? 16 (r.take width) with
        | some code =>
          if (r.take width).length = width then
            doubleQuoted fuel (acc ++ [Char.ofNat code]) (n + 2 + width) (r.drop width)
          else none
        | none => none
      | none, none =>
        if isEnd c then
          let (_, p) := takeBreaks (c :: r) n 0
          doubleQuoted fuel acc p.column p.rest
        else none
    | c :: r =>
      if isEnd c then
        let (k, p) := takeBreaks (c :: r) n 0
        doubleQuoted fuel (dropSpacesEnd acc ++ folded k) p.column p.rest
      else doubleQuoted fuel (acc ++ [c]) (n + 1) r

def singleQuoted : Nat → List Char → Nat → List Char → Read (List Char)
  | 0, _, _, _ => none
  | fuel + 1, acc, n, cs =>
    match cs with
    | [] => none
    | '\'' :: '\'' :: r => singleQuoted fuel (acc ++ ['\'']) (n + 2) r
    | '\'' :: r => some (acc, ⟨r, n + 1⟩)
    | c :: r =>
      if isEnd c then
        let (k, p) := takeBreaks (c :: r) n 0
        singleQuoted fuel (dropSpacesEnd acc ++ folded k) p.column p.rest
      else singleQuoted fuel (acc ++ [c]) (n + 1) r

def quoted? (p : Place) : Option (Read (List Char)) :=
  match p.rest with
  | '"' :: r => some (doubleQuoted (r.length + 1) [] (p.column + 1) r)
  | '\'' :: r => some (singleQuoted (r.length + 1) [] (p.column + 1) r)
  | _ => none

def startsPlain (flow : Bool) : List Char → Bool
  | [] => false
  | c :: cs =>
    if c = '-' || c = '?' || c = ':' then
      !blankAhead cs && !(flow && (cs.head?.map isFlowMark).getD false)
    else !(isFlowMark c || blankAhead [c] ||
      ['#', '&', '*', '!', '|', '>', '\'', '"', '%', '@', '\x60'].contains c)

/-- The characters of a plain scalar on one line, from the end to the start. -/
def plainFrom (flow : Bool) : List Char → Nat → List Char → List Char × Place
  | [], n, acc => (acc, ⟨[], n⟩)
  | c :: cs, n, acc =>
    let stop := isEnd c || (flow && isFlowMark c) ||
      (c = ':' && (blankAhead cs || (flow && (cs.head?.map isFlowMark).getD false))) ||
      (c = '#' && (acc.head?.map isSpace).getD false)
    if stop then (acc, ⟨c :: cs, n⟩) else plainFrom flow cs (n + 1) (c :: acc)

def plain (flow : Bool) (p : Place) : List Char × Place :=
  let (acc, q) := plainFrom flow p.rest p.column []
  let spaces := acc.takeWhile isSpace
  ((acc.dropWhile isSpace).reverse, ⟨spaces.reverse ++ q.rest, q.column - spaces.length⟩)

def colonAhead (p : Place) : Bool :=
  match p.rest with
  | ':' :: r => blankAhead r
  | _ => false

def dashAhead (p : Place) : Bool :=
  match p.rest with
  | '-' :: r => blankAhead r
  | _ => false

def Place.advance (p : Place) : Place := ⟨p.rest.drop 1, p.column + 1⟩

def lineDone (p : Place) : Bool :=
  match p.skipSpaces.rest with
  | [] => true
  | c :: _ => isEnd c || (c = '#' && (p.skipSpaces.column ≠ p.column))

end Downlink.Yaml
