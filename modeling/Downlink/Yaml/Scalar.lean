import Downlink.Value

/-!
What a plain scalar of a YAML document stands for: null, a flag, a whole number in one of five
notations, a floating-point number with a point, or its own text.
-/

namespace Downlink.Yaml

open Text (signed)

def asciiDigit? (c : Char) : Option Nat :=
  if '0' ≤ c && c ≤ '9' then some (c.toNat - 48) else none

def hexValue? (c : Char) : Option Nat :=
  if 'a' ≤ c && c ≤ 'f' then some (c.toNat - 87)
  else if 'A' ≤ c && c ≤ 'F' then some (c.toNat - 55)
  else asciiDigit? c

/-- Digits of a base, among which underscores do not count. -/
def inBase? (base : Nat) (cs : List Char) : Option Nat :=
  if cs.isEmpty then none
  else cs.foldl (fun v c => v.bind fun n =>
    if c = '_' then some n
    else (hexValue? c).bind fun d => if d < base then some (base * n + d) else none) (some 0)

def sixtieth? (cs : List Char) : Option Nat :=
  match cs with
  | [c] => asciiDigit? c
  | [c, d] => (asciiDigit? c).bind fun a => (asciiDigit? d).bind fun b =>
      if a < 6 then some (10 * a + b) else none
  | _ => none

def sexagesimal? (cs : List Char) : Option Nat :=
  match Text.pieces (· = ':') cs with
  | first :: rest =>
    rest.foldl (fun v p => v.bind fun n => (sixtieth? p).map (60 * n + ·)) (inBase? 10 first)
  | [] => none

def natural? (cs : List Char) : Option Nat :=
  match cs with
  | '0' :: 'b' :: ds => inBase? 2 ds
  | '0' :: 'x' :: ds => inBase? 16 ds
  | ['0'] => some 0
  | '0' :: ds => inBase? 8 ds
  | c :: ds => if (asciiDigit? c).isSome then sexagesimal? (c :: ds) else none
  | [] => none

def integer? (cs : List Char) : Option Int :=
  let (negative, r) := signed cs
  (natural? r).map fun n => if negative then -(n : Int) else n

def isDigitOrMark (c : Char) : Bool := c = '_' || (asciiDigit? c).isSome

def digitsOf (cs : List Char) : List Nat := cs.filterMap asciiDigit?

def exponent? : List Char → Option Int
  | [] => some 0
  | e :: s :: ds =>
    if (e = 'e' || e = 'E') && (s = '+' || s = '-') && !ds.isEmpty &&
        ds.all fun c => (asciiDigit? c).isSome then
      let n : Nat := (digitsOf ds).foldl (fun v d => 10 * v + d) 0
      some (if s = '-' then -(n : Int) else n)
    else none
  | _ => none

def pointed? (negative : Bool) (whole rest : List Char) : Option Float :=
  let fraction := rest.takeWhile isDigitOrMark
  (exponent? (rest.dropWhile isDigitOrMark)).map fun e =>
    Binary64.ofDecimal negative (digitsOf whole ++ digitsOf fraction)
      (e - (digitsOf fraction).length)

def startsWithDigit : List Char → Bool
  | c :: _ => (asciiDigit? c).isSome
  | [] => false

def real? (cs : List Char) : Option Float :=
  let (negative, r) := signed cs
  if [".inf", ".Inf", ".INF"].any fun s => s.toList = r then some (Binary64.infinity negative)
  else if [".nan", ".NaN", ".NAN"].any fun s => s.toList = cs then some Binary64.nan
  else
    match cs with
    | '.' :: rest => if startsWithDigit rest then pointed? false [] rest else none
    | _ =>
      if startsWithDigit r then
        match r.dropWhile isDigitOrMark with
        | '.' :: rest => pointed? negative (r.takeWhile isDigitOrMark) rest
        | _ => none
      else none

def isNull (s : String) : Bool := ["", "~", "null", "Null", "NULL"].contains s

def isTrue (s : String) : Bool :=
  ["yes", "Yes", "YES", "true", "True", "TRUE", "on", "On", "ON"].contains s

def isFalse (s : String) : Bool :=
  ["no", "No", "NO", "false", "False", "FALSE", "off", "Off", "OFF"].contains s

def resolve (cs : List Char) : Value :=
  let s := String.ofList cs
  if isNull s then .null
  else if isTrue s then .flag true
  else if isFalse s then .flag false
  else
    match integer? cs, real? cs with
    | some n, _ => .whole n
    | none, some x => .number (.real x)
    | none, none => .text s

end Downlink.Yaml
