import Downlink.Text.Integer
import Downlink.Binary64

/-!
Floating-point numbers as text. Written: the fewest digits that read back, positional for exponents
from -4 to 15 and with at least one digit after the point. Read: decimal digits of any script with
single underscores between them, an optional point and exponent, or a spelling of infinity or of
not-a-number, white space around it.
-/

namespace Downlink.Text

open Binary64 (Exact)

def dropTrailingZeros (ds : List Char) : List Char := trimRight (· = '0') ds

def exponentDigits (e : Int) : List Char :=
  let ds := natDigits e.natAbs
  (if e < 0 then '-' else '+') :: (if ds.length < 2 then '0' :: ds else ds)

def positional (ds : List Char) (point : Int) : List Char :=
  if point ≤ 0 then '0' :: '.' :: (List.replicate (-point).toNat '0' ++ ds)
  else
    let whole := ds.take point.toNat
    let fraction := ds.drop point.toNat
    whole ++ List.replicate (point.toNat - whole.length) '0' ++
      '.' :: (if fraction.isEmpty then ['0'] else fraction)

def scientific (ds : List Char) (exponent : Int) : List Char :=
  match ds with
  | [] => []
  | [d] => d :: 'e' :: exponentDigits exponent
  | d :: rest => d :: '.' :: rest ++ 'e' :: exponentDigits exponent

def finiteDigits (x : Exact) : List Char :=
  if x.significand = 0 then ['0', '.', '0']
  else
    let (c, k) := x.shortest
    let all := natDigits c
    let point : Int := all.length + k
    let ds := dropTrailingZeros all
    if -4 < point && point ≤ 16 then positional ds point else scientific ds (point - 1)

def real (x : Float) : String :=
  match Binary64.parts? x with
  | some e => String.ofList ((if e.negative then ['-'] else []) ++ finiteDigits e)
  | none => if x.isNaN then "nan" else if x < 0 then "-inf" else "inf"

def digitsAfter : List Char → List Nat × List Char
  | [] => ([], [])
  | '_' :: c :: cs =>
    match digit? c with
    | some d => (d :: (digitsAfter cs).1, (digitsAfter cs).2)
    | none => ([], '_' :: c :: cs)
  | c :: cs =>
    match digit? c with
    | some d => (d :: (digitsAfter cs).1, (digitsAfter cs).2)
    | none => ([], c :: cs)

def digitRun : List Char → List Nat × List Char
  | [] => ([], [])
  | c :: cs =>
    match digit? c with
    | some d => (d :: (digitsAfter cs).1, (digitsAfter cs).2)
    | none => ([], c :: cs)

def signed (cs : List Char) : Bool × List Char :=
  match cs with
  | '-' :: r => (true, r)
  | '+' :: r => (false, r)
  | r => (false, r)

def exponent? : List Char → Option Int
  | [] => some 0
  | c :: cs =>
    if c = 'e' || c = 'E' then
      let (negative, r) := signed cs
      match digitRun r with
      | (d :: ds, []) =>
        let n : Nat := (d :: ds).foldl (fun v d => 10 * v + d) 0
        some (if negative then -(n : Int) else n)
      | _ => none
    else none

def unsignedReal? (negative : Bool) (cs : List Char) : Option Float :=
  let (whole, r) := digitRun cs
  let (fraction, r) := match r with
    | '.' :: r => digitRun r
    | r => ([], r)
  if whole.isEmpty && fraction.isEmpty then none
  else (exponent? r).map fun e =>
    Binary64.ofDecimal negative (whole ++ fraction) (e - fraction.length)

def real? (cs : List Char) : Option Float :=
  let (negative, r) := signed (trim isNumberBlank cs)
  let low := r.map Char.toLower
  if low = "inf".toList || low = "infinity".toList then some (Binary64.infinity negative)
  else if low = "nan".toList then some Binary64.nan
  else unsignedReal? negative r

end Downlink.Text
