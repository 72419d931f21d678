/-!
Binary floating-point numbers seen exactly: the nearest one to a quotient of naturals, with ties to
the even significand, the exact value of one, and the shortest decimal that reads back as it.
-/

namespace Downlink.Binary64

def roundQuotient (num den : Nat) : Nat :=
  let q := num / den
  let r := num % den
  if 2 * r < den then q else if den < 2 * r then q + 1 else q + q % 2

def scaled (num den : Nat) (e : Int) : Nat × Nat :=
  if 0 ≤ e then (num, den * Nat.pow 2 e.toNat) else (num * Nat.pow 2 (-e).toNat, den)

def floorLog2 (num den : Nat) : Int :=
  let k : Int := (Nat.log2 num : Int) - (Nat.log2 den : Int)
  let (n, d) := scaled num den k
  if d ≤ n then k else k - 1

def infinityBits : Nat := 0x7ff0000000000000

def signBit : Nat := 0x8000000000000000

def hiddenBit : Nat := 0x10000000000000

/-- The bits of the nearest number to `num / den`, without the sign. -/
def nearestBits (num den : Nat) : Nat :=
  if num = 0 || den = 0 then 0
  else
    let e := max (floorLog2 num den - 52) (-1074)
    let (n, d) := scaled num den e
    let q := roundQuotient n d
    let bits := if q < hiddenBit then q else (e + 1075).toNat * hiddenBit + (q - hiddenBit)
    min bits infinityBits

def nearest (negative : Bool) (num den : Nat) : Float :=
  let bits := nearestBits num den + if negative then signBit else 0
  Float.ofBits (UInt64.ofNat bits)

def nan : Float := Float.ofBits 0x7ff8000000000000

def infinity (negative : Bool) : Float :=
  Float.ofBits (UInt64.ofNat (infinityBits + if negative then signBit else 0))

def ofInt? (i : Int) : Option Float :=
  let x := nearest (i < 0) i.natAbs 1
  if x.isInf then none else some x

def ofDecimal (negative : Bool) (digits : List Nat) (exponent : Int) : Float :=
  let value := digits.foldl (fun v d => 10 * v + d) 0
  let reach := exponent + digits.length
  if value = 0 || reach < -400 then nearest negative 0 1
  else if 400 + digits.length < reach then infinity negative
  else if 0 ≤ exponent then nearest negative (value * Nat.pow 10 exponent.toNat) 1
  else nearest negative value (Nat.pow 10 (-exponent).toNat)

structure Exact where
  negative : Bool
  significand : Nat
  exponent : Int
  deriving Repr, DecidableEq

def parts? (x : Float) : Option Exact :=
  let bits := x.toBits.toNat
  let field : Nat := bits / hiddenBit % 2048
  let fraction : Nat := bits % hiddenBit
  if field = 2047 then none
  else if field = 0 then some ⟨signBit ≤ bits, fraction, -1074⟩
  else some ⟨signBit ≤ bits, hiddenBit + fraction, (field : Int) - 1075⟩

def Exact.truncate (x : Exact) : Int :=
  let n := if 0 ≤ x.exponent then x.significand * Nat.pow 2 x.exponent.toNat
    else x.significand / Nat.pow 2 (-x.exponent).toNat
  if x.negative then -(n : Int) else n

/-- A positive value with the open or closed interval of the reals that round to it, all over one
denominator. -/
structure Span where
  low : Nat
  value : Nat
  high : Nat
  den : Nat
  closed : Bool

def Exact.span (x : Exact) : Span :=
  let m := x.significand
  let below := if m = hiddenBit && -1074 < x.exponent then 1 else 2
  let (scale, den) := if 2 ≤ x.exponent then (Nat.pow 2 (x.exponent - 2).toNat, 1)
    else (1, Nat.pow 2 (2 - x.exponent).toNat)
  ⟨(4 * m - below) * scale, 4 * m * scale, (4 * m + 2) * scale, den, m % 2 = 0⟩

def Span.contains (s : Span) (num den : Nat) : Bool :=
  let lo := s.low * den
  let hi := s.high * den
  let v := num * s.den
  if s.closed then lo ≤ v && v ≤ hi else lo < v && v < hi

def leadingZeros : Nat → Nat → Nat → Nat
  | 0, _, _ => 0
  | fuel + 1, num, den => if den ≤ num then 0 else leadingZeros fuel (num * 10) den + 1

def digitCount (n : Nat) : Nat :=
  if n < 10 then 1 else digitCount (n / 10) + 1
termination_by n
decreasing_by omega

def Span.decimalExponent (s : Span) : Int :=
  if s.den ≤ s.value then (digitCount (s.value / s.den) : Int) - 1
  else -(leadingZeros 400 s.value s.den : Int)

/-- The point of the grid of multiples of `10 ^ k` that lies in the interval and nearest to the
value, when there is one. -/
def Span.gridPoint? (s : Span) (k : Int) : Option Nat :=
  let (num, den) := if 0 ≤ k then (s.value, s.den * Nat.pow 10 k.toNat)
    else (s.value * Nat.pow 10 (-k).toNat, s.den)
  let c := num / den
  let r := num % den
  let inside (c : Nat) : Bool :=
    if 0 ≤ k then s.contains (c * Nat.pow 10 k.toNat) 1 else s.contains c (Nat.pow 10 (-k).toNat)
  match inside c, inside (c + 1) with
  | true, true => some (if 2 * r < den || (2 * r = den && c % 2 = 0) then c else c + 1)
  | true, false => some c
  | false, true => some (c + 1)
  | false, false => none

def Span.shortestFrom (s : Span) (p : Int) : Nat → Nat → Nat × Int
  | 0, _ => (0, 0)
  | fuel + 1, n =>
    let k := p - (n : Int)
    match s.gridPoint? k with
    | some c => (c, k)
    | none => s.shortestFrom p fuel (n + 1)

/-- Digits and exponent of the shortest decimal that rounds to a positive value; of several, the
nearest. -/
def Exact.shortest (x : Exact) : Nat × Int :=
  let s := x.span
  s.shortestFrom s.decimalExponent 18 0

end Downlink.Binary64
