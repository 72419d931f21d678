import Downlink.Text.Blank
import Downlink.Text.Digit

/-!
Whole numbers as text. Writing gives a minus sign and the decimal digits without leading zeros.
Reading is more liberal: white space around the number, a sign of either kind, digits of any script
and single underscores between two digits. Both ways the number of digits is limited.
-/

namespace Downlink.Text

def natDigits (n : Nat) : List Char :=
  if n < 10 then [digitChar n] else natDigits (n / 10) ++ [digitChar (n % 10)]
termination_by n
decreasing_by omega

def intDigits (i : Int) : List Char :=
  if i < 0 then '-' :: natDigits i.natAbs else natDigits i.natAbs

def decimal (i : Int) : String := String.ofList (intDigits i)

def digitLimit : Nat := 4300

def power (base : Nat) : Nat → Nat
  | 0 => 1
  | n + 1 => power base n * base

theorem power_eq (base n : Nat) : power base n = Nat.pow base n := by
  induction n with
  | zero => rw [power, Nat.pow]
  | succ n ih =>
    rw [power, ih]
    rfl

attribute [irreducible] power

def isWritable (i : Int) : Bool :=
  -- in two steps, as a recursion thousands of levels deep is not evaluated
  i.natAbs < power (power 10 100) (digitLimit / 100)

/-- White space that may surround a number: the information separators do not count. -/
def isNumberBlank (c : Char) : Bool := isBlank c && !(28 ≤ c.toNat && c.toNat ≤ 31)

def moreDigits (value : Nat) : List Char → Option Nat
  | [] => some value
  | '_' :: c :: cs => (digit? c).bind fun d => moreDigits (10 * value + d) cs
  | c :: cs => (digit? c).bind fun d => moreDigits (10 * value + d) cs

def natural? : List Char → Option Nat
  | [] => none
  | c :: cs => (digit? c).bind fun d => moreDigits d cs

def limitedNatural? (cs : List Char) : Option Nat :=
  if (cs.filter (· != '_')).length ≤ digitLimit then natural? cs else none

def integer? (cs : List Char) : Option Int :=
  match trim isNumberBlank cs with
  | '-' :: ds => (limitedNatural? ds).map fun n : Nat => -(n : Int)
  | '+' :: ds => (limitedNatural? ds).map fun n : Nat => (n : Int)
  | ds => (limitedNatural? ds).map fun n : Nat => (n : Int)

end Downlink.Text
