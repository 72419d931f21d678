import Downlink.Text.Real

/-!
Numbers as settings give them: whole, of any size, or floating point. The two kinds are kept apart
because a message shows a number the way it was given.
-/

namespace Downlink

inductive Number where
  | whole (n : Int)
  | real (x : Float)

namespace Number

def text : Number → String
  | whole n => Text.decimal n
  | real x => Text.real x

def toReal? : Number → Option Float
  | whole n => Binary64.ofInt? n
  | real x => some x

def notPositive : Number → Bool
  | whole n => n ≤ 0
  | real x => x <= 0

def isProbability : Number → Bool
  | whole n => 0 ≤ n && n ≤ 1
  | real x => 0 <= x && x <= 1

def isZero : Number → Bool
  | whole n => n = 0
  | real x => x == 0

end Number

end Downlink
