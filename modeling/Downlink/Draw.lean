/-!
Pseudo-random draws. The k-th draw of a seed is a fixed function of both: the seed plus `k + 1`
steps of a constant stride, with the bits mixed.
-/

namespace Downlink

namespace Draw

def stride : UInt64 := 0x9e3779b97f4a7c15

def mix (z : UInt64) : UInt64 :=
  let z := (z ^^^ (z >>> 30)) * 0xbf58476d1ce4e5b9
  let z := (z ^^^ (z >>> 27)) * 0x94d049bb133111eb
  z ^^^ (z >>> 31)

def bits (seed : Int) (k : Nat) : UInt64 :=
  mix (UInt64.ofNat (seed % 0x10000000000000000).toNat + stride * UInt64.ofNat (k + 1))

/-- A multiple of `2 ^ (-53)` from zero up to but not including one. -/
def uniform (seed : Int) (k : Nat) : Float :=
  Float.ofNat (bits seed k >>> 11).toNat / Float.ofNat 0x20000000000000

def whole (seed : Int) (k : Nat) : Int := (bits seed k).toNat

end Draw

end Downlink
