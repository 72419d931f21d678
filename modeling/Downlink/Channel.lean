import Downlink.Fault

/-!
What becomes of transmissions. The ideal channel delivers everything; the lossy one takes one draw
per transmission to decide a loss and, only after a loss, a second to decide how it is reported.
-/

namespace Downlink

structure Allocation where
  station : Int
  packet : Nat
  ru : Ru
  deriving DecidableEq, Repr

structure TxReport where
  station : Int
  packet : Nat
  round : Int
  status : TxStatus
  deriving DecidableEq, Repr

/-- A lossy channel knows how many draws it has taken from its source. -/
inductive Channel where
  | ideal
  | lossy (rate : Float) (draw : Nat → Float) (used : Nat)

namespace Channel

def makeLossy (rate : Number) (draw : Nat → Float) : Except Fault Channel :=
  match rate.toReal? with
  | none => .error .overflow
  | some x =>
    if rate.isProbability then .ok (.lossy x draw 0) else .error (.setup (.lossRate rate))

def make (rate : Number) (draw : Nat → Float) : Except Fault Channel :=
  if rate.isZero then .ok .ideal else makeLossy rate draw

/-- Draws come from a generator, which takes no negative seed. -/
def seeded (seed : Int) : Channel → Except Fault Channel
  | ideal => .ok ideal
  | lossy rate draw used =>
    if seed < 0 then .error (.value .negativeSeed) else .ok (lossy rate draw used)

def fate (rate : Float) (draw : Nat → Float) (used : Nat) : TxStatus × Nat :=
  if draw used < rate then
    (if draw (used + 1) < 0.5 then .failed else .nack, used + 2)
  else (.success, used + 1)

def reportsFrom (rate : Float) (draw : Nat → Float) (round : Int) :
    Nat → List Allocation → List TxReport × Nat
  | used, [] => ([], used)
  | used, a :: rest =>
    let (status, used) := fate rate draw used
    let (reports, used) := reportsFrom rate draw round used rest
    (⟨a.station, a.packet, round, status⟩ :: reports, used)

def transmit (c : Channel) (round : Int) (allocations : List Allocation) :
    List TxReport × Channel :=
  match c with
  | ideal => (allocations.map fun a => ⟨a.station, a.packet, round, .success⟩, ideal)
  | lossy rate draw used =>
    let (reports, used) := reportsFrom rate draw round used allocations
    (reports, lossy rate draw used)

end Channel

end Downlink
