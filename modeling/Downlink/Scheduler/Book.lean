import Downlink.Channel
import Downlink.ResourceUnit.Sizing
import Downlink.Schedule
import Downlink.Traffic

/-!
What every scheduler keeps: the cell it serves, the active schedule, a record of each horizon, and
the stations that had something queued when the transmit format was last selected.
-/

namespace Downlink

inductive TxFormat where
  | noTx
  | dlMuTx
  deriving DecidableEq, Repr

def TxFormat.name : TxFormat → String
  | noTx => "NO_TX"
  | dlMuTx => "DL_MU_TX"

/-- The stations of a cell, in id order, with the horizon length and the cut of the channel that
follow from them. -/
structure Cell where
  stations : List Station
  cap : Int
  horizonRounds : Int
  horizonPackets : Int
  sizing : Sizing
  deriving Repr

namespace Cell

def make (stations : List Station) (width cap : Int) (pinned : Option RuType) :
    Except Fault Cell :=
  let ordered := Station.inOrder stations
  match Station.checkAll ordered with
  | .error e => .error e
  | .ok () =>
    match Width.check width with
    | .error e => .error e
    | .ok _ =>
      match horizonLength ordered cap with
      | .error e => .error e
      | .ok rounds =>
        let packets := packetCount ordered rounds
        (Sizing.forPackets width packets pinned).map fun z => ⟨ordered, cap, rounds, packets, z⟩

def ids (c : Cell) : List Int := c.stations.map Station.id

def schedule (c : Cell) (start : Int) : Except Fault Schedule :=
  Schedule.generate c.stations start c.cap

end Cell

structure HorizonRecord where
  index : Int
  start : Int
  rounds : Int
  packets : Int
  ruType : RuType
  perRound : Int
  backend : String
  matched : Int
  totalWeight : Int
  maxWeight : Int
  failed : Bool
  error : Option String
  deriving DecidableEq, Repr

structure RoundAssignment where
  round : Int
  ruType : RuType
  allocations : List Allocation
  drops : List Nat
  buffered : List Int
  deriving DecidableEq, Repr

namespace RoundAssignment

def empty (round : Int) (type : RuType) : RoundAssignment := ⟨round, type, [], [], []⟩

def served (a : RoundAssignment) : List Int :=
  (a.allocations.map Allocation.station).eraseDups.mergeSort (· ≤ ·)

end RoundAssignment

structure Book where
  cell : Cell
  schedule : Option Schedule
  horizons : List HorizonRecord
  generating : Bool
  candidates : List Int
  deriving Repr

namespace Book

def ofCell (c : Cell) : Book := ⟨c, none, [], true, []⟩

def active (b : Book) (round : Int) : Bool :=
  match b.schedule with
  | none => false
  | some s => s.contains round

def startsIn (b : Book) (round : Int) : Bool :=
  b.generating && round % b.cell.horizonRounds = 0 && !b.active round

def withBacklog (t : Traffic) (order : List Int) : List Int :=
  order.filter fun id => !(t.waiting id).isEmpty

def recordOf (b : Book) (s : Schedule) (backend : String) (matched : Nat) (weight : Int)
    (error : Option String) : HorizonRecord :=
  { index := b.horizons.length
    start := s.start
    rounds := s.rounds
    packets := s.entries.length
    ruType := b.cell.sizing.ruType
    perRound := b.cell.sizing.perRound
    backend := backend
    matched := matched
    totalWeight := weight
    maxWeight := s.totalPenalty
    failed := error.isSome
    error := error }

def begin (b : Book) (s : Schedule) (backend : String) (matched : Nat) (weight : Int)
    (error : Option String) : Book :=
  { b with
    schedule := some s
    horizons := b.horizons ++ [b.recordOf s backend matched weight error] }

def lastIndex (b : Book) : Int := b.horizons.length - 1

def stop (b : Book) : Book := { b with generating := false }

end Book

end Downlink
