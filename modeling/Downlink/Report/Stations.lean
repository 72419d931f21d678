import Downlink.Report.Summary

/-!
Outcomes by station: how many of a station's packets were sent and dropped, the weight it lost and
its mean delay. Sums of floating-point numbers carry a compensation for what rounding loses.
-/

namespace Downlink

structure StationRow where
  station : Int
  packets : Nat
  transmitted : Nat
  dropped : Nat
  weightedLoss : Float
  delayMean : Float

namespace StationRow

/-- A running sum and the part of the last term that did not fit. -/
structure Compensated where
  sum : Float
  rest : Float

def Compensated.add (c : Compensated) (x : Float) : Compensated :=
  let y := x - c.rest
  let t := c.sum + y
  let rest := (t - c.sum) - y
  ⟨t, if rest.isNaN then 0 else rest⟩

def sum (xs : List Float) : Float := (xs.foldl Compensated.add ⟨0, 0⟩).sum

def mean (xs : List Float) : Float :=
  if xs.isEmpty then Binary64.nan else sum xs / Float.ofNat xs.length

def loss (p : Packet) : Except Fault Float :=
  if p.state = .dropped then Summary.real p.penalty else .ok 0

def losses : List Packet → Except Fault (List Float)
  | [] => .ok []
  | p :: ps =>
    match loss p with
    | .error e => .error e
    | .ok x => (losses ps).map (x :: ·)

def delays (packets : List Packet) : List Float :=
  packets.filterMap fun p => p.delay?.bind Binary64.ofInt?

def ofPackets (station : Int) (packets : List Packet) : Except Fault StationRow :=
  (losses packets).map fun xs =>
    { station := station
      packets := packets.length
      transmitted := packets.countP fun p => p.state = .transmitted
      dropped := packets.countP fun p => p.state = .dropped
      weightedLoss := sum xs
      delayMean := mean (delays packets) }

def lossRatio (r : StationRow) : Float := Float.ofNat r.dropped / Float.ofNat r.packets

def record (r : StationRow) : Table.Record :=
  [("station_id", .whole r.station),
   ("packets", .whole r.packets),
   ("transmitted", .whole r.transmitted),
   ("dropped", .whole r.dropped),
   ("weighted_loss", .real r.weightedLoss),
   ("delay_mean_rounds", .real r.delayMean),
   ("loss_ratio", .real r.lossRatio)]

end StationRow

structure StationGroup where
  station : Int
  packets : List Packet

def StationGroup.ofPackets (packets : List Packet) : List StationGroup :=
  ((packets.map Packet.station).mergeSort (· ≤ ·)).eraseDups.map fun k =>
    ⟨k, packets.filter fun p => p.station = k⟩

namespace RunResult

def stationRows : List StationGroup → Except Fault (List StationRow)
  | [] => .ok []
  | g :: rest =>
    match StationRow.ofPackets g.station g.packets with
    | .error e => .error e
    | .ok row => (stationRows rest).map (row :: ·)

def bareStationColumns : List String :=
  ["station_id", "packets", "transmitted", "dropped", "weighted_loss"]

def stationTableBy (r : RunResult) (group : List Packet → List StationGroup) : Except Fault Table :=
  if r.packets.isEmpty then .ok ⟨bareStationColumns, []⟩
  else (stationRows (group r.packets)).map fun rows => .ofRecords (rows.map StationRow.record)

def stationTable (r : RunResult) : Except Fault Table := r.stationTableBy StationGroup.ofPackets

end RunResult

end Downlink
