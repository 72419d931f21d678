import Downlink.Station
import Downlink.Total

/-!
Packet schedules. A horizon is as long as the least common multiple of the station periods; its
schedule lists every packet that arrives in it, station by station in id order, so that each station
owns one run of consecutive indices.
-/

namespace Downlink

def lcmOfPeriods (periods : List Int) : Except Fault Int :=
  if periods.isEmpty then .error (.setup .noPeriods)
  else if periods.any (· < 1) then .error (.showing periods (.setup (.shortPeriods periods)))
  else .ok (periods.foldl (fun a b => a * b / Int.gcd a b) 1)

def horizonLength (stations : List Station) (cap : Int) : Except Fault Int :=
  let periods := stations.map Station.period
  match lcmOfPeriods periods with
  | .error e => .error e
  | .ok rounds =>
    if cap < rounds then
      .error (.showing (rounds :: cap :: periods) (.setup (.horizonTooLong periods rounds cap)))
    else .ok rounds

def packetCount (stations : List Station) (rounds : Int) : Int :=
  total (stations.map fun s => rounds / s.period)

structure Entry where
  arrival : Int
  deadline : Int
  penalty : Int
  station : Int
  deriving DecidableEq, Repr

namespace Entry

def make (arrival deadline penalty station : Int) : Except Fault Entry :=
  if deadline < arrival then .error (.value .deadlineBeforeArrival)
  else .ok ⟨arrival, deadline, penalty, station⟩

def covers (e : Entry) (round : Int) : Bool := e.arrival ≤ round && round ≤ e.deadline

end Entry

/-- The entries of one station, at positions `start` up to but not including `stop`. -/
structure Run where
  station : Int
  start : Nat
  stop : Nat
  deriving DecidableEq, Repr

structure Schedule where
  start : Int
  rounds : Int
  entries : List Entry
  runs : List Run
  deriving DecidableEq, Repr

namespace Schedule

def stationPackets (start rounds : Int) (s : Station) : List Entry :=
  (List.range (rounds / s.period).toNat).map fun k =>
    let arrival := start + Int.ofNat k * s.period
    ⟨arrival, arrival + s.deadline, s.penalty, s.id⟩

def runsFrom (first : Nat) (start rounds : Int) : List Station → List Run
  | [] => []
  | s :: rest =>
    let stop := first + (stationPackets start rounds s).length
    ⟨s.id, first, stop⟩ :: runsFrom stop start rounds rest

def ofStations (stations : List Station) (start rounds : Int) : Schedule where
  start := start
  rounds := rounds
  entries := stations.flatMap (stationPackets start rounds)
  runs := runsFrom 0 start rounds stations

def generate (stations : List Station) (start cap : Int) : Except Fault Schedule :=
  let ordered := Station.inOrder stations
  match Station.checkAll ordered with
  | .error e => .error e
  | .ok () =>
    if start < 0 then .error (.value .negativeStart)
    else
      match horizonLength ordered cap with
      | .error e => .error e
      | .ok rounds => .ok (ofStations ordered start rounds)

def stop (s : Schedule) : Int := s.start + s.rounds

def contains (s : Schedule) (round : Int) : Bool := s.start ≤ round && round < s.stop

def run? (s : Schedule) (station : Int) : Option Run := s.runs.find? fun r => r.station = station

def run (s : Schedule) (station : Int) : Except Fault Run :=
  match s.run? station with
  | some r => .ok r
  | none =>
    .error (.showing [station] (.missing (.text s!"STA_{station} has no entries in this schedule")))

def slice (s : Schedule) (r : Run) : List Entry := (s.entries.drop r.start).take (r.stop - r.start)

def stationEntries (s : Schedule) (station : Int) : Except Fault (List Entry) :=
  (s.run station).map s.slice

def indexOf (s : Schedule) (station arrival : Int) : Except Fault (Option Nat) :=
  (s.run station).map fun r =>
    ((s.slice r).findIdx? fun e => e.arrival = arrival).map (r.start + ·)

/-- The rounds in which an entry may be served, cut off at the ends of the horizon. -/
def clip (s : Schedule) (e : Entry) : Int × Int :=
  (max e.arrival s.start, min e.deadline (s.stop - 1))

/-- The entry at an index; negative indices count from the end. -/
def entryAt? (s : Schedule) (index : Int) : Option Entry :=
  if 0 ≤ index then s.entries[index.toNat]?
  else if -index ≤ s.entries.length then s.entries[(s.entries.length + index).toNat]?
  else none

def window (s : Schedule) (index : Int) : Except Fault (Int × Int) :=
  match s.entryAt? index with
  | some e => .ok (s.clip e)
  | none => .error .outOfRange

def totalPenalty (s : Schedule) : Int := total (s.entries.map Entry.penalty)

theorem stationPackets_length (start rounds : Int) (s : Station) :
    (stationPackets start rounds s).length = (rounds / s.period).toNat := by
  simp [stationPackets]

end Schedule

end Downlink
