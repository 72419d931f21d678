import Downlink.Packet
import Downlink.Station

/-!
Periodic downlink traffic with one first-in-first-out queue per station. Every packet ever emitted
is kept, in the order of emission, which is also the order of the ids; the queues hold ids.
-/

namespace Downlink

structure Queue where
  station : Station
  ids : List Nat
  deriving DecidableEq, Repr

structure Traffic where
  queues : List Queue
  packets : Array Packet
  generating : Bool
  deriving Repr

namespace Traffic

def ofStations (stations : List Station) : Except Fault Traffic :=
  let ordered := Station.inOrder stations
  (Station.checkAll ordered).map fun () => ⟨ordered.map (⟨·, []⟩), #[], true⟩

def stations (t : Traffic) : List Station := t.queues.map Queue.station

def stationIds (t : Traffic) : List Int := t.queues.map fun q => q.station.id

def queue? (t : Traffic) (station : Int) : Option Queue :=
  t.queues.find? fun q => q.station.id = station

def queue (t : Traffic) (station : Int) : Except Fault (List Nat) :=
  match t.queue? station with
  | some q => .ok q.ids
  | none => .error (.missing (.whole station))

def waiting (t : Traffic) (station : Int) : List Nat :=
  ((t.queue? station).map Queue.ids).getD []

def setQueue (t : Traffic) (station : Int) (ids : List Nat) : Traffic :=
  { t with queues := t.queues.map fun q =>
      if q.station.id = station then { q with ids := ids } else q }

/-- The packet with this id; ids are given out by emission, so the queues name packets that exist.
-/
def packet? (t : Traffic) (id : Nat) : Option Packet := t.packets[id]?

def setPacket (t : Traffic) (id : Nat) (p : Packet) : Traffic :=
  { t with packets := t.packets.setIfInBounds id p }

def update (t : Traffic) (id : Nat) (step : Packet → Except Fault Packet) :
    Except Fault Traffic :=
  match t.packet? id with
  | none => .error .outOfRange
  | some p => (step p).map (t.setPacket id)

def arriving (s : Station) (id : Nat) (round : Int) : Packet :=
  { id := Int.ofNat id, station := s.id, arrival := round, deadline := round + s.deadline,
    penalty := s.penalty, state := .pending }

def emitFrom (t : Traffic) (s : Station) (round : Int) : Traffic :=
  let id := t.packets.size
  let t := t.setQueue s.id (t.waiting s.id ++ [id])
  { t with packets := t.packets.push (arriving s id round) }

def emit (t : Traffic) (station round : Int) : Except Fault (Nat × Traffic) :=
  match t.queue? station with
  | some q => .ok (t.packets.size, t.emitFrom q.station round)
  | none => .error (.missing (.whole station))

def due (t : Traffic) (round : Int) : List Station :=
  if t.generating then t.stations.filter fun s => round % s.period = 0 else []

def emitAll (t : Traffic) (round : Int) : List Station → Traffic
  | [] => t
  | s :: rest => emitAll (t.emitFrom s round) round rest

def generate (t : Traffic) (round : Int) : List Nat × Traffic :=
  let due := t.due round
  (List.range' t.packets.size due.length, t.emitAll round due)

def stop (t : Traffic) : Traffic := { t with generating := false }

def backlog (t : Traffic) : Nat := (t.queues.flatMap Queue.ids).length

def hasBacklog (t : Traffic) : Bool := t.queues.any fun q => !q.ids.isEmpty

def popFront (t : Traffic) (station : Int) : Except Fault (Nat × Traffic) :=
  match t.queue station with
  | .error e => .error e
  | .ok [] => .error .outOfRange
  | .ok (id :: ids) => .ok (id, t.setQueue station ids)

end Traffic

end Downlink
