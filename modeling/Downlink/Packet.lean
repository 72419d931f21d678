import Downlink.Fault

/-!
Packets queued at the access point. Each step of a packet's life is refused, with the packet left as
it was, unless its state allows the move; what a step decides is recorded with it.
-/

namespace Downlink

structure Packet where
  id : Int
  station : Int
  arrival : Int
  deadline : Int
  penalty : Int
  state : PacketState := .idle
  horizon : Option Int := none
  scheduleIndex : Option Int := none
  assignedRound : Option Int := none
  txRound : Option Int := none
  ru : Option Ru := none
  txStatus : Option TxStatus := none
  dropRound : Option Int := none
  dropReason : Option DropReason := none
  deriving DecidableEq, Repr

namespace Packet

def move (p : Packet) (target : PacketState) : Except Fault Packet :=
  if p.state.allows target then .ok { p with state := target }
  else .error (.showing [p.id, p.station] (.desync (.illegalMove p.id p.station p.state target)))

def enqueue (p : Packet) : Except Fault Packet := p.move .pending

def schedule (p : Packet) (index round : Int) : Except Fault Packet :=
  (p.move .scheduled).map fun q =>
    { q with scheduleIndex := some index, assignedRound := some round }

/-- A pending packet is sent straight from the queue, as if this round had been assigned to it. -/
def ready (p : Packet) (round : Int) : Except Fault Packet :=
  if p.state = .pending then
    (p.move .scheduled).map fun q => { q with assignedRound := some round }
  else .ok p

def transmit (p : Packet) (round : Int) (ru : Ru) : Except Fault Packet :=
  match p.ready round with
  | .error e => .error e
  | .ok q =>
    (q.move .transmitted).map fun q => { q with txRound := some round, ru := some ru }

def drop (p : Packet) (round : Int) (reason : DropReason) : Except Fault Packet :=
  (p.move .dropped).map fun q => { q with dropRound := some round, dropReason := some reason }

def isResolved (p : Packet) : Bool := p.state.isTerminal

def delay? (p : Packet) : Option Int := p.txRound.map (· - p.arrival)

end Packet

end Downlink
