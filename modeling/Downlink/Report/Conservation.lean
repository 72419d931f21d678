import Downlink.Simulation

/-!
Conservation of packets. Every packet ends transmitted or dropped, with the outcome that goes with
it; and the packets of a deadline-aware horizon that ended while traffic was generated claim each
entry of its schedule once.
-/

namespace Downlink

inductive Violation where
  | transmittedInconsistent (packet : Int)
  | droppedInconsistent (packet : Int)
  | unresolved (packet : Int) (state : PacketState)
  | uncovered (horizon : Int) (claimed : List (Option Int)) (packets : Int)
  deriving DecidableEq, Repr

def Violation.message : Violation → String
  | transmittedInconsistent id => s!"packet {id}: transmitted with inconsistent outcome"
  | droppedInconsistent id => s!"packet {id}: dropped with inconsistent outcome"
  | unresolved id state => s!"packet {id}: unresolved ({state.name})"
  | uncovered index claimed packets =>
    let shown (i : Option Int) : String := (i.map Text.decimal).getD "None"
    s!"horizon {index}: entries {Text.bracketed (claimed.map shown)} do not cover 0..{packets - 1}"

namespace Conservation

def ofPacket (p : Packet) : Option Violation :=
  match p.state with
  | .transmitted =>
    if p.txRound.isNone || p.dropReason.isSome then some (.transmittedInconsistent p.id) else none
  | .dropped =>
    if p.dropReason.isNone || p.txRound.isSome then some (.droppedInconsistent p.id) else none
  | state => some (.unresolved p.id state)

def claims (packets : List Packet) (horizon : Int) : List (Option Int) :=
  (packets.filter fun p => p.horizon = some horizon).map Packet.scheduleIndex

def ordered (cs : List (Option Int)) : Except Fault (List (Option Int)) :=
  if cs.length < 2 then .ok cs
  else if cs.any Option.isNone then .error .wrongKind
  else .ok ((cs.filterMap id).mergeSort (· ≤ ·) |>.map some)

def everyEntry (packets : Int) : List (Option Int) :=
  (List.range packets.toNat).map fun i => some (Int.ofNat i)

def ofHorizon (packets : List Packet) (h : HorizonRecord) : Except Fault (List Violation) :=
  (ordered (claims packets h.index)).map fun cs =>
    if cs = everyEntry h.packets then [] else [.uncovered h.index cs h.packets]

def ofHorizons (packets : List Packet) : List HorizonRecord → Except Fault (List Violation)
  | [] => .ok []
  | h :: hs =>
    match ofHorizon packets h with
    | .error e => .error e
    | .ok vs => (ofHorizons packets hs).map (vs ++ ·)

end Conservation

namespace RunResult

def completeHorizons (r : RunResult) : List HorizonRecord :=
  r.horizons.filter fun h => h.start + h.rounds ≤ r.rounds

def violations (r : RunResult) : Except Fault (List Violation) :=
  let ofPackets := r.packets.filterMap Conservation.ofPacket
  if r.policy = DeadlineAware.name then
    (Conservation.ofHorizons r.packets r.completeHorizons).map (ofPackets ++ ·)
  else .ok ofPackets

end RunResult

end Downlink
