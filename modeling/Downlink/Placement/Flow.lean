import Downlink.Placement.Program

/-!
The flow network of one horizon: source, packets, the slots of every round, sink, unit capacities,
and the negated weight as the cost of an arc from a packet to a slot. A flow of a given supply
serves that many packets; the sweep over supplies keeps the first of the cheapest flows.
-/

namespace Downlink

structure Arc where
  tail : Int
  head : Int
  capacity : Int
  cost : Int
  deriving DecidableEq, Repr

structure FlowNetwork where
  nodes : List (Int × Option Int)
  arcs : List Arc
  servingArcs : Nat
  deriving Repr

namespace FlowNetwork

def addNode (nodes : List (Int × Option Int)) (id : Int) (demand : Option Int) :
    List (Int × Option Int) :=
  if nodes.any fun n => n.1 = id then
    nodes.map fun n => if n.1 = id then (id, demand.orElse fun () => n.2) else n
  else nodes ++ [(id, demand)]

def addArc (arcs : List Arc) (a : Arc) : List Arc :=
  if arcs.any fun b => b.tail = a.tail && b.head = a.head then
    arcs.map fun b => if b.tail = a.tail && b.head = a.head then a else b
  else arcs ++ [a]

def span (first count : Int) : List Int :=
  (List.range count.toNat).map fun k => first + Int.ofNat k

def sink (rounds capacity : Int) (triples : List Triple) : Int :=
  triples.length + capacity * rounds + 1

def packetArcs (rounds capacity : Int) (packets : Nat) (t : Triple) (i : Nat) : List Arc :=
  ((span 0 rounds).filter fun j => t.arrival ≤ j && j ≤ t.deadline).flatMap fun j =>
    (span (packets + 1 + j * capacity) capacity).map fun k => ⟨Int.ofNat i + 1, k, 1, -t.weight⟩

def build (rounds capacity : Int) (triples : List Triple) (supply : Int) : FlowNetwork :=
  let packets := triples.length
  let out := sink rounds capacity triples
  let serving := triples.zipIdx.flatMap fun p => packetArcs rounds capacity packets p.1 p.2
  let fromSource := (span 1 packets).map fun i => Arc.mk 0 i 1 0
  let toSink := (span (packets + 1) (capacity * rounds)).map fun k => Arc.mk k out 1 0
  let all := serving ++ fromSource ++ toSink
  let ends := addNode (addNode [] 0 (some (-supply))) out (some supply)
  { nodes := all.foldl (fun ns a => addNode (addNode ns a.tail none) a.head none) ends
    arcs := all.foldl addArc []
    servingArcs := serving.length }

def arcCount (rounds capacity : Int) (triples : List Triple) : Nat :=
  (triples.zipIdx.flatMap fun p => packetArcs rounds capacity triples.length p.1 p.2).length

end FlowNetwork

structure FlowResult where
  cost : Int
  supply : Int
  assignments : List (Int × Int)
  totalNodes : Int
  totalEdges : Nat
  deriving DecidableEq, Repr

namespace FlowResult

def totalWeight (f : FlowResult) : Int := -f.cost

def zero (rounds capacity : Int) (triples : List Triple) : FlowResult :=
  ⟨0, 0, [], triples.length + capacity * rounds, FlowNetwork.arcCount rounds capacity triples⟩

end FlowResult

namespace Flow

/-- What a placement of exactly `supply` packets amounts to as a flow: packets of positive weight
count as assigned. -/
def ofPlacement (rounds capacity : Int) (triples : List Triple) (supply : Int) (m : Placement) :
    FlowResult :=
  let jobs := triples.map (Triple.job rounds)
  let paid := m.filter fun p => 0 < Placement.weightOf jobs p.1
  { FlowResult.zero rounds capacity triples with
    cost := -Placement.weight jobs m
    supply := supply
    assignments := paid.map fun p => (Int.ofNat p.1, p.2) }

/-- Without slots the only arc that can reach the sink is the one from the source, when the sink
falls on a packet. -/
def withoutSlots (rounds capacity : Int) (triples : List Triple) (supply : Int) : Bool :=
  let out := FlowNetwork.sink rounds capacity triples
  supply = 0 || (supply = 1 && 1 ≤ out && out ≤ triples.length)

def solve (rounds capacity : Int) (triples : List Triple) (supply : Int) : Option FlowResult :=
  if 0 < rounds && 0 < capacity then
    if supply < 0 then none
    else
      let jobs := triples.map (Triple.job rounds)
      let m := Placement.best jobs capacity.toNat supply.toNat fun _ => true
      if m.length = supply.toNat then some (ofPlacement rounds capacity triples supply m) else none
  else if withoutSlots rounds capacity triples supply then
    some { FlowResult.zero rounds capacity triples with supply := supply }
  else none

def better (best : FlowResult) (next : Option FlowResult) : FlowResult :=
  match next with
  | none => best
  | some f => if f.cost < best.cost then f else best

def sweep (rounds capacity : Int) (triples : List Triple) (supplies : List Int) : FlowResult :=
  supplies.foldl (fun best s => better best (solve rounds capacity triples s))
    (FlowResult.zero rounds capacity triples)

def sweepAll (rounds capacity : Int) (triples : List Triple) : FlowResult :=
  sweep rounds capacity triples (FlowNetwork.span 1 triples.length)

end Flow

end Downlink
