import Downlink.Assignment

/-!
The bipartite graph of a horizon: entries on one side, slots, that is pairs of a round and a unit,
on the other. An edge weighs `penalty * (n + 1) + 1` for a horizon of `n` entries, so that penalties
decide and the number of served packets breaks ties. A round gets no more slots than there are
entries whose windows reach it.
-/

namespace Downlink

structure SlotEdge where
  entry : Nat
  round : Int
  unit : Nat
  weight : Int
  deriving DecidableEq, Repr

namespace SlotGraph

def windowRounds (s : Schedule) (e : Entry) : List Int :=
  let (low, high) := s.clip e
  (List.range (high - low + 1).toNat).map fun k => low + Int.ofNat k

def reach (s : Schedule) (r : Int) : Nat :=
  s.entries.countP fun e => (s.clip e).1 ≤ r && r ≤ (s.clip e).2

def slots (s : Schedule) (capacity : Int) (r : Int) : Nat := min capacity.toNat (reach s r)

def entryEdges (s : Schedule) (capacity : Int) (i : Nat) (e : Entry) : List SlotEdge :=
  (windowRounds s e).flatMap fun r =>
    (List.range (slots s capacity r)).map fun u =>
      ⟨i, r, u, e.penalty * (s.entries.length + 1) + 1⟩

def edges (s : Schedule) (capacity : Int) : List SlotEdge :=
  s.entries.zipIdx.flatMap fun p => entryEdges s capacity p.2 p.1

def nodeCount (s : Schedule) (capacity : Int) : Nat :=
  s.entries.length +
    (List.range s.rounds.toNat).foldr (fun k n => slots s capacity (s.start + Int.ofNat k) + n) 0

def readBack (M : List SlotEdge) : Assignment := M.map fun e => (Int.ofNat e.entry, e.round)

end SlotGraph

end Downlink
