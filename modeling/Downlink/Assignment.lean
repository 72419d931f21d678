import Downlink.Schedule

/-!
Assignments of schedule entries to rounds. An assignment lists entry indices with their rounds, each
index once, in the order in which they were decided; an index that is missing stands for a packet
that is not served. `check` accepts exactly the feasible assignments and otherwise names the first
fault, and `redeal` puts a station's rounds into arrival order.
-/

namespace Downlink

abbrev Assignment := List (Int × Int)

namespace Assignment

def round? (m : Assignment) (index : Int) : Option Int :=
  (m.find? fun p => p.1 = index).map Prod.snd

def serves (m : Assignment) (index : Int) : Bool := m.any fun p => p.1 = index

/-- Adds a pair; an index that is there already keeps its place and takes the new round. -/
def insert (m : Assignment) (index round : Int) : Assignment :=
  if m.serves index then m.map fun p => if p.1 = index then (index, round) else p
  else m ++ [(index, round)]

def ofPairs (ps : List (Int × Int)) : Assignment := ps.foldl (fun m p => m.insert p.1 p.2) []

def rounds (m : Assignment) : List Int := m.map Prod.snd

def sortByIndex (m : Assignment) : Assignment := m.mergeSort fun a b => a.1 ≤ b.1

def loads (m : Assignment) : List (Int × Nat) :=
  m.rounds.eraseDups.map fun r => (r, m.rounds.count r)

def loadByRound (m : Assignment) : List (Int × Nat) := m.loads.mergeSort fun a b => a.1 ≤ b.1

def missing (m : Assignment) (s : Schedule) : List Int :=
  ((List.range s.entries.length).map Int.ofNat).filter fun i => !m.serves i

def weight (m : Assignment) (s : Schedule) : Int :=
  total (m.map fun p => ((s.entryAt? p.1).map Entry.penalty).getD 0)

structure Feasible (s : Schedule) (capacity : Int) (m : Assignment) : Prop where
  index : ∀ p ∈ m, 0 ≤ p.1 ∧ p.1 < s.entries.length
  window : ∀ p ∈ m, ∀ e, s.entryAt? p.1 = some e → (s.clip e).1 ≤ p.2 ∧ p.2 ≤ (s.clip e).2
  load : ∀ r ∈ m.rounds, (m.rounds.count r : Int) ≤ capacity

def checkPair (s : Schedule) (p : Int × Int) : Except Fault Unit :=
  if 0 ≤ p.1 && p.1 < s.entries.length then
    match s.window p.1 with
    | .error e => .error e
    | .ok (low, high) =>
      if low ≤ p.2 && p.2 ≤ high then .ok ()
      else .error (.showing [p.1, p.2, low, high] (.solve (.roundOutside p.1 p.2 low high)))
  else .error (.showing [p.1, s.entries.length] (.solve (.indexOutside p.1 s.entries.length)))

def checkPairs (s : Schedule) : Assignment → Except Fault Unit
  | [] => .ok ()
  | p :: ps =>
    match checkPair s p with
    | .error e => .error e
    | .ok () => checkPairs s ps

def checkLoads (capacity : Int) : List (Int × Nat) → Except Fault Unit
  | [] => .ok ()
  | (r, n) :: rest =>
    if capacity < n then .error (.showing [r, n, capacity] (.solve (.overfull r n capacity)))
    else checkLoads capacity rest

def check (s : Schedule) (m : Assignment) (capacity : Int) : Except Fault Unit :=
  match checkPairs s m with
  | .error e => .error e
  | .ok () => checkLoads capacity m.loads

def servedIn (m : Assignment) (r : Run) : List Int :=
  ((List.range' r.start (r.stop - r.start)).map Int.ofNat).filter m.serves

def redealRun (m : Assignment) (r : Run) : Assignment :=
  let indices := m.servedIn r
  indices.zip ((indices.filterMap m.round?).mergeSort (· ≤ ·))

/-- Queues are first in, first out, so the k-th served packet of a station gets the k-th of the
station's rounds. Windows move forward along a run, so no feasible assignment is lost. -/
def redeal (s : Schedule) (m : Assignment) : Assignment :=
  sortByIndex (s.runs.flatMap m.redealRun)

end Assignment

end Downlink
