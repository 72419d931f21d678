import Downlink.Placement.Basic
import Downlink.ResourceUnit.Sizing
import Downlink.SlotGraph

/-!
Plans. A plan is an assignment for one horizon that has been put into arrival order and checked,
together with the penalty it saves. The in-process solver plans by matching entries with slots;
which of the heaviest matchings it is given is up to the routine that searches for one.
-/

namespace Downlink

structure Plan where
  assignment : Assignment
  totalWeight : Int
  backend : String
  deriving DecidableEq, Repr

namespace Plan

def matched (p : Plan) : Nat := p.assignment.length

/-- Puts an assignment into arrival order and accepts it if it is feasible. -/
def finish (s : Schedule) (z : Sizing) (backend : String) (m : Assignment) : Except Fault Plan :=
  let m := Assignment.redeal s m
  match Assignment.check s m z.perRound with
  | .error e => .error e
  | .ok () => .ok ⟨m, m.weight s, backend⟩

def matchingName : String := "matching"

def ofMatching (s : Schedule) (z : Sizing) (M : List SlotEdge) : Except Fault Plan :=
  finish s z matchingName (SlotGraph.readBack M)

def jobOf (s : Schedule) (e : Entry) : Job := ⟨(s.clip e).1, (s.clip e).2, e.penalty⟩

def heaviest (s : Schedule) (capacity : Nat) : Assignment :=
  let jobs := s.entries.map (jobOf s)
  (Placement.best jobs capacity jobs.length fun _ => true).map fun p => (Int.ofNat p.1, p.2)

def byMatching (s : Schedule) (z : Sizing) : Except Fault Plan :=
  finish s z matchingName (heaviest s z.perRound)

end Plan

end Downlink
