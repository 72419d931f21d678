import Downlink.Exchange.External

/-!
Planners, as a scheduler consults them. The k-th consultation gets the k-th reply: a plan, a failure
to plan, some other fault, or first a call back into the scheduler that is being planned for.
-/

namespace Downlink

inductive Reply where
  | plan (p : Plan)
  | fail (cause : SolveFault)
  | raise (fault : Fault)
  | callBack (round : Int) (next : Reply)

def Reply.ofExcept : Except Fault Plan → Reply
  | .ok p => .plan p
  | .error (.solve cause) => .fail cause
  | .error fault => .raise fault

structure Planner where
  name : String
  reply : Nat → Schedule → Sizing → Reply

namespace Planner

def matching : Planner := ⟨Plan.matchingName, fun _ s z => .ofExcept (Plan.byMatching s z)⟩

/-- The planner in this process around a routine that searches slot graphs for matchings; `find k`
is its k-th search. -/
def matchingBy (find : Nat → Schedule → Nat → List SlotEdge) : Planner :=
  ⟨Plan.matchingName, fun k s z => .ofExcept (Plan.ofMatching s z (find k s z.perRound))⟩

/-- A planner with a process behind it; `process k` tells how the k-th call goes and `folder k` what
the working directory holds before it. -/
def external (x : External) (process : Nat → List String → List String → ProcessOutcome)
    (folder : Nat → Folder) : Planner :=
  ⟨External.name, fun k s z => .ofExcept (x.plan (process k) (folder k) s z)⟩

def externalBy (find : Nat → Schedule → Nat → List SlotEdge) (x : External)
    (process : Nat → List String → List String → ProcessOutcome) (folder : Nat → Folder) :
    Planner :=
  ⟨External.name, fun k s z => .ofExcept
    (x.planOr (Plan.ofMatching s z (find k s z.perRound)) (process k) (folder k) s z)⟩

end Planner

end Downlink
