import Downlink.Planner

/-!
The choice of a solver: by the name of its backend, in this process or in one of its own, with the
command, the time limit and the fallback of the latter.
-/

namespace Downlink

inductive Solver where
  | matching
  | external (x : External)

namespace Solver

def name : Solver → String
  | matching => Plan.matchingName
  | external _ => External.name

def commandOr (launcher : List String) : Option (List String) → List String
  | none => launcher
  | some ws => if ws.isEmpty then launcher else ws

def fallback? : Option String → Except Fault (Option Fallback)
  | none => .ok none
  | some f =>
    if f = Plan.matchingName then .ok (some .matching)
    else .error (.setup (.unsupportedFallback f))

/-- The fallback matters only to the solver that can fail. -/
def make (launcher : List String) (backend : String) (command : Option (List String))
    (timeout : Option Number) (fallback : Option String) : Except Fault Solver :=
  if backend = Plan.matchingName then .ok matching
  else if backend = External.name then
    (fallback? fallback).map fun f => external ⟨commandOr launcher command, timeout, f⟩
  else .error (.setup (.unknownBackend backend))

end Solver

end Downlink
