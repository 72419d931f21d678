import Downlink.Fault
import Downlink.Placement.Basic

/-!
The integer program of one horizon. Packets come as triples of arrival, deadline and weight, with
rounds counted from the start of the horizon; a packet has a variable for each round of the horizon
in its window, and the solution maximises the weight served.
-/

namespace Downlink

structure Triple where
  arrival : Int
  deadline : Int
  weight : Int
  deriving DecidableEq, Repr

namespace Triple

def job (rounds : Int) (t : Triple) : Job :=
  ⟨max t.arrival 0, min t.deadline (rounds - 1), t.weight⟩

def group : List Int → List Triple
  | a :: d :: w :: rest => ⟨a, d, w⟩ :: group rest
  | _ => []

def ofValues (values : List Int) (packets : Int) : Except Fault (List Triple) :=
  if (values.length : Int) = 3 * packets then .ok (group values)
  else .error (.showing [packets, 3 * packets] (.setup (.valueCount packets values.length)))

end Triple

inductive MipBackend where
  | scip
  | cbc
  deriving DecidableEq, Repr

def MipBackend.all : List MipBackend := [scip, cbc]

namespace Program

def infeasible : Int := 2

def limitEnd : Int := 0x8000000000000000

/-- A time limit is set in whole milliseconds of 64 bits. -/
def setLimit (seconds : Float) : Except Fault Unit :=
  let millis := seconds * 1000
  match Binary64.parts? millis with
  | some e =>
    if -limitEnd ≤ e.truncate && e.truncate < limitEnd then .ok () else .error .overflow
  | none => .error (if millis.isNaN then .value (.number .nanToInteger) else .overflow)

def optimum (rounds capacity : Int) (triples : List Triple) : Except Fault Placement :=
  let jobs := triples.map (Triple.job rounds)
  if jobs.all fun j => j.rounds.isEmpty then .ok []
  else if capacity < 0 then .error (.solve (.notOptimal infeasible))
  else .ok (Placement.best jobs capacity.toNat jobs.length fun j => 0 < j.weight)

def solve (available : List MipBackend) (limit : Option Float) (rounds capacity : Int)
    (triples : List Triple) : Except Fault Placement :=
  if available.isEmpty then .error (.solve .noMipBackend)
  else
    match limit with
    | none => optimum rounds capacity triples
    | some seconds =>
      match setLimit seconds with
      | .error e => .error e
      | .ok () => optimum rounds capacity triples

def value (rounds : Int) (triples : List Triple) (m : Placement) : Int :=
  Placement.weight (triples.map (Triple.job rounds)) m

end Program

end Downlink
