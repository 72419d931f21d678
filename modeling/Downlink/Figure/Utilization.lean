import Downlink.Engine
import Downlink.Figure.Basic

/-!
The share of the resource units used in each round, one line for each scheduler. A round without a
transmission breaks the line.
-/

namespace Downlink

namespace Figure

structure UnitUse where
  round : Int
  format : TxFormat
  used : Int
  offered : Int
  deriving DecidableEq, Repr

def UnitUse.ofRow (r : RoundRow) : UnitUse := ⟨r.round, r.format, r.rusUsed, r.rusPerRound⟩

def quotient (num den : Int) : Except Fault Float :=
  match Binary64.ofInt? num, Binary64.ofInt? den with
  | some x, some y => if y == 0 then .error .division else .ok (x / y)
  | _, _ => .error .overflow

def UnitUse.share (u : UnitUse) : Except Fault Float :=
  match u.format with
  | .dlMuTx => quotient u.used u.offered
  | .noTx => .ok Binary64.nan

def shares : List UnitUse → Except Fault (List Float)
  | [] => .ok []
  | u :: us =>
    match u.share with
    | .error e => .error e
    | .ok x => (shares us).map (x :: ·)

def linesFrom (uses : List (String × List UnitUse)) : List String → Drawing → Attempt Drawing Unit
  | [], d => .ok () d
  | name :: names, d =>
    match uses.find? fun u => u.1 = name with
    | none => .error (.missing (.text name)) d
    | some (_, []) => linesFrom uses names d
    | some (_, rows) =>
      match shares rows with
      | .error e => .error e d
      | .ok ys => linesFrom uses names (d ++ [.steps (rows.map UnitUse.round) ys name])

def utilization (uses : List (String × List UnitUse)) (file title : String)
    (preferred : List String) : Attempt Drawing Unit :=
  match linesFrom uses (order (uses.map Prod.fst) preferred) [canvas] with
  | .error e d => .error e d
  | .ok () d =>
    .ok () (d ++ [.xLabel "Round", .yLabel "RU utilization", .yRange 0 1.05] ++ titled title ++
      finish none file)

end Figure

end Downlink
