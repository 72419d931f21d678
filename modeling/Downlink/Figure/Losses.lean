import Downlink.Figure.Basic

/-!
Grouped bars of one column of the station tables, a group for each station and a bar for each
scheduler. A station that a table does not list has a bar of height zero.
-/

namespace Downlink

namespace Figure

abbrev NamedTable := String × Table

def stationColumn : String := "station_id"

def column (t : Table) (name : String) : Except Fault Nat :=
  match t.columns.findIdx? (· = name) with
  | some i => .ok i
  | none => .error (.missing (.text name))

def entry (row : List Value) (i : Nat) : Value := row.getD i .null

def stationOf (v : Value) : Except Fault Int := v.toInt.mapError NumberFault.fault

def heightOf (v : Value) : Except Fault Float :=
  if v.isNull then .ok Binary64.nan else v.toReal.mapError NumberFault.fault

def stationsOfRows (i : Nat) : List (List Value) → Except Fault (List Int)
  | [] => .ok []
  | row :: rows =>
    match stationOf (entry row i) with
    | .error e => .error e
    | .ok s => (stationsOfRows i rows).map (s :: ·)

def stationsOfTables : List NamedTable → Except Fault (List Int)
  | [] => .ok []
  | t :: ts =>
    match (column t.2 stationColumn).bind fun i => stationsOfRows i t.2.rows with
    | .error e => .error e
    | .ok xs => (stationsOfTables ts).map (xs ++ ·)

def isStation (station : Int) (v : Value) : Bool := Value.sameKey (.whole station) v

/-- The height of one bar; a station listed twice has no height of its own. -/
def heightAt (t : Table) (key value : Nat) (station : Int) : Except Fault Float :=
  match t.rows.filter fun row => isStation station (entry row key) with
  | [] => .ok 0
  | [row] => heightOf (entry row value)
  | _ => .error .wrongKind

def heights (t : Table) (key value : Nat) : List Int → Except Fault (List Float)
  | [] => .ok []
  | s :: ss =>
    match heightAt t key value s with
    | .error e => .error e
    | .ok x => (heights t key value ss).map (x :: ·)

def valueColumn (t : Table) (value : String) : Except Fault Nat :=
  if value = stationColumn then .error (.missing (.text value)) else column t value

def isVoid (t : Table) (i : Nat) : Bool :=
  !t.rows.isEmpty && t.rows.all fun row => (entry row i).isNull

def barHeights (t : Table) (value : String) (stations : List Int) : Except Fault (List Float) := do
  let key ← column t stationColumn
  let i ← valueColumn t value
  if isVoid t i then .error .wrongKind else heights t key i stations

def groupPositions (stations : List Int) : List Float :=
  (List.range stations.length).map Float.ofNat

def barOffset (k count : Nat) (width : Float) : Float :=
  (Float.ofNat k - (Float.ofNat count - 1) / 2) * width

def barsFrom (tables : List NamedTable) (value : String) (stations : List Int) (width : Float)
    (count : Nat) : Nat → List String → Drawing → Attempt Drawing Unit
  | _, [], d => .ok () d
  | k, name :: names, d =>
    match tables.find? fun t => t.1 = name with
    | none => .error (.missing (.text name)) d
    | some t =>
      match barHeights t.2 value stations with
      | .error e => .error e d
      | .ok ys =>
        let xs := (groupPositions stations).map (· + barOffset k count width)
        barsFrom tables value stations width count (k + 1) names (d ++ [.bars xs ys width name])

def valueLabel (value : String) : String :=
  let spaced := value.toList.map fun c => if c = '_' then ' ' else c.toLower
  match spaced with
  | [] => ""
  | c :: cs => String.ofList (c.toUpper :: cs)

def defaultValue : String := "weighted_loss"

def losses (tables : List NamedTable) (file title value : String) (preferred : List String) :
    Attempt Drawing Unit :=
  match stationsOfTables tables with
  | .error e => .error e []
  | .ok listed =>
    let stations := (listed.mergeSort (· ≤ ·)).eraseDups
    if stations.isEmpty then .ok () []
    else
      let names := order (tables.map Prod.fst) preferred
      let width := 0.8 / Float.ofNat (max names.length 1)
      match barsFrom tables value stations width names.length 0 names [canvas] with
      | .error e d => .error e d
      | .ok () d =>
        let labels := stations.map fun s => "STA_" ++ Text.decimal s
        .ok () (d ++ [.ticks (groupPositions stations) labels, .xLabel "Station",
          .yLabel (valueLabel value)] ++ titled title ++ finish (some "y") file)

end Figure

end Downlink
