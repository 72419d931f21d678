import Downlink.Report.Table

/-!
Figures as the list of what is drawn, in order. Schedulers that are compared appear in a preferred
order first, then as they come.
-/

namespace Downlink

inductive Stroke where
  | canvas (width height : Float)
  | bars (positions heights : List Float) (width : Float) (label : String)
  | steps (positions : List Int) (heights : List Float) (label : String)
  | ticks (positions : List Float) (labels : List String)
  | xLabel (text : String)
  | yLabel (text : String)
  | yRange (low high : Float)
  | title (text : String)
  | grid (axis : Option String) (alpha : Float)
  | legend
  | tighten
  | save (file : String)
  | close

namespace Figure

abbrev Drawing := List Stroke

/-- The preferred names that are there, then the others; without a preference all as they come. -/
def order (names preferred : List String) : List String :=
  let first := preferred.filter (· ∈ names)
  first ++ names.filter (· ∉ first)

def defaultOrder : List String := ["DRR", "DA"]

def canvas : Stroke := .canvas 6.2 3.9

def titled (title : String) : Drawing := if title.isEmpty then [] else [.title title]

def finish (axis : Option String) (file : String) : Drawing :=
  [.grid axis 0.3, .legend, .tighten, .save file, .close]

def files (d : Drawing) : List String :=
  d.filterMap fun
    | .save file => some file
    | _ => none

def realList (xs : List Float) : String := Text.bracketed (xs.map Text.real)

def strokeLine : Stroke → String
  | .canvas width height => s!"canvas {Text.real width} by {Text.real height}"
  | .bars xs ys width label =>
    s!"bars {Text.quoted label} at {realList xs} up to {realList ys}, {Text.real width} wide"
  | .steps xs ys label => s!"steps {Text.quoted label} at {intList xs} up to {realList ys}"
  | .ticks xs labels => s!"ticks at {realList xs} labelled {Text.bracketed labels}"
  | .xLabel text => s!"x label {Text.quoted text}"
  | .yLabel text => s!"y label {Text.quoted text}"
  | .yRange low high => s!"y from {Text.real low} to {Text.real high}"
  | .title text => s!"title {Text.quoted text}"
  | .grid none alpha => s!"grid, alpha {Text.real alpha}"
  | .grid (some axis) alpha => s!"grid across {axis}, alpha {Text.real alpha}"
  | .legend => "legend"
  | .tighten => "tighten"
  | .save file => s!"save {file}"
  | .close => "close"

def written (d : Drawing) : String := String.join (d.map fun s => strokeLine s ++ "\n")

end Figure

end Downlink
