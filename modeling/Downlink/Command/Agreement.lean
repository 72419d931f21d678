import Downlink.Command.Placement

/-!
A check that the solvers agree. Random instances are solved by matching, by the flow sweep and, when
asked for, by the external solver, and the optimal weights are compared. The instances come from a
source of whole draws, taken one after the other.
-/

namespace Downlink

namespace Command

namespace Agreement

open Arguments (Grammar Reading)

def grammar : Grammar where
  program := "compare_backends.py"
  positionals := []
  own :=
    [.valued "--instances" .whole,
      .valued "--max_stations" .whole,
      .valued "--channel_width" (.wholeOf [20, 40]),
      .valued "--seed" .whole,
      ⟨"--with_ilp", none, .flag, false⟩,
      .valued "--out" .text]

structure Request where
  instances : Int
  stations : Int
  width : Int
  seed : Int
  external : Bool
  file : String

def Request.ofReading (r : Reading) : Request where
  instances := (r.whole? "--instances").getD 20
  stations := (r.whole? "--max_stations").getD 5
  width := (r.whole? "--channel_width").getD 40
  seed := (r.whole? "--seed").getD 42
  external := r.has "--with_ilp"
  file := (r.text? "--out").getD "results/backend_agreement.csv"

structure Draws where
  draw : Nat → Int
  used : Nat

namespace Draws

def below (d : Draws) (low high : Int) : Except Fault (Int × Draws) :=
  if high = low then .error .division
  else .ok (low + (d.draw d.used).fmod (high - low), { d with used := d.used + 1 })

def ofFour {α : Type} (d : Draws) (a b c e : α) : α × Draws :=
  let i := (d.draw d.used).fmod 4
  (if i = 0 then a else if i = 1 then b else if i = 2 then c else e, { d with used := d.used + 1 })

def ofTwo {α : Type} (d : Draws) (a b : α) : α × Draws :=
  (if (d.draw d.used).fmod 2 = 0 then a else b, { d with used := d.used + 1 })

end Draws

def station (id : Int) (d : Draws) : Except Fault (Station × Draws) := do
  let (period, d) := d.ofFour 1 2 4 8
  let (deadline, d) ← d.below 0 4
  let (penalty, d) ← d.below 1 21
  .ok (⟨id, period, deadline, penalty⟩, d)

def stationsFrom (id : Int) : Nat → Draws → Except Fault (List Station × Draws)
  | 0, d => .ok ([], d)
  | n + 1, d => do
    let (s, d) ← station id d
    let (rest, d) ← stationsFrom (id + 1) n d
    .ok (s :: rest, d)

def unitSize (width : Int) (d : Draws) : RuType × Draws :=
  if width = 40 then d.ofTwo .tones242 .tones484 else (.tones242, d)

structure Row where
  index : Int
  stations : Nat
  rounds : Int
  packets : Nat
  perRound : Nat
  matching : Int
  flow : Int
  external : Option (Option Int)

namespace Row

def weights (r : Row) : List Int := [r.matching, r.flow] ++ r.external.join.toList

def agrees (r : Row) : Bool := r.weights.eraseDups.length = 1

def record (r : Row) : Table.Record :=
  [("instance", .whole r.index),
   ("stations", .whole r.stations),
   ("rounds", .whole r.rounds),
   ("packets", .whole r.packets),
   ("rus_per_round", .whole r.perRound),
   ("matching", .whole r.matching),
   ("mcf", .whole r.flow)] ++
    (r.external.map fun w => ("ilp", Value.ofWhole? w)).toList ++ [("agree", .flag r.agrees)]

end Row

structure Progress where
  draws : Draws
  calls : Nat
  warnings : List String
  rows : List Row

def triplesOf (s : Schedule) : List Triple :=
  s.entries.map fun e => ⟨e.arrival, e.deadline, e.penalty⟩

def external (launcher : List String) : External := ⟨launcher, some (.real 120), none⟩

def externalWeight (env : Environment) (call : Nat) (s : Schedule) (z : Sizing) :
    Except Fault (Except SolveFault Int) :=
  match (external env.launcher).plan (env.process call) ⟨none⟩ s z with
  | .ok p => .ok (.ok p.totalWeight)
  | .error (.solve cause) => .ok (.error cause)
  | .error e => .error e

def solve (env : Environment) (r : Request) (k : Int) (stations : Nat) (s : Schedule) (z : Sizing)
    (p : Progress) : Except Fault Progress := do
  let plan ← Plan.byMatching s z
  let flow := (Flow.sweepAll s.rounds z.perRound (triplesOf s)).totalWeight
  let row : Row :=
    ⟨k, stations, s.rounds, s.entries.length, z.perRound, plan.totalWeight, flow, none⟩
  if r.external then
    match ← externalWeight env p.calls s z with
    | .ok w => .ok { p with
        calls := p.calls + 1
        rows := p.rows ++ [{ row with external := some (some w) }] }
    | .error cause => .ok { p with
        calls := p.calls + 1
        warnings := p.warnings ++ [s!"[WARN] instance {k}: ILP failed ({cause.message})"]
        rows := p.rows ++ [{ row with external := some none }] }
  else .ok { p with rows := p.rows ++ [row] }

/-- Draws one instance and solves it; one with too long a horizon is passed over. -/
def step (env : Environment) (r : Request) (k : Int) (p : Progress) : Except Fault Progress := do
  let (count, d) ← p.draws.below 1 (r.stations + 1)
  let (stations, d) ← stationsFrom 0 count.toNat d
  match Schedule.generate stations 0 defaultCap with
  | .error (.setup (.horizonTooLong _ _ _)) => .ok { p with draws := d }
  | .error e => .error e
  | .ok s =>
    let (type, d) := unitSize r.width d
    let z ← Sizing.forPackets r.width s.entries.length (some type)
    solve env r k stations.length s z { p with draws := d }

def steps (env : Environment) (r : Request) : Nat → Int → Progress → Except Fault Progress
  | 0, _, p => .ok p
  | n + 1, k, p =>
    match step env r k p with
    | .error e => .error e
    | .ok p => steps env r n (k + 1) p

def disagreements (rows : List Row) : List String :=
  let n := rows.countP fun r => !r.agrees
  if n = 0 then [] else [s!"[WARN] {n} of {rows.length} instances disagree"]

def finish (r : Request) (p : Progress) : Finished :=
  let t := Table.ofRecords (p.rows.map Row.record)
  let file := (Text.Path.ofText r.file).text
  { exit := .done
    lines := p.warnings ++ t.cells.map (String.intercalate " ") ++ disagreements p.rows ++
      [s!"[OK] Wrote: {file}"]
    documents := [(file, .table t)] }

def run (env : Environment) (draw : Int → Nat → Int) (line : List String) : Except Fault Finished :=
  match grammar.read line with
  | .error e => .ok (.refused grammar e)
  | .ok reading =>
    let r := Request.ofReading reading
    (steps env r r.instances.toNat 0 ⟨⟨draw r.seed, 0⟩, 0, [], []⟩).map (finish r)

end Agreement

end Command

end Downlink
