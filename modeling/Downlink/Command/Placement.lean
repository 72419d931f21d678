import Downlink.Command.Basic
import Downlink.Exchange.Text
import Downlink.Placement.Flow
import Downlink.Simulation

/-!
The two stand-alone solvers. Both take the length of the horizon, the number of packets, the
position of the unit size and the tone count, and three numbers per packet; one solves the integer
program, as an external solver does, the other the flow network.
-/

namespace Downlink

namespace Command

open Arguments (Grammar Reading Choice)

structure Instance where
  rounds : Int
  packets : Int
  capacity : Nat
  triples : List Triple

namespace Instance

def positionals : List Arguments.Positional :=
  [⟨"rounds", .whole, false⟩, ⟨"packets", .whole, false⟩, ⟨"ru_type_index", .whole, false⟩,
    ⟨"total_tones", .whole, false⟩, ⟨"schedule", .whole, true⟩]

def ofReading (r : Reading) : Except Fault Instance := do
  let rounds ← need (r.whole? "rounds")
  let packets ← need (r.whole? "packets")
  let index ← need (r.whole? "ru_type_index")
  let tones ← need (r.whole? "total_tones")
  let capacity ← RuType.perRoundAt tones index
  let triples ← Triple.ofValues (r.wholes "schedule") packets
  .ok ⟨rounds, packets, capacity, triples⟩

end Instance

abbrev Timed := String → Finished

/-- A value is printed after everything is written, which fails if it has too many digits. -/
def printing (value : Int) (t : Timed) : Except Fault Timed :=
  if Text.isWritable value then .ok t else .error (.value .tooManyDigits)

def withInstance (g : Grammar) (line : List String)
    (act : Reading → Instance → Except Fault Timed) : Except Fault Timed :=
  match g.read line with
  | .error e => .ok fun _ => .refused g e
  | .ok r =>
    match Instance.ofReading r with
    | .error (.setup cause) => .ok fun _ => .refusedSetup g cause
    | .error e => .error e
    | .ok i => act r i

namespace IntegerProgram

def grammar : Grammar where
  program := "deadline_aware_ilp"
  positionals := Instance.positionals
  own := [.valued "--output" .text, .valued "--time_limit_s" .real]

def report (output : String) (i : Instance) (m : Placement) : Except Fault Timed :=
  let pairs := m.map fun p => (Int.ofNat p.1, p.2)
  let value := Program.value i.rounds i.triples m
  (document output (.text (Exchange.written pairs))).bind fun d =>
    printing value fun elapsed =>
      { exit := .done
        lines :=
          [s!"Optimal Value = {value}",
            s!"Execution Time: {elapsed} ms | matched {m.length}/{i.packets}"]
        documents := [d] }

def answer (r : Reading) (i : Instance) : Except Fault Placement → Except Fault Timed
  | .error (.solve cause) =>
    .ok fun _ => { exit := .unsolved, complaint := some ("[ERROR] " ++ cause.message) }
  | .error e => .error e
  | .ok m => report ((r.text? "--output").getD outputFile) i m

def runBy (solve : Option Float → Int → Int → List Triple → Except Fault Placement)
    (line : List String) : Except Fault Timed :=
  withInstance grammar line fun r i =>
    answer r i (solve (r.real? "--time_limit_s") i.rounds i.capacity i.triples)

def run (available : List MipBackend) (line : List String) : Except Fault Timed :=
  runBy (Program.solve available) line

def outcome : Except Fault Timed → ProcessOutcome
  | .error _ => .finished 1 "" none
  | .ok answer =>
    let f := answer "0"
    .finished f.exit.code (f.complaint.getD "") (f.text? outputFile)

/-- The program as a process that is called with these arguments. -/
def process (arguments : List String) : ProcessOutcome := outcome (run MipBackend.all arguments)

end IntegerProgram

namespace FlowSweep

def grammar : Grammar where
  program := "maximum_weighted_matching"
  positionals := Instance.positionals
  own := [.valued "--supply_flow" .whole, .valued "--output" .text]

def defaultOutput : String := "mcf.output"

def flow (supply : Option Int) (i : Instance) : FlowResult :=
  match supply with
  | none => Flow.sweepAll i.rounds i.capacity i.triples
  | some s => Flow.sweep i.rounds i.capacity i.triples [s]

def run (line : List String) : Except Fault Timed :=
  withInstance grammar line fun r i =>
    let f := flow (r.whole? "--supply_flow") i
    let written := Document.text (Exchange.written f.assignments)
    (document ((r.text? "--output").getD defaultOutput) written).bind fun d =>
      printing f.cost fun elapsed =>
        { exit := .done
          lines :=
            [s!"Global Optimal Value = {f.cost}",
              "==== Performance Metrics ====",
              s!"Execution Time: {elapsed}",
              s!"Total Nodes = {f.totalNodes}",
              s!"Total Edges = {f.totalEdges}"]
          documents := [d] }

end FlowSweep

end Command

/-- The environment in which the external solver is the integer program of this library. -/
def Environment.inProcess (draw : Int → Nat → Float) (launcher : List String) : Environment :=
  ⟨draw, fun _ _ arguments => Command.IntegerProgram.process arguments, launcher⟩

end Downlink
