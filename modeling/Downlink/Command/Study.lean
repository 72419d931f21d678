import Downlink.Command.Basic
import Downlink.Figure.Losses
import Downlink.Figure.Utilization
import Downlink.Report.Frames
import Downlink.Report.Stations
import Downlink.Settings.Reading
import Downlink.Yaml.Document

/-!
A study: every scenario of a settings file is simulated with every scheduler that is compared. Each
run leaves four tables, each scenario two figures, and the whole study one table of summaries.
-/

namespace Downlink

namespace Command

namespace Study

open Arguments (Grammar Reading)
open Text (Path)

def grammar : Grammar where
  program := "run_des.py"
  positionals := []
  own :=
    [⟨"--config", none, .value .text, true⟩,
      .valued "--solver" (.textOf SolverSettings.backends),
      .valued "--outdir" .text,
      ⟨"--no_plots", none, .flag, false⟩,
      .valued "--log_level" .text]

structure Request where
  config : String
  backend : Option String
  folder : Option String
  figures : Bool
  logLevel : String

def Request.ofReading (r : Reading) : Except Fault Request :=
  (need (r.text? "--config")).map fun config =>
    { config := config
      backend := r.text? "--solver"
      folder := r.text? "--outdir"
      figures := !r.has "--no_plots"
      logLevel := (r.text? "--log_level").getD "WARNING" }

def logLevels : List String :=
  ["CRITICAL", "FATAL", "ERROR", "WARN", "WARNING", "INFO", "DEBUG", "NOTSET"]

def checkLogLevel (level : String) : Except Fault Unit :=
  let level := String.ofList (level.toList.map Char.toUpper)
  if level ∈ logLevels then .ok () else .error (.value (.unknownLogLevel level))

structure Progress where
  lines : List String
  documents : List (String × Document)
  summaries : List Table.Record
  calls : Nat

namespace Progress

def say (p : Progress) (lines : List String) : Progress := { p with lines := p.lines ++ lines }

def write (p : Progress) (folder : Path) (name : String) (d : Document) : Progress :=
  { p with documents := p.documents ++ [((folder.join (.ofText name)).text, d)] }

end Progress

structure Pass where
  scheduler : String
  result : RunResult
  violations : List Violation
  summary : Summary
  stations : Table
  calls : Nat

def pass (env : Environment) (scenario : String) (fields : Value.Fields) (scheduler : String) :
    Except Fault Pass := do
  let settings ← Settings.read (.mapping fields) (some scheduler)
  let result ← Simulation.run env settings
  let violations ← result.violations
  let summary ← Summary.ofRun scenario result
  let stations ← result.stationTable
  .ok { scheduler := scheduler
        result := result
        violations := violations
        summary := summary
        stations := stations
        calls := (Simulation.commandLines env.launcher settings result).length }

def warning (scenario : String) (p : Pass) : List String :=
  match p.violations with
  | [] => []
  | v :: _ =>
    [s!"[WARN] {scenario}/{p.scheduler}: {p.violations.length} conservation violations, " ++
      s!"first: {v.message}"]

def wholeText (x : Float) : String :=
  match Binary64.parts? x with
  | some e => Text.decimal e.truncate
  | none => Text.real x

def outcome (scenario : String) (p : Pass) : String :=
  s!"[INFO] {scenario}/{p.scheduler}: packets={p.summary.packets} " ++
    s!"transmitted={p.summary.transmitted} dropped={p.summary.dropped} " ++
    s!"weighted_loss={wholeText p.summary.weightedLoss}"

def note (folder : Path) (scenario : String) (p : Pass) (s : Progress) : Progress :=
  let folder := (folder.join (.ofText scenario)).join (.ofText p.scheduler)
  let s := s.say (warning scenario p)
  let s := s.write folder "rounds.csv" (.table p.result.roundTable)
  let s := s.write folder "packets.csv" (.table p.result.packetTable)
  let s := s.write folder "horizons.csv" (.table p.result.horizonTable)
  let s := s.write folder "stations.csv" (.table p.stations)
  { s.say [outcome scenario p] with
    summaries := s.summaries ++ [p.summary.record]
    calls := s.calls + p.calls }

def passes (env : Environment) (folder : Path) (scenario : String) (fields : Value.Fields) :
    List String → Progress → Except Fault (List Pass × Progress)
  | [], s => .ok ([], s)
  | scheduler :: rest, s =>
    match pass (env.after s.calls) scenario fields scheduler with
    | .error e => .error e
    | .ok p =>
      (passes env folder scenario fields rest (note folder scenario p s)).map fun r =>
        (p :: r.1, r.2)

def drawn : Attempt Figure.Drawing Unit → Except Fault Document
  | .ok () d => .ok (.figure d)
  | .error e _ => .error e

def draw (folder : Path) (scenario : String) (ps : List Pass) (s : Progress) :
    Except Fault Progress := do
  let folder := folder.join (.ofText scenario)
  let lossFile := s!"fig_{scenario}_station_losses.pdf"
  let useFile := s!"fig_{scenario}_ru_utilization.pdf"
  let losses ← drawn <| Figure.losses (ps.map fun p => (p.scheduler, p.stations))
    (folder.join (.ofText lossFile)).text s!"{scenario}: weighted loss per station"
    Figure.defaultValue Figure.defaultOrder
  let use ← drawn <| Figure.utilization
    (ps.map fun p => (p.scheduler, p.result.rows.map Figure.UnitUse.ofRow))
    (folder.join (.ofText useFile)).text s!"{scenario}: RU utilization per round"
    Figure.defaultOrder
  .ok ((s.write folder lossFile losses).write folder useFile use)

def withBackend (backend : Option String) (fields : Value.Fields) : Except Fault Value.Fields :=
  match backend with
  | none => .ok fields
  | some name =>
    if name.isEmpty then .ok fields
    else
      let solver := Value.Fields.getD fields "solver" .null
      let chosen (gs : Value.Fields) : Value.Fields :=
        Value.Fields.set fields (.text "solver")
          (.mapping (Value.Fields.set gs (.text "backend") (.text name)))
      if !solver.isPresent then .ok (chosen [])
      else
        match solver with
        | .mapping gs => .ok (chosen gs)
        | _ => .error .wrongKind

def scenarios (env : Environment) (r : Request) (folder : Path) (schedulers : List String) :
    List (String × Value.Fields) → Progress → Except Fault Progress
  | [], s => .ok s
  | (name, fields) :: rest, s => do
    let fields ← withBackend r.backend fields
    let (ps, s) ← passes env folder name fields schedulers s
    let s ← if r.figures then draw folder name ps s else .ok s
    scenarios env r folder schedulers rest s

def folderOf (r : Request) (name : String) : Path :=
  match r.folder with
  | none => .ofText ("results/" ++ name)
  | some f => if f.isEmpty then .ofText ("results/" ++ name) else .ofText f

def start (r : Request) (name : String) (schedulers : List String) : Progress :=
  let shown := Text.bracketed (schedulers.map Text.quoted)
  let lines := [s!"[INFO] Run: {name} | schedulers={shown}"]
  ⟨if r.figures then lines else lines ++ ["[INFO] Plots disabled (--no_plots)"], [], [], 0⟩

def summaryFile : String := "metrics.csv"

def finish (r : Request) (folder : Path) (s : Progress) : Finished :=
  let s := s.write folder summaryFile (.table (.ofRecords s.summaries))
  let s := s.say ["[OK] Wrote metrics:", " - " ++ (folder.join (.ofText summaryFile)).text]
  let s := if r.figures then s.say [s!"[OK] Plots written into {folder.text}."] else s
  { exit := .done, lines := s.lines, documents := s.documents }

def settings (read : String → Option String) (r : Request) : Except Fault Value.Fields :=
  match read r.config with
  | none => .error .noFile
  | some text => (Yaml.parse text).bind (Settings.readDocument (Path.ofText r.config).text)

def carryOut (env : Environment) (read : String → Option String) (r : Request) :
    Except Fault Finished := do
  checkLogLevel r.logLevel
  let fields ← settings read r
  let name := (Value.Fields.getD fields "run_name" .null).shown
  let folder := folderOf r name
  let schedulers ← Settings.readSchedulers fields
  let listed ← Settings.readScenarios fields
  let s ← scenarios env r folder schedulers listed (start r name schedulers)
  .ok (finish r folder s)

def run (env : Environment) (read : String → Option String) (line : List String) :
    Except Fault Finished :=
  match grammar.read line with
  | .error e => .ok (.refused grammar e)
  | .ok r => (Request.ofReading r).bind (carryOut env read)

end Study

end Command

end Downlink
