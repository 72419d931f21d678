import Downlink.Command.Agreement
import Downlink.Command.Study
import Downlink.Draw

/-!
The command line. The first word names a command: `study` simulates the scenarios of a settings
file, `compare` checks that the solvers agree, `program` and `flow` solve one horizon. The external
solver is the integer program of this library, called in place.
-/

namespace Downlink

namespace CommandLine

def environment : Environment := .inProcess Draw.uniform ["downlink", "program"]

def usage : String := "usage: downlink (study | compare | program | flow) [arguments]"

def contents : Document → String
  | .text s => s
  | .table t => t.written
  | .figure d => Figure.written d

def fileName (name : String) : Document → String
  | .figure _ => name ++ ".txt"
  | _ => name

def folderOf (name : String) : String :=
  let path := Text.Path.ofText name
  { path with components := path.components.dropLast : Text.Path }.text

def save (name : String) (d : Document) : IO Unit := do
  IO.FS.createDirAll (folderOf name)
  IO.FS.writeFile (fileName name d) (contents d)

def report (f : Finished) : IO UInt32 := do
  for line in f.lines do IO.println line
  for (name, d) in f.documents do save name d
  if let some complaint := f.complaint then IO.eprintln complaint
  if f.exit = .help then IO.println usage
  return UInt32.ofNat f.exit.code

def conclude : Except Fault Finished → IO UInt32
  | .ok f => report f
  | .error e => do
    IO.eprintln (e.message?.getD "the command failed")
    return 1

def timed (run : List String → Except Fault Command.Timed) (line : List String) : IO UInt32 := do
  let start ← IO.monoMsNow
  match run line with
  | .error e => conclude (.error e)
  | .ok answer => do
    let stop ← IO.monoMsNow
    report (answer (toString (stop - start)))

def settingsText (line : List String) : IO (String → Option String) := do
  match Command.Study.grammar.read line with
  | .error _ => return fun _ => none
  | .ok r =>
    let name := (r.text? "--config").getD ""
    let text : Option String ← try some <$> IO.FS.readFile name catch _ => pure none
    return fun path => if path = name then text else none

def run : List String → IO UInt32
  | "study" :: line => do
    let read ← settingsText line
    conclude (Command.Study.run environment read line)
  | "compare" :: line => conclude (Command.Agreement.run environment Draw.whole line)
  | "program" :: line => timed (Command.IntegerProgram.run MipBackend.all) line
  | "flow" :: line => timed Command.FlowSweep.run line
  | _ => do
    IO.eprintln usage
    return 2

end CommandLine

end Downlink

def main (args : List String) : IO UInt32 := Downlink.CommandLine.run args
