import Downlink.Exchange.Text
import Downlink.Plan

/-!
Planning by a separate process. The process runs in a folder and is trusted with nothing: what the
folder held before is cleared away, and its answer is read, put into arrival order and checked like
any other assignment. A failure is a solve fault, which a fallback may turn into a plan. Other
faults pass: those of the call itself and of reading what is no text, and a number with too many
digits for the command line or for the refusal of the answer.
-/

namespace Downlink

structure Folder where
  output : Option String
  deriving DecidableEq, Repr

def Folder.clear (_ : Folder) : Folder := ⟨none⟩

def Folder.write (f : Folder) (written : Option String) : Folder := ⟨written.or f.output⟩

/-- How a process call goes. It may be `broken` by a fault of its own, such as a time limit out of
range or a stream that holds no text, and the file that it leaves may hold no text either. -/
inductive ProcessOutcome where
  | timedOut
  | notStarted (reason : String)
  | broken (fault : Fault)
  | finished (code : Int) (complaint : String) (written : Option String)
  | garbled (code : Int) (complaint : String) (fault : Fault)

inductive Fallback where
  | matching
  deriving DecidableEq, Repr

structure External where
  command : List String
  timeout : Option Number
  fallback : Option Fallback

namespace External

def name : String := "ilp"

def complaintLimit : Nat := 500

def complaintEnd (complaint : String) : String :=
  let cs := Text.strip complaint.toList
  String.ofList (cs.drop (cs.length - complaintLimit))

def commandLine (x : External) (s : Schedule) (z : Sizing) : Except Fault (List String) :=
  (Exchange.arguments s z).map (x.command ++ ·)

def leave (f : Folder) : ProcessOutcome → Folder
  | .finished _ _ written => f.clear.write written
  | _ => f.clear

def readBack (s : Schedule) (z : Sizing) (f : Folder) : Except Fault Plan :=
  match f.output with
  | none => .error (.solve .noOutput)
  | some text =>
    match Exchange.parse text.toList s.entries.length s.start with
    | .error e => .error e
    | .ok m => Plan.finish s z name m

/-- The plan from a process call. The file is read only after an exit with zero. -/
def judge (x : External) (s : Schedule) (z : Sizing) (f : Folder) :
    ProcessOutcome → Except Fault Plan
  | .timedOut => .error (.solve (.timedOut x.timeout))
  | .notStarted reason => .error (.solve (.notStarted reason))
  | .broken fault => .error fault
  | .finished code complaint written =>
    if code ≠ 0 then .error (.solve (.exited code (complaintEnd complaint)))
    else readBack s z (leave f (.finished code complaint written))
  | .garbled code complaint fault =>
    if code ≠ 0 then .error (.solve (.exited code (complaintEnd complaint)))
    else .error fault

def orFallback (x : External) (spare : Except Fault Plan) : Except Fault Plan → Except Fault Plan
  | .error (.solve cause) =>
    match x.fallback with
    | some .matching => spare
    | none => .error (.solve cause)
  | answer => answer

/-- Plans with one call of the process; `process` tells how a command goes with its arguments, and
`spare` is the fallback's plan. -/
def planOr (x : External) (spare : Except Fault Plan)
    (process : List String → List String → ProcessOutcome) (f : Folder) (s : Schedule)
    (z : Sizing) : Except Fault Plan :=
  match Exchange.arguments s z with
  | .error e => .error e
  | .ok words => x.orFallback spare (x.judge s z f (process x.command words))

def plan (x : External) (process : List String → List String → ProcessOutcome) (f : Folder)
    (s : Schedule) (z : Sizing) : Except Fault Plan :=
  x.planOr (Plan.byMatching s z) process f s z

end External

end Downlink
