import Downlink.Cursor
import Downlink.Planner
import Downlink.Scheduler.Book

/-!
The deadline-aware scheduler. Once per horizon a planner assigns schedule entries to rounds. In
every round each queued packet that has not been looked at is paired with the entry under its
station's cursor: a served entry holds its packet until the assigned round, an unserved one drops it
at once. A new horizon replaces schedule, assignment and cursors together or not at all.
-/

namespace Downlink

structure DeadlineAware where
  book : Book
  traffic : Traffic
  planner : Planner
  /-- How often the planner has been consulted. -/
  consulted : Nat
  assignment : Assignment
  cursors : List Cursor
  horizonFailed : Bool
  planning : Bool
  /-- Packets dropped at the start of a horizon, to be reported with the next round. -/
  unreported : List Nat

namespace DeadlineAware

def make (cell : Cell) (traffic : Traffic) (planner : Planner) : DeadlineAware :=
  ⟨Book.ofCell cell, traffic, planner, 0, [], [], false, false, []⟩

def name : String := "DA"

def expire (round : Int) (station : Int) : List Nat → DeadlineAware → Attempt DeadlineAware Unit
  | [], d => .ok () d
  | id :: ids, d =>
    let d := { d with
      traffic := d.traffic.setQueue station ((d.traffic.waiting station).filter (· ≠ id)) }
    match d.traffic.update id fun p => p.drop round .late with
    | .error e => .error e d
    | .ok t => expire round station ids { d with traffic := t, unreported := d.unreported ++ [id] }

def stale (t : Traffic) (station round : Int) : List Nat :=
  (t.waiting station).filter fun id =>
    match t.packet? id with
    | some p => p.arrival < round
    | none => false

def expireAll (round : Int) : List Int → DeadlineAware → Attempt DeadlineAware Unit
  | [], d => .ok () d
  | station :: rest, d =>
    match expire round station (stale d.traffic station round) d with
    | .error e d => .error e d
    | .ok () d => expireAll round rest d

def selectWith (start : Int → DeadlineAware → Attempt DeadlineAware Unit) (round : Int)
    (d : DeadlineAware) : Attempt DeadlineAware TxFormat :=
  let candidates := Book.withBacklog d.traffic d.book.cell.ids
  let d := { d with book := { d.book with candidates := candidates } }
  if candidates.isEmpty then .ok .noTx d
  else if d.book.startsIn round then
    match start round d with
    | .error e d => .error e d
    | .ok () d => .ok .dlMuTx d
  else .ok .dlMuTx d

def refuse (round : Int) (d : DeadlineAware) : Attempt DeadlineAware Unit :=
  .error (.showing [round] (.desync (.reentered round))) d

structure Decision where
  assignment : Assignment
  weight : Int
  failure : Option SolveFault

/-- Carries out a reply, with its calls back into this scheduler. -/
def consult : Reply → DeadlineAware → Attempt DeadlineAware Decision
  | .plan p, d => .ok ⟨p.assignment, p.totalWeight, none⟩ d
  | .fail cause, d => .ok ⟨[], 0, some cause⟩ d
  | .raise fault, d => .error fault d
  | .callBack round next, d =>
    match selectWith refuse round d with
    | .error e d => .error e d
    | .ok _ d => consult next d

def cursorsOf (s : Schedule) : List Cursor :=
  s.runs.map fun r => Cursor.atStart r.station r.start r.stop

def install (s : Schedule) (decision : Decision) (d : DeadlineAware) : DeadlineAware :=
  { d with
    book := d.book.begin s d.planner.name decision.assignment.length decision.weight
      (decision.failure.map SolveFault.message)
    assignment := decision.assignment
    cursors := cursorsOf s
    horizonFailed := decision.failure.isSome }

def planHorizon (round : Int) (d : DeadlineAware) : Attempt DeadlineAware Unit :=
  match d.book.cell.schedule round with
  | .error e => .error e d
  | .ok s =>
    match expireAll round d.book.cell.ids d with
    | .error e d => .error e d
    | .ok () d =>
      let reply := d.planner.reply d.consulted s d.book.cell.sizing
      match consult reply { d with consulted := d.consulted + 1 } with
      | .error e d => .error e d
      | .ok decision d => .ok () (install s decision d)

def startHorizon (round : Int) (d : DeadlineAware) : Attempt DeadlineAware Unit :=
  if d.planning then refuse round d
  else
    match planHorizon round { d with planning := true } with
    | .error e d => .error e { d with planning := false }
    | .ok () d => .ok () { d with planning := false }

def select (round : Int) (d : DeadlineAware) : Attempt DeadlineAware TxFormat :=
  selectWith startHorizon round d

def cursor? (d : DeadlineAware) (station : Int) : Option Cursor :=
  d.cursors.find? fun c => c.station = station

def setCursor (d : DeadlineAware) (c : Cursor) : DeadlineAware :=
  { d with cursors := d.cursors.map fun b => if b.station = c.station then c else b }

def settle (d : DeadlineAware) (round index : Int) (p : Packet) : Except Fault Packet :=
  let p := { p with horizon := some d.book.lastIndex, scheduleIndex := some index }
  if d.horizonFailed then p.drop round .solverFailure
  else
    match d.assignment.round? index with
    | some r => p.schedule index r
    | none => p.drop round .unmatched

def enroll (round : Int) (id : Nat) (p : Packet) (d : DeadlineAware) : Attempt DeadlineAware Unit :=
  let outside : Fault :=
    .showing [p.station, p.id, p.arrival] (.desync (.outsideHorizon p.station p.id p.arrival))
  match d.book.schedule, d.cursor? p.station with
  | some s, some c =>
    if !s.contains p.arrival then .error outside d
    else
      match c.advance with
      | .error e => .error e d
      | .ok (index, c) =>
        let d := d.setCursor c
        match s.entryAt? index with
        | none => .error .outOfRange d
        | some e =>
          if e.station ≠ p.station || e.arrival ≠ p.arrival then
            .error (.showing [p.station, p.id, p.arrival, index, e.station, e.arrival]
              (.desync (.misaligned p.station p.id p.arrival index e.station e.arrival))) d
          else
            match d.traffic.update id (d.settle round index) with
            | .error e => .error e d
            | .ok t => .ok () { d with traffic := t }
  | _, _ => .error outside d

def enrollAll (round : Int) : List Nat → DeadlineAware → Attempt DeadlineAware Unit
  | [], d => .ok () d
  | id :: ids, d =>
    match d.traffic.packet? id with
    | none => .error .outOfRange d
    | some p =>
      if p.state = .pending then
        match enroll round id p d with
        | .error e d => .error e d
        | .ok () d => enrollAll round ids d
      else enrollAll round ids d

structure Walk where
  traffic : Traffic
  allocations : List Allocation
  drops : List Nat
  kept : List Nat
  sent : Bool

def visit (sizing : Sizing) (round station : Int) (id : Nat) (w : Walk) : Attempt Walk Unit :=
  match w.traffic.packet? id with
  | none => .error .outOfRange w
  | some p =>
    if p.state = .dropped then .ok () { w with drops := w.drops ++ [id] }
    else
      match p.assignedRound with
      | none => .error .wrongKind w
      | some due =>
        if due = round then
          match sizing.units[w.allocations.length]? with
          | none =>
            .error (.showing [round, sizing.perRound]
              (.desync (.overCapacity round sizing.perRound))) w
          | some ru =>
            match w.traffic.update id fun p => p.transmit round ru with
            | .error e => .error e w
            | .ok t =>
              .ok () { w with
                traffic := t
                allocations := w.allocations ++ [⟨station, id, ru⟩]
                sent := true }
        else if due < round then
          match w.traffic.update id fun p => p.drop round .late with
          | .error e => .error e w
          | .ok t => .ok () { w with traffic := t, drops := w.drops ++ [id] }
        else .ok () { w with kept := w.kept ++ [id] }

def visitAll (sizing : Sizing) (round station : Int) : List Nat → Walk → Attempt Walk Unit
  | [], w => .ok () w
  | id :: ids, w =>
    match visit sizing round station id w with
    | .error e w => .error e w
    | .ok () w => visitAll sizing round station ids w

def serveStation (round station : Int) (out : RoundAssignment) (d : DeadlineAware) :
    Attempt DeadlineAware RoundAssignment :=
  match enrollAll round (d.traffic.waiting station) d with
  | .error e d => .error e d
  | .ok () d =>
    let start : Walk := ⟨d.traffic, out.allocations, out.drops, [], false⟩
    match visitAll d.book.cell.sizing round station (d.traffic.waiting station) start with
    | .error e w => .error e { d with traffic := w.traffic }
    | .ok () w =>
      let buffered := if !w.kept.isEmpty && !w.sent then out.buffered ++ [station] else out.buffered
      .ok { out with allocations := w.allocations, drops := w.drops, buffered := buffered }
        { d with traffic := w.traffic.setQueue station w.kept }

def serveAll (round : Int) : List Int → RoundAssignment → DeadlineAware →
    Attempt DeadlineAware RoundAssignment
  | [], out, d => .ok out d
  | station :: rest, out, d =>
    match serveStation round station out d with
    | .error e d => .error e d
    | .ok out d => serveAll round rest out d

def assign (round : Int) (d : DeadlineAware) : Attempt DeadlineAware RoundAssignment :=
  let out := { RoundAssignment.empty round d.book.cell.sizing.ruType with drops := d.unreported }
  serveAll round d.book.candidates out { d with unreported := [] }

def stop (d : DeadlineAware) : DeadlineAware := { d with book := d.book.stop }

end DeadlineAware

end Downlink
