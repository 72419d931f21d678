import Downlink.Scheduler.Book

/-!
The deadline round robin. Stations take turns by credit: everyone earns an equal share of a round,
those who are served pay for their resource unit. A packet is dropped only when its deadline round
has passed without service; the deadline is that of the schedule entry of the horizon in which the
packet arrived, kept in a cache because a packet may outlive its horizon.
-/

namespace Downlink

structure Credit where
  station : Int
  amount : Float
  deriving Repr

structure RoundRobin where
  book : Book
  traffic : Traffic
  roundDuration : Float
  maxCredit : Float
  credits : List Credit
  entries : List (Nat × Entry)
  deriving Repr

namespace RoundRobin

def make (cell : Cell) (traffic : Traffic) (roundDuration maxCredit : Float) : RoundRobin :=
  ⟨Book.ofCell cell, traffic, roundDuration, maxCredit, cell.ids.map (⟨·, 0⟩), []⟩

def name : String := "DRR"

def noBackend : String := "none"

def order (d : RoundRobin) : List Int := d.credits.map Credit.station

def startHorizon (round : Int) (d : RoundRobin) : Attempt RoundRobin Unit :=
  match d.book.cell.schedule round with
  | .error e => .error e d
  | .ok s => .ok () { d with book := d.book.begin s noBackend 0 0 none }

def select (round : Int) (d : RoundRobin) : Attempt RoundRobin TxFormat :=
  let candidates := Book.withBacklog d.traffic d.order
  let d := { d with book := { d.book with candidates := candidates } }
  if candidates.isEmpty then .ok .noTx d
  else if d.book.startsIn round then
    match startHorizon round d with
    | .error e d => .error e d
    | .ok () d => .ok .dlMuTx d
  else .ok .dlMuTx d

def cached? (d : RoundRobin) (id : Nat) : Option Entry :=
  (d.entries.find? fun p => p.1 = id).map Prod.snd

def forget (d : RoundRobin) (id : Nat) : RoundRobin :=
  { d with entries := d.entries.filter fun p => p.1 ≠ id }

def lookUp (d : RoundRobin) (p : Packet) : Option (Nat × Entry) :=
  match d.book.schedule with
  | none => none
  | some s =>
    if s.contains p.arrival then
      match s.indexOf p.station p.arrival with
      | .ok (some i) => (s.entries[i]?).map fun e => (i, e)
      | _ => none
    else none

def pair (id : Nat) (d : RoundRobin) : Attempt RoundRobin Unit :=
  if (d.cached? id).isSome then .ok () d
  else
    match d.traffic.packet? id with
    | none => .error .outOfRange d
    | some p =>
      match d.lookUp p with
      | none =>
        .error (.showing [p.station, p.id, p.arrival]
          (.desync (.noEntry p.station p.id p.arrival))) d
      | some (i, e) =>
        let p := { p with horizon := some d.book.lastIndex, scheduleIndex := some (Int.ofNat i) }
        .ok () { d with traffic := d.traffic.setPacket id p, entries := d.entries ++ [(id, e)] }

def pairAll : List Nat → RoundRobin → Attempt RoundRobin Unit
  | [], d => .ok () d
  | id :: ids, d =>
    match pair id d with
    | .error e d => .error e d
    | .ok () d => pairAll ids d

def send (round station : Int) (ru : Ru) (out : RoundAssignment) (d : RoundRobin) :
    Attempt RoundRobin RoundAssignment :=
  match d.traffic.popFront station with
  | .error e => .error e d
  | .ok (id, t) =>
    let d := { d with traffic := t }
    match d.traffic.update id fun p => p.transmit round ru with
    | .error e => .error e d
    | .ok t =>
      .ok { out with allocations := out.allocations ++ [⟨station, id, ru⟩] }
        ({ d with traffic := t }.forget id)

def sendAll (round : Int) : List (Ru × Int) → RoundAssignment → RoundRobin →
    Attempt RoundRobin RoundAssignment
  | [], out, d => .ok out d
  | (ru, station) :: rest, out, d =>
    match send round station ru out d with
    | .error e d => .error e d
    | .ok out d => sendAll round rest out d

/-- Whether the cached deadline of a waiting packet has come; every waiting packet needs one. -/
def isExpired (d : RoundRobin) (round : Int) (id : Nat) : Except Fault Bool :=
  match d.cached? id with
  | some e => .ok (e.deadline ≤ round)
  | none => .error (.missing (.whole (Int.ofNat id)))

def expired (d : RoundRobin) (round : Int) : List Nat → Except Fault (List Nat)
  | [] => .ok []
  | id :: ids =>
    match d.isExpired round id with
    | .error e => .error e
    | .ok b =>
      match expired d round ids with
      | .error e => .error e
      | .ok rest => .ok (if b then id :: rest else rest)

def dropAll (round station : Int) : List Nat → RoundAssignment → RoundRobin →
    Attempt RoundRobin RoundAssignment
  | [], out, d => .ok out d
  | id :: ids, out, d =>
    let queue := (d.traffic.waiting station).filter (· ≠ id)
    let d := { d with traffic := d.traffic.setQueue station queue }.forget id
    match d.traffic.update id fun p => p.drop round .deadline with
    | .error e => .error e d
    | .ok t => dropAll round station ids { out with drops := out.drops ++ [id] }
        { d with traffic := t }

/-- Drops what has expired in one queue; a station that was passed over is noted as buffered. -/
def purge (round : Int) (passedOver : List Int) (station : Int) (out : RoundAssignment)
    (d : RoundRobin) : Attempt RoundRobin RoundAssignment :=
  match d.expired round (d.traffic.waiting station) with
  | .error e => .error e d
  | .ok late =>
    match dropAll round station late out d with
    | .error e d => .error e d
    | .ok out d =>
      if station ∈ passedOver && !(d.traffic.waiting station).isEmpty && late.isEmpty then
        .ok { out with buffered := out.buffered ++ [station] } d
      else .ok out d

def purgeAll (round : Int) (passedOver : List Int) : List Int → RoundAssignment → RoundRobin →
    Attempt RoundRobin RoundAssignment
  | [], out, d => .ok out d
  | station :: rest, out, d =>
    match purge round passedOver station out d with
    | .error e d => .error e d
    | .ok out d => purgeAll round passedOver rest out d

def settled (d : RoundRobin) (served : List Int) (c : Credit) : Credit :=
  let bandwidth := Float.ofInt d.book.cell.sizing.ruType.bandwidth
  let earned := d.roundDuration / Float.ofNat d.credits.length
  let debit := d.roundDuration / (Float.ofNat served.length * bandwidth)
  let total := c.amount + earned
  let capped := if d.maxCredit < total then d.maxCredit else total
  { c with amount := if c.station ∈ served then capped - debit * bandwidth else capped }

def byCredit (credits : List Credit) : List Credit :=
  credits.mergeSort fun a b => !(a.amount < b.amount)

def settleCredits (served : List Int) (d : RoundRobin) : RoundRobin :=
  if served.isEmpty then d
  else { d with credits := byCredit (d.credits.map (d.settled served)) }

/-- Decides a round: all lookups first, then service, then expiry, then the credits. -/
def assign (round : Int) (d : RoundRobin) : Attempt RoundRobin RoundAssignment :=
  let candidates := d.book.candidates
  let sizing := d.book.cell.sizing
  let served := candidates.take sizing.perRound
  let passedOver := candidates.drop sizing.perRound
  let out := RoundAssignment.empty round sizing.ruType
  match pairAll (candidates.flatMap d.traffic.waiting) d with
  | .error e d => .error e d
  | .ok () d =>
    match sendAll round (sizing.units.zip served) out d with
    | .error e d => .error e d
    | .ok out d =>
      match purgeAll round passedOver candidates out d with
      | .error e d => .error e d
      | .ok out d => .ok out (settleCredits served d)

def stop (d : RoundRobin) : RoundRobin := { d with book := d.book.stop }

end RoundRobin

end Downlink
