import Downlink.Scheduler

/-!
The round loop: arrivals, the scheduling decision, transmission. After the rounds with traffic the
loop goes on without new horizons until every queue is empty, for at most the longest deadline and
one horizon; what is left then is dropped late.
-/

namespace Downlink

structure RoundRow where
  round : Int
  format : TxFormat
  arrivals : Nat
  transmitted : Nat
  delivered : Nat
  dropped : Nat
  droppedWeight : Int
  buffered : Nat
  rusUsed : Int
  rusPerRound : Int
  backlog : Nat
  deriving DecidableEq, Repr

structure Engine where
  scheduler : Scheduler
  channel : Channel
  rows : List RoundRow

namespace Engine

def make (s : Scheduler) (c : Channel) : Engine := ⟨s, c, []⟩

def traffic (e : Engine) : Traffic := e.scheduler.traffic

def record (t : Traffic) : List TxReport → Traffic
  | [] => t
  | r :: rest =>
    match t.packet? r.packet with
    | none => record t rest
    | some p => record (t.setPacket r.packet { p with txStatus := some r.status }) rest

def penaltyOf (t : Traffic) (id : Nat) : Int := ((t.packet? id).map Packet.penalty).getD 0

def rowOf (round : Int) (format : TxFormat) (arrivals : Nat) (a : RoundAssignment)
    (reports : List TxReport) (s : Scheduler) : RoundRow :=
  { round := round
    format := format
    arrivals := arrivals
    transmitted := a.allocations.length
    delivered := reports.countP fun r => r.status = .success
    dropped := a.drops.length
    droppedWeight := total (a.drops.map (penaltyOf s.traffic))
    buffered := a.buffered.length
    rusUsed := a.allocations.length
    rusPerRound := s.sizing.perRound
    backlog := s.traffic.backlog }

def decide (round : Int) (s : Scheduler) : Attempt Scheduler (TxFormat × RoundAssignment) :=
  match s.select round with
  | .error e s => .error e s
  | .ok .noTx s => .ok (.noTx, RoundAssignment.empty round s.sizing.ruType) s
  | .ok .dlMuTx s =>
    match s.assign round with
    | .error e s => .error e s
    | .ok a s => .ok (.dlMuTx, a) s

def step (round : Int) (e : Engine) : Attempt Engine RoundAssignment :=
  let (arrivals, t) := e.traffic.generate round
  match decide round (e.scheduler.withTraffic t) with
  | .error fault s => .error fault { e with scheduler := s }
  | .ok (format, a) s =>
    let (reports, channel) := e.channel.transmit round a.allocations
    let s := s.withTraffic (record s.traffic reports)
    let row := rowOf round format arrivals.length a reports s
    .ok a ⟨s, channel, e.rows ++ [row]⟩

def drainLimit (e : Engine) : Int :=
  Station.longestDeadline e.traffic.stations + e.scheduler.book.cell.horizonRounds + 1

def steps : Nat → Int → Engine → Attempt Engine Unit
  | 0, _, e => .ok () e
  | n + 1, round, e =>
    match step round e with
    | .error fault e => .error fault e
    | .ok _ e => steps n (round + 1) e

/-- Steps on while something is queued, at most so often; gives the round after the last one. -/
def drain : Nat → Int → Engine → Attempt Engine Int
  | 0, round, e => .ok round e
  | n + 1, round, e =>
    if e.traffic.hasBacklog then
      match step round e with
      | .error fault e => .error fault e
      | .ok _ e => drain n (round + 1) e
    else .ok round e

def discard (round : Int) (station : Int) : List Nat → Engine → Attempt Engine Unit
  | [], e => .ok () e
  | id :: ids, e =>
    let t := e.traffic.setQueue station ids
    match t.update id fun p => p.drop round .late with
    | .error fault => .error fault { e with scheduler := e.scheduler.withTraffic t }
    | .ok t => discard round station ids { e with scheduler := e.scheduler.withTraffic t }

def discardAll (round : Int) : List Int → Engine → Attempt Engine Unit
  | [], e => .ok () e
  | station :: rest, e =>
    match discard round station (e.traffic.waiting station) e with
    | .error fault e => .error fault e
    | .ok () e => discardAll round rest e

def quiet (e : Engine) : Engine :=
  { e with scheduler := (e.scheduler.withTraffic e.traffic.stop).stop }

def run (rounds : Int) (e : Engine) : Attempt Engine Int :=
  match steps rounds.toNat 0 e with
  | .error fault e => .error fault e
  | .ok () e =>
    let e := e.quiet
    match drain e.drainLimit.toNat rounds e with
    | .error fault e => .error fault e
    | .ok round e =>
      match discardAll round e.traffic.stationIds e with
      | .error fault e => .error fault e
      | .ok () e => .ok (round - 1) e

end Engine

end Downlink
