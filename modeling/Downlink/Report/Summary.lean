import Downlink.Report.Conservation
import Downlink.Report.Table

/-!
The summary of a run in one row: counts of packets by outcome, the weight lost, delays of what was
sent and the share of the offered resource units that was used. A ratio of nothing and a mean of
nothing are not numbers.
-/

namespace Downlink

namespace RunResult

def sent (r : RunResult) : List Packet := r.packets.filter fun p => p.state = .transmitted

def dropped (r : RunResult) : List Packet := r.packets.filter fun p => p.state = .dropped

def delivered (r : RunResult) : List Packet := r.sent.filter fun p => p.txStatus = some .success

def weight (packets : List Packet) : Int := total (packets.map Packet.penalty)

def lostWeight (r : RunResult) : Int := weight r.dropped

/-- The packets that were dropped for a reason, whatever state they are in. -/
def countByReason (r : RunResult) (reason : DropReason) : Nat :=
  r.packets.countP fun p => p.dropReason = some reason

def droppedBy (r : RunResult) (reason : DropReason) : Nat :=
  r.dropped.countP fun p => p.dropReason = some reason

def unitsUsed (r : RunResult) : Int := total (r.rows.map RoundRow.rusUsed)

def unitsOffered (r : RunResult) : Int :=
  total ((r.rows.filter fun row => row.format = .dlMuTx).map RoundRow.rusPerRound)

end RunResult

structure Summary where
  scenario : String
  policy : String
  solver : String
  ruType : RuType
  perRound : Int
  horizonRounds : Int
  roundsRun : Int
  packets : Nat
  transmitted : Nat
  delivered : Nat
  dropped : Nat
  weightedLoss : Float
  weightedLossRatio : Float
  deliveryRatio : Float
  delayMean : Float
  delayMax : Float
  utilization : Float
  horizons : Nat
  horizonsFailed : Nat
  conserved : Bool
  droppedBy : DropReason → Nat

namespace Summary

def real (n : Int) : Except Fault Float :=
  match Binary64.ofInt? n with
  | some x => .ok x
  | none => .error .overflow

def ratio (num den : Float) : Float := if den == 0 then Binary64.nan else num / den

def realDelay (p : Packet) : Except Fault Float :=
  match p.delay? with
  | some d => real d
  | none => .error .wrongKind

def realDelays : List Packet → Except Fault (List Float)
  | [] => .ok []
  | p :: ps =>
    match realDelay p with
    | .error e => .error e
    | .ok x => (realDelays ps).map (x :: ·)

def mean (xs : List Float) : Float :=
  if xs.isEmpty then Binary64.nan else xs.foldl (· + ·) 0 / Float.ofNat xs.length

def longestDelay (packets : List Packet) : Int :=
  match packets.filterMap Packet.delay? with
  | [] => 0
  | d :: ds => ds.foldl max d

def ofRun (scenario : String) (r : RunResult) : Except Fault Summary := do
  let total ← real (RunResult.weight r.packets)
  let lost ← real r.lostWeight
  let used ← real r.unitsUsed
  let offered ← real r.unitsOffered
  let delays ← realDelays r.sent
  let longest ← real (longestDelay r.sent)
  let violations ← r.violations
  .ok { scenario := scenario
        policy := r.policy
        solver := if r.policy = DeadlineAware.name then r.backend else RoundRobin.noBackend
        ruType := r.ruType
        perRound := r.perRound
        horizonRounds := r.horizonRounds
        roundsRun := r.lastRound + 1
        packets := r.packets.length
        transmitted := r.sent.length
        delivered := r.delivered.length
        dropped := r.dropped.length
        weightedLoss := lost
        weightedLossRatio := ratio lost total
        deliveryRatio := ratio (Float.ofNat r.delivered.length) (Float.ofNat r.packets.length)
        delayMean := mean delays
        delayMax := longest
        utilization := ratio used offered
        horizons := r.horizons.length
        horizonsFailed := r.horizons.countP HorizonRecord.failed
        conserved := violations.isEmpty
        droppedBy := r.droppedBy }

def record (s : Summary) : Table.Record :=
  [("scenario", .text s.scenario),
   ("policy", .text s.policy),
   ("solver", .text s.solver),
   ("ru_type", .whole s.ruType.tones),
   ("rus_per_round", .whole s.perRound),
   ("rounds_per_schedule", .whole s.horizonRounds),
   ("rounds_run", .whole s.roundsRun),
   ("packets", .whole s.packets),
   ("transmitted", .whole s.transmitted),
   ("delivered", .whole s.delivered),
   ("dropped", .whole s.dropped),
   ("weighted_loss", .real s.weightedLoss),
   ("weighted_loss_ratio", .real s.weightedLossRatio),
   ("delivery_ratio", .real s.deliveryRatio),
   ("delay_mean_rounds", .real s.delayMean),
   ("delay_max_rounds", .real s.delayMax),
   ("ru_utilization", .real s.utilization),
   ("horizons", .whole s.horizons),
   ("horizons_failed", .whole s.horizonsFailed),
   ("conservation_ok", .flag s.conserved)] ++
    DropReason.all.map fun reason => ("dropped_" ++ reason.name, .whole (s.droppedBy reason))

end Summary

end Downlink
