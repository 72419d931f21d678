import Downlink.Proofs.Packet
import Downlink.Proofs.Total
import Downlink.Proofs.Traffic.Queues
import Downlink.Report.Summary

/-!
# Losses

The weight that a run has lost is a total over its packets. Once each of them has its outcome it is
a total over everything that was emitted, where what has not been sent costs the penalty of its
station.
-/

namespace Downlink

def Packet.loss (p : Packet) : Int := if p.state = .dropped then p.penalty else 0

theorem Packet.Closed.loss {p : Packet} (h : p.Closed) :
    p.loss = if p.txRound.isSome then 0 else p.penalty := by
  rcases h with ⟨hstate, htx, -⟩ | ⟨hstate, htx, -⟩
  · simp [Packet.loss, hstate, htx]
  · simp [Packet.loss, hstate, htx]

theorem RunResult.lostWeight_eq (r : RunResult) :
    r.lostWeight = total (r.packets.map Packet.loss) := by
  rw [lostWeight, weight, dropped, total_map_filter]
  simp only [decide_eq_true_eq]
  rfl

namespace Traffic

variable {tr : Traffic} {stations : List Station} {n : Nat}

def sentAt (tr : Traffic) (stations : List Station) (e : Station × Int) : Option Int :=
  (tr.packet? (idOf stations e.1 e.2)).bind Packet.txRound

structure Ended (tr : Traffic) (stations : List Station) (n : Nat) : Prop where
  size : tr.packets.size = (emissions stations n).length
  closed : ∀ s ∈ stations, ∀ a ∈ arrivals s n, ∃ p,
    tr.packet? (idOf stations s a) = some p ∧ p.From s a ∧ p.Closed

theorem Ended.loss (hd : stations.Nodup) (h : tr.Ended stations n) :
    total (tr.packets.toList.map Packet.loss) = total ((emissions stations n).map
      fun e => if (tr.sentAt stations e).isSome then 0 else e.1.penalty) := by
  congr 1
  refine map_packets (g := fun s a => if (tr.sentAt stations (s, a)).isSome then 0 else s.penalty)
    hd h.size fun s hs a ha => ?_
  obtain ⟨p, hp, hfrom, hclosed⟩ := h.closed s hs a ha
  exact ⟨p, hp, by simp only [sentAt, hp, hclosed.loss, hfrom.penalty, Option.bind_some]⟩

end Traffic

end Downlink
