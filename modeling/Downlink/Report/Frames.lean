import Downlink.Report.Table
import Downlink.Simulation

/-!
The records of a run as tables: one row per packet, per horizon and per round.
-/

namespace Downlink

namespace Packet

def record (p : Packet) : Table.Record :=
  [("packet_id", .whole p.id),
   ("station_id", .whole p.station),
   ("arrival_round", .whole p.arrival),
   ("deadline_round", .whole p.deadline),
   ("penalty", .whole p.penalty),
   ("state", .text p.state.name),
   ("horizon", .ofWhole? p.horizon),
   ("schedule_index", .ofWhole? p.scheduleIndex),
   ("assigned_round", .ofWhole? p.assignedRound),
   ("tx_round", .ofWhole? p.txRound),
   ("ru_index", .ofWhole? (p.ru.map Ru.index)),
   ("tx_status", .ofText? (p.txStatus.map TxStatus.name)),
   ("drop_round", .ofWhole? p.dropRound),
   ("drop_reason", .ofText? (p.dropReason.map DropReason.name)),
   ("delay_rounds", .ofWhole? p.delay?)]

end Packet

namespace HorizonRecord

def record (h : HorizonRecord) : Table.Record :=
  [("index", .whole h.index),
   ("start_round", .whole h.start),
   ("rounds", .whole h.rounds),
   ("packets", .whole h.packets),
   ("ru_type", .whole h.ruType.tones),
   ("rus_per_round", .whole h.perRound),
   ("backend", .text h.backend),
   ("matched", .whole h.matched),
   ("total_weight", .whole h.totalWeight),
   ("max_weight", .whole h.maxWeight),
   ("failed", .flag h.failed),
   ("error", .ofText? h.error)]

end HorizonRecord

namespace RoundRow

def record (r : RoundRow) : Table.Record :=
  [("round", .whole r.round),
   ("tx_format", .text r.format.name),
   ("arrivals", .whole r.arrivals),
   ("transmitted", .whole r.transmitted),
   ("delivered", .whole r.delivered),
   ("dropped", .whole r.dropped),
   ("dropped_weight", .whole r.droppedWeight),
   ("buffered", .whole r.buffered),
   ("rus_used", .whole r.rusUsed),
   ("rus_per_round", .whole r.rusPerRound),
   ("backlog", .whole r.backlog)]

end RoundRow

namespace RunResult

def packetTable (r : RunResult) : Table := .ofRecords (r.packets.map Packet.record)

def horizonTable (r : RunResult) : Table := .ofRecords (r.horizons.map HorizonRecord.record)

def roundTable (r : RunResult) : Table := .ofRecords (r.rows.map RoundRow.record)

end RunResult

end Downlink
