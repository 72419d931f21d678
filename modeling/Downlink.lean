import Downlink.Main
import Downlink.SlotGraph
import Downlink.Proofs.Placement.Admissible
import Downlink.Proofs.Placement.Augment
import Downlink.Proofs.Placement.Exchange
import Downlink.Proofs.Placement.Greedy
import Downlink.Proofs.Placement.Optimal
import Downlink.Proofs.Schedule.Horizon
import Downlink.Proofs.Schedule.Layout
import Downlink.Proofs.Assignment.Check
import Downlink.Proofs.Assignment.Redeal
import Downlink.Proofs.Assignment.Best
import Downlink.Proofs.Plan
import Downlink.Proofs.Cell
import Downlink.Proofs.DeadlineAware.Admission
import Downlink.Proofs.DeadlineAware.Execution
import Downlink.Proofs.Conservation
import Downlink.Proofs.Agreement
import Downlink.Proofs.Exchange.Process
import Downlink.Proofs.SlotSafety
import Downlink.Proofs.Comparison
import Downlink.Proofs.RoundRobin.Turns
import Downlink.Proofs.Feedback
import Downlink.Proofs.Traffic.Horizon
import Downlink.Proofs.Contention
import Downlink.Proofs.Assignment.Shift
import Downlink.Proofs.Assignment.FirstFault
import Downlink.Proofs.DeadlineAware.Records
import Downlink.Proofs.HorizonRecords
import Downlink.Proofs.ServiceOrder
import Downlink.Proofs.DeadlineAware.ServiceOrder
import Downlink.Proofs.StationOrder
import Downlink.Proofs.Session
import Downlink.Proofs.Placement.Supply
import Downlink.Proofs.Assignment.Repair
import Downlink.Proofs.SlotGraph.Represents
import Downlink.Proofs.Entries
import Downlink.Proofs.Session.Rounds
import Downlink.Proofs.Session.Horizons
import Downlink.Proofs.Session.Succession
import Downlink.Proofs.Session.Cache
import Downlink.Proofs.Exchange.Layout
import Downlink.Proofs.Traffic.Period
import Downlink.Proofs.Schedule.Representation
import Downlink.Proofs.Report.Reconciliation
