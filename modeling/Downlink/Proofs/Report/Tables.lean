import Downlink.Proofs.Packet
import Downlink.Proofs.Traffic.Horizon
import Downlink.Report.Stations

/-!
# Tables of a run

When every packet has its outcome, the summary, the table of the stations and the counts by reason
say the same: each is a count over the packets, taken at once, station by station or reason by
reason. A table is missing only where a number that it shows is too large for a floating-point
number.
-/

namespace Downlink

/-- A result of which `P` holds, unless one of these numbers is too large for a float. -/
def UnlessTooLarge {α : Type} (ns : List Int) (m : Except Fault α) (P : α → Prop) : Prop :=
  (∃ a, m = .ok a ∧ P a) ∨ m = .error .overflow ∧ ∃ n ∈ ns, Binary64.ofInt? n = none

namespace UnlessTooLarge

variable {α β : Type} {ns : List Int} {m : Except Fault α} {P Q : α → Prop} {R : β → Prop} {n : Int}

theorem ok {a : α} (h : P a) : UnlessTooLarge ns (.ok a) P := Or.inl ⟨a, rfl, h⟩

theorem real (hn : n ∈ ns) :
    UnlessTooLarge ns (Summary.real n) fun x => Binary64.ofInt? n = some x := by
  rw [Summary.real]
  cases h : Binary64.ofInt? n with
  | some x => exact ok rfl
  | none => exact Or.inr ⟨rfl, n, hn, h⟩

theorem bind {f : α → Except Fault β} (h : UnlessTooLarge ns m P)
    (hf : ∀ a, P a → UnlessTooLarge ns (f a) R) : UnlessTooLarge ns (m >>= f) R := by
  rcases h with ⟨a, rfl, ha⟩ | ⟨rfl, hlarge⟩
  · exact hf a ha
  · exact Or.inr ⟨rfl, hlarge⟩

theorem map {f : α → β} (h : UnlessTooLarge ns m P) (hf : ∀ a, P a → R (f a)) :
    UnlessTooLarge ns (m.map f) R := by
  rcases h with ⟨a, rfl, ha⟩ | ⟨rfl, hlarge⟩
  · exact ok (hf a ha)
  · exact Or.inr ⟨rfl, hlarge⟩

theorem mono (h : UnlessTooLarge ns m P) (hPQ : ∀ a, P a → Q a) : UnlessTooLarge ns m Q := by
  rcases h with ⟨a, hm, ha⟩ | hlarge
  · exact Or.inl ⟨a, hm, hPQ a ha⟩
  · exact Or.inr hlarge

end UnlessTooLarge

theorem eraseDups_increasing {xs : List Int} (h : xs.Pairwise (· ≤ ·)) :
    xs.eraseDups.Pairwise (· < ·) := by
  match xs, h with
  | [], _ => exact .nil
  | x :: xs, h =>
    obtain ⟨hx, hxs⟩ := List.pairwise_cons.mp h
    rw [List.eraseDups_cons]
    refine List.pairwise_cons.mpr ⟨fun y hy => ?_, eraseDups_increasing (hxs.filter _)⟩
    obtain ⟨hmem, hne⟩ := List.mem_filter.mp (List.mem_eraseDups.mp hy)
    exact lt_of_le_of_ne (hx y hmem) fun he => by simp [he] at hne
termination_by xs.length
decreasing_by exact Nat.lt_succ_of_le (List.length_filter_le _ _)

theorem sum_countP_classes {α κ : Type} [DecidableEq κ] {l : List α} {keys : List κ} {key : α → κ}
    (hd : keys.Nodup) (h : ∀ x ∈ l, key x ∈ keys) (q : α → Bool) :
    (keys.map fun k => (l.filter fun x => key x = k).countP q).sum = l.countP q := by
  rw [(perm_flatMap_filter hd h).countP_eq q, List.countP_flatMap]
  rfl

namespace Table

variable {t : Table} {rs : List Record} {names : List String} {name : String}

def column (t : Table) (name : String) : List (Option Value) :=
  t.rows.map fun row => (t.columns.zip row).lookup name

def Counts (t : Table) (name : String) (ns : List Nat) : Prop :=
  t.column name = ns.map fun (n : Nat) => some (.whole n)

theorem column_ofRecords (h : ∀ r ∈ rs, r.map Prod.fst = names) (name : String) :
    (ofRecords rs).column name = rs.map fun r => r.lookup name := by
  cases rs with
  | nil => rfl
  | cons r rs =>
    rw [column, ofRecords, List.map_map]
    refine List.map_congr_left fun r' hr' => ?_
    rw [h r List.mem_cons_self, ← h r' hr', Function.comp_apply, ← List.unzip_fst, ← List.unzip_snd,
      List.zip_unzip]

structure ListsStations (t : Table) (rows : List StationRow) : Prop where
  packets : t.Counts "packets" (rows.map StationRow.packets)
  transmitted : t.Counts "transmitted" (rows.map StationRow.transmitted)
  dropped : t.Counts "dropped" (rows.map StationRow.dropped)

theorem listsStations_ofRecords (rows : List StationRow) :
    ListsStations (ofRecords (rows.map StationRow.record)) rows := by
  have hnames : ∀ r ∈ rows.map StationRow.record, r.map Prod.fst = ["station_id", "packets",
      "transmitted", "dropped", "weighted_loss", "delay_mean_rounds", "loss_ratio"] := by
    intro r hr
    obtain ⟨row, -, rfl⟩ := List.mem_map.mp hr
    rfl
  constructor
  all_goals
    rw [Counts, column_ofRecords hnames, List.map_map, List.map_map]
    rfl

end Table

/-- A routine that sorts packets into a class for each station that has any, in the order of the
ids. Within a class the packets keep their order. -/
structure GroupsByStation (group : List Packet → List StationGroup) : Prop where
  increasing : ∀ packets, (group packets).Pairwise fun g g' => g.station < g'.station
  station : ∀ packets k, (∃ g ∈ group packets, g.station = k) ↔ ∃ p ∈ packets, p.station = k
  packets : ∀ packets, ∀ g ∈ group packets,
    g.packets = packets.filter fun p => p.station = g.station

theorem groupsByStation_ofPackets : GroupsByStation StationGroup.ofPackets where
  increasing packets := by
    have hsorted : ((packets.map Packet.station).mergeSort fun a b => decide (a ≤ b)).Pairwise
        fun a b => decide (a ≤ b) = true :=
      List.pairwise_mergeSort (by grind) (by grind) _
    rw [StationGroup.ofPackets, List.pairwise_map]
    exact eraseDups_increasing (hsorted.imp of_decide_eq_true)
  station packets k := by
    simp [StationGroup.ofPackets]
  packets packets g hg := by
    obtain ⟨k, -, rfl⟩ := List.mem_map.mp hg
    rfl

namespace GroupsByStation

variable {group : List Packet → List StationGroup} {packets : List Packet} {g : StationGroup}

theorem mem_packets (h : GroupsByStation group) (hg : g ∈ group packets) {p : Packet}
    (hp : p ∈ g.packets) : p ∈ packets := by
  rw [h.packets packets g hg] at hp
  exact List.mem_of_mem_filter hp

theorem sum_countP (h : GroupsByStation group) (packets : List Packet) (q : Packet → Bool) :
    ((group packets).map fun g => g.packets.countP q).sum = packets.countP q := by
  have hnodup : ((group packets).map StationGroup.station).Nodup := by
    rw [List.nodup_iff_pairwise_ne, List.pairwise_map]
    exact (h.increasing packets).imp ne_of_lt
  have hkeys : ∀ p ∈ packets, p.station ∈ (group packets).map StationGroup.station := by
    intro p hp
    obtain ⟨g, hg, hstation⟩ := (h.station packets p.station).mpr ⟨p, hp, rfl⟩
    exact List.mem_map.mpr ⟨g, hg, hstation⟩
  rw [← sum_countP_classes hnodup hkeys q, List.map_map]
  refine congrArg List.sum (List.map_congr_left fun g hg => ?_)
  rw [h.packets packets g hg]
  rfl

end GroupsByStation

namespace RunResult

variable {r : RunResult}

def lostWeights (r : RunResult) : List Int := r.dropped.map Packet.penalty

structure CountsGroup (g : StationGroup) (row : StationRow) : Prop where
  station : row.station = g.station
  packets : row.packets = g.packets.length
  transmitted : row.transmitted = g.packets.countP fun p => p.state = .transmitted
  dropped : row.dropped = g.packets.countP fun p => p.state = .dropped

theorem losses_converted {ps : List Packet} (h : ∀ p ∈ ps, p ∈ r.packets) :
    UnlessTooLarge r.lostWeights (StationRow.losses ps) fun _ => True := by
  induction ps with
  | nil => exact .ok trivial
  | cons p ps ih =>
    obtain ⟨hp, hps⟩ := List.forall_mem_cons.mp h
    have hloss : UnlessTooLarge r.lostWeights (StationRow.loss p) fun _ => True := by
      rw [StationRow.loss]
      split_ifs with hstate
      · refine (UnlessTooLarge.real (List.mem_map_of_mem ?_)).mono fun _ _ => trivial
        exact List.mem_filter.mpr ⟨hp, decide_eq_true hstate⟩
      · exact .ok trivial
    have heq : StationRow.losses (p :: ps) =
        (StationRow.loss p >>= fun x => (StationRow.losses ps).map (x :: ·)) := by
      rw [StationRow.losses]
      cases StationRow.loss p <;> rfl
    rw [heq]
    exact hloss.bind fun x _ => (ih hps).map fun _ _ => trivial

theorem stationRows_converted {groups : List StationGroup}
    (h : ∀ g ∈ groups, ∀ p ∈ g.packets, p ∈ r.packets) :
    UnlessTooLarge r.lostWeights (stationRows groups) (List.Forall₂ CountsGroup groups) := by
  induction groups with
  | nil => exact .ok .nil
  | cons g groups ih =>
    obtain ⟨hg, hgroups⟩ := List.forall_mem_cons.mp h
    have hrow : UnlessTooLarge r.lostWeights (StationRow.ofPackets g.station g.packets)
        (CountsGroup g) := (losses_converted hg).map fun _ _ => ⟨rfl, rfl, rfl, rfl⟩
    have heq : stationRows (g :: groups) = (StationRow.ofPackets g.station g.packets >>=
        fun row => (stationRows groups).map (row :: ·)) := by
      rw [stationRows]
      cases StationRow.ofPackets g.station g.packets <;> rfl
    rw [heq]
    exact hrow.bind fun row hrow => (ih hgroups).map fun rows hrows => .cons hrow hrows

/-- Rows by station, each with an outcome for each packet, that add up to the counts of the run. -/
structure Balances (r : RunResult) (rows : List StationRow) : Prop where
  packets : (rows.map StationRow.packets).sum = r.packets.length
  transmitted : (rows.map StationRow.transmitted).sum = r.sent.length
  dropped : (rows.map StationRow.dropped).sum = r.dropped.length
  balanced : ∀ row ∈ rows, row.packets = row.transmitted + row.dropped

theorem length_of_closed {ps : List Packet} (h : ∀ p ∈ ps, p.Closed) : ps.length =
    ps.countP (fun p => p.state = .transmitted) + ps.countP (fun p => p.state = .dropped) := by
  rw [List.length_eq_countP_add_countP fun p : Packet => decide (p.state = .transmitted)]
  congr 1
  refine List.countP_congr fun p hp => ?_
  rcases h p hp with ⟨hstate, -⟩ | ⟨hstate, -⟩ <;> simp [hstate]

theorem map_of_counts {groups : List StationGroup} {rows : List StationRow} {f : StationRow → Nat}
    {n : StationGroup → Nat} (h : List.Forall₂ CountsGroup groups rows)
    (hf : ∀ g row, CountsGroup g row → f row = n g) : rows.map f = groups.map n := by
  induction h with
  | nil => rfl
  | cons hrow _ ih => rw [List.map_cons, List.map_cons, hf _ _ hrow, ih]

theorem exists_group_of_counts {groups : List StationGroup} {rows : List StationRow}
    (h : List.Forall₂ CountsGroup groups rows) {row : StationRow} (hrow : row ∈ rows) :
    ∃ g ∈ groups, CountsGroup g row := by
  induction h with
  | nil => cases hrow
  | @cons g _ _ _ hfirst _ ih =>
    rcases List.mem_cons.mp hrow with rfl | hrow
    · exact ⟨g, List.mem_cons_self, hfirst⟩
    · obtain ⟨g', hg', hcounts⟩ := ih hrow
      exact ⟨g', List.mem_cons_of_mem g hg', hcounts⟩

theorem balances_of_counts {group : List Packet → List StationGroup} (h : GroupsByStation group)
    (hclosed : ∀ p ∈ r.packets, p.Closed) {rows : List StationRow}
    (hrows : List.Forall₂ CountsGroup (group r.packets) rows) : r.Balances rows where
  packets := by
    have hcounts : ∀ g row, CountsGroup g row →
        row.packets = g.packets.countP fun _ => true := fun g row hrow => by
      rw [hrow.packets, List.countP_true]
    rw [map_of_counts hrows hcounts, h.sum_countP, List.countP_true]
  transmitted := by
    rw [map_of_counts hrows fun _ _ hrow => hrow.transmitted, h.sum_countP,
      List.countP_eq_length_filter]
    rfl
  dropped := by
    rw [map_of_counts hrows fun _ _ hrow => hrow.dropped, h.sum_countP,
      List.countP_eq_length_filter]
    rfl
  balanced row hrow := by
    obtain ⟨g, hg, hcounts⟩ := exists_group_of_counts hrows hrow
    rw [hcounts.packets, hcounts.transmitted, hcounts.dropped]
    exact length_of_closed fun p hp => hclosed p (h.mem_packets hg hp)

theorem stationTable_converted {group : List Packet → List StationGroup} (h : GroupsByStation group)
    (hclosed : ∀ p ∈ r.packets, p.Closed) :
    UnlessTooLarge r.lostWeights (r.stationTableBy group) fun t =>
      ∃ rows, t.ListsStations rows ∧ r.Balances rows := by
  rw [stationTableBy]
  split_ifs with hnone
  · have hpackets : r.packets = [] := List.isEmpty_iff.mp hnone
    refine .ok ⟨[], ⟨rfl, rfl, rfl⟩, ?_, ?_, ?_, List.forall_mem_nil _⟩
    all_goals simp [sent, dropped, hpackets]
  · exact (stationRows_converted fun g hg p hp => h.mem_packets hg hp).map fun rows hrows =>
      ⟨rows, Table.listsStations_ofRecords rows, balances_of_counts h hclosed hrows⟩

def summarized (r : RunResult) : List Int :=
  [weight r.packets, r.lostWeight, r.unitsUsed, r.unitsOffered, Summary.longestDelay r.sent] ++
    r.sent.filterMap Packet.delay?

/-- The counts of the summary are those of the packets by state. -/
structure Summarizes (r : RunResult) (z : Summary) : Prop where
  packets : z.packets = r.packets.length
  transmitted : z.transmitted = r.sent.length
  delivered : z.delivered = r.delivered.length
  dropped : z.dropped = r.dropped.length
  weightedLoss : Binary64.ofInt? r.lostWeight = some z.weightedLoss
  droppedBy : z.droppedBy = r.droppedBy

theorem realDelays_converted {ns : List Int} {ps : List Packet}
    (h : ∀ p ∈ ps, ∃ d ∈ ns, p.delay? = some d) :
    UnlessTooLarge ns (Summary.realDelays ps) fun _ => True := by
  induction ps with
  | nil => exact .ok trivial
  | cons p ps ih =>
    obtain ⟨⟨d, hd, hdelay⟩, hps⟩ := List.forall_mem_cons.mp h
    have heq : Summary.realDelays (p :: ps) =
        (Summary.real d >>= fun x => (Summary.realDelays ps).map (x :: ·)) := by
      simp only [Summary.realDelays, Summary.realDelay, hdelay]
      cases Summary.real d <;> rfl
    rw [heq]
    exact (UnlessTooLarge.real hd).bind fun x _ => (ih hps).map fun _ _ => trivial

theorem delay_of_sent (h : ∀ p ∈ r.packets, p.Closed) :
    ∀ p ∈ r.sent, ∃ d ∈ r.summarized, p.delay? = some d := by
  intro p hp
  obtain ⟨hmem, hstate⟩ := List.mem_filter.mp hp
  rcases h p hmem with ⟨-, htx, -⟩ | ⟨hdropped, -⟩
  · obtain ⟨t, ht⟩ := Option.isSome_iff_exists.mp htx
    have hdelay : p.delay? = some (t - p.arrival) := by rw [Packet.delay?, ht]; rfl
    exact ⟨_, List.mem_append_right _ (List.mem_filterMap.mpr ⟨p, hp, hdelay⟩), hdelay⟩
  · rw [hdropped] at hstate
    cases hstate

theorem summary_converted (h : ∀ p ∈ r.packets, p.Closed) {vs : List Violation}
    (hv : r.violations = .ok vs) (scenario : String) :
    UnlessTooLarge r.summarized (Summary.ofRun scenario r) r.Summarizes := by
  have hmem : ∀ n ∈ [weight r.packets, r.lostWeight, r.unitsUsed, r.unitsOffered,
      Summary.longestDelay r.sent], n ∈ r.summarized := fun n hn => List.mem_append_left _ hn
  rw [Summary.ofRun]
  refine (UnlessTooLarge.real (hmem _ (by simp))).bind fun _ _ => ?_
  refine (UnlessTooLarge.real (hmem _ (by simp))).bind fun lost hlost => ?_
  refine (UnlessTooLarge.real (hmem _ (by simp))).bind fun _ _ => ?_
  refine (UnlessTooLarge.real (hmem _ (by simp))).bind fun _ _ => ?_
  refine (realDelays_converted (delay_of_sent h)).bind fun _ _ => ?_
  refine (UnlessTooLarge.real (hmem _ (by simp))).bind fun _ _ => ?_
  rw [hv]
  exact .ok ⟨rfl, rfl, rfl, rfl, hlost, rfl⟩

/-- The packets that were dropped for a reason are those with this reason, and all were dropped for
one. -/
structure Reasoned (r : RunResult) : Prop where
  same : ∀ reason, r.droppedBy reason = r.countByReason reason
  sum : (DropReason.all.map r.droppedBy).sum = r.dropped.length

theorem reasoned_of_closed (h : ∀ p ∈ r.packets, p.Closed) : r.Reasoned where
  same reason := by
    rw [droppedBy, countByReason, dropped, List.countP_filter]
    refine List.countP_congr fun p hp => ?_
    rcases h p hp with ⟨hstate, -, hreason⟩ | ⟨hstate, -, -⟩
    · simp [hstate, hreason]
    · simp [hstate]
  sum := by
    have hkeys : ∀ p ∈ r.dropped, p.dropReason ∈ DropReason.all.map some := by
      intro p hp
      obtain ⟨hmem, hstate⟩ := List.mem_filter.mp hp
      rcases h p hmem with ⟨hsent, -⟩ | ⟨-, -, hreason⟩
      · rw [hsent] at hstate
        cases hstate
      · obtain ⟨reason, hreason⟩ := Option.isSome_iff_exists.mp hreason
        rw [hreason]
        exact List.mem_map_of_mem (by cases reason <;> decide)
    have hsum := sum_countP_classes (by decide) hkeys fun _ => true
    simp only [List.countP_true, List.map_map] at hsum
    rw [← hsum]
    refine congrArg List.sum (List.map_congr_left fun reason _ => ?_)
    rw [droppedBy, List.countP_eq_length_filter]
    rfl

end RunResult

end Downlink
