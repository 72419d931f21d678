import Downlink.Proofs.DeadlineAware.Load
import Downlink.Proofs.DeadlineAware.Run

/-!
# Outcomes

When a run is over, its packets are, up to the reports of their transmissions, the finished packets
in order of emission. A unit's number counts the packets that are sent before it in the same round,
and a packet depends on no decision but the one for its own horizon.
-/

namespace Downlink

open Engine

def Packet.Precedes (q p : Packet) : Prop :=
  q.station < p.station ∨ q.station = p.station ∧ q.arrival < p.arrival

instance (q p : Packet) : Decidable (q.Precedes p) := inferInstanceAs (Decidable (_ ∨ _))

theorem idxOf_eq_countP_lt {l : List Int} {a : Int} (hl : l.Pairwise (· < ·)) (ha : a ∈ l) :
    l.idxOf a = l.countP fun b => b < a := by
  induction l with
  | nil => cases ha
  | cons b l ih =>
    obtain ⟨hb, hl⟩ := List.pairwise_cons.mp hl
    by_cases hab : b = a
    · subst hab
      have hnone : l.countP (fun x => decide (x < b)) = 0 := by
        rw [List.countP_eq_zero]
        intro x hx
        have := hb x hx
        simp only [decide_eq_true_eq]
        omega
      rw [List.idxOf_cons_self, List.countP_cons, hnone]
      simp
    · have hmem : a ∈ l := (List.mem_cons.mp ha).resolve_left (Ne.symm hab)
      rw [List.idxOf_cons_ne _ hab, List.countP_cons, ih hl hmem,
        if_pos (decide_eq_true (hb a hmem))]

namespace Course

variable {c : Course} {s u : Station} {d : DeadlineAware} {a b r k : Int}

theorem settled_fields (c : Course) (s : Station) (a : Int) :
    (c.settled s a).station = s.id ∧ (c.settled s a).horizon = some (c.horizonOf a) ∧
      (c.settled s a).scheduleIndex = some (c.indexOf s a) ∧
      (c.settled s a).assignedRound = c.assigned? s a ∧
        (c.settled s a).noted none = c.settled s a := by
  cases hr : c.assigned? s a with
  | some r =>
    rw [settled_of_assigned hr]
    exact ⟨rfl, rfl, rfl, rfl, rfl⟩
  | none =>
    rcases unassigned_cases hr with hd | ⟨m, hd, hm⟩
    · rw [settled_of_failed hd]
      exact ⟨rfl, rfl, rfl, rfl, rfl⟩
    · rw [settled_of_unmatched hd hm]
      exact ⟨rfl, rfl, rfl, rfl, rfl⟩

theorem finished_fields (c : Course) (s : Station) (a : Int) :
    (c.finished s a).station = s.id ∧ (c.finished s a).horizon = some (c.horizonOf a) ∧
      (c.finished s a).scheduleIndex = some (c.indexOf s a) ∧
      (c.finished s a).assignedRound = c.assigned? s a ∧
      (c.finished s a).noted none = c.finished s a := by
  obtain ⟨h₁, h₂, h₃, h₄, h₅⟩ := settled_fields c s a
  have h₆ : (c.settled s a).txStatus = none := congrArg Packet.txStatus h₅.symm
  unfold finished
  split
  · exact ⟨h₁, h₂, h₃, h₄, h₅⟩
  · split_ifs
    · exact ⟨h₁, h₂, h₃, h₄, by rw [Packet.noted, ← h₆]⟩
    · exact ⟨h₁, h₂, h₃, h₄, by rw [Packet.noted, ← h₆]⟩

theorem Over.packets (hc : c.cell.Sound) (h : Over c d) :
    d.traffic.packets.toList.map (fun p => p.noted none) =
      (Traffic.emissions c.cell.stations c.rounds).map fun e => c.finished e.1 e.2 := by
  refine Traffic.map_packets hc.horizon.roster.nodup h.size fun s hs a ha => ?_
  obtain ⟨x, hp⟩ := exists_packet (h.finished s hs) ha rfl
  exact ⟨_, hp, (finished_fields c s a).2.2.2.2⟩

theorem Feasible.finished_sent (hc : c.cell.Sound) (h : c.Feasible) (hs : s ∈ c.cell.stations)
    (ha : a ∈ Traffic.arrivals s c.rounds) (hr : c.assigned? s a = some r) :
    (c.finished s a).Sent c.cell.sizing s a ∧ (c.finished s a).txRound = some r := by
  have hsends := h.sends hc hs ha hr
  obtain ⟨hlow, hhigh, -⟩ := h.window hc hs ha hr
  have hrank := h.rank_lt hc hs (mem_sentIn.mpr ⟨ha, hsends⟩)
  have hunit : (⟨c.cell.sizing.ruType, c.rank s a r + 1⟩ : Ru) ∈ c.cell.sizing.units := by
    refine Sizing.mem_units.mpr ⟨rfl, ?_, ?_⟩
    · dsimp only
      omega
    · dsimp only
      omega
  have hfrom := finished_from c s a
  rw [finished_of_sends hsends, settled_of_assigned hr] at hfrom ⊢
  exact ⟨⟨hfrom, rfl, rfl, r, _, rfl, hlow, hhigh, rfl, hunit⟩, rfl⟩

theorem Feasible.finished_txRound (hc : c.cell.Sound) (hf : c.Feasible) (hs : s ∈ c.cell.stations)
    (ha : a ∈ Traffic.arrivals s c.rounds) : (c.finished s a).txRound = c.assigned? s a := by
  cases hr : c.assigned? s a with
  | some r => exact (hf.finished_sent hc hs ha hr).2
  | none =>
    rw [finished_of_unassigned hr]
    rcases unassigned_cases hr with hd | ⟨m, hd, hm⟩
    · rw [settled_of_failed hd]
      rfl
    · rw [settled_of_unmatched hd hm]
      rfl

theorem emissions_perm (hd : c.cell.stations.Nodup) :
    (Traffic.emissions c.cell.stations c.rounds).Perm
      (c.cell.stations.flatMap fun s => (Traffic.arrivals s c.rounds).map fun a => (s, a)) := by
  refine (List.perm_ext_iff_of_nodup (Traffic.emissions_nodup hd _) ?_).mpr fun e => ?_
  · refine List.nodup_flatMap.mpr ⟨fun s _ => ?_, ?_⟩
    · exact (Traffic.arrivals_nodup s _).map fun a b hab => congrArg Prod.snd hab
    · refine hd.pairwise_of_forall_ne fun s _ u _ hne e he he' => hne ?_
      obtain ⟨a, -, rfl⟩ := List.mem_map.mp he
      obtain ⟨b, -, hb⟩ := List.mem_map.mp he'
      exact (congrArg Prod.fst hb).symm
  · obtain ⟨s, a⟩ := e
    rw [Traffic.mem_emissions, List.mem_flatMap]
    constructor
    · intro h
      exact ⟨s, h.1, List.mem_map_of_mem h.2⟩
    · intro h
      obtain ⟨u, hu, hmem⟩ := h
      obtain ⟨b, hb, he⟩ := List.mem_map.mp hmem
      cases he
      exact ⟨hu, hb⟩

def SentBefore (c : Course) (s : Station) (a r : Int) (e : Station × Int) : Prop :=
  c.sends e.1 e.2 r = true ∧ (e.1.id < s.id ∨ e.1.id = s.id ∧ e.2 < a)

instance (e : Station × Int) : Decidable (c.SentBefore s a r e) :=
  inferInstanceAs (Decidable (_ ∧ _))

theorem rank_eq_countP (hc : c.cell.Sound) (hs : s ∈ c.cell.stations) (ha : a ∈ c.sentIn s r) :
    c.rank s a r =
      (Traffic.emissions c.cell.stations c.rounds).countP fun e => c.SentBefore s a r e := by
  obtain ⟨before, rest, hsplit⟩ := List.append_of_mem hs
  have hinc := hc.horizon.roster.increasing
  rw [hsplit, List.pairwise_append, List.pairwise_cons] at hinc
  obtain ⟨-, ⟨hrest, -⟩, hbefore⟩ := hinc
  have hcount : ∀ u : Station, ((Traffic.arrivals u c.rounds).map fun b => (u, b)).countP
      (fun e => c.SentBefore s a r e) =
        (c.sentIn u r).countP fun b => decide (u.id < s.id ∨ u.id = s.id ∧ b < a) := by
    intro u
    rw [List.countP_map, sentIn, List.countP_filter]
    refine List.countP_congr fun b _ => ?_
    simp [SentBefore, and_comm]
  have hfirst : before.map (fun u => (c.sentIn u r).countP
      fun b => decide (u.id < s.id ∨ u.id = s.id ∧ b < a)) =
        before.map fun u => (c.sentIn u r).length := by
    refine List.map_congr_left fun u hu => ?_
    have := hbefore u hu s List.mem_cons_self
    exact List.countP_eq_length.mpr fun b _ => decide_eq_true (Or.inl this)
  have hlast : rest.map (fun u => (c.sentIn u r).countP
      fun b => decide (u.id < s.id ∨ u.id = s.id ∧ b < a)) = rest.map fun _ => 0 := by
    refine List.map_congr_left fun u hu => ?_
    have := hrest u hu
    refine List.countP_eq_zero.mpr fun b _ => ?_
    simp only [decide_eq_true_eq]
    omega
  have hown : (c.sentIn s r).countP (fun b => decide (s.id < s.id ∨ s.id = s.id ∧ b < a)) =
      (c.sentIn s r).idxOf a := by
    have hinc : (c.sentIn s r).Pairwise (· < ·) := (Traffic.arrivals_increasing s c.rounds).filter _
    rw [idxOf_eq_countP_lt hinc ha]
    refine List.countP_congr fun b _ => ?_
    simp
  rw [(emissions_perm hc.horizon.roster.nodup).countP_eq, List.countP_flatMap]
  simp only [Function.comp_def, hcount]
  rw [hsplit, List.map_append, List.map_cons, List.sum_append, List.sum_cons, hfirst, hlast, hown,
    rank, sentBefore_eq hc hsplit]
  simp

section Local

variable {p : Planner}

def withPlanner (c : Course) (p : Planner) : Course := { c with planner := p }

theorem assigned?_withPlanner
    (h : (c.withPlanner p).decision (c.horizonOf a) = c.decision (c.horizonOf a)) (s : Station) :
    (c.withPlanner p).assigned? s a = c.assigned? s a := by
  rw [assigned?, assigned?, ← h]
  rfl

theorem sends_withPlanner
    (h : (c.withPlanner p).decision (c.horizonOf a) = c.decision (c.horizonOf a)) (s : Station)
    (r : Int) : (c.withPlanner p).sends s a r = c.sends s a r := by
  rw [sends, assigned?_withPlanner h]
  rfl

theorem sentIn_withPlanner (hc : c.cell.Sound) (ha : a < c.rounds) (hs : c.sends s a r = true)
    (h : (c.withPlanner p).decision (c.horizonOf a) = c.decision (c.horizonOf a)) (u : Station) :
    (c.withPlanner p).sentIn u r = c.sentIn u r := by
  refine List.filter_congr fun b hb => ?_
  have hb' : b < c.rounds := (Traffic.mem_arrivals.mp hb).1.2
  have hround := horizonOf_of_sends hc ha hs
  by_cases hk : c.horizonOf b = c.horizonOf a
  · exact sends_withPlanner (hk ▸ h) u r
  · have hneither : ∀ c' : Course, c'.cell.Sound → b < c'.rounds →
        c'.horizonOf b ≠ c'.horizonIn r → c'.sends u b r = false := by
      intro c' hc' hb hne
      rw [Bool.eq_false_iff]
      exact fun hsends => hne (horizonOf_of_sends hc' hb hsends)
    rw [hneither c hc hb' (hround ▸ hk), hneither (c.withPlanner p) hc hb' (hround ▸ hk)]

theorem finished_withPlanner (hc : c.cell.Sound) (ha : a < c.rounds)
    (h : (c.withPlanner p).decision (c.horizonOf a) = c.decision (c.horizonOf a)) (s : Station) :
    (c.withPlanner p).finished s a = c.finished s a := by
  have hr := assigned?_withPlanner h s
  have hsettled : (c.withPlanner p).settled s a = c.settled s a := by
    rw [settled, settled, ← h]
    rfl
  cases hround : c.assigned? s a with
  | none =>
    rw [finished_of_unassigned hround, finished_of_unassigned (hr.trans hround), hsettled]
  | some r =>
    have hsends := sends_withPlanner h s r
    cases hs : c.sends s a r with
    | false =>
      have hres : (c.withPlanner p).resolution s a = c.resolution s a := by
        rw [resolution, resolution, hr]
        rfl
      rw [finished_of_late hround hs, finished_of_late (hr.trans hround) (hsends.trans hs),
        hsettled, hres]
    | true =>
      have hsent : ∀ u, (c.withPlanner p).sentIn u r = c.sentIn u r :=
        sentIn_withPlanner hc ha hs h
      have hrank : (c.withPlanner p).rank s a r = c.rank s a r := by
        simp only [rank, sentBefore, hsent]
        rfl
      rw [finished_of_sends hs, finished_of_sends (hsends.trans hs), hsettled, hrank]
      rfl

end Local

end Course

end Downlink
