import Downlink.Proofs.DeadlineAware.Admission

/-!
# Service

Visiting the queue of a station takes every packet to the stage it has in the next round, sends
those that are due on the units with the numbers that their ranks give, and keeps those that are
ahead. The only way to fail is a round with more packets to send than units.
-/

namespace Downlink

open DeadlineAware

namespace Course

variable {c : Course} {s : Station} {d : DeadlineAware} {t n : Nat} {a : Int}
  {w w' : Walk} {x : Option TxStatus} {L : List Int}

def Overfull (c : Course) (t : Nat) : Prop :=
  c.cell.sizing.perRound < (c.cell.stations.map fun s => (c.sentIn s t).length).sum

def overload (c : Course) (t : Nat) : Fault :=
  .showing [t, c.cell.sizing.perRound] (.desync (.overCapacity t c.cell.sizing.perRound))

structure Visited (c : Course) (s : Station) (t : Nat) (a : Int) (x : Option TxStatus)
    (w w' : Walk) : Prop where
  traffic : w'.traffic =
    w.traffic.setPacket (c.idOf s a) ((c.packetAt s a (c.paused s (t + 1) a)).noted x)
  kept : w'.kept = w.kept ++ if c.paused s (t + 1) a = .done then [] else [c.idOf s a]
  count : w'.allocations.length = w.allocations.length + if c.sends s a t then 1 else 0

theorem paused_succ_of_resolution (h : c.resolution s a = t) : c.paused s (t + 1) a = .done := by
  rw [paused, if_neg (by rw [h]; push_cast; omega)]

theorem paused_succ_of_lt (h : (t : Int) + 1 ≤ c.resolution s a) :
    c.paused s (t + 1) a = .held := by
  rw [paused, if_pos (by push_cast; omega)]

theorem settled_of_assigned_state {r : Int} (h : c.assigned? s a = some r) :
    (c.settled s a).state = .scheduled ∧ (c.settled s a).assignedRound = some r := by
  rw [settled_of_assigned h]
  exact ⟨rfl, rfl⟩

theorem sends_of_assigned {r : Int} (h : c.assigned? s a = some r) (hne : r ≠ t) :
    c.sends s a t = false := by
  rw [Bool.eq_false_iff]
  intro hs
  have := (sends_iff.mp hs).1
  rw [h, Option.some.injEq] at this
  exact hne this

theorem visit_unassigned (hw : Waits c s t a)
    (hp : w.traffic.packet? (c.idOf s a) = some ((c.settled s a).noted x))
    (hr : c.assigned? s a = none) :
    ∃ w', visit c.cell.sizing t s.id (c.idOf s a) w = .ok () w' ∧ Visited c s t a x w w' := by
  have hdone := paused_succ_of_resolution (hw.unassigned hr)
  have hnot : c.sends s a t = false := by
    rw [Bool.eq_false_iff]
    intro hs
    rw [(sends_iff.mp hs).1] at hr
    cases hr
  have hvisit : visit c.cell.sizing t s.id (c.idOf s a) w =
      .ok () { w with drops := w.drops ++ [c.idOf s a] } := by
    simp only [visit, hp, Packet.noted_state, state_of_unassigned hr, if_true]
  refine ⟨_, hvisit, ?_, ?_, ?_⟩
  · rw [hdone, packetAt, finished_of_unassigned hr, Traffic.setPacket_self hp]
  · rw [hdone, if_pos rfl, List.append_nil]
  · rw [hnot]
    rfl

theorem visit_late {r : Int} (hw : Waits c s t a)
    (hp : w.traffic.packet? (c.idOf s a) = some ((c.settled s a).noted x))
    (hr : c.assigned? s a = some r) (hlt : r < t) :
    ∃ w', visit c.cell.sizing t s.id (c.idOf s a) w = .ok () w' ∧ Visited c s t a x w w' := by
  obtain ⟨hstate, hround⟩ := settled_of_assigned_state hr
  obtain ⟨hnot, hres⟩ := hw.late hr hlt
  have hdrop : ((c.settled s a).noted x).drop t .late =
      .ok ((c.packetAt s a (c.paused s (t + 1) a)).noted x) := by
    have hscheduled : ((c.settled s a).noted x).state = .scheduled := hstate
    rw [Packet.drop_ok (Or.inr hscheduled), paused_succ_of_resolution hres, packetAt,
      finished_of_late hr hnot, hres]
    rfl
  have hvisit : visit c.cell.sizing t s.id (c.idOf s a) w =
      .ok () { w with
        traffic := w.traffic.setPacket (c.idOf s a)
          ((c.packetAt s a (c.paused s (t + 1) a)).noted x)
        drops := w.drops ++ [c.idOf s a] } := by
    simp only [visit, hp, Packet.noted_state, Packet.noted_assignedRound, hround]
    rw [if_neg (by rw [hstate]; decide), if_neg hlt.ne, if_pos hlt, Traffic.update_ok hp hdrop]
  refine ⟨_, hvisit, rfl, ?_, ?_⟩
  · rw [paused_succ_of_resolution hres, if_pos rfl, List.append_nil]
  · rw [sends_of_assigned hr hlt.ne]
    rfl

theorem visit_due (hw : Waits c s t a)
    (hp : w.traffic.packet? (c.idOf s a) = some ((c.settled s a).noted x))
    (hr : c.assigned? s a = some (t : Int))
    (hrank : c.rank s a t = w.allocations.length)
    (hroom : w.allocations.length < c.cell.sizing.perRound) :
    ∃ w', visit c.cell.sizing t s.id (c.idOf s a) w = .ok () w' ∧ Visited c s t a x w w' := by
  obtain ⟨hstate, hround⟩ := settled_of_assigned_state hr
  obtain ⟨hsends, hres⟩ := hw.due hr
  have hsent : ((c.settled s a).noted x).transmit t
      ⟨c.cell.sizing.ruType, Int.ofNat w.allocations.length + 1⟩ =
        .ok ((c.packetAt s a (c.paused s (t + 1) a)).noted x) := by
    have hscheduled : ((c.settled s a).noted x).state = .scheduled := hstate
    rw [Packet.transmit_scheduled hscheduled, paused_succ_of_resolution hres, packetAt,
      finished_of_sends hsends, hrank]
    rfl
  have hupdate : (w.traffic.update (c.idOf s a) fun p => p.transmit t
      ⟨c.cell.sizing.ruType, Int.ofNat w.allocations.length + 1⟩) =
        .ok (w.traffic.setPacket (c.idOf s a)
          ((c.packetAt s a (c.paused s (t + 1) a)).noted x)) :=
    Traffic.update_ok hp hsent
  have hvisit : visit c.cell.sizing t s.id (c.idOf s a) w =
      .ok () { w with
        traffic := w.traffic.setPacket (c.idOf s a)
          ((c.packetAt s a (c.paused s (t + 1) a)).noted x)
        allocations := w.allocations ++ [⟨s.id, c.idOf s a,
          ⟨c.cell.sizing.ruType, Int.ofNat w.allocations.length + 1⟩⟩]
        sent := true } := by
    simp only [visit, hp, Packet.noted_state, Packet.noted_assignedRound, hround]
    rw [if_neg (by rw [hstate]; decide), if_pos trivial, Sizing.getElem?_units, if_pos hroom]
    simp only [hupdate]
  refine ⟨_, hvisit, rfl, ?_, ?_⟩
  · rw [paused_succ_of_resolution hres, if_pos rfl, List.append_nil]
  · rw [hsends, if_pos rfl, List.length_append, List.length_singleton]

theorem visit_full (hp : w.traffic.packet? (c.idOf s a) = some ((c.settled s a).noted x))
    (hr : c.assigned? s a = some (t : Int))
    (hfull : ¬w.allocations.length < c.cell.sizing.perRound) :
    visit c.cell.sizing t s.id (c.idOf s a) w = .error (c.overload t) w := by
  obtain ⟨hstate, hround⟩ := settled_of_assigned_state hr
  simp only [visit, hp, Packet.noted_state, Packet.noted_assignedRound, hround]
  rw [if_neg (by rw [hstate]; decide), if_pos trivial, Sizing.getElem?_units, if_neg hfull]
  rfl

theorem visit_ahead {r : Int} (hw : Waits c s t a)
    (hp : w.traffic.packet? (c.idOf s a) = some ((c.settled s a).noted x))
    (hr : c.assigned? s a = some r) (hgt : (t : Int) < r) :
    ∃ w', visit c.cell.sizing t s.id (c.idOf s a) w = .ok () w' ∧ Visited c s t a x w w' := by
  obtain ⟨hstate, hround⟩ := settled_of_assigned_state hr
  have hheld := paused_succ_of_lt (hw.ahead hr hgt)
  have hvisit : visit c.cell.sizing t s.id (c.idOf s a) w =
      .ok () { w with kept := w.kept ++ [c.idOf s a] } := by
    simp only [visit, hp, Packet.noted_state, Packet.noted_assignedRound, hround]
    rw [if_neg (by rw [hstate]; decide), if_neg hgt.ne', if_neg (by omega)]
  refine ⟨_, hvisit, ?_, ?_, ?_⟩
  · rw [hheld, packetAt, Traffic.setPacket_self hp]
  · rw [hheld, if_neg (by decide)]
  · rw [sends_of_assigned hr hgt.ne']
    rfl

theorem visit_waiting (hw : Waits c s t a)
    (hp : w.traffic.packet? (c.idOf s a) = some ((c.settled s a).noted x))
    (hrank : c.sends s a t = true → c.rank s a t = w.allocations.length) :
    (∃ w', visit c.cell.sizing t s.id (c.idOf s a) w = .ok () w' ∧ Visited c s t a x w w') ∨
      c.sends s a t = true ∧ c.cell.sizing.perRound ≤ w.allocations.length ∧
        ∃ w', visit c.cell.sizing t s.id (c.idOf s a) w = .error (c.overload t) w' := by
  cases hr : c.assigned? s a with
  | none => exact Or.inl (visit_unassigned hw hp hr)
  | some r =>
    rcases lt_trichotomy r (t : Int) with hlt | rfl | hgt
    · exact Or.inl (visit_late hw hp hr hlt)
    · have hsends := (hw.due hr).1
      by_cases hroom : w.allocations.length < c.cell.sizing.perRound
      · exact Or.inl (visit_due hw hp hr (hrank hsends) hroom)
      · exact Or.inr ⟨hsends, not_lt.mp hroom, w, visit_full hp hr hroom⟩
    · exact Or.inl (visit_ahead hw hp hr hgt)

structure VisitedAll (c : Course) (s : Station) (t n : Nat) (L : List Int) (stage : Int → Stage)
    (live : Int → Bool) (w w' : Walk) : Prop where
  holds : w'.traffic.Holds c.cell.stations n s
    (fun a => c.Shape s a (if a ∈ L then c.paused s (t + 1) a else stage a)) live
  apart : Traffic.Apart c.cell.stations n s w.traffic w'.traffic
  kept : w'.kept =
    w.kept ++ (L.filter fun a => c.paused s (t + 1) a ≠ .done).map (c.idOf s)
  count : w'.allocations.length = w.allocations.length + (L.filter fun a => c.sends s a t).length

theorem Visited.holds {stage : Int → Stage} {live : Int → Bool} (h : Visited c s t a x w w')
    (hs : s ∈ c.cell.stations) (ha : a ∈ Traffic.arrivals s n)
    (hold : w.traffic.Holds c.cell.stations n s (fun a => c.Shape s a (stage a)) live) :
    w'.traffic.Holds c.cell.stations n s
      (fun b => c.Shape s b (if b = a then c.paused s (t + 1) a else stage b)) live := by
  rw [h.traffic]
  refine hold.setPacket hs ha ⟨x, by rw [if_pos rfl]⟩ fun b _ hb p hp => ?_
  rwa [if_neg hb]

theorem Visited.count_cons (h : Visited c s t a x w w') (L : List Int) :
    w'.allocations.length + (L.filter fun a => c.sends s a t).length =
      w.allocations.length + ((a :: L).filter fun a => c.sends s a t).length := by
  rw [h.count, List.filter_cons]
  split_ifs
  · rw [List.length_cons]
    omega
  · rfl

theorem VisitedAll.cons {stage : Int → Stage} {live : Int → Bool} {w₁ w₂ : Walk}
    (hs : s ∈ c.cell.stations) (ha : a ∈ Traffic.arrivals s n) (h₁ : Visited c s t a x w w₁)
    (h₂ : VisitedAll c s t n L (fun b => if b = a then c.paused s (t + 1) a else stage b)
      live w₁ w₂) :
    VisitedAll c s t n (a :: L) stage live w w₂ := by
  refine ⟨?_, ?_, ?_, ?_⟩
  · refine h₂.holds.imp (fun b _ p hp => ?_) fun _ _ => rfl
    have hstage : (if b ∈ a :: L then c.paused s (t + 1) b else stage b) =
        if b ∈ L then c.paused s (t + 1) b
        else if b = a then c.paused s (t + 1) a else stage b := by
      by_cases hba : b = a
      · subst hba
        simp
      · simp [hba]
    rwa [hstage]
  · apply Traffic.Apart.trans _ h₂.apart
    rw [h₁.traffic]
    exact Traffic.Apart.setPacket hs ha _ _
  · rw [h₂.kept, h₁.kept, List.filter_cons]
    by_cases hdone : c.paused s (t + 1) a = .done
    · simp [hdone]
    · simp [hdone]
  · rw [h₂.count, h₁.count_cons]

theorem visitAll_waiting {stage : Int → Stage} {live : Int → Bool} (hs : s ∈ c.cell.stations)
    (hL : L.Nodup) (hmem : ∀ a ∈ L, a ∈ Traffic.arrivals s n ∧ Waits c s t a)
    (hstage : ∀ a ∈ L, stage a = .held)
    (hold : w.traffic.Holds c.cell.stations n s (fun a => c.Shape s a (stage a)) live)
    (hrank : ∀ a ∈ L, c.sends s a t = true →
      c.rank s a t = w.allocations.length + (L.filter fun a => c.sends s a t).idxOf a) :
    (∃ w', visitAll c.cell.sizing t s.id (L.map (c.idOf s)) w = .ok () w' ∧
      VisitedAll c s t n L stage live w w') ∨
      c.cell.sizing.perRound < w.allocations.length + (L.filter fun a => c.sends s a t).length ∧
        ∃ w', visitAll c.cell.sizing t s.id (L.map (c.idOf s)) w = .error (c.overload t) w' := by
  induction L generalizing w stage with
  | nil =>
    refine Or.inl ⟨w, rfl, ?_, Traffic.Apart.refl _ _ _ _, ?_, ?_⟩
    · exact hold.imp (fun a _ p hp => by rwa [if_neg List.not_mem_nil]) fun _ _ => rfl
    · rw [List.filter_nil, List.map_nil, List.append_nil]
    · rfl
  | cons a L ih =>
    obtain ⟨haL, hnd⟩ := List.nodup_cons.mp hL
    obtain ⟨ha, hw⟩ := hmem a List.mem_cons_self
    obtain ⟨x, hp⟩ := exists_packet hold ha (hstage a List.mem_cons_self)
    have hranka : c.sends s a t = true → c.rank s a t = w.allocations.length := by
      intro hs
      rw [hrank a List.mem_cons_self hs, List.filter_cons, if_pos hs, List.idxOf_cons_self]
      rfl
    rw [List.map_cons, visitAll]
    rcases visit_waiting hw hp hranka with ⟨w₁, hv, hw₁⟩ | ⟨hs, hfull, w₁, hv⟩
    · have hne : ∀ b ∈ L, b ≠ a := fun b hb he => haL (he ▸ hb)
      have hold₁ := hw₁.holds hs ha hold
      have hrank₁ : ∀ b ∈ L, c.sends s b t = true → c.rank s b t =
          w₁.allocations.length + (L.filter fun a => c.sends s a t).idxOf b := by
        intro b hb hsb
        rw [hrank b (List.mem_cons_of_mem a hb) hsb, hw₁.count, List.filter_cons]
        by_cases hsa : c.sends s a t = true
        · rw [if_pos hsa, if_pos hsa, List.idxOf_cons_ne _ (hne b hb).symm]
          omega
        · rw [if_neg hsa, if_neg hsa, Nat.add_zero]
      rw [hv]
      rcases ih hnd (fun b hb => hmem b (List.mem_cons_of_mem a hb))
        (fun b hb => by rw [if_neg (hne b hb)]; exact hstage b (List.mem_cons_of_mem a hb))
        hold₁ hrank₁
        with ⟨w₂, hv₂, hw₂⟩ | ⟨hfull, w₂, hv₂⟩
      · exact Or.inl ⟨w₂, hv₂, VisitedAll.cons hs ha hw₁ hw₂⟩
      · exact Or.inr ⟨hw₁.count_cons L ▸ hfull, w₂, hv₂⟩
    · refine Or.inr ⟨?_, w₁, by rw [hv]⟩
      rw [List.filter_cons, if_pos hs, List.length_cons]
      omega

theorem waits_of_live (hc : c.cell.Sound) (hn : n = min (t + 1) c.rounds)
    (ha : a ∈ Traffic.arrivals s n) (hlive : c.pruned s t a ≠ .done) : Waits c s t a := by
  have hlt := (Traffic.mem_arrivals.mp ha).1.2
  have har : a < c.rounds := by omega
  by_cases hat : a = t
  · subst hat
    exact ⟨le_rfl, le_resolution hc har s, lt_expiry hc har⟩
  · unfold pruned at hlive
    rw [if_neg hat] at hlive
    split_ifs at hlive with hw
    · exact ⟨by omega, hw.1, hw.2⟩
    · exact absurd rfl hlive

theorem live_of_sends (h : c.sends s a t = true) :
    a ≤ t ∧ c.pruned s t a ≠ .done := by
  obtain ⟨-, hle, hlt⟩ := sends_iff.mp h
  refine ⟨hle, ?_⟩
  unfold pruned
  split_ifs with hat hw
  · decide
  · decide
  · exact absurd ⟨(resolution_of_sends h).ge, hlt⟩ hw

theorem done_of_pruned (hc : c.cell.Sound) (ha : a < c.rounds) (hdone : c.pruned s t a = .done) :
    c.paused s (t + 1) a = .done := by
  unfold pruned at hdone
  split_ifs at hdone with hat hw
  rw [paused, if_neg]
  intro hle
  push_cast at hle
  have := resolution_le_expiry hc ha s
  exact hw ⟨by omega, by omega⟩

def queued (c : Course) (s : Station) (t n : Nat) : List Int :=
  (Traffic.arrivals s n).filter fun a => c.pruned s t a ≠ .done

theorem mem_queued : a ∈ c.queued s t n ↔ a ∈ Traffic.arrivals s n ∧ c.pruned s t a ≠ .done := by
  simp [queued]

theorem queued_nodup (c : Course) (s : Station) (t n : Nat) : (c.queued s t n).Nodup :=
  (Traffic.arrivals_nodup s n).filter _

theorem filter_sends (hn : n = min (t + 1) c.rounds) :
    ((c.queued s t n).filter fun a => c.sends s a t) = c.sentIn s t := by
  have hle : n ≤ c.rounds := by omega
  obtain ⟨later, hl, hge⟩ := Traffic.arrivals_split s hle
  have hlater : (later.filter fun a => c.sends s a t) = [] := by
    rw [List.filter_eq_nil_iff]
    intro a ha hs
    have hmem : a ∈ Traffic.arrivals s c.rounds := hl ▸ List.mem_append_right _ ha
    have := (Traffic.mem_arrivals.mp hmem).1
    have := (sends_iff.mp hs).2.1
    have := hge a ha
    omega
  rw [sentIn, hl, List.filter_append, hlater, List.append_nil, queued, List.filter_filter]
  refine List.filter_congr fun a _ => ?_
  by_cases hs : c.sends s a t = true
  · simp [hs, (live_of_sends hs).2]
  · simp [hs]

structure Served (c : Course) (s : Station) (t n : Nat) (d d' : DeadlineAware) : Prop where
  same : d' = { d with traffic := d'.traffic, cursors := d'.cursors }
  reached : c.At s d'.traffic n (c.paused s (t + 1))
  apart : Traffic.Apart c.cell.stations n s d.traffic d'.traffic
  cursor : t < c.rounds → d'.cursor? s.id = some (c.cursorAt s (c.horizonOf t) (t + 1))
  cursors : ∀ k, k ≠ s.id → d'.cursor? k = d.cursor? k

theorem filter_queued (hc : c.cell.Sound) (hn : n = min (t + 1) c.rounds) (s : Station) :
    ((c.queued s t n).filter fun a => c.paused s (t + 1) a ≠ .done) =
      (Traffic.arrivals s n).filter fun a => c.paused s (t + 1) a ≠ .done := by
  rw [queued, List.filter_filter]
  apply List.filter_congr
  intro a ha
  have har : a < c.rounds := by
    have := (Traffic.mem_arrivals.mp ha).1
    omega
  by_cases hdone : c.pruned s t a = .done
  · simp [hdone, done_of_pruned hc har hdone]
  · simp [hdone]

theorem paused_of_queued (hc : c.cell.Sound) (hn : n = min (t + 1) c.rounds)
    (ha : a ∈ Traffic.arrivals s n) :
    (if a ∈ c.queued s t n then c.paused s (t + 1) a else c.admitted s t a) =
      c.paused s (t + 1) a := by
  split_ifs with hmem
  · rfl
  · have har : a < c.rounds := by
      have := (Traffic.mem_arrivals.mp ha).1
      omega
    have hdone : c.pruned s t a = .done := by
      by_contra hlive
      exact hmem (mem_queued.mpr ⟨ha, hlive⟩)
    rw [admitted, if_pos hdone, done_of_pruned hc har hdone]

def closed (station : Int) (out : RoundAssignment) (w : Walk) : RoundAssignment :=
  { out with
    allocations := w.allocations
    drops := w.drops
    buffered :=
      if !w.kept.isEmpty && !w.sent then out.buffered ++ [station] else out.buffered }

theorem serveStation_served {out : RoundAssignment} (hc : c.cell.Sound)
    (hs : s ∈ c.cell.stations) (hn : n = min (t + 1) c.rounds) (hcell : d.book.cell = c.cell)
    (hst : d.traffic.stations = c.cell.stations) (hat : c.At s d.traffic n (c.pruned s t))
    (hi : t < c.rounds → Installed c (c.horizonOf t) d ∧
      d.cursor? s.id = some (c.cursorAt s (c.horizonOf t) t))
    (hout : out.allocations.length = c.sentBefore s t) :
    (∃ out' d', serveStation t s.id out d = .ok out' d' ∧ Served c s t n d d' ∧
      out'.allocations.length = c.sentBefore s t + (c.sentIn s t).length) ∨
      c.cell.sizing.perRound < c.sentBefore s t + (c.sentIn s t).length ∧
        ∃ d', serveStation t s.id out d = .error (c.overload t) d' := by
  obtain ⟨d₁, henroll, h₁⟩ := enrollAll_waiting hc hs hn hat hi
  have hbook : d₁.book = d.book := by rw [h₁.same]
  have hst₁ : d₁.traffic.stations = c.cell.stations := h₁.apart.served.trans hst
  have hrank : ∀ a ∈ c.queued s t n, c.sends s a t = true → c.rank s a t =
      out.allocations.length + ((c.queued s t n).filter fun a => c.sends s a t).idxOf a := by
    intro a _ _
    rw [filter_sends hn, hout, rank]
  have hmem : ∀ a ∈ c.queued s t n, a ∈ Traffic.arrivals s n ∧ Waits c s t a := by
    intro a ha
    obtain ⟨ha, hlive⟩ := mem_queued.mp ha
    exact ⟨ha, waits_of_live hc hn ha hlive⟩
  have hheld : ∀ a ∈ c.queued s t n, c.admitted s t a = .held :=
    fun a ha => if_neg (mem_queued.mp ha).2
  have hvisit := visitAll_waiting (w := ⟨d₁.traffic, out.allocations, out.drops, [], false⟩) hs
    (queued_nodup c s t n) hmem hheld h₁.holds hrank
  have hqueue : (c.queued s t n).map (c.idOf s) = d₁.traffic.waiting s.id := h₁.holds.queue.symm
  rw [hqueue, filter_sends hn, hout] at hvisit
  rcases hvisit with ⟨w, hv, hw⟩ | ⟨hfull, w, hv⟩
  · have hkept : w.kept = ((Traffic.arrivals s n).filter fun a =>
        c.paused s (t + 1) a ≠ .done).map (c.idOf s) := by
      rw [hw.kept, List.nil_append, filter_queued hc hn]
    have hserve : serveStation t s.id out d = .ok (closed s.id out w)
        { d₁ with traffic := w.traffic.setQueue s.id w.kept } := by
      simp only [serveStation, henroll, hbook, hcell, hv]
      rfl
    have hcount := hw.count
    rw [filter_sends hn] at hcount
    refine Or.inl ⟨_, _, hserve, ⟨?_, ?_, ?_, h₁.cursor, h₁.cursors⟩, hout ▸ hcount⟩
    · rw [h₁.same]
    · have hholds := hw.holds.imp (fun a ha p hp => paused_of_queued hc hn ha ▸ hp)
        fun _ _ => rfl
      exact hholds.setQueue (hw.apart.served.trans hst₁ ▸ hs) hkept
    · exact (h₁.apart.trans hw.apart).trans (Traffic.Apart.setQueue hc.horizon.roster hs n _ _)
  · refine Or.inr ⟨hfull, { d₁ with traffic := w.traffic }, ?_⟩
    simp only [serveStation, henroll, hbook, hcell, hv]

/-- The stations of `before` have been served in round `t`, those of `rest` have not. -/
structure Serving (c : Course) (t n : Nat) (before rest : List Station) (d : DeadlineAware) :
    Prop where
  cell : d.book.cell = c.cell
  stations : d.traffic.stations = c.cell.stations
  installed : t < c.rounds → Installed c (c.horizonOf t) d
  reached : ∀ s ∈ before, c.At s d.traffic n (c.paused s (t + 1))
  passed : t < c.rounds → ∀ s ∈ before,
    d.cursor? s.id = some (c.cursorAt s (c.horizonOf t) (t + 1))
  ahead : ∀ s ∈ rest, c.At s d.traffic n (c.pruned s t)
  pointing : t < c.rounds → ∀ s ∈ rest, d.cursor? s.id = some (c.cursorAt s (c.horizonOf t) t)

variable {before rest : List Station} {out : RoundAssignment}

theorem Serving.of_eq {d' : DeadlineAware} (h : Serving c t n before rest d)
    (hb : d'.book = d.book) (ht : d'.traffic = d.traffic) (hcur : d'.cursors = d.cursors)
    (ha : d'.assignment = d.assignment) (hf : d'.horizonFailed = d.horizonFailed) :
    Serving c t n before rest d' where
  cell := hb ▸ h.cell
  stations := ht ▸ h.stations
  installed hlt := (h.installed hlt).of_eq (by rw [hb]) (by rw [hb]) ha hf
  reached s hs := ht ▸ h.reached s hs
  passed hlt s hs := by rw [cursor?, hcur]; exact h.passed hlt s hs
  ahead s hs := ht ▸ h.ahead s hs
  pointing hlt s hs := by rw [cursor?, hcur]; exact h.pointing hlt s hs

theorem sentBefore_eq (hc : c.cell.Sound) (h : c.cell.stations = before ++ s :: rest) (r : Int) :
    c.sentBefore s r = (before.map fun s => (c.sentIn s r).length).sum := by
  have hinc := hc.horizon.roster.increasing
  rw [h, List.pairwise_append] at hinc
  obtain ⟨-, hrest, hbefore⟩ := hinc
  have hlt : (before.filter fun t => t.id < s.id) = before :=
    List.filter_eq_self.mpr fun u hu => decide_eq_true (hbefore u hu s List.mem_cons_self)
  have hge : ((s :: rest).filter fun t => t.id < s.id) = [] := by
    refine List.filter_eq_nil_iff.mpr fun u hu => ?_
    rw [decide_eq_true_eq]
    rcases List.mem_cons.mp hu with rfl | hu
    · exact lt_irrefl _
    · have := (List.pairwise_cons.mp hrest).1 u hu
      omega
  rw [sentBefore, h, List.filter_append, hlt, hge, List.append_nil]

theorem Serving.step {d' : DeadlineAware} (hc : c.cell.Sound)
    (hsplit : c.cell.stations = before ++ s :: rest) (h : Serving c t n before (s :: rest) d)
    (hd : Served c s t n d d') : Serving c t n (before ++ [s]) rest d' := by
  obtain ⟨hs, hbefore, hrest, -⟩ := hc.horizon.roster.turn hsplit
  have hid : ∀ u, u ∈ c.cell.stations ∧ u ≠ s → u.id ≠ s.id :=
    fun u hu he => hu.2 (hc.horizon.roster.id_inj hu.1 hs he)
  constructor
  · rw [hd.same]
    exact h.cell
  · rw [hd.apart.served, h.stations]
  · intro hlt
    rw [hd.same]
    exact (h.installed hlt).of_eq rfl rfl rfl rfl
  · intro u hu
    rcases List.mem_append.mp hu with hu | hu
    · exact (h.reached u hu).apart hd.apart (hbefore u hu).1 (hbefore u hu).2
    · exact List.mem_singleton.mp hu ▸ hd.reached
  · intro hlt u hu
    rcases List.mem_append.mp hu with hu | hu
    · rw [hd.cursors u.id (hid u (hbefore u hu)), h.passed hlt u hu]
    · exact List.mem_singleton.mp hu ▸ hd.cursor hlt
  · intro u hu
    exact (h.ahead u (List.mem_cons_of_mem s hu)).apart hd.apart (hrest u hu).1 (hrest u hu).2
  · intro hlt u hu
    rw [hd.cursors u.id (hid u (hrest u hu)), h.pointing hlt u (List.mem_cons_of_mem s hu)]

theorem Serving.skip (hc : c.cell.Sound) (hn : n = min (t + 1) c.rounds)
    (hsplit : c.cell.stations = before ++ s :: rest) (h : Serving c t n before (s :: rest) d)
    (hidle : c.queued s t n = []) : Serving c t n (before ++ [s]) rest d := by
  have hs := (hc.horizon.roster.turn hsplit).mem
  have hdone : ∀ a ∈ Traffic.arrivals s n, c.pruned s t a = .done := by
    intro a ha
    by_contra hlive
    have := mem_queued.mpr ⟨ha, hlive⟩
    rw [hidle] at this
    cases this
  have hnext : ∀ a ∈ Traffic.arrivals s n, c.paused s (t + 1) a = .done := by
    intro a ha
    have := (Traffic.mem_arrivals.mp ha).1
    exact done_of_pruned hc (by omega) (hdone a ha)
  refine ⟨h.cell, h.stations, h.installed, ?_, ?_, ?_, ?_⟩
  · intro u hu
    rcases List.mem_append.mp hu with hu | hu
    · exact h.reached u hu
    · obtain rfl := List.mem_singleton.mp hu
      refine (h.ahead u List.mem_cons_self).imp (fun a ha p hp => ?_) fun a ha => ?_
      · rwa [hnext a ha, ← hdone a ha]
      · rw [hnext a ha, hdone a ha]
  · intro hlt u hu
    rcases List.mem_append.mp hu with hu | hu
    · exact h.passed hlt u hu
    · obtain rfl := List.mem_singleton.mp hu
      rw [h.pointing hlt u List.mem_cons_self, cursorAt_succ_of_not_due hc hs]
      intro hdue
      have hfresh : c.pruned u t t = .fresh := if_pos rfl
      have := hdone t (Traffic.mem_arrivals.mpr ⟨by omega, hdue⟩)
      rw [hfresh] at this
      cases this
  · exact fun u hu => h.ahead u (List.mem_cons_of_mem s hu)
  · exact fun hlt u hu => h.pointing hlt u (List.mem_cons_of_mem s hu)

theorem serveAll_serving (hc : c.cell.Sound) (hn : n = min (t + 1) c.rounds)
    {noted : Int → Bool} (hsplit : c.cell.stations = before ++ rest)
    (h : Serving c t n before rest d)
    (hnoted : ∀ s ∈ rest, noted s.id = false → c.queued s t n = [])
    (hout : out.allocations.length = (before.map fun s => (c.sentIn s t).length).sum) :
    (∃ out' d', serveAll t ((rest.map Station.id).filter noted) out d = .ok out' d' ∧
      d' = { d with traffic := d'.traffic, cursors := d'.cursors } ∧
      d'.traffic.generating = d.traffic.generating ∧
      d'.traffic.packets.size = d.traffic.packets.size ∧
      Serving c t n c.cell.stations [] d') ∨
      c.Overfull t ∧ ∃ d',
        serveAll t ((rest.map Station.id).filter noted) out d = .error (c.overload t) d' := by
  induction rest generalizing before out d with
  | nil =>
    rw [List.append_nil] at hsplit
    exact Or.inl ⟨out, d, rfl, rfl, rfl, rfl, hsplit ▸ h⟩
  | cons s rest ih =>
    obtain ⟨hs, -, -, hsplit'⟩ := hc.horizon.roster.turn hsplit
    have hnoted' : ∀ u ∈ rest, noted u.id = false → c.queued u t n = [] :=
      fun u hu => hnoted u (List.mem_cons_of_mem s hu)
    have hbefore := sentBefore_eq hc hsplit t
    rw [List.map_cons, List.filter_cons]
    by_cases hs' : noted s.id = true
    · rw [if_pos hs', serveAll]
      have hout' : out.allocations.length = c.sentBefore s t := hout.trans hbefore.symm
      rcases serveStation_served hc hs hn h.cell h.stations (h.ahead s List.mem_cons_self)
        (fun hlt => ⟨h.installed hlt, h.pointing hlt s List.mem_cons_self⟩) hout'
        with ⟨out₁, d₁, hserve, hd₁, hcount⟩ | ⟨hfull, d₁, hserve⟩
      · have hout₁ : out₁.allocations.length =
            ((before ++ [s]).map fun s => (c.sentIn s t).length).sum := by
          rw [hcount, hbefore, List.map_append, List.sum_append]
          simp
        rw [hserve]
        rcases ih hsplit' (h.step hc hsplit hd₁) hnoted' hout₁
          with ⟨out₂, d₂, hrest, hsame, hgen, hsize, hserving⟩ | ⟨hover, d₂, hrest⟩
        · refine Or.inl ⟨out₂, d₂, hrest, ?_, ?_, ?_, hserving⟩
          · rw [hsame, hd₁.same]
          · rw [hgen, hd₁.apart.generating]
          · rw [hsize, hd₁.apart.size]
        · exact Or.inr ⟨hover, d₂, hrest⟩
      · refine Or.inr ⟨?_, d₁, by rw [hserve]⟩
        rw [Overfull, hsplit, List.map_append, List.sum_append, List.map_cons, List.sum_cons]
        omega
    · have hidle := hnoted s List.mem_cons_self (Bool.eq_false_iff.mpr hs')
      rw [if_neg hs']
      refine ih hsplit' (h.skip hc hn hsplit hidle) hnoted' ?_
      have hnone : c.sentIn s t = [] := by
        rw [← filter_sends hn, hidle]
        rfl
      rw [hout, List.map_append, List.sum_append]
      simp [hnone]

end Course

end Downlink
