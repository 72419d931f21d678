import Downlink.Proofs.Conservation
import Downlink.Proofs.DeadlineAware.Records
import Downlink.Proofs.ServiceOrder

/-!
# The order of service in the deadline-aware scheduler

A round visits the queues one after the other, each from its oldest packet on, and hands out the
units in order. Plans never serve an entry of a station before an earlier one, so when a packet is
sent the older ones of its station are sent with it or are gone.
-/

namespace Downlink

open Traffic Engine

namespace DeadlineAware

variable {d d' : DeadlineAware} {out out' : RoundAssignment} {r k t : Int} {id : Nat}
  {ids : List Nat} {stations : List Int} {tr tr' : Traffic} {w w' : Walk} {z : Sizing}
  {L : List Allocation} {a : Allocation} {f : TxFormat}

/-- What has been allocated so far in round `r`: units in order, each for a packet that was sent,
and those of one station in the order of its queue. -/
structure Hands (z : Sizing) (r : Int) (tr : Traffic) (L : List Allocation) : Prop where
  units : L.map Allocation.ru = z.units.take L.length
  marks : ∀ a ∈ L, a.Marks r tr
  ordered : L.Pairwise fun a b => a.station = b.station → a.packet < b.packet

theorem Hands.nil (z : Sizing) (r : Int) (tr : Traffic) : Hands z r tr [] :=
  ⟨rfl, by simp, .nil⟩

theorem Hands.advance (h : Hands z r tr L) (ha : Advances tr tr') : Hands z r tr' L :=
  ⟨h.units, fun a hmem => (h.marks a hmem).advance ha, h.ordered⟩

theorem Hands.concat (h : Hands z r tr L) (hru : z.units[L.length]? = some a.ru)
    (ha : a.Marks r tr) (hlast : ∀ b ∈ L, b.station = a.station → b.packet < a.packet) :
    Hands z r tr (L ++ [a]) where
  units := by
    rw [List.map_append, h.units, List.length_append, List.length_singleton, List.take_add_one, hru]
    rfl
  marks b hb := by
    rcases List.mem_append.mp hb with hb | hb
    · exact h.marks b hb
    · exact List.mem_singleton.mp hb ▸ ha
  ordered := List.pairwise_append.mpr ⟨h.ordered, List.pairwise_singleton _ _,
    fun b hb _ ha => List.mem_singleton.mp ha ▸ hlast b hb⟩

theorem Hands.increasing (h : Hands z r tr L) :
    L.Pairwise fun a b => a.ru.index < b.ru.index := by
  have hunits := z.units_increasing.take (i := L.length)
  rwa [← h.units, List.pairwise_map] at hunits

theorem visit_advances (h : visit z r k id w = .ok () w') : Advances w.traffic w'.traffic := by
  obtain ⟨p, hp, hvisits⟩ := of_visit h
  cases hvisits with
  | dropped _ => exact .refl _
  | due _ hleaves => exact .setPacket hp hleaves.becomes
  | late hopen => exact .setPacket hp (Packet.becomes_lost hopen)
  | ahead _ => exact .refl _

theorem visit_hands (h : Hands z r w.traffic w.allocations)
    (hk : ∀ p, w.traffic.packet? id = some p → p.station = k)
    (hlast : ∀ a ∈ w.allocations, a.station = k → a.packet < id)
    (hvisit : visit z r k id w = .ok () w') :
    Hands z r w'.traffic w'.allocations ∧
      ∀ a ∈ w'.allocations, a ∈ w.allocations ∨ a.station = k ∧ a.packet = id := by
  have hadvances := visit_advances hvisit
  obtain ⟨p, hp, hvisits⟩ := of_visit hvisit
  cases hvisits with
  | dropped _ => exact ⟨h, fun a ha => Or.inl ha⟩
  | @due ru q hru hleaves =>
    refine ⟨(h.advance hadvances).concat hru ⟨q, packet?_setPacket_self hp,
      hleaves.becomes.station.trans (hk p hp), hleaves.state, hleaves.round, hleaves.ru⟩ hlast,
      fun a ha => ?_⟩
    exact (List.mem_append.mp ha).imp_right fun ha => by simp [List.mem_singleton.mp ha]
  | late _ => exact ⟨h.advance hadvances, fun a ha => Or.inl ha⟩
  | ahead _ => exact ⟨h, fun a ha => Or.inl ha⟩

theorem visitAll_hands (hids : ids.Pairwise (· < ·))
    (hk : ∀ id ∈ ids, ∀ p, w.traffic.packet? id = some p → p.station = k)
    (h : Hands z r w.traffic w.allocations)
    (hlast : ∀ a ∈ w.allocations, a.station = k → ∀ id ∈ ids, a.packet < id)
    (hvisit : visitAll z r k ids w = .ok () w') :
    Hands z r w'.traffic w'.allocations ∧
      ∀ a ∈ w'.allocations, a ∈ w.allocations ∨ a.station = k := by
  induction ids generalizing w with
  | nil =>
    cases hvisit
    exact ⟨h, fun a ha => Or.inl ha⟩
  | cons id ids ih =>
    obtain ⟨hid, hids⟩ := List.pairwise_cons.mp hids
    rw [visitAll] at hvisit
    split at hvisit
    · cases hvisit
    rename_i w₁ hfirst
    obtain ⟨h₁, hnew⟩ := visit_hands h (hk id List.mem_cons_self)
      (fun a ha hstation => hlast a ha hstation id List.mem_cons_self) hfirst
    obtain ⟨h₂, hall⟩ := ih hids (fun i hi q hq => by
        obtain ⟨p, hp, hbecomes⟩ := (visit_advances hfirst).origin hq
        rw [hbecomes.station]
        exact hk i (List.mem_cons_of_mem id hi) p hp) h₁
      (fun a ha hstation i hi => by
        rcases hnew a ha with ha | ⟨-, hpacket⟩
        · exact hlast a ha hstation i (List.mem_cons_of_mem id hi)
        · rw [hpacket]
          exact hid i hi) hvisit
    exact ⟨h₂, fun a ha => (hall a ha).elim (fun ha => (hnew a ha).imp_right And.left) Or.inr⟩

theorem serveStation_hands (hcustody : InCustody d.traffic t)
    (h : Hands d.book.cell.sizing r d.traffic out.allocations)
    (hk : ∀ a ∈ out.allocations, a.station ≠ k) (hserve : serveStation r k out d = .ok out' d') :
    Hands d.book.cell.sizing r d'.traffic out'.allocations ∧
      ∀ a ∈ out'.allocations, a ∈ out.allocations ∨ a.station = k := by
  obtain ⟨d₁, w, henroll, hvisit, hallocations, -, rfl⟩ := of_serveStation hserve
  have hadmits := enrollAll_admits henroll
  rw [hadmits.touches.waiting, hadmits.book] at hvisit
  obtain ⟨hhands, hnew⟩ := visitAll_hands (hcustody.waiting_increasing k) (fun id hid p hp => by
      obtain ⟨p₀, hp₀, hstation, -⟩ := hcustody.of_waiting hid
      obtain ⟨p', hp', hbecomes⟩ := hadmits.touches.advances.packet id p₀ hp₀
      rw [← Option.some.inj (hp'.symm.trans hp), hbecomes.station, hstation])
    (h.advance hadmits.touches.advances) (fun a ha hstation => absurd hstation (hk a ha)) hvisit
  rw [hallocations]
  exact ⟨hhands.advance (Advances.setQueue _ _ _), hnew⟩

theorem serveAll_hands (hnodup : stations.Nodup) (hcustody : InCustody d.traffic t)
    (h : Hands d.book.cell.sizing r d.traffic out.allocations)
    (hstations : ∀ a ∈ out.allocations, a.station ∉ stations)
    (hserve : serveAll r stations out d = .ok out' d') :
    Hands d.book.cell.sizing r d'.traffic out'.allocations := by
  induction stations generalizing d out with
  | nil =>
    cases hserve
    exact h
  | cons k stations ih =>
    obtain ⟨hk, hnodup⟩ := List.nodup_cons.mp hnodup
    rw [serveAll] at hserve
    split at hserve
    · cases hserve
    rename_i out₁ d₁ hfirst
    obtain ⟨_, _, hserves, -⟩ := serveStation_serves hcustody hfirst
    obtain ⟨h₁, hnew⟩ := serveStation_hands hcustody h
      (fun a ha => List.ne_of_not_mem_cons (hstations a ha)) hfirst
    have hbook := serveStation_book hfirst
    rw [← hbook] at h₁ ⊢
    refine ih hnodup hserves.custody h₁ (fun a ha => ?_) hserve
    rcases hnew a ha with ha | rfl
    · exact List.not_mem_of_not_mem_cons (hstations a ha)
    · exact hk

theorem assign_hands (hcustody : InCustody d.traffic t) (hnodup : d.book.candidates.Nodup)
    (hassign : assign r d = .ok out d') :
    Hands d.book.cell.sizing r d'.traffic out.allocations :=
  serveAll_hands (d := { d with unreported := [] }) hnodup hcustody (.nil _ _ _)
    (fun _ ha => absurd ha List.not_mem_nil) hassign

def Listed (d : DeadlineAware) : Prop := d.book.candidates.Sublist d.book.cell.ids

theorem listed_noteBacklog (d : DeadlineAware) : d.noteBacklog.Listed := List.filter_sublist

theorem consult_listed {reply : Reply} {decision : Decision} (h : consult reply d = .ok decision d')
    (hd : d.Listed) : d'.Listed ∧ d'.book.cell = d.book.cell := by
  induction reply generalizing d with
  | plan p =>
    cases h
    exact ⟨hd, rfl⟩
  | fail cause =>
    cases h
    exact ⟨hd, rfl⟩
  | raise fault => cases h
  | callBack round next ih =>
    rw [consult] at h
    split at h
    · cases h
    rename_i f d₁ hselect
    obtain rfl := of_refused hselect
    exact ih (d := d.noteBacklog) h (listed_noteBacklog d)

theorem planHorizon_listed (h : planHorizon r d = .ok () d') (hd : d.Listed) :
    d'.Listed ∧ d'.book.cell = d.book.cell := by
  obtain ⟨s, d₁, decision, d₂, -, hexpire, hconsult, rfl⟩ := of_planHorizon h
  have hbook := (expireAll_keeps hexpire).book
  obtain ⟨hlisted, hcell⟩ := consult_listed hconsult (by rw [Listed, hbook]; exact hd)
  exact ⟨hlisted, hcell.trans (congrArg Book.cell hbook)⟩

theorem select_listed (h : select r d = .ok f d') :
    d'.Listed ∧ d'.book.cell = d.book.cell := by
  have hd := listed_noteBacklog d
  rcases of_selectWith h with ⟨-, rfl⟩ | ⟨-, rfl | ⟨-, hstart⟩⟩
  · exact ⟨hd, rfl⟩
  · exact ⟨hd, rfl⟩
  · obtain ⟨d₁, hplan, rfl⟩ := of_startHorizon hstart
    obtain ⟨hlisted, hcell⟩ :=
      planHorizon_listed (d := { d.noteBacklog with planning := true }) hplan hd
    exact ⟨hlisted, hcell⟩

theorem decide_hands {σ : Scheduler} {format : TxFormat} (hcustody : InCustody d.traffic t)
    (hids : d.book.cell.ids.Nodup)
    (h : Engine.decide r (.deadlineAware d) = .ok (format, out) σ) :
    ∃ z, Hands z r σ.traffic out.allocations := by
  rcases of_decide h with ⟨-, -, rfl⟩ | ⟨σ₁, hselect, -, hassign⟩
  · exact ⟨d.book.cell.sizing, .nil _ _ _⟩
  · obtain ⟨d₁, hd₁, rfl⟩ := of_lift hselect
    obtain ⟨d₂, hd₂, rfl⟩ := of_lift hassign
    obtain ⟨_, hserves, -⟩ := select_serves hcustody hd₁
    obtain ⟨hlisted, hcell⟩ := select_listed hd₁
    rw [Listed, hcell] at hlisted
    exact ⟨_, assign_hands hserves.custody (hlisted.nodup hids) hd₂⟩

end DeadlineAware

namespace Course

variable {c : Course} {s u : Station} {d : DeadlineAware} {e e' : Engine} {out : RoundAssignment}
  {flag : Bool} {t n id : Nat} {a b r : Int} {p q : Packet} {stage : Stage} {several : Prop}

/-- No plan serves an entry of a station before an earlier one. -/
def Orderly (c : Course) : Prop :=
  ∀ (k : Nat) m, k * c.length < c.rounds → c.decision k = some m →
    Assignment.Ordered (c.scheduleOf k) m

theorem indexOf_strictMono (hc : c.cell.Sound) (hs : s ∈ c.cell.stations) (ha : a % s.period = 0)
    (hb : b % s.period = 0) (hk : c.horizonOf a = c.horizonOf b) (hab : a < b) :
    c.indexOf s a < c.indexOf s b := by
  have hp := (hc.horizon.roster.valid s hs).period
  have hne : c.indexOf s a ≠ c.indexOf s b := fun he =>
    hab.ne (indexOf_inj hc hs hs ha hb hk he).2
  have hmod : a % c.length ≤ b % c.length := by
    have h₁ := Int.ediv_mul_add_emod a c.length
    have h₂ := Int.ediv_mul_add_emod b c.length
    rw [show a / c.length = b / c.length from hk] at h₁
    omega
  have hle := Int.ediv_le_ediv (show 0 < s.period by omega) hmod
  simp only [indexOf] at hne ⊢
  omega

theorem Orderly.round_le (hc : c.cell.Sound) (ho : c.Orderly) (hs : s ∈ c.cell.stations)
    (ha : a % s.period = 0) (hb : b ∈ Traffic.arrivals s c.rounds)
    (hk : c.horizonOf a = c.horizonOf b) (hab : a < b) {x y : Int}
    (hx : c.assigned? s a = some x) (hy : c.assigned? s b = some y) : x ≤ y := by
  obtain ⟨⟨h₀, hlt⟩, hdue⟩ := Traffic.mem_arrivals.mp hb
  obtain ⟨j, hj⟩ : ∃ j : Nat, c.horizonOf b = j :=
    Int.eq_ofNat_of_zero_le (Int.ediv_nonneg h₀ (length_pos hc).le)
  have hbegins : (j : Int) * c.length < c.rounds := by
    have := (horizonOf_bounds hc b).1
    rw [hj] at this
    omega
  obtain ⟨m, hm, hround⟩ := assigned?_eq_some.mp hx
  obtain ⟨m', hm', hround'⟩ := assigned?_eq_some.mp hy
  rw [hk, hm'] at hm
  obtain rfl := Option.some.inj hm
  have hrun : Schedule.runOf c.length c.cell.stations s ∈ (c.scheduleOf (c.horizonOf b)).runs := by
    rw [scheduleOf, Schedule.runs_ofStations hc.horizon.roster]
    exact List.mem_map_of_mem hs
  have hpair : ∀ {i z}, i % s.period = 0 → m'.round? (c.indexOf s i) = some z →
      (c.indexOf s i, z) ∈ m'.pairsOf (Schedule.runOf c.length c.cell.stations s) := by
    intro i z hi hz
    have hlt := indexOf_lt hc hs hi
    have hge : 0 ≤ i % c.length / s.period :=
      Int.ediv_nonneg (Int.emod_nonneg i (length_pos hc).ne')
        (by have := (hc.horizon.roster.valid s hs).period; omega)
    refine Assignment.mem_pairsOf.mpr ⟨Assignment.mem_of_round? hz, ?_, ?_⟩
    · simp only [indexOf, Schedule.runOf]
      omega
    · simp only [indexOf, Schedule.runOf]
      omega
  rw [hj] at hm' hrun
  exact ho j _ hbegins hm' _ hrun _ (hpair ha hround) _ (hpair hdue hround')
    (indexOf_strictMono hc hs ha hdue hk hab)

theorem Orderly.resolution_le (hc : c.cell.Sound) (ho : c.Orderly) (hs : s ∈ c.cell.stations)
    (ha : a ∈ Traffic.arrivals s c.rounds) (hb : b ∈ Traffic.arrivals s c.rounds) (hab : a < b)
    (hsends : c.sends s b r = true) : c.resolution s a ≤ r := by
  obtain ⟨hy, hbr, -⟩ := sends_iff.mp hsends
  obtain ⟨-, hdue⟩ := Traffic.mem_arrivals.mp ha
  obtain ⟨⟨-, hlt⟩, hdue'⟩ := Traffic.mem_arrivals.mp hb
  cases hx : c.assigned? s a with
  | none =>
    rw [resolution_of_unassigned hx]
    omega
  | some x =>
    rw [resolution_of_assigned hx]
    split_ifs with hlate
    · omega
    · rcases (horizonOf_mono hc hab.le).eq_or_lt with hk | hk
      · exact (min_le_left _ _).trans (ho.round_le hc hs hdue hb hk hab hx hy)
      · -- the horizon of the older packet is over before the younger one arrives
        have hbegins := (horizonOf_bounds hc b).1
        have hnext : (c.horizonOf a + 1) * c.length ≤ c.horizonOf b * c.length :=
          Int.mul_le_mul_of_nonneg_right (by omega) (length_pos hc).le
        refine (min_le_right _ _).trans ?_
        rw [expiry, if_pos (by omega)]
        omega

theorem exists_sends (h : (c.packetAt s a stage).state = .transmitted) :
    stage = .done ∧ ∃ r, c.sends s a r = true := by
  have hsettled : (c.settled s a).state ≠ .transmitted := by
    cases hr : c.assigned? s a with
    | none => simp [state_of_unassigned hr]
    | some r => simp [settled_of_assigned hr]
  cases stage with
  | fresh => cases h
  | held => exact absurd h hsettled
  | done =>
    refine ⟨rfl, ?_⟩
    cases hr : c.assigned? s a with
    | none =>
      rw [packetAt, finished_of_unassigned hr] at h
      exact absurd h hsettled
    | some r =>
      cases hs : c.sends s a r with
      | true => exact ⟨r, hs⟩
      | false =>
        rw [packetAt, finished_of_late hr hs] at h
        cases h

theorem Paused.exists_packetAt (hc : c.cell.Sound) (h : Paused c t d)
    (hp : d.traffic.packet? id = some p) : ∃ s ∈ c.cell.stations,
      ∃ a ∈ Traffic.arrivals s c.rounds, ∃ x, p = (c.packetAt s a (c.paused s t a)).noted x := by
  obtain ⟨s, hs, a, ha, hid⟩ := Traffic.exists_emission hc.horizon.roster.nodup h.size
    (Array.mem_toList_iff.mpr (Array.mem_of_getElem? hp))
  obtain ⟨x, hx⟩ := exists_packet (h.reached s hs) ha rfl
  exact ⟨s, hs, a, Traffic.arrivals_mono (min_le_right _ _) ha, x,
    Option.some.inj (hid.symm.trans hx)⟩

theorem packetAt_from (c : Course) (s : Station) (a : Int) (stage : Stage) :
    (c.packetAt s a stage).From s a := by
  cases stage with
  | fresh => exact ⟨rfl, rfl, rfl, rfl⟩
  | held => exact settled_from c s a
  | done => exact finished_from c s a

theorem Paused.older_resolved (hc : c.cell.Sound) (ho : c.Orderly) (h : Paused c t d) {i j : Nat}
    (hp : d.traffic.packet? i = some p) (hq : d.traffic.packet? j = some q)
    (hsame : p.station = q.station) (harrival : p.arrival ≤ q.arrival)
    (hsent : q.state = .transmitted) : p.isResolved = true := by
  obtain ⟨s, hs, a, ha, x, rfl⟩ := h.exists_packetAt hc hp
  obtain ⟨u, hu, b, hb, y, rfl⟩ := h.exists_packetAt hc hq
  have hfrom := packetAt_from c s a (c.paused s t a)
  have hfrom' := packetAt_from c u b (c.paused u t b)
  obtain rfl := hc.horizon.roster.id_inj hs hu
    (hfrom.station.symm.trans (hsame.trans hfrom'.station))
  rw [Packet.noted_arrival, Packet.noted_arrival, hfrom.arrival, hfrom'.arrival] at harrival
  obtain ⟨hstage, r, hsends⟩ := exists_sends hsent
  rcases harrival.eq_or_lt with rfl | hab
  · exact congrArg PacketState.isTerminal hsent
  · have hpast : c.resolution s b < t := by
      unfold paused at hstage
      split_ifs at hstage with hwaits
      omega
    have hle := ho.resolution_le hc hs ha hb hab hsends
    rw [resolution_of_sends hsends] at hpast
    have hdone : c.paused s t a = .done := if_neg (by omega)
    rw [hdone]
    exact (finished_closed c s a).isResolved

theorem step_inTurn (hc : c.cell.Sound) (ho : c.Orderly) (hb : Between c t flag e)
    (hb' : Between c (t + 1) flag e') (htidy : Tidy t e) (hstep : Engine.step t e = .ok out e')
    (hseveral : several) : InTurn several t e out e' := by
  obtain ⟨d, he, hpaused, -, -⟩ := hb
  obtain ⟨d', he', hpaused', -, -⟩ := hb'
  obtain ⟨htidy', houtcome⟩ := step_tidy htidy hstep
  obtain ⟨format, σ, hcompleted⟩ := of_step hstep
  obtain ⟨hcustody, -⟩ := htidy.custody.generate
  have htraffic : e'.traffic = d'.traffic := by rw [Engine.traffic, he']; rfl
  have hdecided := hcompleted.decided
  rw [he] at hdecided
  obtain ⟨z, hhands⟩ := DeadlineAware.decide_hands
    (d := { d with traffic := (e.traffic.generate t).2 }) hcustody
    (by rw [hpaused.ledger.cell]; exact hc.horizon.roster.ids_nodup) hdecided
  refine hcompleted.inTurn htidy houtcome hhands.marks hhands.increasing (Or.inl hseveral)
    hhands.ordered fun a ha i hi hlt => ?_
  -- plans are in order, so the older packet has its outcome by the end of the round
  obtain ⟨q, hq, hstation, hsent, -⟩ := hcompleted.traffic ▸ marks_record (hhands.marks a ha) _
  obtain ⟨p, hp⟩ := exists_packet?_of_lt (hlt.trans (lt_size_of_packet? hq))
  obtain ⟨p₀, hp₀, hsame⟩ := hcompleted.origin htidy hp
  obtain ⟨p₁, hp₁, hstation₁, -⟩ := hcustody.of_waiting hi
  obtain rfl := Option.some.inj (hp₀.symm.trans hp₁)
  have harrival := htidy'.custody.ordered i _ p q hlt.le hp hq
  exact houtcome.mem_of_resolved htidy hi hp (hpaused'.older_resolved hc ho (htraffic ▸ hp)
    (htraffic ▸ hq) (hsame.symm.trans (hstation₁.trans hstation.symm)) harrival hsent)

theorem Orderly.keepsOrder (hc : c.cell.Sound) (hp : c.Answers) (ho : c.Orderly) {channel : Channel}
    (hbooks : Books (c.engine channel) c.rounds 0 (c.engine channel)) (hseveral : several) :
    KeepsOrder several (c.engine channel) c.rounds := by
  refine Engine.keepsOrder hbooks rfl fun t flag e out e' hx => ?_
  have hbetween := between_engine hc channel
  exact step_inTurn hc ho ((loop hc hp).reaches hbetween hx.before)
    ((loop hc hp).reaches hbetween hx.after) (hx.before.books hbooks).tidy hx.step hseveral

end Course

end Downlink
