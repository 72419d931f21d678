import Downlink.Engine
import Downlink.Proofs.Traffic.Slots

/-!
# The round loop

What holds between rounds, with traffic and without, holds when the drain is over, if every round
keeps it; a round that fails ends the run with its fault.
-/

namespace Downlink.Engine

variable {e e' : Engine} {n t k : Nat} {limit : Int} {flag : Bool}
  {inv : Nat → Bool → Engine → Prop} {fails : Fault → Prop} {ended : Engine → Prop}

theorem record_noted (tr : Traffic) (reports : List TxReport) :
    (record tr reports).stations = tr.stations ∧ (record tr reports).generating = tr.generating ∧
      (record tr reports).packets.size = tr.packets.size ∧
      (∀ k, (record tr reports).waiting k = tr.waiting k) ∧
      ∀ id p, tr.packet? id = some p → ∃ x, (record tr reports).packet? id = some (p.noted x) := by
  induction reports generalizing tr with
  | nil => exact ⟨rfl, rfl, rfl, fun _ => rfl, fun id p hp => ⟨p.txStatus, hp⟩⟩
  | cons r reports ih =>
    rw [record]
    cases hr : tr.packet? r.packet with
    | none => exact ih tr
    | some q =>
      dsimp only
      obtain ⟨h₁, h₂, h₃, h₄, h₅⟩ :=
        ih (tr.setPacket r.packet { q with txStatus := some r.status })
      refine ⟨h₁, h₂, h₃.trans (Traffic.size_setPacket _ _ _), h₄, fun id p hp => ?_⟩
      by_cases hid : id = r.packet
      · subst hid
        obtain rfl : q = p := Option.some.inj (hr.symm.trans hp)
        obtain ⟨x, hx⟩ := h₅ _ _ (Traffic.packet?_setPacket_self hr)
        exact ⟨x, hx⟩
      · exact h₅ id p ((Traffic.packet?_setPacket_of_ne hid).trans hp)

theorem record_still (tr : Traffic) (reports : List TxReport) :
    Traffic.Still tr (record tr reports) := by
  obtain ⟨-, -, hsize, -, hpacket⟩ := record_noted tr reports
  intro id q r hq hr
  have hlt := (Array.getElem?_eq_some_iff.mp hq).1
  have hp : tr.packet? id = some tr.packets[id] := Array.getElem?_eq_getElem (hsize ▸ hlt)
  obtain ⟨x, hx⟩ := hpacket id _ hp
  obtain rfl := Option.some.inj (hx.symm.trans hq)
  exact ⟨_, hp, hr, rfl⟩

theorem withTraffic_withTraffic (σ : Scheduler) (tr tr' : Traffic) :
    (σ.withTraffic tr).withTraffic tr' = σ.withTraffic tr' := by
  cases σ <;> rfl

theorem traffic_withTraffic (σ : Scheduler) (tr : Traffic) : (σ.withTraffic tr).traffic = tr := by
  cases σ <;> rfl

theorem withTraffic_traffic (σ : Scheduler) : σ.withTraffic σ.traffic = σ := by
  cases σ <;> rfl

variable {stations before rest : List Station} {s : Station} {L : List Int} {r : Int}

def Lost (r : Int) (P : Int → Packet → Prop) (live : Int → Bool) (a : Int) (p : Packet) : Prop :=
  if live a then ∃ q, P a q ∧ p = q.lost r .late else P a p

theorem discard_lost {P : Int → Packet → Prop} {live : Int → Bool}
    (hr : Station.Roster stations) (hs : s ∈ stations)
    (hL : (Traffic.arrivals s n).filter live = L)
    (hopen : ∀ a ∈ Traffic.arrivals s n, live a = true →
      ∀ p, P a p → p.state = .pending ∨ p.state = .scheduled)
    (hst : e.traffic.stations = stations) (h : e.traffic.Holds stations n s P live) :
    ∃ e' tr, discard r s.id (L.map (Traffic.idOf stations s)) e = .ok () e' ∧
      e'.scheduler = e.scheduler.withTraffic tr ∧ Traffic.Apart stations n s e.traffic tr ∧
      tr.Holds stations n s (Lost r P live) fun _ => false := by
  induction L generalizing e P live with
  | nil =>
    have hdead : ∀ a ∈ Traffic.arrivals s n, live a = false := fun a ha =>
      Bool.eq_false_iff.mpr (List.filter_eq_nil_iff.mp hL a ha)
    refine ⟨e, e.traffic, rfl, (withTraffic_traffic e.scheduler).symm,
      Traffic.Apart.refl _ _ _ _, h.imp (fun a ha p hp => ?_) hdead⟩
    simpa [Lost, hdead a ha] using hp
  | cons a L ih =>
    obtain ⟨ha, hlive⟩ := List.mem_filter.mp (hL ▸ List.mem_cons_self (a := a) (l := L))
    obtain ⟨haL, -⟩ := List.nodup_cons.mp (hL ▸ (Traffic.arrivals_nodup s n).filter live)
    have hL' : ((Traffic.arrivals s n).filter fun b => live b && b ≠ a) = L := by
      simp only [Bool.and_comm (live _)]
      rw [← List.filter_filter, hL, List.filter_cons_of_neg (by simp), List.filter_eq_self]
      exact fun b hb => decide_eq_true (ne_of_mem_of_not_mem hb haL)
    obtain ⟨p, hp, hshape⟩ := h.packet a ha
    let tr := e.traffic.setQueue s.id (L.map (Traffic.idOf stations s))
    let tr' := tr.setPacket (Traffic.idOf stations s a) (p.lost r .late)
    have hupdate : (tr.update (Traffic.idOf stations s a) fun p => p.drop r .late) = .ok tr' :=
      Traffic.update_ok hp (Packet.drop_ok (hopen a ha hlive p hshape))
    have hapart : Traffic.Apart stations n s e.traffic tr' :=
      (Traffic.Apart.setQueue hr hs n _ _).trans (Traffic.Apart.setPacket hs ha _ _)
    have htraffic : ({ e with scheduler := e.scheduler.withTraffic tr' } : Engine).traffic = tr' :=
      traffic_withTraffic _ _
    have hholds : tr'.Holds stations n s
        (fun b q => if b = a then ∃ q', P a q' ∧ q = q'.lost r .late else P b q)
        fun b => live b && b ≠ a := by
      apply (h.setQueue (hst ▸ hs) (by rw [hL'])).setPacket hs ha
      · simpa using ⟨p, hshape, rfl⟩
      · intro b _ hba q hq
        simpa [hba] using hq
    obtain ⟨e₂, tr₂, hdiscard, hscheduler, hapart₂, hholds₂⟩ := ih
      (e := { e with scheduler := e.scheduler.withTraffic tr' })
      (P := fun b q => if b = a then ∃ q', P a q' ∧ q = q'.lost r .late else P b q) hL'
      (fun b hb hlive q hq => by
        simp only [Bool.and_eq_true, decide_eq_true_eq] at hlive
        rw [if_neg hlive.2] at hq
        exact hopen b hb hlive.1 q hq)
      (by rw [htraffic]; exact hapart.served.trans hst) (by rwa [htraffic])
    rw [htraffic] at hapart₂
    refine ⟨e₂, tr₂, ?_, ?_, hapart.trans hapart₂, hholds₂.imp (fun b _ q hq => ?_) fun _ _ => rfl⟩
    · rw [List.map_cons, discard, hupdate]
      exact hdiscard
    · rw [hscheduler, withTraffic_withTraffic]
    · by_cases hba : b = a
      · subst hba
        simpa [Lost, hlive] using hq
      · simpa [Lost, hba] using hq

theorem discardAll_lost {P : Station → Int → Packet → Prop} {live : Station → Int → Bool}
    (hr : Station.Roster stations) (hsplit : stations = before ++ rest)
    (hst : e.traffic.stations = stations)
    (hopen : ∀ s ∈ rest, ∀ a ∈ Traffic.arrivals s n, live s a = true →
      ∀ p, P s a p → p.state = .pending ∨ p.state = .scheduled)
    (hbefore : ∀ s ∈ before,
      e.traffic.Holds stations n s (Lost r (P s) (live s)) fun _ => false)
    (hrest : ∀ s ∈ rest, e.traffic.Holds stations n s (P s) (live s)) :
    ∃ e' tr, discardAll r (rest.map Station.id) e = .ok () e' ∧
      e'.scheduler = e.scheduler.withTraffic tr ∧
      tr.packets.size = e.traffic.packets.size ∧
      ∀ s ∈ stations, tr.Holds stations n s (Lost r (P s) (live s)) fun _ => false := by
  induction rest generalizing before e with
  | nil =>
    rw [List.append_nil] at hsplit
    exact ⟨e, e.traffic, rfl, (withTraffic_traffic e.scheduler).symm, rfl, hsplit ▸ hbefore⟩
  | cons s rest ih =>
    obtain ⟨hs, hpast, hfuture, hsplit'⟩ := hr.turn hsplit
    have hholds := hrest s List.mem_cons_self
    obtain ⟨e₁, tr, hdiscard, hscheduler, hapart, hdone⟩ :=
      discard_lost (r := r) hr hs rfl (hopen s List.mem_cons_self) hst hholds
    have htraffic : e₁.traffic = tr := by
      rw [Engine.traffic, hscheduler, traffic_withTraffic]
    obtain ⟨e₂, tr₂, hall, hscheduler₂, hsize, hholds₂⟩ := ih hsplit'
      (by rw [htraffic]; exact hapart.served.trans hst)
      (fun u hu => hopen u (List.mem_cons_of_mem s hu))
      (by
        intro u hu
        rw [htraffic]
        rcases List.mem_append.mp hu with hu | hu
        · exact (hbefore u hu).apart hapart (hpast u hu).1 (hpast u hu).2
        · exact List.mem_singleton.mp hu ▸ hdone)
      (fun u hu => by
        rw [htraffic]
        exact (hrest u (List.mem_cons_of_mem s hu)).apart hapart (hfuture u hu).1 (hfuture u hu).2)
    refine ⟨e₂, tr₂, ?_, ?_, ?_, hholds₂⟩
    · rw [List.map_cons, discardAll, hholds.queue, hdiscard]
      exact hall
    · rw [hscheduler₂, hscheduler, withTraffic_withTraffic]
    · rw [hsize, htraffic, hapart.size]

def Phase (n t : Nat) (flag : Bool) : Prop := t < n ∧ flag = true ∨ n ≤ t ∧ flag = false

/-- `inv` holds between the rounds of a run of `n` rounds, `ended` when the queues are empty after
the drain or have been emptied; only faults in `fails` occur. -/
structure Loop (n : Nat) (limit : Int) (inv : Nat → Bool → Engine → Prop) (fails : Fault → Prop)
    (ended : Engine → Prop) : Prop where
  step : ∀ (t : Nat) flag e, (t : Int) < n + limit → Phase n t flag → inv t flag e →
    (∃ out e', Engine.step t e = .ok out e' ∧ inv (t + 1) flag e') ∨
      ∃ f e', fails f ∧ Engine.step t e = .error f e'
  positive : 0 < limit
  drainLimit : ∀ e, inv n true e → e.quiet.drainLimit = limit
  quiet : ∀ e, inv n true e → inv n false e.quiet
  idle : ∀ t e, n ≤ t → inv t false e → e.traffic.hasBacklog = false → ended e
  late : ∀ (t : Nat) e, (t : Int) = n + limit → inv t false e →
    ∃ e', discardAll t e.traffic.stationIds e = .ok () e' ∧ ended e'

theorem Loop.steps (h : Loop n limit inv fails ended) (hn : t + k ≤ n) (he : inv t true e) :
    (∃ e', Engine.steps k t e = .ok () e' ∧ inv (t + k) true e') ∨
      ∃ f e', fails f ∧ Engine.steps k t e = .error f e' := by
  induction k generalizing t e with
  | zero => exact Or.inl ⟨e, rfl, he⟩
  | succ k ih =>
    have hlimit := h.positive
    rw [Engine.steps]
    rcases h.step t true e (by omega) (Or.inl ⟨by omega, rfl⟩) he
      with ⟨out, e₁, hstep, h₁⟩ | ⟨f, e₁, hf, hstep⟩
    · rw [hstep]
      rcases ih (by omega) h₁ with ⟨e₂, hsteps, h₂⟩ | ⟨f, e₂, hf, hsteps⟩
      · exact Or.inl ⟨e₂, hsteps, by rwa [show t + (k + 1) = t + 1 + k by omega]⟩
      · exact Or.inr ⟨f, e₂, hf, hsteps⟩
    · rw [hstep]
      exact Or.inr ⟨f, e₁, hf, rfl⟩

theorem drain_of_idle (h : e.traffic.hasBacklog = false) (k : Nat) (round : Int) :
    drain k round e = .ok round e := by
  cases k with
  | zero => rfl
  | succ k => simp [drain, h]

theorem Loop.drain (h : Loop n limit inv fails ended) (ht : n ≤ t) (hk : (t : Int) + k ≤ n + limit)
    (he : inv t false e) :
    (∃ (u : Nat) (e' : Engine), Engine.drain k t e = .ok u e' ∧ inv u false e' ∧ n ≤ u ∧
      (e'.traffic.hasBacklog = false ∨ u = t + k)) ∨
      ∃ f e', fails f ∧ Engine.drain k t e = .error f e' := by
  induction k generalizing t e with
  | zero => exact Or.inl ⟨t, e, rfl, he, ht, Or.inr rfl⟩
  | succ k ih =>
    cases hb : e.traffic.hasBacklog with
    | false => exact Or.inl ⟨t, e, drain_of_idle hb _ _, he, ht, Or.inl hb⟩
    | true =>
      push_cast at hk
      rw [Engine.drain, hb, if_pos rfl]
      rcases h.step t false e (by omega) (Or.inr ⟨ht, rfl⟩) he
        with ⟨out, e₁, hstep, h₁⟩ | ⟨f, e₁, hf, hstep⟩
      · rw [hstep]
        rcases ih (by omega) (by omega) h₁
          with ⟨u, e₂, hdrain, h₂, hu, hend⟩ | ⟨f, e₂, hf, hdrain⟩
        · exact Or.inl ⟨u, e₂, hdrain, h₂, hu, hend.imp_right fun he => by omega⟩
        · exact Or.inr ⟨f, e₂, hf, hdrain⟩
      · rw [hstep]
        exact Or.inr ⟨f, e₁, hf, rfl⟩

theorem discardAll_of_idle (h : e.traffic.hasBacklog = false) (round : Int) (ids : List Int) :
    discardAll round ids e = .ok () e := by
  induction ids with
  | nil => rfl
  | cons k ids ih =>
    rw [discardAll, Traffic.waiting_of_not_hasBacklog h]
    exact ih

theorem Loop.run (h : Loop n limit inv fails ended) {rounds : Int} (hn : rounds.toNat = n)
    (he : inv 0 true e) (hidle : e.quiet.traffic.hasBacklog = false) :
    (∃ last e', e.run rounds = .ok last e' ∧ ended e') ∨
      ∃ f e', fails f ∧ e.run rounds = .error f e' := by
  have hlimit := h.positive
  rw [Engine.run, hn]
  rcases h.steps (Nat.zero_add n).le he with ⟨e₁, hsteps, h₁⟩ | ⟨f, e₁, hf, hsteps⟩
  · rw [Int.natCast_zero] at hsteps
    rw [Nat.zero_add] at h₁
    have hquiet := h.quiet e₁ h₁
    rw [hsteps]
    dsimp only
    rw [h.drainLimit e₁ h₁]
    -- the queues are empty, or the drain has gone on for as long as it may
    have hend : (∃ round e₂, Engine.drain limit.toNat rounds e₁.quiet = .ok round e₂ ∧
        ∃ e', discardAll round e₂.traffic.stationIds e₂ = .ok () e' ∧ ended e') ∨
        ∃ f e₂, fails f ∧ Engine.drain limit.toNat rounds e₁.quiet = .error f e₂ := by
      rcases Int.lt_or_le rounds 0 with hneg | hnonneg
      · obtain rfl : n = 0 := by omega
        cases hsteps
        exact Or.inl ⟨rounds, _, drain_of_idle hidle _ _, _, discardAll_of_idle hidle _ _,
          h.idle 0 _ le_rfl hquiet hidle⟩
      · rw [show rounds = n by omega]
        rcases h.drain (k := limit.toNat) le_rfl (by omega) hquiet
          with ⟨u, e₂, hdrain, h₂, hu, hempty | hlast⟩ | ⟨f, e₂, hf, hdrain⟩
        · exact Or.inl ⟨u, e₂, hdrain, e₂, discardAll_of_idle hempty _ _, h.idle u e₂ hu h₂ hempty⟩
        · exact Or.inl ⟨u, e₂, hdrain, h.late u e₂ (by omega) h₂⟩
        · exact Or.inr ⟨f, e₂, hf, hdrain⟩
    rcases hend with ⟨round, e₂, hdrain, e₃, hdiscard, hover⟩ | ⟨f, e₂, hf, hdrain⟩
    · rw [hdrain]
      dsimp only
      rw [hdiscard]
      exact Or.inl ⟨_, e₃, rfl, hover⟩
    · rw [hdrain]
      exact Or.inr ⟨f, e₂, hf, rfl⟩
  · rw [Int.natCast_zero] at hsteps
    rw [hsteps]
    exact Or.inr ⟨f, e₁, hf, rfl⟩

end Downlink.Engine
