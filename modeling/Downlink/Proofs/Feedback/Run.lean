import Downlink.Proofs.Engine
import Downlink.Proofs.Feedback.Scheduling

/-!
# Two channels

A run muted is a run whose engine forgets what its channel has said: the reports on the packets and
the deliveries in the rows. Two engines that are alike when they are muted stay so in every part of
a run, although their channels differ and a lossy one takes its draws as it goes.
-/

namespace Downlink

open Scheduler (lift)

theorem Scheduler.lift_eq_lift {σ τ α : Type} {f : σ → τ} {x y : Attempt σ α}
    (h : lift f x = lift f y) :
    (∃ a s s', x = .ok a s ∧ y = .ok a s' ∧ f s = f s') ∨
      ∃ fault s s', x = .error fault s ∧ y = .error fault s' ∧ f s = f s' := by
  cases x with
  | ok a s =>
    cases y with
    | ok b s' =>
      obtain ⟨rfl, hs⟩ := EStateM.Result.ok.inj h
      exact Or.inl ⟨a, s, s', rfl, rfl, hs⟩
    | error => cases h
  | error fault s =>
    cases y with
    | ok => cases h
    | error fault' s' =>
      obtain ⟨rfl, hs⟩ := EStateM.Result.error.inj h
      exact Or.inr ⟨fault, s, s', rfl, rfl, hs⟩

theorem Traffic.muted_muted (tr : Traffic) : tr.muted.muted = tr.muted := by
  rw [muted, muted, Array.map_map]
  rfl

theorem Scheduler.muted_muted (σ : Scheduler) : σ.muted.muted = σ.muted := by
  cases σ with
  | deadlineAware d =>
    exact congrArg (fun tr => deadlineAware { d with traffic := tr }) d.traffic.muted_muted
  | roundRobin d =>
    exact congrArg (fun tr => roundRobin { d with traffic := tr }) d.traffic.muted_muted

def RoundRow.muted (row : RoundRow) : RoundRow := { row with delivered := 0 }

namespace Engine

variable {e e₁ e₂ : Engine} {round : Int}

def muted (e : Engine) : Engine := ⟨e.scheduler.muted, .ideal, e.rows.map RoundRow.muted⟩

theorem traffic_muted (e : Engine) : e.muted.traffic = e.traffic.muted := e.scheduler.traffic_muted

theorem record_muted (tr : Traffic) (reports : List TxReport) :
    (record tr reports).muted = tr.muted := by
  induction reports generalizing tr with
  | nil => rfl
  | cons r reports ih =>
    rw [record]
    cases hp : tr.packet? r.packet with
    | none => exact ih tr
    | some p =>
      dsimp only
      rw [ih, Traffic.setPacket_muted]
      -- muted, the packet with its report is the packet that is there
      have hsame : tr.muted.packet? r.packet = some (p.noted none) := by
        rw [Traffic.packet?_muted, hp]
        rfl
      obtain ⟨hlt, hget⟩ := Array.getElem?_eq_some_iff.mp hsame
      have hset : tr.muted.packets.setIfInBounds r.packet (p.noted none) = tr.muted.packets := by
        rw [Array.setIfInBounds, dif_pos hlt, ← hget, Array.set_getElem_self]
      exact congrArg (fun ps => { tr.muted with packets := ps }) hset

theorem withTraffic_record_muted (σ : Scheduler) (reports : List TxReport) :
    (σ.withTraffic (record σ.traffic reports)).muted = σ.muted := by
  rw [Scheduler.withTraffic_muted, record_muted]
  cases σ <;> rfl

theorem penaltyOf_muted (tr : Traffic) : penaltyOf tr.muted = penaltyOf tr := by
  funext id
  rw [penaltyOf, penaltyOf, Traffic.packet?_muted, Option.map_map]
  rfl

theorem rowOf_muted (round : Int) (format : TxFormat) (arrivals : Nat) (out : RoundAssignment)
    (reports reports' : List TxReport) {σ σ' : Scheduler} (h : σ.muted = σ'.muted) :
    (rowOf round format arrivals out reports σ).muted =
      (rowOf round format arrivals out reports' σ').muted := by
  have hrow : ∀ (reports : List TxReport) (σ : Scheduler),
      (rowOf round format arrivals out reports σ).muted =
        (rowOf round format arrivals out [] σ.muted).muted := by
    intro reports σ
    rw [rowOf, rowOf, σ.traffic_muted, penaltyOf_muted, Scheduler.sizing, Scheduler.sizing,
      σ.book_muted]
    rfl
  rw [hrow reports σ, h, hrow reports' σ']

theorem decide_muted (round : Int) (σ : Scheduler) :
    decide round σ.muted = lift Scheduler.muted (decide round σ) := by
  rw [decide, decide, Scheduler.select_muted]
  cases σ.select round with
  | error fault σ => rfl
  | ok format σ =>
    cases format with
    | noTx =>
      dsimp only [lift]
      rw [show σ.muted.sizing = σ.sizing by rw [Scheduler.sizing, Scheduler.sizing, σ.book_muted]]
    | dlMuTx =>
      dsimp only [lift]
      rw [Scheduler.assign_muted]
      cases σ.assign round <;> rfl

theorem step_muted (round : Int) (e : Engine) :
    lift muted (step round e) = lift muted (step round e.muted) := by
  have hdecide := decide_muted round (e.scheduler.withTraffic (e.traffic.generate round).2)
  rw [Scheduler.withTraffic_muted] at hdecide
  simp only [step, traffic_muted, Traffic.generate_muted]
  rw [show e.muted.scheduler = e.scheduler.muted from rfl, hdecide]
  cases decide round (e.scheduler.withTraffic (e.traffic.generate round).2) with
  | error fault σ =>
    simp only [lift, muted, σ.muted_muted, List.map_map]
    rfl
  | ok x σ =>
    obtain ⟨format, out⟩ := x
    let reports := (e.channel.transmit round out.allocations).1
    let delivered := (Channel.ideal.transmit round out.allocations).1
    have hσ := withTraffic_record_muted σ reports
    have hσ' := (withTraffic_record_muted σ.muted delivered).trans σ.muted_muted
    have hrow := rowOf_muted round format (e.traffic.generate round).1.length out reports delivered
      (hσ.trans hσ'.symm)
    simp only [lift, muted, reports, delivered, hσ, hσ', hrow, List.map_append, List.map_map,
      List.map_singleton]
    rfl

theorem step_alike (round : Int) (h : e₁.muted = e₂.muted) :
    lift muted (step round e₁) = lift muted (step round e₂) := by
  rw [step_muted round e₁, h, ← step_muted round e₂]

theorem traffic_alike (h : e₁.muted = e₂.muted) : e₁.traffic.muted = e₂.traffic.muted := by
  rw [← traffic_muted, h, traffic_muted]

theorem steps_alike (n : Nat) (round : Int) (h : e₁.muted = e₂.muted) :
    lift muted (steps n round e₁) = lift muted (steps n round e₂) := by
  induction n generalizing round e₁ e₂ with
  | zero => exact congrArg (EStateM.Result.ok ()) h
  | succ n ih =>
    rw [steps, steps]
    rcases Scheduler.lift_eq_lift (step_alike round h)
      with ⟨out, e₁', e₂', h₁, h₂, h'⟩ | ⟨fault, e₁', e₂', h₁, h₂, h'⟩
    · rw [h₁, h₂]
      exact ih (round + 1) h'
    · rw [h₁, h₂]
      exact congrArg (EStateM.Result.error fault) h'

theorem drain_alike (n : Nat) (round : Int) (h : e₁.muted = e₂.muted) :
    lift muted (drain n round e₁) = lift muted (drain n round e₂) := by
  induction n generalizing round e₁ e₂ with
  | zero => exact congrArg (EStateM.Result.ok round) h
  | succ n ih =>
    have hbacklog : e₁.traffic.hasBacklog = e₂.traffic.hasBacklog := by
      show e₁.traffic.muted.hasBacklog = e₂.traffic.muted.hasBacklog
      rw [traffic_alike h]
    rw [drain, drain, hbacklog]
    split_ifs
    · rcases Scheduler.lift_eq_lift (step_alike round h)
        with ⟨out, e₁', e₂', h₁, h₂, h'⟩ | ⟨fault, e₁', e₂', h₁, h₂, h'⟩
      · rw [h₁, h₂]
        exact ih (round + 1) h'
      · rw [h₁, h₂]
        exact congrArg (EStateM.Result.error fault) h'
    · exact congrArg (EStateM.Result.ok round) h

theorem quiet_muted (e : Engine) : e.quiet.muted = e.muted.quiet := by
  obtain ⟨σ, channel, rows⟩ := e
  cases σ <;> rfl

theorem drainLimit_muted (e : Engine) : e.muted.drainLimit = e.drainLimit := by
  rw [drainLimit, drainLimit, traffic_muted, show e.muted.scheduler.book = e.scheduler.book from
    e.scheduler.book_muted]
  rfl

theorem discard_muted (round k : Int) (ids : List Nat) (e : Engine) :
    discard round k ids e.muted = lift muted (discard round k ids e) := by
  induction ids generalizing e with
  | nil => rfl
  | cons id ids ih =>
    have hmuted : ∀ tr : Traffic,
        { e.muted with scheduler := e.muted.scheduler.withTraffic tr.muted } =
          muted { e with scheduler := e.scheduler.withTraffic tr } := fun tr =>
      congrArg (fun σ => Engine.mk σ .ideal (e.rows.map RoundRow.muted))
        (e.scheduler.withTraffic_muted tr).symm
    simp only [discard, traffic_muted, Traffic.setQueue_muted, Traffic.drop_muted]
    cases (e.traffic.setQueue k ids).update id fun p => p.drop round .late with
    | error fault => exact congrArg (EStateM.Result.error fault) (hmuted _)
    | ok tr =>
      dsimp only [Except.map]
      rw [hmuted]
      exact ih _

theorem discardAll_muted (round : Int) (stations : List Int) (e : Engine) :
    discardAll round stations e.muted = lift muted (discardAll round stations e) := by
  induction stations generalizing e with
  | nil => rfl
  | cons k stations ih =>
    rw [discardAll, discardAll, traffic_muted, Traffic.waiting_muted, discard_muted]
    cases discard round k (e.traffic.waiting k) e with
    | error fault e => rfl
    | ok _ e => exact ih e

theorem run_alike (rounds : Int) (h : e₁.muted = e₂.muted) :
    lift muted (run rounds e₁) = lift muted (run rounds e₂) := by
  rw [run, run]
  rcases Scheduler.lift_eq_lift (steps_alike rounds.toNat 0 h)
    with ⟨_, e₁', e₂', h₁, h₂, h'⟩ | ⟨fault, e₁', e₂', h₁, h₂, h'⟩
  swap
  · rw [h₁, h₂]
    exact congrArg (EStateM.Result.error fault) h'
  rw [h₁, h₂]
  dsimp only
  -- both drains have the same limit, as it follows from the stations and the horizon
  have hquiet : e₁'.quiet.muted = e₂'.quiet.muted := by rw [quiet_muted, h', quiet_muted]
  rw [← drainLimit_muted e₁'.quiet, hquiet, drainLimit_muted]
  rcases Scheduler.lift_eq_lift (drain_alike e₂'.quiet.drainLimit.toNat rounds hquiet)
    with ⟨last, d₁, d₂, hd₁, hd₂, hd⟩ | ⟨fault, d₁, d₂, hd₁, hd₂, hd⟩
  swap
  · rw [hd₁, hd₂]
    exact congrArg (EStateM.Result.error fault) hd
  rw [hd₁, hd₂]
  dsimp only
  have hstations : d₁.traffic.stationIds = d₂.traffic.stationIds := by
    show d₁.traffic.muted.stationIds = d₂.traffic.muted.stationIds
    rw [traffic_alike hd]
  have hdiscard : lift muted (discardAll last d₁.traffic.stationIds d₁) =
      lift muted (discardAll last d₂.traffic.stationIds d₂) := by
    rw [← discardAll_muted, ← discardAll_muted, hd, hstations]
  rcases Scheduler.lift_eq_lift hdiscard
    with ⟨_, f₁, f₂, hf₁, hf₂, hf⟩ | ⟨fault, f₁, f₂, hf₁, hf₂, hf⟩
  · rw [hf₁, hf₂]
    exact congrArg (EStateM.Result.ok (last - 1)) hf
  · rw [hf₁, hf₂]
    exact congrArg (EStateM.Result.error fault) hf

end Engine

end Downlink
