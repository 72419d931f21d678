import Downlink.Proofs.Engine

/-!
# The history of a run

The states that a run passes through between its rounds, first with traffic and then in the drain,
and the rounds that lead from one to the next. What the first state satisfies and every round keeps
holds in all of them.
-/

namespace Downlink.Engine

variable {start e e' e₁ e₁' e₂ e₂' : Engine} {out out₁ out₂ : RoundAssignment} {n t u k : Nat}
  {round last : Int} {flag flag₁ flag₂ : Bool}

theorem of_lift {σ τ α : Type} {f : σ → τ} {x : Attempt σ α} {a : α} {s : τ}
    (h : Scheduler.lift f x = .ok a s) : ∃ s₀, x = .ok a s₀ ∧ s = f s₀ := by
  cases x with
  | ok b s₀ =>
    cases h
    exact ⟨s₀, rfl, rfl⟩
  | error fault s₀ => cases h

theorem of_decide {σ σ' : Scheduler} {format : TxFormat}
    (h : decide round σ = .ok (format, out) σ') :
    σ.select round = .ok .noTx σ' ∧ format = .noTx ∧
        out = RoundAssignment.empty round σ'.sizing.ruType ∨
      ∃ σ₁, σ.select round = .ok .dlMuTx σ₁ ∧ format = .dlMuTx ∧ σ₁.assign round = .ok out σ' := by
  unfold decide at h
  split at h
  · cases h
  · rename_i σ₁ hselect
    cases h
    exact Or.inl ⟨hselect, rfl, rfl⟩
  · rename_i σ₁ hselect
    split at h
    · cases h
    · rename_i a σ₂ hassign
      cases h
      exact Or.inr ⟨σ₁, hselect, rfl, hassign⟩

structure Completed (round : Int) (e : Engine) (out : RoundAssignment) (e' : Engine)
    (format : TxFormat) (σ : Scheduler) : Prop where
  decided : decide round (e.scheduler.withTraffic (e.traffic.generate round).2) =
    .ok (format, out) σ
  traffic : e'.traffic = record σ.traffic (e.channel.transmit round out.allocations).1
  scheduler : e'.scheduler = σ.withTraffic e'.traffic
  channel : e'.channel = (e.channel.transmit round out.allocations).2
  rows : e'.rows = e.rows ++ [rowOf round format (e.traffic.generate round).1.length out
    (e.channel.transmit round out.allocations).1 e'.scheduler]

theorem of_step (h : step round e = .ok out e') :
    ∃ format σ, Completed round e out e' format σ := by
  unfold step at h
  dsimp only at h
  split at h
  · cases h
  rename_i format a σ hdecide
  cases h
  have htraffic := traffic_withTraffic σ
    (record σ.traffic (e.channel.transmit round out.allocations).1)
  exact ⟨format, σ, hdecide, htraffic, congrArg σ.withTraffic htraffic.symm, rfl, rfl⟩

theorem steps_last (h : steps (k + 1) round e = .ok () e') :
    ∃ e₁ out, steps k round e = .ok () e₁ ∧ step (round + k) e₁ = .ok out e' := by
  induction k generalizing round e with
  | zero =>
    rw [steps] at h
    split at h
    · cases h
    · rename_i out e₁ hstep
      cases h
      exact ⟨e, out, rfl, by simpa using hstep⟩
  | succ k ih =>
    rw [steps] at h
    split at h
    · cases h
    · rename_i out e₁ hstep
      obtain ⟨e₂, out₂, hsteps, hlast⟩ := ih h
      refine ⟨e₂, out₂, ?_, ?_⟩
      · rw [steps, hstep]
        exact hsteps
      · push_cast
        rwa [show round + (k + 1 : Int) = round + 1 + k by omega]

theorem steps_next (h : steps k round e = .ok () e₁) (hstep : step (round + k) e₁ = .ok out e') :
    steps (k + 1) round e = .ok () e' := by
  induction k generalizing round e with
  | zero =>
    cases h
    rw [Int.natCast_zero, Int.add_zero] at hstep
    rw [steps, hstep]
    rfl
  | succ k ih =>
    rw [steps] at h
    split at h
    · cases h
    · rename_i out₁ e₂ hfirst
      rw [steps, hfirst]
      refine ih h ?_
      push_cast at hstep
      rwa [show round + 1 + (k : Int) = round + (k + 1) by omega]

theorem drain_last (h : drain (k + 1) round e = .ok last e') :
    ∃ r e₁, drain k round e = .ok r e₁ ∧
      (e₁.traffic.hasBacklog = false ∧ last = r ∧ e' = e₁ ∨
        e₁.traffic.hasBacklog = true ∧ last = r + 1 ∧ ∃ out, step r e₁ = .ok out e') := by
  induction k generalizing round e with
  | zero =>
    rw [drain] at h
    split_ifs at h with hb
    · split at h
      · cases h
      · rename_i out e₁ hstep
        cases h
        exact ⟨round, e, rfl, Or.inr ⟨hb, rfl, out, hstep⟩⟩
    · obtain ⟨rfl, rfl⟩ := EStateM.Result.ok.inj h
      exact ⟨_, _, rfl, Or.inl ⟨Bool.eq_false_iff.mpr hb, rfl, rfl⟩⟩
  | succ k ih =>
    rw [drain] at h
    split_ifs at h with hb
    · split at h
      · cases h
      · rename_i out e₁ hstep
        obtain ⟨r, e₂, hdrain, hlast⟩ := ih h
        refine ⟨r, e₂, ?_, hlast⟩
        rw [drain, if_pos hb, hstep]
        exact hdrain
    · obtain ⟨rfl, rfl⟩ := EStateM.Result.ok.inj h
      have hidle := Bool.eq_false_iff.mpr hb
      exact ⟨_, _, drain_of_idle hidle _ _, Or.inl ⟨hidle, rfl, rfl⟩⟩

theorem drain_next (h : drain k round e = .ok last e₁) (hb : e₁.traffic.hasBacklog = true)
    (hstep : step last e₁ = .ok out e') : drain (k + 1) round e = .ok (last + 1) e' := by
  induction k generalizing round e with
  | zero =>
    cases h
    rw [drain, if_pos hb, hstep]
    rfl
  | succ k ih =>
    rw [drain] at h
    split_ifs at h with hfirst
    · split at h
      · cases h
      · rename_i out₁ e₂ hstep₁
        rw [drain, if_pos hfirst, hstep₁]
        exact ih h
    · cases h
      exact absurd hb hfirst

theorem drain_round (h : drain k round e = .ok last e') :
    round ≤ last ∧ last ≤ round + k ∧ (e'.traffic.hasBacklog = true → last = round + k) := by
  induction k generalizing last e' with
  | zero =>
    cases h
    simp
  | succ k ih =>
    obtain ⟨r, e₁, hdrain, ⟨hidle, rfl, rfl⟩ | ⟨hb, rfl, -⟩⟩ := drain_last h
    · obtain ⟨hle, hub, -⟩ := ih hdrain
      push_cast
      exact ⟨hle, by omega, fun hb => by rw [hidle] at hb; cases hb⟩
    · obtain ⟨-, -, heq⟩ := ih hdrain
      have := heq hb
      push_cast
      omega

/-- A run of `n` rounds is in state `e` before its round `t`, with traffic or in the drain. -/
inductive Reaches (start : Engine) (n : Nat) : Nat → Bool → Engine → Prop
  | traffic {t : Nat} {e : Engine} (ht : t ≤ n) (h : steps t 0 start = .ok () e) :
    Reaches start n t true e
  | drain {t : Nat} {e : Engine} {e₀ : Engine} {k : Nat} (h₀ : steps n 0 start = .ok () e₀)
    (hk : k ≤ e₀.quiet.drainLimit.toNat) (h : drain k n e₀.quiet = .ok (t : Int) e) :
    Reaches start n t false e

/-- A run of `n` rounds completes its round `t`: it decides `out` and goes from `e` to `e'`. -/
inductive Executes (start : Engine) (n : Nat) :
    Nat → Bool → Engine → RoundAssignment → Engine → Prop
  | traffic {t : Nat} {e e' : Engine} {out : RoundAssignment} (ht : t < n)
    (h : steps t 0 start = .ok () e) (hstep : step t e = .ok out e') :
    Executes start n t true e out e'
  | drain {t : Nat} {e e' : Engine} {out : RoundAssignment} {e₀ : Engine} {k : Nat}
    (h₀ : steps n 0 start = .ok () e₀) (hk : k < e₀.quiet.drainLimit.toNat)
    (h : drain k n e₀.quiet = .ok (t : Int) e) (hb : e.traffic.hasBacklog = true)
    (hstep : step t e = .ok out e') : Executes start n t false e out e'

theorem Executes.step (h : Executes start n t flag e out e') : Engine.step t e = .ok out e' := by
  cases h with
  | traffic _ _ hstep => exact hstep
  | drain _ _ _ _ hstep => exact hstep

theorem Executes.before (h : Executes start n t flag e out e') : Reaches start n t flag e := by
  cases h with
  | traffic ht h _ => exact .traffic ht.le h
  | drain h₀ hk h _ _ => exact .drain h₀ hk.le h

theorem Executes.after (h : Executes start n t flag e out e') :
    Reaches start n (t + 1) flag e' := by
  cases h with
  | traffic ht h hstep => exact .traffic ht (steps_next h (by simpa using hstep))
  | drain h₀ hk h hb hstep => exact .drain h₀ hk (by push_cast; exact drain_next h hb hstep)

theorem Executes.phase (h : Executes start n t flag e out e') : Phase n t flag := by
  cases h with
  | traffic ht _ _ => exact Or.inl ⟨ht, rfl⟩
  | drain _ _ h _ _ =>
    have := (drain_round h).1
    exact Or.inr ⟨by omega, rfl⟩

theorem Executes.hasBacklog (h : Executes start n t false e out e') :
    e.traffic.hasBacklog = true := by
  cases h with
  | drain _ _ _ hb _ => exact hb

theorem Reaches.preserved {P : Nat → Bool → Engine → Prop} (hstart : P 0 true start)
    (hround : ∀ {t flag e out e'}, Executes start n t flag e out e' → P t flag e →
      P (t + 1) flag e')
    (hquiet : ∀ {e}, P n true e → P n false e.quiet) (h : Reaches start n t flag e) :
    P t flag e := by
  have htraffic : ∀ t ≤ n, ∀ e, steps t 0 start = .ok () e → P t true e := by
    intro t
    induction t with
    | zero =>
      intro _ e h
      cases h
      exact hstart
    | succ t ih =>
      intro ht e h
      obtain ⟨e₁, out, hsteps, hstep⟩ := steps_last h
      rw [Int.zero_add] at hstep
      exact hround (.traffic ht hsteps hstep) (ih (by omega) e₁ hsteps)
  cases h with
  | traffic ht h => exact htraffic t ht e h
  | @drain _ e₀ k h₀ hk h =>
    induction k generalizing t e with
    | zero =>
      rw [Engine.drain] at h
      injection h with ht he
      obtain rfl : n = t := by omega
      exact he ▸ hquiet (htraffic n le_rfl e₀ h₀)
    | succ k ih =>
      obtain ⟨r, e₁, hdrain, hlast⟩ := drain_last h
      have hge := (drain_round hdrain).1
      obtain ⟨u, rfl⟩ : ∃ u : Nat, r = u := ⟨r.toNat, by omega⟩
      have h₁ := ih (by omega) hdrain
      rcases hlast with ⟨-, ht, rfl⟩ | ⟨hb, ht, out, hstep⟩
      · obtain rfl : t = u := by omega
        exact h₁
      · obtain rfl : t = u + 1 := by omega
        exact hround (.drain h₀ hk hdrain hb hstep) h₁

theorem Executes.unique (h₁ : Executes start n t flag₁ e₁ out₁ e₁')
    (h₂ : Executes start n t flag₂ e₂ out₂ e₂') : e₁ = e₂ ∧ out₁ = out₂ ∧ e₁' = e₂' := by
  have hsame : e₁ = e₂ := by
    cases h₁ with
    | traffic ht h =>
      cases h₂ with
      | traffic _ h' => exact (EStateM.Result.ok.inj (h.symm.trans h')).2
      | drain _ _ h' =>
        have := (drain_round h').1
        omega
    | @drain _ _ _ e₀ k h₀ _ h hb =>
      cases h₂ with
      | traffic ht' =>
        have := (drain_round h).1
        omega
      | @drain _ _ _ e₀' k' h₀' _ h' hb' =>
        obtain rfl := (EStateM.Result.ok.inj (h₀.symm.trans h₀')).2
        -- while something is queued the round tells how long the drain has gone on
        have hk := (drain_round h).2.2 hb
        have hk' := (drain_round h').2.2 hb'
        obtain rfl : k = k' := by omega
        exact (EStateM.Result.ok.inj (h.symm.trans h')).2
  subst hsame
  exact ⟨rfl, EStateM.Result.ok.inj (h₁.step.symm.trans h₂.step)⟩

def Earlier (start : Engine) (n t : Nat) (P : Nat → Engine → RoundAssignment → Prop) : Prop :=
  ∃ u < t, ∃ flag e out e', Executes start n u flag e out e' ∧ P u e out

theorem earlier_succ {P : Nat → Engine → RoundAssignment → Prop}
    (h : Executes start n t flag e out e') :
    Earlier start n (t + 1) P ↔ Earlier start n t P ∨ P t e out := by
  constructor
  · rintro ⟨u, hu, flag', e₁, out₁, e₁', h₁, hP⟩
    rcases Nat.lt_succ_iff_lt_or_eq.mp hu with hu | rfl
    · exact Or.inl ⟨u, hu, flag', e₁, out₁, e₁', h₁, hP⟩
    · obtain ⟨rfl, rfl, -⟩ := h.unique h₁
      exact Or.inr hP
  · rintro (⟨u, hu, hbefore⟩ | hP)
    · exact ⟨u, by omega, hbefore⟩
    · exact ⟨t, Nat.lt_succ_self t, flag, e, out, e', h, hP⟩

theorem not_earlier_zero {P : Nat → Engine → RoundAssignment → Prop} : ¬ Earlier start n 0 P := by
  rintro ⟨u, hu, -⟩
  exact Nat.not_lt_zero u hu

theorem Reaches.le_of_backlog {bound : Int} (hbound : 0 ≤ bound)
    (hb : ∀ {t e}, Reaches start n t false e → e.traffic.hasBacklog = true → (t : Int) < n + bound)
    (h : Reaches start n t false e) : (t : Int) ≤ n + bound := by
  refine h.preserved (P := fun t flag _ => flag = false → (t : Int) ≤ n + bound)
    (fun he => by cases he) (fun hx _ hflag => ?_) (fun _ _ => by omega) rfl
  subst hflag
  have := hb hx.before hx.hasBacklog
  push_cast
  omega

theorem run_reaches (h : start.run n = .ok last e') : ∃ u e, Reaches start n u false e ∧
    n ≤ u ∧ last = u - 1 ∧ discardAll u e.traffic.stationIds e = .ok () e' ∧
      (e.traffic.hasBacklog = true → ∃ e₀, Reaches start n n true e₀ ∧
        u = n + e₀.quiet.drainLimit.toNat) := by
  rw [run, Int.toNat_natCast] at h
  split at h
  · cases h
  rename_i e₀ hsteps
  dsimp only at h
  split at h
  · cases h
  rename_i r e hdrain
  split at h
  · cases h
  rename_i e₂ hdiscard
  cases h
  obtain ⟨hge, -, hlast⟩ := drain_round hdrain
  obtain ⟨u, rfl⟩ : ∃ u : Nat, r = u := ⟨r.toNat, by omega⟩
  refine ⟨u, e, .drain hsteps le_rfl hdrain, by omega, rfl, hdiscard, fun hb => ?_⟩
  have := hlast hb
  exact ⟨e₀, .traffic le_rfl hsteps, by omega⟩

section Loop

variable {limit : Int} {inv : Nat → Bool → Engine → Prop} {fails : Fault → Prop}
  {ended : Engine → Prop}

theorem Loop.reaches (h : Loop n limit inv fails ended) (hstart : inv 0 true start)
    (hr : Reaches start n t flag e) : inv t flag e := by
  have htraffic : ∀ t ≤ n, ∀ e, Engine.steps t 0 start = .ok () e → inv t true e := by
    intro t ht e hsteps
    rcases h.steps (t := 0) (k := t) (by omega) hstart with ⟨e', hok, hinv⟩ | ⟨f, e', -, herror⟩
    · rw [Nat.zero_add] at hinv
      obtain rfl := (EStateM.Result.ok.inj (hsteps.symm.trans hok)).2
      exact hinv
    · cases hsteps.symm.trans herror
  cases hr with
  | traffic ht hsteps => exact htraffic t ht e hsteps
  | @drain _ e₀ k h₀ hk hdrain =>
    have h₁ := htraffic n le_rfl e₀ h₀
    have hlimit := h.positive
    rw [h.drainLimit e₀ h₁] at hk
    rcases h.drain (k := k) le_rfl (by omega) (h.quiet e₀ h₁)
      with ⟨u, e', hok, hinv, -⟩ | ⟨f, e', -, herror⟩
    · obtain ⟨ht, rfl⟩ := EStateM.Result.ok.inj (hdrain.symm.trans hok)
      obtain rfl : t = u := by omega
      exact hinv
    · cases hdrain.symm.trans herror

end Loop

end Downlink.Engine
