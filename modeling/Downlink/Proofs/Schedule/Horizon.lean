import Mathlib.Algebra.GCDMonoid.Nat
import Mathlib.Data.Int.GCD
import Downlink.Proofs.Station
import Downlink.Schedule

/-!
# Horizons

The horizon of a roster is the least common multiple of its periods, so every period divides it and
it divides every common multiple. A schedule is generated for exactly the stations that pass the
check, from a start that is not negative, when the horizon stays within the cap.
-/

namespace Downlink

variable {stations : List Station} {ps : List Int} {a b H start cap : Int}

theorem mul_div_gcd (ha : 0 < a) (hb : 0 < b) : a * b / Int.gcd a b = Int.lcm a b := by
  have hg : (0 : Int) < Int.gcd a b := by exact_mod_cast Int.gcd_pos_of_ne_zero_left b ha.ne'
  have hm : (Int.gcd a b : Int) * Int.lcm a b = a * b := by
    have h := congrArg (Nat.cast : Nat → Int) (Int.gcd_mul_lcm a b)
    rwa [Int.natCast_mul, Int.natCast_mul, Int.natAbs_of_nonneg ha.le, Int.natAbs_of_nonneg hb.le]
      at h
  rw [← hm]
  exact Int.mul_ediv_cancel_left _ hg.ne'

theorem foldl_lcm_spec (ha : 0 < a) (hp : ∀ p ∈ ps, 1 ≤ p) :
    let r := ps.foldl (fun a b => a * b / Int.gcd a b) a
    0 < r ∧ a ∣ r ∧ (∀ p ∈ ps, p ∣ r) ∧ ∀ k, a ∣ k → (∀ p ∈ ps, p ∣ k) → r ∣ k := by
  induction ps generalizing a with
  | nil => exact ⟨ha, dvd_rfl, by simp, fun k hk _ => hk⟩
  | cons p ps ih =>
    have hp0 : 0 < p := hp p List.mem_cons_self
    have hl : 0 < (Int.lcm a p : Int) := by exact_mod_cast Int.lcm_pos ha.ne' hp0.ne'
    rw [List.foldl_cons, mul_div_gcd ha hp0]
    obtain ⟨h₁, h₂, h₃, h₄⟩ := ih hl fun q hq => hp q (List.mem_cons_of_mem p hq)
    refine ⟨h₁, (Int.dvd_lcm_left a p).trans h₂, ?_, ?_⟩
    · intro q hq
      rcases List.mem_cons.mp hq with rfl | hq
      · exact (Int.dvd_lcm_right a q).trans h₂
      · exact h₃ q hq
    · intro k hak hk
      exact h₄ k (Int.coe_lcm_dvd hak (hk p List.mem_cons_self))
        fun q hq => hk q (List.mem_cons_of_mem p hq)

theorem lcmOfPeriods_eq_ok_iff : lcmOfPeriods ps = .ok H ↔ ps ≠ [] ∧ (∀ p ∈ ps, 1 ≤ p) ∧
    H = ps.foldl (fun a b => a * b / Int.gcd a b) 1 := by
  unfold lcmOfPeriods
  by_cases hne : ps = []
  · simp [hne]
  · by_cases hp : ∀ p ∈ ps, 1 ≤ p
    · have hany : ps.any (· < 1) = false := by
        rw [List.any_eq_false]
        intro p hp'
        have := hp p hp'
        simp only [decide_eq_true_eq]
        omega
      rw [if_neg (by simp [hne]), hany]
      simp only [Bool.false_eq_true, if_false, Except.ok.injEq]
      exact ⟨fun h => ⟨hne, hp, h.symm⟩, fun h => h.2.2.symm⟩
    · have hany : ps.any (· < 1) = true := by
        push Not at hp
        obtain ⟨p, hp', hlt⟩ := hp
        exact List.any_eq_true.mpr ⟨p, hp', by simpa using hlt⟩
      rw [if_neg (by simp [hne]), hany]
      simp [hp]

theorem lcmOfPeriods_spec (h : lcmOfPeriods ps = .ok H) :
    0 < H ∧ (∀ p ∈ ps, p ∣ H) ∧ ∀ k, (∀ p ∈ ps, p ∣ k) → H ∣ k := by
  obtain ⟨-, hp, rfl⟩ := lcmOfPeriods_eq_ok_iff.mp h
  obtain ⟨h₁, -, h₃, h₄⟩ := foldl_lcm_spec (a := 1) (by decide) hp
  exact ⟨h₁, h₃, fun k hk => h₄ k (one_dvd k) hk⟩

theorem lcmOfPeriods_dvd_iff (h : lcmOfPeriods ps = .ok H) (k : Int) :
    H ∣ k ↔ ∀ p ∈ ps, p ∣ k := by
  obtain ⟨-, hdvd, hleast⟩ := lcmOfPeriods_spec h
  exact ⟨fun hk p hp => (hdvd p hp).trans hk, hleast k⟩

theorem lcmOfPeriods_of_same {qs : List Int} (hpq : ∀ p, p ∈ ps ↔ p ∈ qs)
    (h : lcmOfPeriods ps = .ok H) : lcmOfPeriods qs = .ok H := by
  obtain ⟨hne, hp, -⟩ := lcmOfPeriods_eq_ok_iff.mp h
  have hqs : lcmOfPeriods qs = .ok (qs.foldl (fun a b => a * b / Int.gcd a b) 1) := by
    refine lcmOfPeriods_eq_ok_iff.mpr ⟨fun hq => hne ?_, fun q hq => hp q ((hpq q).mpr hq), rfl⟩
    exact List.eq_nil_iff_forall_not_mem.mpr fun p hp => by simp [hpq, hq] at hp
  rw [hqs]
  congr 1
  refine Int.dvd_antisymm (lcmOfPeriods_spec hqs).1.le (lcmOfPeriods_spec h).1.le ?_ ?_
  · rw [lcmOfPeriods_dvd_iff hqs]
    exact fun q hq => (lcmOfPeriods_spec h).2.1 q ((hpq q).mpr hq)
  · rw [lcmOfPeriods_dvd_iff h]
    exact fun p hp => (lcmOfPeriods_spec hqs).2.1 p ((hpq p).mp hp)

theorem lcmOfPeriods_perm {qs : List Int} (hpq : ps.Perm qs) (h : lcmOfPeriods ps = .ok H) :
    lcmOfPeriods qs = .ok H :=
  lcmOfPeriods_of_same (fun _ => hpq.mem_iff) h

structure Horizon (stations : List Station) (H : Int) : Prop where
  roster : Station.Roster stations
  pos : 0 < H
  dvd : ∀ s ∈ stations, s.period ∣ H

theorem horizonLength_eq_ok_iff :
    horizonLength stations cap = .ok H ↔ lcmOfPeriods (stations.map Station.period) = .ok H ∧
      H ≤ cap := by
  unfold horizonLength
  dsimp only
  cases hl : lcmOfPeriods (stations.map Station.period) with
  | error e => simp
  | ok rounds =>
    dsimp only
    split_ifs with hc
    · simp only [Except.ok.injEq, false_iff, not_and]
      rintro rfl
      omega
    · simp only [Except.ok.injEq, iff_self_and]
      rintro rfl
      omega

theorem Station.Roster.horizon (hr : Station.Roster stations)
    (h : horizonLength stations cap = .ok H) : Horizon stations H := by
  obtain ⟨hpos, hdvd, -⟩ := lcmOfPeriods_spec (horizonLength_eq_ok_iff.mp h).1
  exact ⟨hr, hpos, fun s hs => hdvd _ (List.mem_map_of_mem hs)⟩

namespace Schedule

theorem generate_ok (hne : stations ≠ []) (hv : ∀ s ∈ stations, s.Valid)
    (hd : (stations.map Station.id).Nodup) (hs : 0 ≤ start)
    (hl : lcmOfPeriods (stations.map Station.period) = .ok H) (hc : H ≤ cap) :
    generate stations start cap = .ok (ofStations (Station.inOrder stations) start H) ∧
      Horizon (Station.inOrder stations) H := by
  have hr := Station.roster_inOrder hne hv hd
  have hl' := lcmOfPeriods_perm ((Station.inOrder_perm stations).symm.map Station.period) hl
  have hh := horizonLength_eq_ok_iff.mpr ⟨hl', hc⟩
  refine ⟨?_, hr.horizon hh⟩
  simp only [generate, hr.checkAll, if_neg (not_lt.mpr hs), hh]

theorem generate_eq_ok {s : Schedule} (h : generate stations start cap = .ok s) :
    0 ≤ start ∧ ∃ H, horizonLength (Station.inOrder stations) cap = .ok H ∧
      Horizon (Station.inOrder stations) H ∧
      s = ofStations (Station.inOrder stations) start H := by
  unfold generate at h
  dsimp only at h
  split at h
  · cases h
  · rename_i hc
    split_ifs at h with hs
    split at h
    · cases h
    · rename_i H hH
      cases h
      obtain ⟨hne, hv, hd⟩ := Station.checkAll_eq_ok_iff.mp hc
      have hr : Station.Roster (Station.inOrder stations) := by
        refine Station.roster_inOrder (fun he => hne ?_)
          (fun s hs => hv s (Station.mem_inOrder.mpr hs))
          (((Station.inOrder_perm stations).map Station.id).nodup_iff.mp hd)
        rw [he]
        exact List.perm_nil.mp (Station.inOrder_perm [])
      exact ⟨not_lt.mp hs, H, hH, hr.horizon hH, rfl⟩

end Schedule

end Downlink
