import Downlink.Proofs.Packet
import Downlink.Proofs.Traffic.Queues

/-!
# Slots

A slot is a resource unit of a round. What has been sent lies in the past, and no two packets share
a slot; this survives everything that sends nothing, and a transmission on a unit that is still
free.
-/

namespace Downlink.Traffic

variable {tr tr' tr'' : Traffic} {t r : Int} {taken : List Ru} {u : Ru} {id : Nat} {q : Packet}

/-- The slots in use before the end of round `t`, of which only the `taken` units have been used in
round `t` itself. -/
structure Slots (tr : Traffic) (t : Int) (taken : List Ru) : Prop where
  past : ∀ id p r, tr.packet? id = some p → p.txRound = some r →
    r < t ∨ r = t ∧ ∃ u ∈ taken, p.ru = some u
  separate : ∀ i j p q r, tr.packet? i = some p → tr.packet? j = some q → p.txRound = some r →
    q.txRound = some r → p.ru = q.ru → i = j

def Still (tr tr' : Traffic) : Prop :=
  ∀ id q r, tr'.packet? id = some q → q.txRound = some r →
    ∃ p, tr.packet? id = some p ∧ p.txRound = some r ∧ p.ru = q.ru

theorem Still.refl (tr : Traffic) : Still tr tr := fun _ q _ hq hr => ⟨q, hq, hr, rfl⟩

theorem Still.trans (h₁ : Still tr tr') (h₂ : Still tr' tr'') : Still tr tr'' := by
  intro id q r hq hr
  obtain ⟨p', hp', hr', hu'⟩ := h₂ id q r hq hr
  obtain ⟨p, hp, hr, hu⟩ := h₁ id p' r hp' hr'
  exact ⟨p, hp, hr, hu.trans hu'⟩

theorem Still.setQueue (tr : Traffic) (k : Int) (ids : List Nat) : Still tr (tr.setQueue k ids) :=
  fun _ q _ hq hr => ⟨q, hq, hr, rfl⟩

theorem packet?_setPacket_cases {i : Nat} {p : Packet}
    (h : (tr.setPacket id q).packet? i = some p) : i = id ∧ p = q ∨ tr.packet? i = some p := by
  by_cases hi : i = id
  · subst hi
    obtain ⟨hlt, -⟩ := Array.getElem?_eq_some_iff.mp h
    rw [packet?, setPacket, Array.getElem?_setIfInBounds_self_of_lt (by simpa using hlt),
      Option.some.injEq] at h
    exact Or.inl ⟨rfl, h.symm⟩
  · exact Or.inr (by rwa [packet?_setPacket_of_ne hi] at h)

theorem Still.setPacket (hq : q.txRound = none) (tr : Traffic) (id : Nat) :
    Still tr (tr.setPacket id q) := by
  intro i p r hp hr
  rcases packet?_setPacket_cases hp with ⟨-, rfl⟩ | hp
  · rw [hq] at hr
    cases hr
  · exact ⟨p, hp, hr, rfl⟩

theorem Still.emitFrom (tr : Traffic) (s : Station) (round : Int) :
    Still tr (tr.emitFrom s round) := by
  intro id q r hq hr
  rw [packet?_emitFrom] at hq
  split_ifs at hq
  · cases hq
    cases hr
  · exact ⟨q, hq, hr, rfl⟩

theorem Still.emitAll (tr : Traffic) (round : Int) (due : List Station) :
    Still tr (tr.emitAll round due) := by
  induction due generalizing tr with
  | nil => exact Still.refl tr
  | cons s rest ih => exact (Still.emitFrom tr s round).trans (ih _)

theorem Still.generate (tr : Traffic) (round : Int) : Still tr (tr.generate round).2 :=
  Still.emitAll tr round _

theorem Slots.still (h : tr.Slots t taken) (hs : Still tr tr') : tr'.Slots t taken where
  past id p r hp hr := by
    obtain ⟨p', hp', hr', hu⟩ := hs id p r hp hr
    rw [← hu]
    exact h.past id p' r hp' hr'
  separate i j p q r hp hq hpr hqr hu := by
    obtain ⟨p', hp', hpr', hpu⟩ := hs i p r hp hpr
    obtain ⟨q', hq', hqr', hqu⟩ := hs j q r hq hqr
    exact h.separate i j p' q' r hp' hq' hpr' hqr' (hpu.trans (hu.trans hqu.symm))

theorem Slots.next (h : tr.Slots t taken) : tr.Slots (t + 1) [] where
  past id p r hp hr := by
    rcases h.past id p r hp hr with hlt | ⟨he, -⟩
    · exact Or.inl (by omega)
    · exact Or.inl (by omega)
  separate := h.separate

theorem Slots.send (h : tr.Slots t taken) (hu : u ∉ taken) (hr : q.txRound = some t)
    (hru : q.ru = some u) (id : Nat) : (tr.setPacket id q).Slots t (u :: taken) := by
  have hfree : ∀ i p, tr.packet? i = some p → p.txRound = some t → p.ru ≠ some u := by
    intro i p hp hpr hpu
    obtain hlt | ⟨-, v, hv, hpv⟩ := h.past i p t hp hpr
    · exact lt_irrefl t hlt
    · exact hu (Option.some.inj (hpu.symm.trans hpv) ▸ hv)
  constructor
  · intro i p r hp hpr
    rcases packet?_setPacket_cases hp with ⟨-, rfl⟩ | hold
    · exact Or.inr ⟨Option.some.inj (hpr.symm.trans hr), u, List.mem_cons_self, hru⟩
    · exact (h.past i p r hold hpr).imp_right fun ⟨he, v, hv, hpv⟩ =>
        ⟨he, v, List.mem_cons_of_mem u hv, hpv⟩
  · intro i j p p' r hp hp' hpr hpr' hpu
    rcases packet?_setPacket_cases hp with ⟨hi, rfl⟩ | hold
    · rcases packet?_setPacket_cases hp' with ⟨hj, -⟩ | hold'
      · exact hi.trans hj.symm
      · rw [hr, Option.some.injEq] at hpr
        exact absurd (hpu.symm.trans hru) (hfree j p' hold' (hpr ▸ hpr'))
    · rcases packet?_setPacket_cases hp' with ⟨-, rfl⟩ | hold'
      · rw [hr, Option.some.injEq] at hpr'
        exact absurd (hpu.trans hru) (hfree i p hold (hpr' ▸ hpr))
      · exact h.separate i j p p' r hold hold' hpr hpr' hpu

theorem slots_fresh (stations : List Station) (t : Int) : (fresh stations).Slots t [] where
  past id p r hp _ := by
    simp [fresh, packet?] at hp
  separate i j p q r hp _ _ _ _ := by
    simp [fresh, packet?] at hp

end Downlink.Traffic
