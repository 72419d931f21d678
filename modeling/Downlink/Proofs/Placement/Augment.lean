import Downlink.Proofs.Placement.Admissible

/-!
# The augmenting search

A successful search serves one more job and keeps the placement admissible. A failed one returns the
rounds it has seen: they are full, and the jobs in them have no round outside. The fuel never ends a
search, since every move of a chain takes a placed job away.
-/

namespace Downlink.Placement

variable {window : Nat → List Int} {capacity fuel : Nat} {m m' : Placement} {j k : Nat} {r : Int}
variable {seen seen' : List Int}

section FirstSuccess

variable {α σ β : Type} {attempt : α → σ → Except σ β} {as : List α} {s t : σ} {b : β}

theorem firstSuccess_eq_ok {P : σ → Prop} (hs : P s)
    (step : ∀ a ∈ as, ∀ s t, P s → attempt a s = .error t → P t)
    (h : firstSuccess attempt as s = .ok b) : ∃ a ∈ as, ∃ t, P t ∧ attempt a t = .ok b := by
  induction as generalizing s with
  | nil => cases h
  | cons a as ih =>
    rw [firstSuccess] at h
    split at h
    · rename_i b' hb
      cases h
      exact ⟨a, List.mem_cons_self, s, hs, hb⟩
    · rename_i t ht
      obtain ⟨a', ha', u, hu, hb⟩ :=
        ih (step a List.mem_cons_self s t hs ht) (fun a ha => step a (List.mem_cons_of_mem _ ha)) h
      exact ⟨a', List.mem_cons_of_mem _ ha', u, hu, hb⟩

theorem firstSuccess_eq_error {R : σ → σ → Prop} (refl : ∀ s, R s s)
    (trans : ∀ s t u, R s t → R t u → R s u) {D : α → σ → Prop}
    (mono : ∀ a s t, R s t → D a s → D a t)
    (step : ∀ a ∈ as, ∀ t u, R s t → attempt a t = .error u → R t u ∧ D a u)
    (h : firstSuccess attempt as s = .error t) : R s t ∧ ∀ a ∈ as, D a t := by
  induction as generalizing s with
  | nil =>
    cases h
    exact ⟨refl _, by simp⟩
  | cons a as ih =>
    rw [firstSuccess] at h
    split at h
    · cases h
    · rename_i u hu
      obtain ⟨hR, hD⟩ := step a List.mem_cons_self s u (refl s) hu
      obtain ⟨hR', hD'⟩ := ih
        (fun a ha v w hv => step a (List.mem_cons_of_mem _ ha) v w (trans s u v hR hv)) h
      refine ⟨trans s u t hR hR', ?_⟩
      intro a' ha'
      rcases List.mem_cons.mp ha' with rfl | ha'
      · exact mono _ u t hR' hD
      · exact hD' a' ha'

end FirstSuccess

def displace (window : Nat → List Int) (capacity fuel : Nat) (m : Placement) (j : Nat) (r : Int)
    (k : Nat) (seen : List Int) : Except (List Int) Placement :=
  match augment window capacity fuel (m.remove k) k seen with
  | .ok m => .ok (m.place j r)
  | .error seen => .error seen

def enter (window : Nat → List Int) (capacity fuel : Nat) (m : Placement) (j : Nat) (r : Int)
    (seen : List Int) : Except (List Int) Placement :=
  if r ∈ seen then .error seen
  else if m.load r < capacity then .ok (m.place j r)
  else firstSuccess (displace window capacity fuel m j r) (m.jobsIn r) (r :: seen)

theorem augment_succ : augment window capacity (fuel + 1) m j seen =
    firstSuccess (enter window capacity fuel m j) (window j) seen := rfl

theorem displace_eq_error (h : displace window capacity fuel m j r k seen = .error seen') :
    augment window capacity fuel (m.remove k) k seen = .error seen' := by
  unfold displace at h
  split at h
  · cases h
  · rename_i hs
    cases h
    exact hs

theorem displace_eq_ok (h : displace window capacity fuel m j r k seen = .ok m') :
    ∃ m₁, augment window capacity fuel (m.remove k) k seen = .ok m₁ ∧ m' = m₁.place j r := by
  unfold displace at h
  split at h
  · rename_i m₁ hm₁
    cases h
    exact ⟨m₁, hm₁, rfl⟩
  · cases h

theorem enter_eq_error (h : enter window capacity fuel m j r seen = .error seen') :
    (r ∈ seen ∧ seen' = seen) ∨ (r ∉ seen ∧ capacity ≤ m.load r ∧
      firstSuccess (displace window capacity fuel m j r) (m.jobsIn r) (r :: seen) =
        .error seen') := by
  unfold enter at h
  split_ifs at h with hr hl
  · cases h
    exact Or.inl ⟨hr, rfl⟩
  · exact Or.inr ⟨hr, Nat.le_of_not_lt hl, h⟩

theorem enter_eq_ok (h : enter window capacity fuel m j r seen = .ok m') :
    r ∉ seen ∧ ((m.load r < capacity ∧ m' = m.place j r) ∨
      firstSuccess (displace window capacity fuel m j r) (m.jobsIn r) (r :: seen) = .ok m') := by
  unfold enter at h
  split_ifs at h with hr hl
  · cases h
    exact ⟨hr, Or.inl ⟨hl, rfl⟩⟩
  · exact ⟨hr, Or.inr h⟩

theorem subset_of_augment_error
    (h : augment window capacity fuel m j seen = .error seen') : seen ⊆ seen' := by
  induction fuel generalizing m j seen seen' with
  | zero =>
    cases h
    exact List.Subset.refl _
  | succ fuel ih =>
    rw [augment_succ] at h
    refine (firstSuccess_eq_error (R := fun s t : List Int => s ⊆ t) List.Subset.refl
      (fun _ _ _ => List.Subset.trans) (D := fun _ _ => True) (fun _ _ _ _ _ => trivial) ?_ h).1
    intro r _ s t _ hs
    refine ⟨?_, trivial⟩
    rcases enter_eq_error hs with ⟨-, rfl⟩ | ⟨-, -, hd⟩
    · exact List.Subset.refl _
    · refine List.Subset.trans (List.subset_cons_self r s) (firstSuccess_eq_error
        (R := fun s t : List Int => s ⊆ t) List.Subset.refl (fun _ _ _ => List.Subset.trans)
        (D := fun _ _ => True) (fun _ _ _ _ _ => trivial) ?_ hd).1
      intro k _ u v _ hk
      exact ⟨ih (displace_eq_error hk), trivial⟩

theorem subset_of_displace_error (h : displace window capacity fuel m j r k seen = .error seen') :
    seen ⊆ seen' :=
  subset_of_augment_error (displace_eq_error h)

theorem subset_of_enter_error (h : enter window capacity fuel m j r seen = .error seen') :
    seen ⊆ seen' := by
  rcases enter_eq_error h with ⟨-, rfl⟩ | ⟨-, -, hd⟩
  · exact List.Subset.refl _
  · refine List.Subset.trans (List.subset_cons_self r seen) (firstSuccess_eq_error
      (R := fun s t : List Int => s ⊆ t) List.Subset.refl (fun _ _ _ => List.Subset.trans)
      (D := fun _ _ => True) (fun _ _ _ _ _ => trivial) ?_ hd).1
    intro k _ u v _ hk
    exact ⟨subset_of_displace_error hk, trivial⟩

structure Extended (window : Nat → List Int) (capacity : Nat) (m : Placement) (j : Nat)
    (seen : List Int) (m' : Placement) : Prop where
  admissible : Admissible window capacity m'
  served : m'.served.Perm (j :: m.served)
  load_le : ∀ r ∈ seen, m'.load r ≤ m.load r

theorem Extended.of_place (hm : Admissible window capacity m) (hj : j ∉ m.served)
    (hr : r ∈ window j) (hl : m.load r < capacity) (hs : r ∉ seen) :
    Extended window capacity m j seen (m.place j r) := by
  refine ⟨hm.place hj hr hl, List.Perm.refl _, ?_⟩
  intro q hq
  have hne : r ≠ q := ne_of_mem_of_not_mem hq hs |>.symm
  rw [load_place, if_neg hne]
  omega

theorem Extended.of_displace {m₁ : Placement} (hm : Admissible window capacity m)
    (hj : j ∉ m.served) (hr : r ∈ window j) (hs : r ∉ seen) (hk : (k, r) ∈ m)
    (hsub : r :: seen ⊆ seen') (h : Extended window capacity (m.remove k) k seen' m₁) :
    Extended window capacity m j seen (m₁.place j r) := by
  have hserved : m₁.served.Perm m.served :=
    h.served.trans (served_perm_remove hm.distinct hk).symm
  -- the round that `k` has left has a free place again
  have hfree : m₁.load r < capacity := by
    have h₁ := h.load_le r (hsub List.mem_cons_self)
    have h₂ := load_remove_self hm.distinct hk
    have h₃ := hm.load_le r
    omega
  have hnot : j ∉ m₁.served := fun hc => hj (hserved.mem_iff.mp hc)
  refine ⟨h.admissible.place hnot hr hfree, hserved.cons j, ?_⟩
  intro q hq
  have hne : r ≠ q := ne_of_mem_of_not_mem hq hs |>.symm
  have h₁ := h.load_le q (hsub (List.mem_cons_of_mem r hq))
  have h₂ := load_remove_le m k q
  rw [load_place, if_neg hne]
  omega

theorem Extended.mono (hsub : seen ⊆ seen') (h : Extended window capacity m j seen' m') :
    Extended window capacity m j seen m' :=
  ⟨h.admissible, h.served, fun r hr => h.load_le r (hsub hr)⟩

theorem augment_extended (hm : Admissible window capacity m) (hj : j ∉ m.served)
    (h : augment window capacity fuel m j seen = .ok m') :
    Extended window capacity m j seen m' := by
  induction fuel generalizing m j seen m' with
  | zero => cases h
  | succ fuel ih =>
    rw [augment_succ] at h
    obtain ⟨r, hr, s, hs, he⟩ := firstSuccess_eq_ok (P := fun s => seen ⊆ s)
      (List.Subset.refl seen) (fun r _ s t hs ht => List.Subset.trans hs (subset_of_enter_error ht))
        h
    obtain ⟨hrs, ⟨hl, rfl⟩ | hd⟩ := enter_eq_ok he
    · exact (Extended.of_place hm hj hr hl hrs).mono hs
    · obtain ⟨k, hk, t, ht, hkt⟩ := firstSuccess_eq_ok (P := fun t => r :: s ⊆ t)
        (List.Subset.refl _) (fun k _ t u ht hu => List.Subset.trans ht
          (subset_of_displace_error hu)) hd
      obtain ⟨m₁, hm₁, rfl⟩ := displace_eq_ok hkt
      have ha := hm.sublist (remove_sublist m k)
      have hx := ih ha (not_mem_served_remove m k) hm₁
      exact (Extended.of_displace hm hj hr hrs (mem_jobsIn.mp hk) ht hx).mono hs

structure Saturated (window : Nat → List Int) (capacity : Nat) (m : Placement)
    (seen seen' : List Int) : Prop where
  subset : seen ⊆ seen'
  full : ∀ r ∈ seen', r ∉ seen → capacity ≤ m.load r
  closed : ∀ r ∈ seen', r ∉ seen → ∀ k ∈ m.jobsIn r, window k ⊆ seen'

theorem Saturated.refl (seen : List Int) : Saturated window capacity m seen seen :=
  ⟨List.Subset.refl _, fun _ h hn => absurd h hn, fun _ h hn => absurd h hn⟩

theorem Saturated.trans {seen'' : List Int} (h₁ : Saturated window capacity m seen seen')
    (h₂ : Saturated window capacity m seen' seen'') :
    Saturated window capacity m seen seen'' where
  subset := List.Subset.trans h₁.subset h₂.subset
  full := fun r hr hn => by
    by_cases h : r ∈ seen'
    · exact h₁.full r h hn
    · exact h₂.full r hr h
  closed := fun r hr hn k hk => by
    by_cases h : r ∈ seen'
    · exact List.Subset.trans (h₁.closed r h hn k hk) h₂.subset
    · exact h₂.closed r hr h k hk

theorem Saturated.of_remove (hd : m.served.Nodup) (hk : (k, r) ∈ m) (hr : r ∈ seen)
    (h : Saturated window capacity (m.remove k) seen seen') :
    Saturated window capacity m seen seen' where
  subset := h.subset
  full := fun q hq hn => by
    rw [← load_remove_of_ne hd hk (ne_of_mem_of_not_mem hr hn).symm]
    exact h.full q hq hn
  closed := fun q hq hn i hi => by
    have hne := (ne_of_mem_of_not_mem hr hn).symm
    exact h.closed q hq hn i ((mem_jobsIn_remove_of_ne hd hk hne).mpr hi)

theorem Saturated.of_round (hl : capacity ≤ m.load r)
    (h : Saturated window capacity m (r :: seen) seen')
    (hc : ∀ k ∈ m.jobsIn r, window k ⊆ seen') : Saturated window capacity m seen seen' where
  subset := List.Subset.trans (List.subset_cons_self r seen) h.subset
  full := fun q hq hn => by
    by_cases hqr : q = r
    · exact hqr ▸ hl
    · exact h.full q hq (by simp [hqr, hn])
  closed := fun q hq hn k hk => by
    by_cases hqr : q = r
    · exact hc k (hqr ▸ hk)
    · exact h.closed q hq (by simp [hqr, hn]) k hk

theorem augment_saturated (hm : m.served.Nodup) (hf : m.length < fuel)
    (h : augment window capacity fuel m j seen = .error seen') :
    Saturated window capacity m seen seen' ∧ window j ⊆ seen' := by
  induction fuel generalizing m j seen seen' with
  | zero => omega
  | succ fuel ih =>
    rw [augment_succ] at h
    refine firstSuccess_eq_error (R := Saturated window capacity m) Saturated.refl
      (fun _ _ _ => Saturated.trans) (D := fun r s => r ∈ s) (fun r s t hst hr => hst.subset hr)
      ?_ h
    intro r _ s t _ hs
    rcases enter_eq_error hs with ⟨hr, rfl⟩ | ⟨-, hl, hd⟩
    · exact ⟨Saturated.refl _, hr⟩
    · have step : ∀ k ∈ m.jobsIn r, ∀ u v, Saturated window capacity m (r :: s) u →
          displace window capacity fuel m j r k u = .error v →
          Saturated window capacity m u v ∧ window k ⊆ v := by
        intro k hk u v hu hkv
        have hmem := mem_jobsIn.mp hk
        have hlen := length_remove_lt hmem
        obtain ⟨hv, hw⟩ := ih (hm.sublist ((remove_sublist m k).map Prod.fst)) (by omega)
          (displace_eq_error hkv)
        exact ⟨hv.of_remove hm hmem (hu.subset List.mem_cons_self), hw⟩
      obtain ⟨hsat, hcl⟩ := firstSuccess_eq_error Saturated.refl (fun _ _ _ => Saturated.trans)
        (D := fun k s => window k ⊆ s) (fun k s t hst hk => List.Subset.trans hk hst.subset) step hd
      exact ⟨Saturated.of_round hl hsat hcl, hsat.subset List.mem_cons_self⟩

end Downlink.Placement
