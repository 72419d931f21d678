import Mathlib.Data.List.Forall2
import Mathlib.Data.List.Perm.Basic
import Downlink.Proofs.Assignment.Check
import Downlink.Proofs.Schedule.Layout
import Downlink.Proofs.Total

/-!
# Dealing rounds again

Dealing a station's rounds out in increasing order keeps the served indices and the loads of all
rounds. It keeps every feasible assignment feasible as well: both ends of the windows move forward
along a run, so two rounds that are out of order may change places.
-/

namespace Downlink

theorem forall₂_insertionSort {W : Int → Int → Prop} {is rs : List Int}
    (hswap : ∀ i ∈ is, ∀ k ∈ is, i < k → ∀ q r, W i r → W k q → q < r → W i q ∧ W k r)
    (hs : is.Pairwise (· < ·)) (h : List.Forall₂ W is rs) :
    List.Forall₂ W is (rs.insertionSort (· ≤ ·)) := by
  have hinsert : ∀ {is : List Int} {i r : Int} {rs : List Int},
      (∀ i' ∈ i :: is, ∀ k ∈ i :: is, i' < k → ∀ q r, W i' r → W k q → q < r → W i' q ∧ W k r) →
      (i :: is).Pairwise (· < ·) → W i r → List.Forall₂ W is rs →
      List.Forall₂ W (i :: is) (rs.orderedInsert (· ≤ ·) r) := by
    intro is
    induction is with
    | nil =>
      intro i r rs _ _ hir h
      cases h
      exact .cons hir .nil
    | cons k is ih =>
      intro i r rs hsw hs hir h
      cases h with
      | @cons _ q _ rs hkq h =>
        rw [List.orderedInsert_cons]
        split_ifs with hrq
        · exact .cons hir (.cons hkq h)
        · have hik : i < k := List.rel_of_pairwise_cons hs List.mem_cons_self
          obtain ⟨hiq, hkr⟩ := hsw i List.mem_cons_self k
            (List.mem_cons_of_mem i List.mem_cons_self)
            hik q r hir hkq (by omega)
          refine .cons hiq (ih (fun i' hi' k' hk' => ?_) hs.of_cons hkr h)
          exact hsw i' (List.mem_cons_of_mem i hi') k' (List.mem_cons_of_mem i hk')
  induction h with
  | nil => exact .nil
  | @cons i r is rs hir h ih =>
    rw [List.insertionSort_cons]
    refine hinsert hswap hs hir (ih (fun i' hi' k hk => ?_) hs.of_cons)
    exact hswap i' (List.mem_cons_of_mem i hi') k (List.mem_cons_of_mem i hk)

namespace Assignment

variable {m : Assignment} {stations : List Station} {H start : Int} {s : Station} {i r : Int}

def inRun (m : Assignment) (run : Run) : Assignment :=
  (m.servedIn run).filterMap fun i => (m.round? i).map fun r => (i, r)

theorem mem_servedIn {run : Run} : i ∈ m.servedIn run ↔
    (∃ k : Nat, run.start ≤ k ∧ k < run.start + (run.stop - run.start) ∧ i = k) ∧
      ∃ r, (i, r) ∈ m := by
  simp only [servedIn, List.mem_filter, List.mem_map, List.mem_range'_1, serves_iff]
  constructor
  · rintro ⟨⟨k, ⟨h₁, h₂⟩, rfl⟩, h⟩
    exact ⟨⟨k, h₁, h₂, rfl⟩, h⟩
  · rintro ⟨⟨k, h₁, h₂, rfl⟩, h⟩
    exact ⟨⟨k, ⟨h₁, h₂⟩, rfl⟩, h⟩

theorem servedIn_sorted (m : Assignment) (run : Run) : (m.servedIn run).Pairwise (· < ·) := by
  refine List.Pairwise.filter _ (List.pairwise_map.mpr ?_)
  exact (List.pairwise_lt_range' (s := run.start) (n := run.stop - run.start)).imp
    fun h => by simpa using h

theorem inRun_map_fst (m : Assignment) (run : Run) :
    (m.inRun run).map Prod.fst = m.servedIn run := by
  have hall : ∀ i ∈ m.servedIn run, ∃ r, m.round? i = some r := by
    intro i hi
    obtain ⟨-, r, hr⟩ := mem_servedIn.mp hi
    exact exists_round?_of_mem hr
  unfold inRun
  generalize m.servedIn run = is at hall
  induction is with
  | nil => rfl
  | cons i is ih =>
    obtain ⟨r, hr⟩ := hall i List.mem_cons_self
    rw [List.filterMap_cons, hr]
    simp only [Option.map_some, List.map_cons]
    rw [ih fun i hi => hall i (List.mem_cons_of_mem _ hi)]

theorem inRun_map_snd (m : Assignment) (run : Run) :
    (m.inRun run).map Prod.snd = (m.servedIn run).filterMap m.round? := by
  simp only [inRun, List.map_filterMap]
  apply List.filterMap_congr
  intro i _
  cases m.round? i <;> rfl

theorem redealRun_eq (m : Assignment) (run : Run) : m.redealRun run =
    ((m.inRun run).map Prod.fst).zip (((m.inRun run).map Prod.snd).mergeSort (· ≤ ·)) := by
  rw [inRun_map_fst, inRun_map_snd]
  rfl

theorem redealRun_map_fst (m : Assignment) (run : Run) :
    (m.redealRun run).map Prod.fst = (m.inRun run).map Prod.fst := by
  rw [redealRun_eq, List.map_fst_zip]
  simp

theorem redealRun_map_snd (m : Assignment) (run : Run) :
    ((m.redealRun run).map Prod.snd).Perm ((m.inRun run).map Prod.snd) := by
  rw [redealRun_eq, List.map_snd_zip (by simp)]
  exact List.mergeSort_perm _ _

theorem mem_inRun (hd : m.Distinct) {run : Run} {p : Int × Int} : p ∈ m.inRun run ↔
    p ∈ m ∧ ∃ k : Nat, run.start ≤ k ∧ k < run.start + (run.stop - run.start) ∧ p.1 = k := by
  obtain ⟨i, r⟩ := p
  simp only [inRun, List.mem_filterMap, Option.map_eq_some_iff, Prod.mk.injEq]
  constructor
  · rintro ⟨i', hi', r', hr', rfl, rfl⟩
    exact ⟨mem_of_round? hr', (mem_servedIn.mp hi').1⟩
  · rintro ⟨hm, hk⟩
    exact ⟨i, mem_servedIn.mpr ⟨hk, r, hm⟩, r, hd.round?_eq_some_iff.mpr hm, rfl, rfl⟩

theorem inRun_nodup (m : Assignment) (run : Run) : (m.inRun run).Nodup := by
  refine List.Nodup.of_map Prod.fst ?_
  rw [inRun_map_fst]
  exact (servedIn_sorted m run).imp fun h => by omega

theorem flatMap_inRun_perm (h : Horizon stations H) (hd : m.Distinct)
    (hi : ∀ p ∈ m, 0 ≤ p.1 ∧ p.1 < (Schedule.ofStations stations start H).entries.length) :
    ((Schedule.ofStations stations start H).runs.flatMap m.inRun).Perm m := by
  have hm : m.Nodup := List.Nodup.of_map _ hd
  rw [Schedule.runs_ofStations h.roster, List.flatMap_map]
  have hnodup : (stations.flatMap fun s => m.inRun (Schedule.runOf H stations s)).Nodup := by
    refine List.nodup_flatMap.mpr ⟨fun s _ => inRun_nodup m _, ?_⟩
    refine (List.pairwise_map.mp h.roster.ids_nodup).imp_of_mem ?_
    intro s t hs ht hid p hps hpt
    obtain ⟨-, k, hk₁, hk₂, hk⟩ := (mem_inRun hd).mp hps
    obtain ⟨-, l, hl₁, hl₂, hl⟩ := (mem_inRun hd).mp hpt
    simp only [Schedule.runOf] at hk₁ hk₂ hl₁ hl₂
    have hst := Schedule.position_inj h hs ht
      (k := k - Schedule.firstIndex H stations s.id) (l := l - Schedule.firstIndex H stations t.id)
      (by omega) (by omega) (by omega)
    exact hid (congrArg Station.id hst.1)
  apply (List.perm_ext_iff_of_nodup hnodup hm).mpr
  intro p
  simp only [List.mem_flatMap, mem_inRun hd]
  constructor
  · rintro ⟨s, -, hp, -⟩
    exact hp
  · intro hp
    obtain ⟨h₀, hlt⟩ := hi p hp
    have hlt' : p.1.toNat < (Schedule.ofStations stations start H).entries.length := by omega
    obtain ⟨s, hs, k, hk, he⟩ := Schedule.exists_position h.roster hlt'
    refine ⟨s, hs, hp, p.1.toNat, ?_, ?_, by omega⟩
    · simp only [Schedule.runOf]
      omega
    · simp only [Schedule.runOf]
      omega

theorem redeal_perm (m : Assignment) (s : Schedule) :
    (redeal s m).Perm (s.runs.flatMap m.redealRun) :=
  List.mergeSort_perm _ _

section Kept

variable (h : Horizon stations H) (hd : m.Distinct)
  (hi : ∀ p ∈ m, 0 ≤ p.1 ∧ p.1 < (Schedule.ofStations stations start H).entries.length)

include h hd hi

theorem redeal_indices :
    ((redeal (Schedule.ofStations stations start H) m).map Prod.fst).Perm (m.map Prod.fst) := by
  refine ((redeal_perm m _).map Prod.fst).trans ?_
  refine List.Perm.trans ?_ ((flatMap_inRun_perm h hd hi).map Prod.fst)
  rw [List.map_flatMap, List.map_flatMap]
  simp only [redealRun_map_fst]
  exact List.Perm.refl _

theorem redeal_rounds :
    (redeal (Schedule.ofStations stations start H) m).rounds.Perm m.rounds := by
  refine ((redeal_perm m _).map Prod.snd).trans ?_
  refine List.Perm.trans ?_ ((flatMap_inRun_perm h hd hi).map Prod.snd)
  rw [List.map_flatMap, List.map_flatMap]
  exact List.Perm.flatMap_left _ fun run _ => redealRun_map_snd m run

theorem redeal_distinct : (redeal (Schedule.ofStations stations start H) m).Distinct :=
  (redeal_indices h hd hi).nodup_iff.mpr hd

theorem redeal_length : (redeal (Schedule.ofStations stations start H) m).length = m.length := by
  simpa using (redeal_indices h hd hi).length_eq

theorem redeal_weight :
    (redeal (Schedule.ofStations stations start H) m).weight
        (Schedule.ofStations stations start H) =
      m.weight (Schedule.ofStations stations start H) := by
  let penaltyAt : Int → Int := fun i =>
    (((Schedule.ofStations stations start H).entryAt? i).map Entry.penalty).getD 0
  have hw : ∀ a : Assignment, a.weight (Schedule.ofStations stations start H) =
      total ((a.map Prod.fst).map penaltyAt) := by
    intro a
    rw [List.map_map]
    rfl
  rw [hw, hw]
  exact total_perm ((redeal_indices h hd hi).map penaltyAt)

end Kept

theorem inWindow_packet (h : Horizon stations H) (hs : s ∈ stations) {k : Nat}
    (hk : k < Schedule.packetsIn H s) :
    InWindow (Schedule.ofStations stations start H)
        ((Schedule.firstIndex H stations s.id + k : Nat) : Int) r ↔
      ((Schedule.ofStations stations start H).clip (Schedule.packet start s k)).1 ≤ r ∧
        r ≤ ((Schedule.ofStations stations start H).clip (Schedule.packet start s k)).2 := by
  rw [InWindow, entryAt?_of_nonneg (by omega), Int.toNat_natCast,
    Schedule.getElem?_entries h.roster hs hk]
  simp

/-- Rounds of one run that are out of order may change places. -/
theorem inWindow_swap (h : Horizon stations H) (hs : s ∈ stations) {k l : Nat} (hkl : k < l)
    (hl : l < Schedule.packetsIn H s) {q : Int}
    (hq : InWindow (Schedule.ofStations stations start H)
      ((Schedule.firstIndex H stations s.id + k : Nat) : Int) r)
    (hr : InWindow (Schedule.ofStations stations start H)
      ((Schedule.firstIndex H stations s.id + l : Nat) : Int) q) (hlt : q < r) :
    InWindow (Schedule.ofStations stations start H)
        ((Schedule.firstIndex H stations s.id + k : Nat) : Int) q ∧
      InWindow (Schedule.ofStations stations start H)
        ((Schedule.firstIndex H stations s.id + l : Nat) : Int) r := by
  rw [inWindow_packet h hs (by omega)] at hq ⊢
  rw [inWindow_packet h hs hl] at hr ⊢
  have hm := Schedule.clip_mono h hs start hkl.le
  omega

theorem redealRun_inWindow (h : Horizon stations H) (hs : s ∈ stations) (hd : m.Distinct)
    (hw : ∀ p ∈ m, InWindow (Schedule.ofStations stations start H) p.1 p.2) :
    ∀ p ∈ m.redealRun (Schedule.runOf H stations s),
      InWindow (Schedule.ofStations stations start H) p.1 p.2 := by
  have hpairs : List.Forall₂ (InWindow (Schedule.ofStations stations start H))
      ((m.inRun (Schedule.runOf H stations s)).map Prod.fst)
      ((m.inRun (Schedule.runOf H stations s)).map Prod.snd) := by
    rw [List.forall₂_map_left_iff, List.forall₂_map_right_iff, List.forall₂_same]
    exact fun p hp => hw p ((mem_inRun hd).mp hp).1
  have hsorted : ((m.inRun (Schedule.runOf H stations s)).map Prod.fst).Pairwise (· < ·) := by
    rw [inRun_map_fst]
    exact servedIn_sorted m _
  have hoffset : ∀ i ∈ (m.inRun (Schedule.runOf H stations s)).map Prod.fst,
      ∃ k < Schedule.packetsIn H s,
        i = ((Schedule.firstIndex H stations s.id + k : Nat) : Int) := by
    intro i hi
    rw [inRun_map_fst] at hi
    obtain ⟨⟨k, h₁, h₂, rfl⟩, -⟩ := mem_servedIn.mp hi
    simp only [Schedule.runOf] at h₁ h₂
    exact ⟨k - Schedule.firstIndex H stations s.id, by omega, by congr 1; omega⟩
  have hdealt := forall₂_insertionSort (fun i hi k hk hik q r hiq hkr hlt => by
    obtain ⟨a, ha, rfl⟩ := hoffset i hi
    obtain ⟨b, hb, rfl⟩ := hoffset k hk
    exact inWindow_swap h hs (by omega) hb hiq hkr hlt) hsorted hpairs
  rw [← List.mergeSort_eq_insertionSort] at hdealt
  rw [redealRun_eq]
  rintro ⟨i, r⟩ hp
  exact List.forall₂_zip hdealt hp

theorem redeal_feasible (h : Horizon stations H) (hd : m.Distinct) {capacity : Int}
    (hf : Feasible (Schedule.ofStations stations start H) capacity m) :
    Feasible (Schedule.ofStations stations start H) capacity
      (redeal (Schedule.ofStations stations start H) m) := by
  have hrounds := redeal_rounds h hd hf.index
  refine ⟨?_, ?_, ?_⟩
  · intro p hp
    have hp' := (redeal_indices h hd hf.index).mem_iff.mp (List.mem_map_of_mem (f := Prod.fst) hp)
    obtain ⟨p', hm, he⟩ := List.mem_map.mp hp'
    rw [← he]
    exact hf.index p' hm
  · intro p hp
    obtain ⟨run, hrun, hp⟩ := List.mem_flatMap.mp ((redeal_perm m _).mem_iff.mp hp)
    rw [Schedule.runs_ofStations h.roster] at hrun
    obtain ⟨s, hs, rfl⟩ := List.mem_map.mp hrun
    exact redealRun_inWindow h hs hd hf.window p hp
  · intro r hr
    rw [hrounds.count_eq]
    exact hf.load r (hrounds.mem_iff.mp hr)

end Assignment

end Downlink
