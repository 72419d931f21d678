import Downlink.Proofs.Assignment.Redeal

/-!
# Permuted rounds

Dealing again depends on a station's rounds only up to their order, so it repairs every assignment
that can be repaired by permuting rounds within stations: if any such permutation fits the windows,
the one in arrival order does.
-/

namespace Downlink.Assignment

variable {m m' : Assignment} {s : Schedule} {stations : List Station} {H start capacity : Int}
  {run run' : Run}

def pairsOf (m : Assignment) (run : Run) : Assignment :=
  m.filter fun p => run.start ≤ p.1 && p.1 < run.stop

/-- The same entries are served, and in each run the same rounds are used equally often. -/
structure Permuted (s : Schedule) (m m' : Assignment) : Prop where
  indices : (m'.map Prod.fst).Perm (m.map Prod.fst)
  rounds : ∀ run ∈ s.runs, (m'.pairsOf run).rounds.Perm (m.pairsOf run).rounds

/-- Within each run, later entries are not served before earlier ones. -/
def Ordered (s : Schedule) (m : Assignment) : Prop :=
  ∀ run ∈ s.runs, ∀ p ∈ m.pairsOf run, ∀ q ∈ m.pairsOf run, p.1 < q.1 → p.2 ≤ q.2

theorem mem_pairsOf {p : Int × Int} :
    p ∈ m.pairsOf run ↔ p ∈ m ∧ run.start ≤ p.1 ∧ p.1 < run.stop := by
  simp [pairsOf]

theorem inRun_perm (hd : m.Distinct) (run : Run) : (m.inRun run).Perm (m.pairsOf run) := by
  have hnodup : (m.pairsOf run).Nodup := (List.Nodup.of_map _ hd).filter _
  refine (List.perm_ext_iff_of_nodup (inRun_nodup m run) hnodup).mpr fun p => ?_
  rw [mem_inRun hd, mem_pairsOf]
  constructor
  · rintro ⟨hp, k, h₁, h₂, hk⟩
    exact ⟨hp, by omega, by omega⟩
  · rintro ⟨hp, h₁, h₂⟩
    exact ⟨hp, p.1.toNat, by omega, by omega, by omega⟩

theorem rounds_pairsOf (hd : m.Distinct) (run : Run) :
    ((m.servedIn run).filterMap m.round?).Perm (m.pairsOf run).rounds := by
  rw [← inRun_map_snd]
  exact (inRun_perm hd run).map Prod.snd

theorem Permuted.distinct (h : Permuted s m m') (hd : m.Distinct) : m'.Distinct :=
  h.indices.nodup_iff.mpr hd

theorem Permuted.redealRun_eq (h : Permuted s m m') (hd : m.Distinct) (hr : run ∈ s.runs) :
    m.redealRun run = m'.redealRun run := by
  have hserves : m.serves = m'.serves := by
    funext i
    rw [Bool.eq_iff_iff, serves_iff, serves_iff]
    simpa using (h.indices.mem_iff (a := i)).symm
  have hserved : m.servedIn run = m'.servedIn run := by rw [servedIn, servedIn, hserves]
  have hrounds : ((m.servedIn run).filterMap m.round?).Perm
      ((m'.servedIn run).filterMap m'.round?) :=
    (rounds_pairsOf hd run).trans
      ((h.rounds run hr).symm.trans (rounds_pairsOf (h.distinct hd) run).symm)
  have hsorted : ((m.servedIn run).filterMap m.round?).mergeSort (· ≤ ·) =
      ((m'.servedIn run).filterMap m'.round?).mergeSort (· ≤ ·) :=
    List.Perm.eq_of_pairwise' (List.pairwise_mergeSort' _ _) (List.pairwise_mergeSort' _ _)
      ((List.mergeSort_perm _ _).trans (hrounds.trans (List.mergeSort_perm _ _).symm))
  simp only [redealRun, hserved] at hsorted ⊢
  rw [hsorted]

theorem Permuted.redeal_eq (h : Permuted s m m') (hd : m.Distinct) : redeal s m = redeal s m' := by
  simp only [redeal, List.flatMap]
  rw [List.map_congr_left fun run hr => h.redealRun_eq hd hr]

theorem redealRun_pairwise (m : Assignment) (run : Run) :
    (m.redealRun run).Pairwise fun p q => p.1 < q.1 ∧ p.2 ≤ q.2 := by
  have hlen : (m.servedIn run).length =
      (((m.servedIn run).filterMap m.round?).mergeSort (· ≤ ·)).length := by
    rw [List.length_mergeSort, ← inRun_map_snd, ← inRun_map_fst, List.length_map, List.length_map]
  have hfst : ((m.redealRun run).map Prod.fst).Pairwise (· < ·) := by
    rw [redealRun_map_fst, inRun_map_fst]
    exact servedIn_sorted m run
  have hsnd : ((m.redealRun run).map Prod.snd).Pairwise (· ≤ ·) := by
    rw [redealRun, List.map_snd_zip hlen.ge]
    exact List.pairwise_mergeSort' _ _
  exact (List.pairwise_map.mp hfst).and (List.pairwise_map.mp hsnd)

theorem fst_mem_of_mem_redealRun {p : Int × Int} (hp : p ∈ m.redealRun run) :
    run.start ≤ p.1 ∧ p.1 < run.stop := by
  have hmem : p.1 ∈ m.servedIn run := by
    rw [← inRun_map_fst, ← redealRun_map_fst]
    exact List.mem_map_of_mem hp
  obtain ⟨⟨k, h₁, h₂, hk⟩, -⟩ := mem_servedIn.mp hmem
  omega

theorem run_unique (h : Horizon stations H)
    (hr : run ∈ (Schedule.ofStations stations start H).runs)
    (hr' : run' ∈ (Schedule.ofStations stations start H).runs) {i : Int}
    (hi : run.start ≤ i ∧ i < run.stop) (hi' : run'.start ≤ i ∧ i < run'.stop) : run = run' := by
  rw [Schedule.runs_ofStations h.roster] at hr hr'
  obtain ⟨s, hs, rfl⟩ := List.mem_map.mp hr
  obtain ⟨t, ht, rfl⟩ := List.mem_map.mp hr'
  simp only [Schedule.runOf] at hi hi'
  have hst := Schedule.position_inj h hs ht
    (k := i.toNat - Schedule.firstIndex H stations s.id)
    (l := i.toNat - Schedule.firstIndex H stations t.id) (by omega) (by omega) (by omega)
  rw [hst.1]

theorem mem_pairsOf_redeal (h : Horizon stations H)
    (hr : run ∈ (Schedule.ofStations stations start H).runs) {p : Int × Int} :
    p ∈ (redeal (Schedule.ofStations stations start H) m).pairsOf run ↔ p ∈ m.redealRun run := by
  rw [mem_pairsOf, (redeal_perm m _).mem_iff, List.mem_flatMap]
  constructor
  · rintro ⟨⟨run', hr', hp⟩, hi⟩
    rwa [run_unique h hr hr' hi (fst_mem_of_mem_redealRun hp)]
  · intro hp
    exact ⟨⟨run, hr, hp⟩, fst_mem_of_mem_redealRun hp⟩

theorem redeal_ordered (h : Horizon stations H) (m : Assignment) :
    Ordered (Schedule.ofStations stations start H)
      (redeal (Schedule.ofStations stations start H) m) := by
  intro run hr p hp q hq hlt
  rw [mem_pairsOf_redeal h hr] at hp hq
  have hpairs := redealRun_pairwise m run
  exact List.Pairwise.forall_of_forall_of_flip (R := fun p q : Int × Int => p.1 < q.1 → p.2 ≤ q.2)
    (fun p _ hlt => absurd hlt (lt_irrefl _)) (hpairs.imp fun hpq _ => hpq.2)
    (hpairs.imp fun hpq hqp => absurd hqp (lt_asymm hpq.1)) hp hq hlt

theorem redeal_permuted (h : Horizon stations H) (hd : m.Distinct)
    (hi : ∀ p ∈ m, 0 ≤ p.1 ∧ p.1 < (Schedule.ofStations stations start H).entries.length) :
    Permuted (Schedule.ofStations stations start H) m
      (redeal (Schedule.ofStations stations start H) m) := by
  refine ⟨redeal_indices h hd hi, fun run hr => ?_⟩
  have hnodup : (m.redealRun run).Nodup :=
    (redealRun_pairwise m run).imp fun hlt he => by
      rw [he] at hlt
      omega
  have hnodup' : ((redeal (Schedule.ofStations stations start H) m).pairsOf run).Nodup :=
    (List.Nodup.of_map _ (redeal_distinct h hd hi)).filter _
  have hpairs := (List.perm_ext_iff_of_nodup hnodup' hnodup).mpr fun _ => mem_pairsOf_redeal h hr
  refine (hpairs.map Prod.snd).trans ?_
  exact (redealRun_map_snd m run).trans ((inRun_perm hd run).map Prod.snd)

theorem redeal_feasible_iff (h : Horizon stations H) (hd : m.Distinct)
    (hi : ∀ p ∈ m, 0 ≤ p.1 ∧ p.1 < (Schedule.ofStations stations start H).entries.length) :
    Feasible (Schedule.ofStations stations start H) capacity
        (redeal (Schedule.ofStations stations start H) m) ↔
      (∀ r ∈ m.rounds, (m.rounds.count r : Int) ≤ capacity) ∧
        ∃ m', Permuted (Schedule.ofStations stations start H) m m' ∧
          ∀ p ∈ m', InWindow (Schedule.ofStations stations start H) p.1 p.2 := by
  have hrounds := redeal_rounds h hd hi
  constructor
  · intro hf
    refine ⟨fun r hr => ?_, _, redeal_permuted h hd hi, hf.window⟩
    rw [← hrounds.count_eq]
    exact hf.load r (hrounds.mem_iff.mpr hr)
  · rintro ⟨hload, m', hm', hw⟩
    have hd' := hm'.distinct hd
    have hi' : ∀ p ∈ m', 0 ≤ p.1 ∧ p.1 < (Schedule.ofStations stations start H).entries.length := by
      intro p hp
      have hmem := hm'.indices.mem_iff.mp (List.mem_map_of_mem (f := Prod.fst) hp)
      obtain ⟨q, hq, he⟩ := List.mem_map.mp hmem
      rw [← he]
      exact hi q hq
    have hrounds' : m'.rounds.Perm m.rounds := by
      have := redeal_rounds h hd' hi'
      rw [← hm'.redeal_eq hd] at this
      exact this.symm.trans hrounds
    rw [hm'.redeal_eq hd]
    refine redeal_feasible h hd' ⟨hi', hw, fun r hr => ?_⟩
    rw [hrounds'.count_eq]
    exact hload r (hrounds'.mem_iff.mp hr)

end Downlink.Assignment
