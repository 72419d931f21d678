import Mathlib.Algebra.Order.BigOperators.Group.List
import Downlink.Proofs.DeadlineAware.Load
import Downlink.Proofs.Plan
import Downlink.Proofs.Total

/-!
# Service on arrival

With a unit for every station, each entry of a schedule can be served in the round of its arrival.
So the best assignments are the full ones: nothing outweighs serving everything, and at that weight
no entry is left out, whatever its penalty is.
-/

namespace Downlink.Assignment

variable {stations : List Station} {start H : Int} {s : Schedule} {capacity : Int} {m : Assignment}

def onArrival (s : Schedule) : Assignment :=
  s.entries.zipIdx.map fun e => (Int.ofNat e.2, e.1.arrival)

theorem onArrival_indices (s : Schedule) : (onArrival s).map Prod.fst = indices s := by
  have h : (Prod.fst ∘ fun e : Entry × Nat => (Int.ofNat e.2, e.1.arrival)) =
      Int.ofNat ∘ Prod.snd :=
    rfl
  rw [onArrival, indices, List.map_map, h, ← List.map_map, List.zipIdx_map_snd,
    List.range_eq_range']

theorem onArrival_rounds (s : Schedule) : (onArrival s).rounds = s.entries.map Entry.arrival := by
  have h : (Prod.snd ∘ fun e : Entry × Nat => (Int.ofNat e.2, e.1.arrival)) =
      Entry.arrival ∘ Prod.fst := rfl
  rw [rounds, onArrival, List.map_map, h, ← List.map_map, List.zipIdx_map_fst]

theorem onArrival_distinct (s : Schedule) : (onArrival s).Distinct := by
  rw [Distinct, onArrival_indices]
  exact indices_nodup s

theorem count_arrival_le (h : Horizon stations H) (start r : Int) :
    ((Schedule.ofStations stations start H).entries.map Entry.arrival).count r ≤
      stations.length := by
  have hone : ∀ t ∈ stations,
      ((Schedule.stationPackets start H t).map Entry.arrival).count r ≤ 1 := by
    intro t ht
    have hp := (h.roster.valid t ht).period
    refine List.nodup_iff_count_le_one.mp ?_ r
    rw [Schedule.stationPackets_eq, List.map_map]
    refine List.nodup_range.map fun i j hij => ?_
    have hmul : (i : Int) * t.period = j * t.period := by
      simpa only [Function.comp_apply, Schedule.packet, Int.add_right_inj] using hij
    exact_mod_cast Int.eq_of_mul_eq_mul_right (by omega) hmul
  rw [Schedule.ofStations, List.map_flatMap, List.count_flatMap]
  refine (List.sum_le_card_nsmul _ 1 fun x hx => ?_).trans (by simp)
  obtain ⟨t, ht, rfl⟩ := List.mem_map.mp hx
  exact hone t ht

theorem onArrival_feasible (h : Horizon stations H) (hcap : stations.length ≤ capacity) :
    (onArrival (Schedule.ofStations stations start H)).Feasible
      (Schedule.ofStations stations start H) capacity where
  index p hp := by
    rw [← mem_indices, ← onArrival_indices]
    exact List.mem_map_of_mem hp
  window p hp x hx := by
    obtain ⟨⟨e, i⟩, he, rfl⟩ := List.mem_map.mp hp
    rw [List.mem_zipIdx_iff_getElem?] at he
    rw [Plan.entryAt?_ofNat, he, Option.some.injEq] at hx
    subst hx
    obtain ⟨t, ht, he⟩ := List.mem_flatMap.mp (List.mem_of_getElem? he)
    rw [Schedule.stationPackets_eq] at he
    obtain ⟨k, hk, rfl⟩ := List.mem_map.mp he
    have hclip := Schedule.clip_nonempty h ht (List.mem_range.mp hk) start
    rw [Schedule.clip_packet h ht] at hclip ⊢
    exact ⟨le_rfl, hclip.2.1⟩
  load r _ := by
    rw [onArrival_rounds]
    have := count_arrival_le h start r
    omega

def penaltyAt (s : Schedule) (i : Int) : Int := ((s.entryAt? i).map Entry.penalty).getD 0

theorem weight_eq (s : Schedule) (m : Assignment) :
    m.weight s = total ((m.map Prod.fst).map (penaltyAt s)) := by
  rw [List.map_map]
  rfl

theorem total_indices (s : Schedule) :
    total ((indices s).map (penaltyAt s)) = s.totalPenalty := by
  rw [Schedule.totalPenalty]
  congr 1
  apply List.ext_getElem
  · simp [indices]
  · intro i hi hi'
    rw [List.length_map] at hi'
    simp [indices, penaltyAt, entryAt?_of_nonneg, hi']

theorem onArrival_weight (s : Schedule) : (onArrival s).weight s = s.totalPenalty := by
  rw [weight_eq, onArrival_indices, total_indices]

theorem indices_subperm (hd : m.Distinct)
    (hi : ∀ p ∈ m, 0 ≤ p.1 ∧ p.1 < s.entries.length) : (m.map Prod.fst).Subperm (indices s) := by
  refine List.subperm_of_subset hd fun i hm => ?_
  obtain ⟨p, hp, rfl⟩ := List.mem_map.mp hm
  exact mem_indices.mpr (hi p hp)

theorem weight_le_totalPenalty (hp : ∀ e ∈ s.entries, 0 ≤ e.penalty) (hd : m.Distinct)
    (hi : ∀ p ∈ m, 0 ≤ p.1 ∧ p.1 < s.entries.length) : m.weight s ≤ s.totalPenalty := by
  obtain ⟨l, hperm, hsub⟩ := indices_subperm hd hi
  have hnonneg : ∀ i ∈ indices s, 0 ≤ penaltyAt s i := by
    intro i hi
    obtain ⟨h₀, hlt⟩ := mem_indices.mp hi
    have hlt' : i.toNat < s.entries.length := by omega
    rw [penaltyAt, entryAt?_of_nonneg h₀, List.getElem?_eq_getElem hlt']
    exact hp _ (List.getElem_mem hlt')
  rw [weight_eq, ← total_perm (hperm.map _), ← total_indices, total_eq_sum, total_eq_sum]
  refine (hsub.map (penaltyAt s)).sum_le_sum fun x hx => ?_
  obtain ⟨i, hi, rfl⟩ := List.mem_map.mp hx
  exact hnonneg i hi

theorem Best.serves_all (h : Horizon stations H) (hcap : stations.length ≤ capacity)
    (hb : Best (Schedule.ofStations stations start H) capacity m) {i : Int}
    (hi : i ∈ indices (Schedule.ofStations stations start H)) : ∃ r, m.round? i = some r := by
  set s := Schedule.ofStations stations start H
  have hd := onArrival_distinct s
  have hf : (onArrival s).Feasible s capacity := onArrival_feasible h hcap
  have hweight : (onArrival s).weight s = m.weight s := by
    refine le_antisymm (hb.heaviest _ hd hf) ?_
    rw [onArrival_weight]
    exact weight_le_totalPenalty (fun e he => Plan.penalty_nonneg h he) hb.distinct
      hb.feasible.index
  have hlength := hb.fullest _ hd hf hweight
  -- an assignment of as many entries as there are leaves none out
  have hperm : (m.map Prod.fst).Perm (indices s) := by
    refine (indices_subperm hb.distinct hb.feasible.index).perm_of_length_le ?_
    rw [← onArrival_indices, List.length_map, List.length_map]
    exact hlength
  obtain ⟨p, hp, rfl⟩ := List.mem_map.mp (hperm.mem_iff.mpr hi)
  exact exists_round?_of_mem hp

end Downlink.Assignment
