import Downlink.Proofs.Placement.Arcs
import Downlink.Proofs.Placement.Units

/-!
# Flows and placements

The arcs that serve packets in a flow are a matching of packets and slots with as many arcs as units
are supplied, and every matching is served by some flow of the same cost. A matching of packets and
slots is a placement of the packets, and every placement has slots.
-/

namespace Downlink.FlowNetwork

open Placement Program

variable {rounds capacity supply : Int} {triples : List Triple} {f : Route} {a : Arc} {v : Int}
  {L : List Arc} {b : Placement}

structure Serves (rounds capacity : Int) (triples : List Triple) (L : List Arc) : Prop where
  arc : ∀ a ∈ L, a ∈ serving rounds capacity triples
  packets : (L.map Arc.tail).Nodup
  slots : (L.map Arc.head).Nodup

theorem degree_served_tail (hc : 1 ≤ capacity) (hv : ¬(1 ≤ v ∧ v ≤ triples.length)) :
    degree f Arc.tail (serving rounds capacity triples) v = 0 := by
  apply degree_eq_zero
  intro a ha
  have := (serving_bounds hc ha).1
  omega

theorem degree_served_head (hc : 1 ≤ capacity)
    (hv : ¬(triples.length + 1 ≤ v ∧ v < sink rounds capacity triples)) :
    degree f Arc.head (serving rounds capacity triples) v = 0 := by
  apply degree_eq_zero
  intro a ha
  have := (serving_bounds hc ha).2
  omega

theorem degree_offered_tail (hv : v ≠ 0) : degree f Arc.tail (fromSource triples) v = 0 := by
  apply degree_eq_zero
  intro a ha
  have := fromSource_bounds ha
  omega

theorem degree_offered_head (hv : ¬(1 ≤ v ∧ v ≤ triples.length)) :
    degree f Arc.head (fromSource triples) v = 0 := by
  apply degree_eq_zero
  intro a ha
  have := fromSource_bounds ha
  omega

theorem degree_drained_tail (hv : ¬(triples.length + 1 ≤ v ∧ v < sink rounds capacity triples)) :
    degree f Arc.tail (toSink rounds capacity triples) v = 0 := by
  apply degree_eq_zero
  intro a ha
  have := toSink_bounds ha
  omega

theorem degree_drained_head (hv : v ≠ sink rounds capacity triples) :
    degree f Arc.head (toSink rounds capacity triples) v = 0 := by
  apply degree_eq_zero
  intro a ha
  have := toSink_bounds ha
  omega

theorem Routes.bounds_one (hc : 1 ≤ capacity)
    (hf : (build rounds capacity triples supply).Routes f) :
    ∀ a ∈ (build rounds capacity triples supply).arcs,
      0 ≤ f a.tail a.head ∧ f a.tail a.head ≤ 1 := by
  intro a ha
  have hb := hf.bounds a ha
  rwa [capacity_eq_one hc ha] at hb

theorem Routes.degree_eq (hc : 1 ≤ capacity)
    (hf : (build rounds capacity triples supply).Routes f) {d : Option Int}
    (hv : (v, d) ∈ (build rounds capacity triples supply).nodes) :
    ((degree f Arc.head (serving rounds capacity triples) v +
      degree f Arc.head (fromSource triples) v +
        degree f Arc.head (toSink rounds capacity triples) v : Nat) : Int) -
      (degree f Arc.tail (serving rounds capacity triples) v +
        degree f Arc.tail (fromSource triples) v +
          degree f Arc.tail (toSink rounds capacity triples) v : Nat) = d.getD 0 := by
  have hb := hf.balance v d hv
  rw [inflow_eq_degree (hf.bounds_one hc), outflow_eq_degree (hf.bounds_one hc),
    build_arcs hc, degree_append, degree_append, degree_append, degree_append] at hb
  exact hb

theorem Routes.packets_perm (hr : 0 ≤ rounds) (hc : 1 ≤ capacity)
    (hf : (build rounds capacity triples supply).Routes f) :
    ((used f (serving rounds capacity triples)).map Arc.tail).Perm
      ((used f (fromSource triples)).map Arc.head) := by
  have hlt := lt_sink hr hc triples
  apply List.perm_iff_count.mpr
  intro v
  show degree f _ _ v = degree f _ _ v
  by_cases hv : 1 ≤ v ∧ v ≤ triples.length
  · have hdegree := hf.degree_eq hc
      ((mem_nodes hr hc).mpr (Or.inr (Or.inr ⟨hv.1, by omega, rfl⟩)))
    rw [degree_served_head hc (by omega), degree_offered_tail (by omega),
      degree_drained_head (by omega), degree_drained_tail (by omega), Option.getD_none] at hdegree
    omega
  · rw [degree_served_tail hc hv, degree_offered_head hv]

theorem Routes.slots_perm (hr : 0 ≤ rounds) (hc : 1 ≤ capacity)
    (hf : (build rounds capacity triples supply).Routes f) :
    ((used f (serving rounds capacity triples)).map Arc.head).Perm
      ((used f (toSink rounds capacity triples)).map Arc.tail) := by
  apply List.perm_iff_count.mpr
  intro v
  show degree f _ _ v = degree f _ _ v
  by_cases hv : triples.length + 1 ≤ v ∧ v < sink rounds capacity triples
  · have hdegree := hf.degree_eq hc
      ((mem_nodes hr hc).mpr (Or.inr (Or.inr ⟨by omega, hv.2, rfl⟩)))
    rw [degree_served_tail hc (by omega), degree_offered_tail (by omega),
      degree_offered_head (by omega), degree_drained_head (by omega), Option.getD_none] at hdegree
    omega
  · rw [degree_served_head hc hv, degree_drained_tail hv]

theorem Routes.length_offered (hr : 0 ≤ rounds) (hc : 1 ≤ capacity)
    (hf : (build rounds capacity triples supply).Routes f) :
    ((used f (fromSource triples)).length : Int) = supply := by
  have hlt := lt_sink hr hc triples
  have hdegree := hf.degree_eq hc ((mem_nodes hr hc).mpr (Or.inl ⟨rfl, rfl⟩))
  rw [degree_served_tail hc (by omega), degree_served_head hc (by omega),
    degree_offered_head (by omega), degree_drained_head (by omega), degree_drained_tail (by omega),
    degree_eq_length fun a ha => (fromSource_bounds ha).1, Option.getD_some] at hdegree
  omega

theorem Routes.serves (hr : 0 ≤ rounds) (hc : 1 ≤ capacity)
    (hf : (build rounds capacity triples supply).Routes f) :
    Serves rounds capacity triples (used f (serving rounds capacity triples)) := by
  have hsource : ((used f (fromSource triples)).map Arc.head).Nodup := by
    have hall : ((fromSource triples).map Arc.head).Nodup := by
      rw [fromSource, List.map_map]
      exact (span_increasing _ _).nodup.map fun i j hij => hij
    exact hall.sublist (List.filter_sublist.map _)
  have hsink : ((used f (toSink rounds capacity triples)).map Arc.tail).Nodup := by
    have hall : ((toSink rounds capacity triples).map Arc.tail).Nodup := by
      rw [toSink, List.map_map]
      exact (span_increasing _ _).nodup.map fun i j hij => hij
    exact hall.sublist (List.filter_sublist.map _)
  refine ⟨fun a ha => mem_used ha, ?_, ?_⟩
  · exact (hf.packets_perm hr hc).nodup_iff.mpr hsource
  · exact (hf.slots_perm hr hc).nodup_iff.mpr hsink

theorem Routes.length_served (hr : 0 ≤ rounds) (hc : 1 ≤ capacity)
    (hf : (build rounds capacity triples supply).Routes f) :
    ((used f (serving rounds capacity triples)).length : Int) = supply := by
  have hlen := (hf.packets_perm hr hc).length_eq
  rw [List.length_map, List.length_map] at hlen
  rw [hlen]
  exact hf.length_offered hr hc

theorem total_cost_eq_zero (h : ∀ a ∈ L, a.cost = 0) : total (L.map Arc.cost) = 0 := by
  induction L with
  | nil => rfl
  | cons a L ih =>
    rw [List.map_cons, total, h a List.mem_cons_self,
      ih fun b hb => h b (List.mem_cons_of_mem a hb)]
    rfl

theorem Routes.cost_eq (hc : 1 ≤ capacity)
    (hf : (build rounds capacity triples supply).Routes f) :
    (build rounds capacity triples supply).cost f =
      total ((used f (serving rounds capacity triples)).map Arc.cost) := by
  have hoffered := total_cost_eq_zero (L := used f (fromSource triples))
    fun a ha => (fromSource_bounds (mem_used ha)).2.2.1
  have hdrained := total_cost_eq_zero (L := used f (toSink rounds capacity triples))
    fun a ha => (toSink_bounds (mem_used ha)).2.2.1
  rw [cost, total_used (hf.bounds_one hc), build_arcs hc, used, List.filter_append,
    List.filter_append, List.map_append, List.map_append, total_append, total_append]
  simp only [used] at hoffered hdrained ⊢
  rw [hoffered, hdrained]
  omega

def paths (rounds capacity : Int) (triples : List Triple) (L : List Arc) : List Arc :=
  L ++ L.map (fun a => ⟨0, a.tail, 1, 0⟩) ++
    L.map fun a => ⟨a.head, sink rounds capacity triples, 1, 0⟩

theorem Serves.paths_subset (hc : 1 ≤ capacity) (h : Serves rounds capacity triples L) :
    paths rounds capacity triples L ⊆ (build rounds capacity triples supply).arcs := by
  intro a ha
  rw [build_arcs hc]
  rw [paths, List.mem_append, List.mem_append] at ha
  rcases ha with (ha | ha) | ha
  · apply List.mem_append_left
    apply List.mem_append_left
    exact h.arc a ha
  · obtain ⟨b, hb, rfl⟩ := List.mem_map.mp ha
    have := (serving_bounds hc (h.arc b hb)).1
    apply List.mem_append_left
    apply List.mem_append_right
    exact List.mem_map.mpr ⟨b.tail, mem_span.mpr (by omega), rfl⟩
  · obtain ⟨b, hb, rfl⟩ := List.mem_map.mp ha
    have := (serving_bounds hc (h.arc b hb)).2
    rw [sink] at this
    apply List.mem_append_right
    exact List.mem_map.mpr ⟨b.head, mem_span.mpr (by omega), rfl⟩

theorem Serves.paths_nodup (hc : 1 ≤ capacity) (h : Serves rounds capacity triples L) :
    (paths rounds capacity triples L).Nodup := by
  apply List.Nodup.append
  · apply List.Nodup.append
    · exact List.Nodup.of_map _ h.packets
    · apply List.Nodup.of_map Arc.head
      rw [List.map_map]
      exact h.packets
    · intro a ha hsource
      obtain ⟨b, -, rfl⟩ := List.mem_map.mp hsource
      have := (serving_bounds hc (h.arc _ ha)).1
      simp at this
  · apply List.Nodup.of_map Arc.tail
    rw [List.map_map]
    exact h.slots
  · intro a ha hsink
    obtain ⟨b, hb, rfl⟩ := List.mem_map.mp hsink
    have hslot := (serving_bounds hc (h.arc b hb)).2
    rcases List.mem_append.mp ha with ha | ha
    · have := (serving_bounds hc (h.arc _ ha)).2
      simp at this
    · obtain ⟨c, -, he⟩ := List.mem_map.mp ha
      have hzero : 0 = b.head := congrArg Arc.tail he
      omega

theorem Serves.used_perm (hc : 1 ≤ capacity) (h : Serves rounds capacity triples L) :
    (used (along (paths rounds capacity triples L))
      (build rounds capacity triples supply).arcs).Perm (paths rounds capacity triples L) := by
  apply used_along
  · rw [build_arcs hc]
    exact arcs_ends hc rounds triples
  · exact h.paths_subset hc
  · exact h.paths_nodup hc

theorem Serves.routes (hr : 0 ≤ rounds) (hc : 1 ≤ capacity) (h : Serves rounds capacity triples L) :
    (build rounds capacity triples L.length).Routes (along (paths rounds capacity triples L)) := by
  have hbounds : ∀ a ∈ (build rounds capacity triples L.length).arcs, _ :=
    fun a _ => along_bounds (paths rounds capacity triples L) a.tail a.head
  have hlt := lt_sink hr hc triples
  constructor
  · intro a ha
    rw [capacity_eq_one hc ha]
    exact hbounds a ha
  · intro v d hv
    have hperm : (used (along (paths rounds capacity triples L))
        (build rounds capacity triples L.length).arcs).Perm (paths rounds capacity triples L) :=
      h.used_perm hc
    have hdegree : ∀ side : Arc → Int,
        degree (along (paths rounds capacity triples L)) side
          (build rounds capacity triples L.length).arcs v =
        ((paths rounds capacity triples L).map side).count v :=
      fun side => (hperm.map side).count_eq v
    rw [inflow_eq_degree hbounds, outflow_eq_degree hbounds, hdegree, hdegree]
    simp only [paths, List.map_append, List.map_map, List.count_append]
    have hpackets : L.map (Arc.head ∘ fun a => ⟨0, a.tail, 1, 0⟩) = L.map Arc.tail := rfl
    have hslots : L.map (Arc.tail ∘ fun a => ⟨a.head, sink rounds capacity triples, 1, 0⟩) =
        L.map Arc.head := rfl
    have hsource : L.map (Arc.tail ∘ fun a => ⟨0, a.tail, 1, 0⟩) = List.replicate L.length 0 :=
      List.map_const' ..
    have hsink : L.map (Arc.head ∘ fun a => ⟨a.head, sink rounds capacity triples, 1, 0⟩) =
        List.replicate L.length (sink rounds capacity triples) := List.map_const' ..
    rw [hpackets, hslots, hsource, hsink, List.count_replicate, List.count_replicate]
    rcases (mem_nodes hr hc).mp hv with ⟨rfl, rfl⟩ | ⟨rfl, rfl⟩ | ⟨h₁, hv', rfl⟩
    · have hne : (sink rounds capacity triples == 0) = false := beq_false_of_ne (by omega)
      simp only [hne, BEq.rfl, if_true, Bool.false_eq_true, if_false, Option.getD_some]
      omega
    · have hne : (0 == sink rounds capacity triples) = false := beq_false_of_ne (by omega)
      simp only [hne, BEq.rfl, if_true, Bool.false_eq_true, if_false, Option.getD_some]
      omega
    · have hne : (sink rounds capacity triples == v) = false := beq_false_of_ne (by omega)
      have hne' : (0 == v) = false := beq_false_of_ne (by omega)
      simp only [hne, hne', Bool.false_eq_true, if_false, Option.getD_none]
      omega

theorem Serves.cost_eq (hc : 1 ≤ capacity) (h : Serves rounds capacity triples L) :
    (build rounds capacity triples supply).cost (along (paths rounds capacity triples L)) =
      total (L.map Arc.cost) := by
  have hfree : ∀ way : Arc → Arc, (∀ a, (way a).cost = 0) →
      total ((L.map way).map Arc.cost) = 0 := by
    intro way hway
    apply total_cost_eq_zero
    intro a ha
    obtain ⟨b, -, rfl⟩ := List.mem_map.mp ha
    exact hway b
  rw [cost, total_used fun a _ => along_bounds _ _ _, total_perm ((h.used_perm hc).map _), paths,
    List.map_append, List.map_append, total_append, total_append, hfree _ fun _ => rfl,
    hfree _ fun _ => rfl]
  omega

def placement (capacity : Int) (packets : Nat) (L : List Arc) : Placement :=
  L.map fun a => ((a.tail - 1).toNat, roundAt capacity packets a.head)

def seated (rounds capacity : Int) (triples : List Triple) (b : Placement) : List Arc :=
  (numbered Prod.snd b).map fun q => ⟨q.1.1 + 1,
    triples.length + 1 + q.1.2 * capacity + q.2, 1, -weightOf (jobs rounds triples) q.1.1⟩

theorem Serves.fits (hc : 1 ≤ capacity) (h : Serves rounds capacity triples L) :
    Fits (jobs rounds triples) capacity.toNat (placement capacity triples.length L) := by
  refine ⟨?_, ?_, ?_⟩
  · have hserved : (placement capacity triples.length L).served =
        (L.map Arc.tail).map fun v => (v - 1).toNat := by
      rw [served, placement, List.map_map, List.map_map]
      rfl
    rw [hserved]
    apply List.Nodup.map_on _ h.packets
    intro v hv u hu hvu
    obtain ⟨a, ha, rfl⟩ := List.mem_map.mp hv
    obtain ⟨b, hb, rfl⟩ := List.mem_map.mp hu
    have := (serving_bounds hc (h.arc a ha)).1
    have := (serving_bounds hc (h.arc b hb)).1
    omega
  · intro p hp
    obtain ⟨a, ha, rfl⟩ := List.mem_map.mp hp
    obtain ⟨i, htail, -, -, hround⟩ := (mem_serving hc).mp (h.arc a ha)
    have hi : (a.tail - 1).toNat = i := by omega
    rw [← hi] at hround
    exact hround
  · intro r
    have hload : (placement capacity triples.length L).load r =
        ((L.filter fun a => roundAt capacity triples.length a.head = r).map Arc.head).length := by
      rw [load, placement, List.countP_map, List.countP_eq_length_filter, List.length_map]
      rfl
    have hsub : (L.filter fun a => roundAt capacity triples.length a.head = r).map Arc.head ⊆
        span (triples.length + 1 + r * capacity) capacity := by
      intro k hk
      obtain ⟨a, ha, rfl⟩ := List.mem_map.mp hk
      have hround := of_decide_eq_true (List.mem_filter.mp ha).2
      exact (mem_slots hc).mpr hround
    have hnodup : ((L.filter fun a => roundAt capacity triples.length a.head = r).map
        Arc.head).Nodup := h.slots.sublist (List.filter_sublist.map _)
    have hle := (List.subperm_of_subset hnodup hsub).length_le
    rw [hload]
    simpa [span] using hle

theorem Serves.weight_eq (hc : 1 ≤ capacity) (h : ∀ a ∈ L, a ∈ serving rounds capacity triples) :
    weight (jobs rounds triples) (placement capacity triples.length L) =
      -total (L.map Arc.cost) := by
  induction L with
  | nil => rfl
  | cons a L ih =>
    have hrest := ih fun b hb => h b (List.mem_cons_of_mem a hb)
    obtain ⟨i, htail, -, hcost, -⟩ := (mem_serving hc).mp (h a List.mem_cons_self)
    have hi : (a.tail - 1).toNat = i := by omega
    simp only [weight, served, placement, List.map_cons, total, hi, hcost] at hrest ⊢
    rw [hrest]
    omega

theorem unit_lt (hb : Fits (jobs rounds triples) capacity.toNat b) {q : (Nat × Int) × Nat}
    (hq : q ∈ numbered Prod.snd b) : q.2 < capacity.toNat := by
  have hlt := lt_count_of_mem_numbered hq
  have hload := hb.load_le q.1.2
  rw [load] at hload
  rw [List.count, List.countP_map] at hlt
  exact hlt.trans_le hload

theorem roundAt_slot (hc : 1 ≤ capacity) {packets u : Nat} (r : Int) (hu : u < capacity.toNat) :
    roundAt capacity packets (packets + 1 + r * capacity + u) = r := by
  apply (mem_slots hc).mp
  apply mem_span.mpr
  omega

theorem placement_seated (hc : 1 ≤ capacity) (hb : Fits (jobs rounds triples) capacity.toNat b) :
    placement capacity triples.length (seated rounds capacity triples b) = b := by
  rw [placement, seated, List.map_map]
  refine Eq.trans (List.map_congr_left fun q hq => ?_) (numbered_fst Prod.snd b)
  simp only [Function.comp_apply, roundAt_slot hc q.1.2 (unit_lt hb hq)]
  have hpacket : ((q.1.1 : Int) + 1 - 1).toNat = q.1.1 := by omega
  rw [hpacket]

theorem seated_serves (hc : 1 ≤ capacity) (hb : Fits (jobs rounds triples) capacity.toNat b) :
    Serves rounds capacity triples (seated rounds capacity triples b) := by
  refine ⟨?_, ?_, ?_⟩
  · intro a ha
    obtain ⟨q, hq, rfl⟩ := List.mem_map.mp ha
    refine (mem_serving hc).mpr ⟨q.1.1, rfl, rfl, rfl, ?_⟩
    rw [roundAt_slot hc q.1.2 (unit_lt hb hq)]
    exact hb.inWindow q.1 (mem_of_mem_numbered hq)
  · have htails : (seated rounds capacity triples b).map Arc.tail =
        b.served.map fun i : Nat => (i : Int) + 1 := by
      conv_rhs => rw [served, ← numbered_fst Prod.snd b]
      rw [seated, List.map_map, List.map_map, List.map_map]
      rfl
    rw [htails]
    apply hb.distinct.map
    intro i j hij
    simp only at hij
    omega
  · have hheads : (seated rounds capacity triples b).map Arc.head =
        ((numbered Prod.snd b).map fun q => (q.1.2, q.2)).map
          fun p => triples.length + 1 + p.1 * capacity + p.2 := by
      rw [seated, List.map_map, List.map_map]
      rfl
    rw [hheads]
    apply List.Nodup.map_on _ (numbered_nodup Prod.snd b)
    intro p hp q hq hpq
    obtain ⟨x, hx, rfl⟩ := List.mem_map.mp hp
    obtain ⟨y, hy, rfl⟩ := List.mem_map.mp hq
    have hround : x.1.2 = y.1.2 := by
      rw [← roundAt_slot hc x.1.2 (unit_lt hb hx), ← roundAt_slot hc y.1.2 (unit_lt hb hy)]
      exact congrArg (roundAt capacity triples.length) hpq
    simp only [hround] at hpq
    have hunit : x.2 = y.2 := by omega
    rw [hround, hunit]

theorem Routes.placement (hr : 0 ≤ rounds) (hc : 1 ≤ capacity)
    (hf : (build rounds capacity triples supply).Routes f) :
    ∃ b, Fits (jobs rounds triples) capacity.toNat b ∧ (b.length : Int) = supply ∧
      weight (jobs rounds triples) b = -(build rounds capacity triples supply).cost f := by
  have hserves := hf.serves hr hc
  refine ⟨_, hserves.fits hc, ?_, ?_⟩
  · rw [FlowNetwork.placement, List.length_map]
    exact hf.length_served hr hc
  · rw [hf.cost_eq hc]
    exact Serves.weight_eq hc hserves.arc

theorem routes_seated (hr : 0 ≤ rounds) (hc : 1 ≤ capacity)
    (hb : Fits (jobs rounds triples) capacity.toNat b) (hlen : (b.length : Int) = supply) :
    let f := along (paths rounds capacity triples (seated rounds capacity triples b))
    (build rounds capacity triples supply).Routes f ∧
      weight (jobs rounds triples) b = -(build rounds capacity triples supply).cost f := by
  intro f
  have hserves := seated_serves hc hb
  have hsize : ((seated rounds capacity triples b).length : Int) = supply := by
    rw [← hlen, seated, List.length_map, ← List.length_map Prod.fst, numbered_fst]
  subst hsize
  refine ⟨hserves.routes hr hc, ?_⟩
  rw [hserves.cost_eq hc, ← Serves.weight_eq hc hserves.arc, placement_seated hc hb]

def heaviestRoute (rounds capacity : Int) (triples : List Triple) (supply : Int) : Option Route :=
  let b := best (jobs rounds triples) capacity.toNat supply.toNat fun _ => true
  if b.length = supply then
    some (along (paths rounds capacity triples (seated rounds capacity triples b)))
  else none

theorem heaviestRoute_answers (hr : 0 ≤ rounds) (hc : 1 ≤ capacity) (triples : List Triple)
    (supply : Int) :
    (build rounds capacity triples supply).Answers
      (heaviestRoute rounds capacity triples supply) := by
  have hfits := best_fits (jobs rounds triples) capacity.toNat supply.toNat fun _ => true
  unfold heaviestRoute
  dsimp only
  split_ifs with hlen
  · obtain ⟨hroutes, hw⟩ := routes_seated hr hc hfits hlen
    refine ⟨hroutes, ?_⟩
    intro f hf
    obtain ⟨b, hb, hlen', hw'⟩ := hf.placement hr hc
    have := (best_exactly hb (by omega : b.length = supply.toNat)).2
    omega
  · intro f hf
    obtain ⟨b, hb, hlen', -⟩ := hf.placement hr hc
    have := (best_exactly hb (by omega : b.length = supply.toNat)).1
    omega

end Downlink.FlowNetwork
