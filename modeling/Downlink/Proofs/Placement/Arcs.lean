import Downlink.Proofs.Placement.Network
import Downlink.Proofs.Placement.Program

/-!
# The network of a horizon

An arc goes from the source to every packet, from a packet to every slot of the rounds in its window
and from every slot to the sink, each once. The arcs that serve packets in a flow have different
tails and different heads, and there are as many of them as units supplied; conversely every such
set of arcs is what some flow uses.
-/

namespace Downlink.FlowNetwork

open Placement Program

variable {rounds capacity supply : Int} {triples : List Triple} {f : Route} {a : Arc} {v : Int}
  {L : List Arc}

def serving (rounds capacity : Int) (triples : List Triple) : List Arc :=
  triples.zipIdx.flatMap fun p => packetArcs rounds capacity triples.length p.1 p.2

def fromSource (triples : List Triple) : List Arc :=
  (span 1 triples.length).map fun i => ⟨0, i, 1, 0⟩

def toSink (rounds capacity : Int) (triples : List Triple) : List Arc :=
  (span (triples.length + 1) (capacity * rounds)).map
    fun k => ⟨k, sink rounds capacity triples, 1, 0⟩

def roundAt (capacity : Int) (packets : Nat) (slot : Int) : Int := (slot - packets - 1) / capacity

theorem mem_span {first count : Int} : v ∈ span first count ↔ first ≤ v ∧ v < first + count := by
  simp only [span, List.mem_map, List.mem_range, Int.ofNat_eq_natCast]
  constructor
  · intro h
    obtain ⟨k, hk, rfl⟩ := h
    omega
  · intro h
    exact ⟨(v - first).toNat, by omega, by omega⟩

theorem span_increasing (first count : Int) : (span first count).Pairwise (· < ·) := by
  apply List.Pairwise.map _ _ List.pairwise_lt_range
  intro i j hij
  simp only [Int.ofNat_eq_natCast]
  omega

theorem mem_slots (hc : 1 ≤ capacity) {packets : Nat} {r k : Int} :
    k ∈ span (packets + 1 + r * capacity) capacity ↔ roundAt capacity packets k = r := by
  rw [mem_span, roundAt, Int.ediv_eq_iff_of_pos (by omega)]
  omega

theorem mem_packetArcs (hc : 1 ≤ capacity) {packets i : Nat} {t : Triple} :
    a ∈ packetArcs rounds capacity packets t i ↔
      a.tail = i + 1 ∧ a.capacity = 1 ∧ a.cost = -t.weight ∧
        roundAt capacity packets a.head ∈ (t.job rounds).rounds := by
  simp only [packetArcs, List.mem_flatMap, List.mem_filter, List.mem_map, mem_span,
    Bool.and_eq_true, decide_eq_true_eq, Job.mem_rounds, Triple.job]
  constructor
  · intro h
    obtain ⟨j, ⟨hj, hlow, hhigh⟩, k, hk, rfl⟩ := h
    have hk := (mem_slots hc).mp (mem_span.mpr hk)
    simp only [hk]
    exact ⟨rfl, trivial, trivial, by omega, by omega⟩
  · intro h
    obtain ⟨htail, hcap, hcost, hlow, hhigh⟩ := h
    refine ⟨roundAt capacity packets a.head, ⟨by omega, by omega, by omega⟩, a.head,
      mem_span.mp ((mem_slots hc).mpr rfl), ?_⟩
    cases a
    simp_all

theorem mem_serving (hc : 1 ≤ capacity) : a ∈ serving rounds capacity triples ↔
    ∃ i : Nat, a.tail = i + 1 ∧ a.capacity = 1 ∧ a.cost = -weightOf (jobs rounds triples) i ∧
      roundAt capacity triples.length a.head ∈ roundsOf (jobs rounds triples).toArray i := by
  have hjob : ∀ {i : Nat} {t : Triple}, triples[i]? = some t →
      (jobs rounds triples)[i]? = some (t.job rounds) := by
    intro i t ht
    rw [jobs, List.getElem?_map, ht]
    rfl
  simp only [serving, List.mem_flatMap, Prod.exists, mem_packetArcs hc]
  constructor
  · intro h
    obtain ⟨t, i, ht, htail, hcap, hcost, hr⟩ := h
    have hj := hjob (List.mem_zipIdx_iff_getElem?.mp ht)
    refine ⟨i, htail, hcap, ?_, ?_⟩
    · rw [hcost, weightOf_eq hj]
      rfl
    · exact mem_roundsOf.mpr ⟨_, hj, Job.mem_rounds.mp hr⟩
  · intro h
    obtain ⟨i, htail, hcap, hcost, hr⟩ := h
    obtain ⟨j, hj, hr⟩ := mem_roundsOf.mp hr
    rw [jobs, List.getElem?_map] at hj
    obtain ⟨t, ht, rfl⟩ := Option.map_eq_some_iff.mp hj
    refine ⟨t, i, List.mem_zipIdx_iff_getElem?.mpr ht, htail, hcap, ?_, Job.mem_rounds.mpr hr⟩
    rw [hcost, weightOf_eq (hjob ht)]
    rfl

theorem serving_bounds (hc : 1 ≤ capacity) (ha : a ∈ serving rounds capacity triples) :
    (1 ≤ a.tail ∧ a.tail ≤ triples.length) ∧
      triples.length + 1 ≤ a.head ∧ a.head < sink rounds capacity triples := by
  obtain ⟨i, htail, -, -, hr⟩ := (mem_serving hc).mp ha
  obtain ⟨j, hj, hlow, hhigh⟩ := mem_roundsOf.mp hr
  have hi : i < triples.length := by
    have := (List.getElem?_eq_some_iff.mp hj).1
    rwa [jobs, List.length_map] at this
  rw [jobs, List.getElem?_map] at hj
  obtain ⟨t, -, rfl⟩ := Option.map_eq_some_iff.mp hj
  simp only [Triple.job] at hlow hhigh
  refine ⟨by omega, ?_, ?_⟩
  · have h₀ : 0 ≤ (a.head - triples.length - 1) / capacity := (le_max_right _ _).trans hlow
    have := (Int.le_ediv_iff_mul_le (by omega)).mp h₀
    omega
  · have hlt : (a.head - triples.length - 1) / capacity < rounds := by
      have := hhigh.trans (min_le_right _ _)
      simp only [roundAt] at this
      omega
    have := (Int.ediv_lt_iff_lt_mul (by omega)).mp hlt
    rw [Int.mul_comm] at this
    rw [sink]
    omega

theorem fromSource_bounds (ha : a ∈ fromSource triples) :
    a.tail = 0 ∧ a.capacity = 1 ∧ a.cost = 0 ∧ 1 ≤ a.head ∧ a.head ≤ triples.length := by
  obtain ⟨i, hi, rfl⟩ := List.mem_map.mp ha
  have := mem_span.mp hi
  refine ⟨rfl, rfl, rfl, ?_⟩
  dsimp only
  omega

theorem toSink_bounds (ha : a ∈ toSink rounds capacity triples) :
    a.head = sink rounds capacity triples ∧ a.capacity = 1 ∧ a.cost = 0 ∧
      triples.length + 1 ≤ a.tail ∧ a.tail < sink rounds capacity triples := by
  obtain ⟨k, hk, rfl⟩ := List.mem_map.mp ha
  have := mem_span.mp hk
  refine ⟨rfl, rfl, rfl, ?_⟩
  dsimp only [sink]
  omega

theorem lt_sink (hr : 0 ≤ rounds) (hc : 1 ≤ capacity) (triples : List Triple) :
    triples.length < sink rounds capacity triples := by
  have : 0 ≤ capacity * rounds := Int.mul_nonneg (by omega) hr
  rw [sink]
  omega

theorem serving_ends (hc : 1 ≤ capacity) (rounds : Int) (triples : List Triple) :
    ((serving rounds capacity triples).map ends).Nodup := by
  have hpacket : ∀ (packets i : Nat) (t : Triple),
      (packetArcs rounds capacity packets t i).Pairwise fun a b => a.head < b.head := by
    intro packets i t
    apply List.pairwise_flatMap.mpr
    constructor
    · intro j _
      exact (span_increasing _ _).map _ fun _ _ h => h
    · apply ((span_increasing 0 rounds).filter _).imp
      intro j k hjk a ha b hb
      obtain ⟨x, hx, rfl⟩ := List.mem_map.mp ha
      obtain ⟨y, hy, rfl⟩ := List.mem_map.mp hb
      have hle : (j + 1) * capacity ≤ k * capacity := Int.mul_le_mul_of_nonneg_right hjk (by omega)
      rw [Int.add_mul] at hle
      have := mem_span.mp hx
      have := mem_span.mp hy
      show x < y
      omega
  have hall : (serving rounds capacity triples).Pairwise
      fun a b => a.tail < b.tail ∨ a.head < b.head := by
    apply List.pairwise_flatMap.mpr
    constructor
    · intro p _
      exact (hpacket _ _ _).imp Or.inr
    · have hidx : (triples.zipIdx.map Prod.snd).Pairwise (· < ·) := by
        rw [List.zipIdx_map_snd]
        exact List.pairwise_lt_range'
      apply (List.pairwise_map.mp hidx).imp
      intro p q hpq a ha b hb
      have := ((mem_packetArcs hc).mp ha).1
      have := ((mem_packetArcs hc).mp hb).1
      omega
  apply List.pairwise_map.mpr
  apply hall.imp
  intro a b hab he
  have htail : a.tail = b.tail := congrArg Prod.fst he
  have hhead : a.head = b.head := congrArg Prod.snd he
  omega

theorem arcs_ends (hc : 1 ≤ capacity) (rounds : Int) (triples : List Triple) :
    ((serving rounds capacity triples ++ fromSource triples ++
      toSink rounds capacity triples).map ends).Nodup := by
  rw [List.map_append, List.map_append]
  apply List.Nodup.append
  · apply List.Nodup.append
    · exact serving_ends hc rounds triples
    · rw [fromSource, List.map_map]
      exact (span_increasing _ _).nodup.map fun i j hij => congrArg Prod.snd hij
    · intro e he hsource
      obtain ⟨a, ha, rfl⟩ := List.mem_map.mp he
      obtain ⟨b, hb, hab⟩ := List.mem_map.mp hsource
      have htail : b.tail = a.tail := congrArg Prod.fst hab
      have := (serving_bounds hc ha).1
      have := fromSource_bounds hb
      omega
  · rw [toSink, List.map_map]
    exact (span_increasing _ _).nodup.map fun i j hij => congrArg Prod.fst hij
  · intro e he hsink
    obtain ⟨b, hb, rfl⟩ := List.mem_map.mp hsink
    have := toSink_bounds hb
    rcases List.mem_append.mp he with he | he
    · obtain ⟨a, ha, hab⟩ := List.mem_map.mp he
      have htail : a.tail = b.tail := congrArg Prod.fst hab
      have := (serving_bounds hc ha).1
      omega
    · obtain ⟨a, ha, hab⟩ := List.mem_map.mp he
      have htail : a.tail = b.tail := congrArg Prod.fst hab
      have := fromSource_bounds ha
      omega

theorem build_arcs (hc : 1 ≤ capacity) (rounds : Int) (triples : List Triple) (supply : Int) :
    (build rounds capacity triples supply).arcs = serving rounds capacity triples ++
      fromSource triples ++ toSink rounds capacity triples :=
  @foldl_addArc [] _ (arcs_ends hc rounds triples)

theorem capacity_eq_one (hc : 1 ≤ capacity) (ha : a ∈ (build rounds capacity triples supply).arcs) :
    a.capacity = 1 := by
  rw [build_arcs hc, List.mem_append, List.mem_append] at ha
  rcases ha with (ha | ha) | ha
  · obtain ⟨i, -, hcap, -⟩ := (mem_serving hc).mp ha
    exact hcap
  · exact (fromSource_bounds ha).2.1
  · exact (toSink_bounds ha).2.1

theorem between_of_arc (hr : 0 ≤ rounds) (hc : 1 ≤ capacity)
    (ha : a ∈ serving rounds capacity triples ++ fromSource triples ++
      toSink rounds capacity triples) (hv : v = a.tail ∨ v = a.head) :
    0 ≤ v ∧ v ≤ sink rounds capacity triples := by
  have hlt := lt_sink hr hc triples
  rw [List.mem_append, List.mem_append] at ha
  rcases ha with (ha | ha) | ha
  · have := serving_bounds hc ha
    omega
  · have := fromSource_bounds ha
    omega
  · have := toSink_bounds ha
    omega

theorem exists_arc (h₁ : 1 ≤ v) (hlt : v < sink rounds capacity triples) :
    ∃ a ∈ serving rounds capacity triples ++ fromSource triples ++
      toSink rounds capacity triples, v = a.tail ∨ v = a.head := by
  by_cases hv : v ≤ triples.length
  · refine ⟨⟨0, v, 1, 0⟩, ?_, Or.inr rfl⟩
    apply List.mem_append_left
    apply List.mem_append_right
    exact List.mem_map.mpr ⟨v, mem_span.mpr (by omega), rfl⟩
  · refine ⟨⟨v, sink rounds capacity triples, 1, 0⟩, ?_, Or.inl rfl⟩
    apply List.mem_append_right
    refine List.mem_map.mpr ⟨v, mem_span.mpr ?_, rfl⟩
    rw [sink] at hlt
    omega

theorem mem_nodes (hr : 0 ≤ rounds) (hc : 1 ≤ capacity) {d : Option Int} :
    (v, d) ∈ (build rounds capacity triples supply).nodes ↔
      (v = 0 ∧ d = some (-supply)) ∨ (v = sink rounds capacity triples ∧ d = some supply) ∨
        (1 ≤ v ∧ v < sink rounds capacity triples ∧ d = none) := by
  have hlt := lt_sink hr hc triples
  have hpos : sink rounds capacity triples ≠ 0 := by omega
  have hends : addNode (addNode [] 0 (some (-supply))) (sink rounds capacity triples)
      (some supply) = [(0, some (-supply)), (sink rounds capacity triples, some supply)] := by
    simp [addNode, hpos.symm]
  simp only [build, hends, mem_foldl_addNode, List.mem_cons, Prod.mk.injEq, List.not_mem_nil,
    or_false, List.map_cons, List.map_nil, not_or]
  constructor
  · intro h
    rcases h with (h | h) | ⟨⟨h₀, hsink⟩, rfl, a, ha, hv⟩
    · exact Or.inl h
    · exact Or.inr (Or.inl h)
    · have := between_of_arc hr hc ha hv
      exact Or.inr (Or.inr ⟨by omega, by omega, rfl⟩)
  · intro h
    rcases h with h | h | ⟨h₁, hlt, rfl⟩
    · exact Or.inl (Or.inl h)
    · exact Or.inl (Or.inr h)
    · exact Or.inr ⟨⟨by omega, by omega⟩, rfl, exists_arc h₁ hlt⟩

theorem find?_source (hr : 0 ≤ rounds) (hc : 1 ≤ capacity) (triples : List Triple) (supply : Int) :
    (build rounds capacity triples supply).nodes.find? (fun n => n.1 = 0) =
      some (0, some (-supply)) := by
  have hsource : (0, some (-supply)) ∈ (build rounds capacity triples supply).nodes :=
    (mem_nodes hr hc).mpr (Or.inl ⟨rfl, rfl⟩)
  have hlt := lt_sink hr hc triples
  cases hfind : (build rounds capacity triples supply).nodes.find? (fun n => n.1 = 0) with
  | none => exact absurd (decide_eq_true rfl) (List.find?_eq_none.mp hfind _ hsource)
  | some n =>
    have hn : n.1 = 0 := by simpa using List.find?_some hfind
    rcases (mem_nodes hr hc).mp (List.mem_of_find?_eq_some hfind) with h | h | h
    · rw [← h.1, ← h.2]
    · omega
    · omega

end Downlink.FlowNetwork
