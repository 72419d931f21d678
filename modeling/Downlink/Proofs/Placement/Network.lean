import Mathlib.Data.List.Dedup
import Downlink.Placement.Flow
import Downlink.Proofs.Total

/-!
# Flows

A flow sends whole units along the arcs of a network, within their capacities, so that every node
keeps what it demands. Where capacities are one, what matters of a flow are the arcs it uses: the
flow into a node and out of it count them, and the cost is their total. Building the network of a
horizon adds no arc twice, and only source and sink demand anything.
-/

namespace Downlink

abbrev Route := Int → Int → Int

namespace FlowNetwork

variable {g : FlowNetwork} {f : Route} {arcs all : List Arc} {a : Arc} {v : Int}
  {nodes : List (Int × Option Int)} {d : Option Int}

def inflow (g : FlowNetwork) (f : Route) (v : Int) : Int :=
  total ((g.arcs.filter fun a => a.head = v).map fun a => f a.tail a.head)

def outflow (g : FlowNetwork) (f : Route) (v : Int) : Int :=
  total ((g.arcs.filter fun a => a.tail = v).map fun a => f a.tail a.head)

def cost (g : FlowNetwork) (f : Route) : Int :=
  total (g.arcs.map fun a => f a.tail a.head * a.cost)

structure Routes (g : FlowNetwork) (f : Route) : Prop where
  bounds : ∀ a ∈ g.arcs, 0 ≤ f a.tail a.head ∧ f a.tail a.head ≤ a.capacity
  balance : ∀ v d, (v, d) ∈ g.nodes → g.inflow f v - g.outflow f v = d.getD 0

structure Cheapest (g : FlowNetwork) (f : Route) : Prop where
  routes : g.Routes f
  cost_le : ∀ f', g.Routes f' → g.cost f ≤ g.cost f'

/-- What an exact solver answers: a cheapest flow, or nothing if the demands cannot be met. -/
def Answers (g : FlowNetwork) : Option Route → Prop
  | some f => g.Cheapest f
  | none => ∀ f, ¬g.Routes f

def ends (a : Arc) : Int × Int := (a.tail, a.head)

def used (f : Route) (arcs : List Arc) : List Arc := arcs.filter fun a => 0 < f a.tail a.head

def degree (f : Route) (side : Arc → Int) (arcs : List Arc) (v : Int) : Nat :=
  ((used f arcs).map side).count v

def along (arcs : List Arc) : Route := fun t h => if (t, h) ∈ arcs.map ends then 1 else 0

theorem total_used (h : ∀ a ∈ arcs, 0 ≤ f a.tail a.head ∧ f a.tail a.head ≤ 1) (w : Arc → Int) :
    total (arcs.map fun a => f a.tail a.head * w a) = total ((used f arcs).map w) := by
  induction arcs with
  | nil => rfl
  | cons a arcs ih =>
    have ha := h a List.mem_cons_self
    have hrest := ih fun b hb => h b (List.mem_cons_of_mem a hb)
    simp only [used] at hrest ⊢
    rw [List.map_cons, total, hrest, List.filter_cons]
    by_cases hpos : 0 < f a.tail a.head
    · have hone : f a.tail a.head = 1 := by omega
      simp [hone, total]
    · have hzero : f a.tail a.head = 0 := by omega
      simp [hzero]

theorem mem_used (ha : a ∈ used f arcs) : a ∈ arcs := List.mem_of_mem_filter ha

theorem degree_eq_zero {side : Arc → Int} (h : ∀ a ∈ arcs, side a ≠ v) :
    degree f side arcs v = 0 := by
  apply List.count_eq_zero.mpr
  intro hv
  obtain ⟨a, ha, he⟩ := List.mem_map.mp hv
  exact h a (mem_used ha) he

theorem degree_eq_length {side : Arc → Int} (h : ∀ a ∈ arcs, side a = v) :
    degree f side arcs v = (used f arcs).length := by
  rw [degree, ← List.length_map side]
  apply List.count_eq_length.mpr
  intro u hu
  obtain ⟨a, ha, rfl⟩ := List.mem_map.mp hu
  exact (h a (mem_used ha)).symm

theorem degree_append (f : Route) (side : Arc → Int) (arcs all : List Arc) (v : Int) :
    degree f side (arcs ++ all) v = degree f side arcs v + degree f side all v := by
  rw [degree, used, List.filter_append, List.map_append, List.count_append]
  rfl

theorem total_ones {α : Type} (l : List α) : total (l.map fun _ => 1) = l.length := by
  induction l with
  | nil => rfl
  | cons a l ih =>
    rw [List.map_cons, total, ih, List.length_cons]
    omega

theorem total_used_filter (h : ∀ a ∈ arcs, 0 ≤ f a.tail a.head ∧ f a.tail a.head ≤ 1)
    (p : Arc → Bool) :
    total ((arcs.filter p).map fun a => f a.tail a.head) = (used f arcs).countP p := by
  have hkept : ∀ a ∈ arcs.filter p, 0 ≤ f a.tail a.head ∧ f a.tail a.head ≤ 1 :=
    fun a ha => h a (List.mem_of_mem_filter ha)
  have htotal := total_used hkept fun _ => 1
  simp only [Int.mul_one, total_ones] at htotal
  rw [htotal, used, used, List.countP_eq_length_filter, List.filter_filter, List.filter_filter]
  simp only [Bool.and_comm]

theorem inflow_eq_degree (h : ∀ a ∈ g.arcs, 0 ≤ f a.tail a.head ∧ f a.tail a.head ≤ 1) (v : Int) :
    g.inflow f v = degree f Arc.head g.arcs v := by
  rw [inflow, total_used_filter h, degree, List.count, List.countP_map]
  rfl

theorem outflow_eq_degree (h : ∀ a ∈ g.arcs, 0 ≤ f a.tail a.head ∧ f a.tail a.head ≤ 1) (v : Int) :
    g.outflow f v = degree f Arc.tail g.arcs v := by
  rw [outflow, total_used_filter h, degree, List.count, List.countP_map]
  rfl

theorem used_along (harcs : (arcs.map ends).Nodup) (hsub : all ⊆ arcs) (hall : all.Nodup) :
    (used (along all) arcs).Perm all := by
  have hnodup : arcs.Nodup := List.Nodup.of_map _ harcs
  apply (List.perm_ext_iff_of_nodup (hnodup.filter _) hall).mpr
  intro a
  have hpos : 0 < along all a.tail a.head ↔ ends a ∈ all.map ends := by
    unfold along ends
    split_ifs with h
    · simp [h]
    · simp [h]
  rw [List.mem_filter, decide_eq_true_eq, hpos]
  constructor
  · intro h
    obtain ⟨ha, hmem⟩ := h
    obtain ⟨b, hb, he⟩ := List.mem_map.mp hmem
    exact List.inj_on_of_nodup_map harcs (hsub hb) ha he ▸ hb
  · intro ha
    exact ⟨hsub ha, List.mem_map_of_mem ha⟩

theorem along_bounds (all : List Arc) (t h : Int) : 0 ≤ along all t h ∧ along all t h ≤ 1 := by
  unfold along
  split_ifs
  · omega
  · omega

theorem addArc_of_new (h : ends a ∉ arcs.map ends) : addArc arcs a = arcs ++ [a] := by
  have hnone : (arcs.any fun b => b.tail = a.tail && b.head = a.head) = false := by
    apply List.any_eq_false.mpr
    intro b hb he
    simp only [Bool.and_eq_true, decide_eq_true_eq] at he
    exact h (List.mem_map.mpr ⟨b, hb, Prod.ext he.1 he.2⟩)
  rw [addArc, if_neg (by rw [hnone]; exact Bool.false_ne_true)]

theorem foldl_addArc (h : ((arcs ++ all).map ends).Nodup) :
    all.foldl addArc arcs = arcs ++ all := by
  induction all generalizing arcs with
  | nil => rw [List.foldl_nil, List.append_nil]
  | cons a all ih =>
    have hnew : ends a ∉ arcs.map ends := by
      rw [List.map_append, List.map_cons, List.nodup_append] at h
      intro hmem
      exact h.2.2 _ hmem _ List.mem_cons_self rfl
    rw [List.append_cons] at h
    rw [List.foldl_cons, addArc_of_new hnew, ih h, ← List.append_cons]

theorem mem_addNode {id : Int} :
    (v, d) ∈ addNode nodes id none ↔
      (v, d) ∈ nodes ∨ v ∉ nodes.map Prod.fst ∧ d = none ∧ v = id := by
  unfold addNode
  split_ifs with hany
  · obtain ⟨n, hn, he⟩ := List.any_eq_true.mp hany
    have hid : id ∈ nodes.map Prod.fst := List.mem_map.mpr ⟨n, hn, of_decide_eq_true he⟩
    have hsame : (nodes.map fun n => if n.1 = id then (id, none.orElse fun () => n.2) else n) =
        nodes := by
      refine (List.map_congr_left fun n _ => ?_).trans (List.map_id nodes)
      split_ifs with hn
      · rw [← hn]
        rfl
      · rfl
    rw [hsame]
    constructor
    · exact Or.inl
    · intro h
      rcases h with h | ⟨hnew, -, rfl⟩
      · exact h
      · exact absurd hid hnew
  · have hid : id ∉ nodes.map Prod.fst := by
      intro hmem
      obtain ⟨n, hn, he⟩ := List.mem_map.mp hmem
      exact hany (List.any_eq_true.mpr ⟨n, hn, decide_eq_true he⟩)
    simp only [List.mem_append, List.mem_singleton, Prod.mk.injEq]
    constructor
    · intro h
      rcases h with h | ⟨rfl, rfl⟩
      · exact Or.inl h
      · exact Or.inr ⟨hid, rfl, rfl⟩
    · intro h
      rcases h with h | ⟨-, rfl, rfl⟩
      · exact Or.inl h
      · exact Or.inr ⟨rfl, rfl⟩

theorem mem_fst_addNode {id : Int} :
    v ∈ (addNode nodes id none).map Prod.fst ↔ v ∈ nodes.map Prod.fst ∨ v = id := by
  simp only [List.mem_map, Prod.exists, exists_and_right, exists_eq_right, mem_addNode]
  constructor
  · intro h
    obtain ⟨d, h | ⟨-, -, h⟩⟩ := h
    · exact Or.inl ⟨d, h⟩
    · exact Or.inr h
  · intro h
    by_cases hv : ∃ d, (v, d) ∈ nodes
    · obtain ⟨d, hd⟩ := hv
      exact ⟨d, Or.inl hd⟩
    · exact ⟨none, Or.inr ⟨hv, rfl, h.resolve_left hv⟩⟩

theorem mem_foldl_addNode :
    (v, d) ∈ all.foldl (fun ns a => addNode (addNode ns a.tail none) a.head none) nodes ↔
      (v, d) ∈ nodes ∨ v ∉ nodes.map Prod.fst ∧ d = none ∧ ∃ a ∈ all, v = a.tail ∨ v = a.head := by
  induction all generalizing nodes with
  | nil => simp
  | cons a all ih =>
    rw [List.foldl_cons, ih]
    simp only [mem_addNode, mem_fst_addNode, List.exists_mem_cons_iff]
    grind

end FlowNetwork

end Downlink
