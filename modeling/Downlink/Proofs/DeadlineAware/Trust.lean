import Downlink.Proofs.DeadlineAware.Execution
import Downlink.Proofs.Exchange.External

/-!
# Trusting planners

A planner around a search for heaviest matchings, alone or as the fallback of a process, never calls
back and gives only sound plans. Nothing else is assumed of the search: it may be any that finds a
heaviest matching of the slot graph of a generated schedule, the same one each time or not.
-/

namespace Downlink

namespace SlotGraph

/-- The search finds a heaviest matching of every generated schedule. -/
def Finds (find : Schedule → Nat → List SlotEdge) : Prop :=
  ∀ stations start cap s, Schedule.generate stations start cap = .ok s →
    ∀ capacity, Heaviest s capacity (find s capacity)

end SlotGraph

namespace Plan

variable {s : Schedule} {z : Sizing} {stations : List Station} {start H : Int}

def search (s : Schedule) (capacity : Nat) : List SlotEdge :=
  SlotGraph.seat s (heaviest s capacity)

theorem search_finds : SlotGraph.Finds search := by
  intro stations start cap s hs capacity
  obtain ⟨-, H, -, h, rfl⟩ := Schedule.generate_eq_ok hs
  exact SlotGraph.heaviest_seat (generated_heaviest_best h start capacity)

theorem byMatching_eq_search (s : Schedule) (z : Sizing) :
    byMatching s z = ofMatching s z (search s z.perRound) := by
  have hindex : ∀ p ∈ heaviest s z.perRound, 0 ≤ p.1 := by
    intro p hp
    obtain ⟨q, -, rfl⟩ := List.mem_map.mp hp
    exact Int.natCast_nonneg _
  rw [byMatching, ofMatching, search, SlotGraph.readBack_seat hindex]

end Plan

namespace Planner

/-- A fault that escapes the process of this planner over one of the horizons of `n` rounds. -/
def Breaks (planner : Planner) (cell : Cell) (n : Nat) (f : Fault) : Prop :=
  ∃ find x process folder, planner = externalBy find x process folder ∧
    ∃ k : Nat, k * cell.horizonRounds < n ∧
      x.Escapes (process k) (Schedule.ofStations cell.stations (k * cell.horizonRounds)
        cell.horizonRounds) cell.sizing f

/-- The planners that a configuration can ask for, around any search for heaviest matchings. -/
inductive Stock : Planner → Prop
  | matching {find : Nat → Schedule → Nat → List SlotEdge} (hfind : ∀ k, SlotGraph.Finds (find k)) :
    Stock (matchingBy find)
  | external {find : Nat → Schedule → Nat → List SlotEdge} (hfind : ∀ k, SlotGraph.Finds (find k))
    (x : External) (process : Nat → List String → List String → ProcessOutcome)
    (folder : Nat → Folder) : Stock (externalBy find x process folder)

theorem matching_eq : matching = matchingBy fun _ => Plan.search := by
  simp only [matching, matchingBy, Plan.byMatching_eq_search]

theorem external_eq (x : External) (process : Nat → List String → List String → ProcessOutcome)
    (folder : Nat → Folder) :
    external x process folder = externalBy (fun _ => Plan.search) x process folder := by
  simp only [external, externalBy, External.plan, Plan.byMatching_eq_search]

theorem stock_matching : Stock matching :=
  matching_eq ▸ .matching fun _ => Plan.search_finds

theorem stock_external (x : External)
    (process : Nat → List String → List String → ProcessOutcome) (folder : Nat → Folder) :
    Stock (external x process folder) :=
  external_eq x process folder ▸ .external (fun _ => Plan.search_finds) x process folder

end Planner

namespace Course

variable {c : Course} {cell : Cell} {planner : Planner} {f : Fault}
  {find : Nat → Schedule → Nat → List SlotEdge} {k : Nat}

def Honest (c : Course) : Prop :=
  ∀ k : Nat, ∃ answer,
    c.planner.reply k (c.scheduleOf k) c.cell.sizing = .ofExcept answer ∧
      ∀ p, answer = .ok p → p.Sound (c.scheduleOf k) c.cell.sizing

theorem ofExcept_eq_plan {answer : Except Fault Plan} {p : Plan}
    (h : Reply.ofExcept answer = .plan p) : answer = .ok p := by
  unfold Reply.ofExcept at h
  split at h
  · rw [Reply.plan.inj h]
  · cases h
  · cases h

theorem ofExcept_eq_raise {answer : Except Fault Plan} (h : Reply.ofExcept answer = .raise f) :
    answer = .error f ∧ ∀ cause, f ≠ .solve cause := by
  unfold Reply.ofExcept at h
  split at h
  · cases h
  · cases h
  · rename_i fault hnot
    obtain rfl := Reply.raise.inj h
    exact ⟨rfl, hnot⟩

theorem Honest.answers (h : c.Honest) : c.Answers := by
  intro k _
  obtain ⟨answer, hreply, -⟩ := h k
  rw [hreply]
  unfold Reply.ofExcept
  split
  · exact Or.inl ⟨_, rfl⟩
  · exact Or.inr (Or.inl ⟨_, rfl⟩)
  · exact Or.inr (Or.inr ⟨_, rfl⟩)

theorem Honest.sound (h : c.Honest) {p : Plan}
    (hp : c.planner.reply k (c.scheduleOf k) c.cell.sizing = .plan p) :
    p.Sound (c.scheduleOf k) c.cell.sizing := by
  obtain ⟨answer, hreply, hsound⟩ := h k
  exact hsound p (ofExcept_eq_plan (hreply.symm.trans hp))

theorem Honest.feasible (h : c.Honest) : c.Feasible := by
  intro k m _ hm
  obtain ⟨p, hp, rfl⟩ := exists_plan_of_decision hm
  exact (h.sound hp).feasible

theorem finds_scheduleOf (hc : cell.Sound) (hfind : ∀ k, SlotGraph.Finds (find k))
    (planner : Planner) (n k : Nat) :
    SlotGraph.Heaviest ((Course.mk cell planner n).scheduleOf k) cell.sizing.perRound
      (find k ((Course.mk cell planner n).scheduleOf k) cell.sizing.perRound) :=
  hfind k _ _ _ _ (hc.schedule _ (Int.mul_nonneg (Int.natCast_nonneg k) hc.horizon.pos.le)) _

theorem matchingBy_exact (hc : cell.Sound) (hfind : ∀ k, SlotGraph.Finds (find k)) (n : Nat) :
    (Course.mk cell (Planner.matchingBy find) n).Exact :=
  fun k _ => ⟨_, finds_scheduleOf hc hfind _ n k, rfl⟩

theorem stock_honest (hc : cell.Sound) (h : planner.Stock) (n : Nat) :
    (Course.mk cell planner n).Honest := by
  intro k
  cases h with
  | @matching find hfind =>
    refine ⟨_, rfl, fun p hp => ?_⟩
    obtain ⟨p', hp', hsound⟩ :=
      Plan.ofMatching_sound hc.horizon (finds_scheduleOf hc hfind (Planner.matchingBy find) n k)
    obtain rfl := Except.ok.inj (hp'.symm.trans hp)
    exact hsound
  | @external find hfind x process folder =>
    have hM := finds_scheduleOf hc hfind (Planner.externalBy find x process folder) n k
    exact ⟨_, rfl, fun p hp => External.planOr_sound hc.horizon
      (Plan.ofMatching_sound hc.horizon hM) hp⟩

/-- A planner that never calls back and keeps to windows and capacity. -/
structure Trusted (c : Course) : Prop where
  answers : c.Answers
  feasible : c.Feasible

theorem Honest.trusted (h : c.Honest) : c.Trusted := ⟨h.answers, h.feasible⟩

theorem trusted_of_stock (hc : cell.Sound) {n : Nat}
    (h : planner.Stock ∨ (Course.mk cell planner n).Trusted) : (Course.mk cell planner n).Trusted :=
  h.elim (fun hstock => (stock_honest hc hstock n).trusted) id

theorem externalBy_raised (hc : cell.Sound) (hfind : ∀ k, SlotGraph.Finds (find k)) {x : External}
    {process : Nat → List String → List String → ProcessOutcome} {folder : Nat → Folder} {n : Nat}
    (h : (Course.mk cell (Planner.externalBy find x process folder) n).Raised f) :
    ∃ k : Nat, k * cell.horizonRounds < n ∧
      x.Escapes (process k) (Schedule.ofStations cell.stations (k * cell.horizonRounds)
        cell.horizonRounds) cell.sizing f := by
  obtain ⟨k, hk, hreply⟩ := h
  obtain ⟨herror, hnot⟩ := ofExcept_eq_raise hreply
  have hM := finds_scheduleOf hc hfind (Planner.externalBy find x process folder) n k
  rcases External.planOr_error hc.horizon (Plan.ofMatching_sound hc.horizon hM)
    (Int.mul_nonneg (Int.natCast_nonneg k) hc.horizon.pos.le) herror with ⟨-, cause, rfl⟩ | hescapes
  · exact absurd rfl (hnot cause)
  · exact ⟨k, hk, hescapes⟩

theorem breaks_of_raised (hc : cell.Sound) (h : planner.Stock) {n : Nat}
    (hraised : (Course.mk cell planner n).Raised f) : planner.Breaks cell n f := by
  cases h with
  | matching hfind =>
    exact absurd hraised (((matchingBy_exact hc hfind n).respected hc).settles.not_raised f)
  | external hfind x process folder =>
    exact ⟨_, x, process, folder, rfl, externalBy_raised hc hfind hraised⟩

end Course

end Downlink
