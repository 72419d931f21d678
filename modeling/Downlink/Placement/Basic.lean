import Downlink.Total

/-!
Jobs of unit length on rounds of limited capacity. A job may be done in any round of its window and
brings its weight when it is done; a placement gives rounds to some of the jobs. `augment` makes
room for one more job along a chain of moves, and `best` takes the jobs by decreasing weight, each
when there is room, which is optimal for every number of jobs at once.
-/

namespace Downlink

structure Job where
  low : Int
  high : Int
  weight : Int
  deriving DecidableEq, Repr

namespace Job

def rounds (j : Job) : List Int :=
  (List.range (j.high - j.low + 1).toNat).map fun k => j.low + Int.ofNat k

theorem mem_rounds {j : Job} {r : Int} : r ∈ j.rounds ↔ j.low ≤ r ∧ r ≤ j.high := by
  simp only [rounds, List.mem_map, List.mem_range]
  constructor
  · rintro ⟨k, hk, rfl⟩
    simp only [Int.ofNat_eq_natCast]
    omega
  · rintro ⟨h₁, h₂⟩
    exact ⟨(r - j.low).toNat, by omega, by simp only [Int.ofNat_eq_natCast]; omega⟩

end Job

abbrev Placement := List (Nat × Int)

namespace Placement

def load (m : Placement) (r : Int) : Nat := m.countP fun p => p.2 = r

def jobsIn (m : Placement) (r : Int) : List Nat := (m.filter fun p => p.2 = r).map Prod.fst

def remove (m : Placement) (job : Nat) : Placement := m.filter fun p => p.1 ≠ job

def place (m : Placement) (job : Nat) (r : Int) : Placement := (job, r) :: m

def served (m : Placement) : List Nat := m.map Prod.fst

def sort (m : Placement) : Placement := m.mergeSort fun a b => a.1 ≤ b.1

def firstSuccess {α σ β : Type} (attempt : α → σ → Except σ β) : List α → σ → Except σ β
  | [], s => .error s
  | a :: rest, s =>
    match attempt a s with
    | .ok b => .ok b
    | .error s => firstSuccess attempt rest s

/-- Makes room for a job that is not placed: a round of its window with a free place, or one whose
job can move on. Rounds seen before are not tried again, and a failure returns all rounds seen. -/
def augment (jobs : Nat → List Int) (capacity : Nat) :
    Nat → Placement → Nat → List Int → Except (List Int) Placement
  | 0, _, _, seen => .error seen
  | fuel + 1, m, job, seen =>
    firstSuccess (fun r seen =>
      if r ∈ seen then .error seen
      else if m.load r < capacity then .ok (m.place job r)
      else firstSuccess (fun other seen =>
        match augment jobs capacity fuel (m.remove other) other seen with
        | .ok m => .ok (m.place job r)
        | .error seen => .error seen) (m.jobsIn r) (r :: seen))
      (jobs job) seen

/-- Adds a job if there is room; each move of a chain takes one placed job away, which bounds its
length. -/
def extend (jobs : Nat → List Int) (capacity : Nat) (m : Placement) (job : Nat) : Placement :=
  match augment jobs capacity (m.length + 1) m job [] with
  | .ok m => m
  | .error _ => m

def choose (jobs : Nat → List Int) (capacity limit : Nat) : List Nat → Placement → Placement
  | [], m => m
  | job :: rest, m =>
    if limit ≤ m.length then m
    else choose jobs capacity limit rest (extend jobs capacity m job)

def byWeight (jobs : List Job) : List (Nat × Job) :=
  (jobs.zipIdx.map fun p => (p.2, p.1)).mergeSort fun a b => b.2.weight ≤ a.2.weight

def roundsOf (jobs : Array Job) (i : Nat) : List Int := ((jobs[i]?).map Job.rounds).getD []

/-- The heaviest placement of at most `limit` of the jobs that `admits` lets through, by position.
-/
def best (jobs : List Job) (capacity limit : Nat) (admits : Job → Bool) : Placement :=
  let order := ((byWeight jobs).filter fun p => admits p.2).map Prod.fst
  (choose (roundsOf jobs.toArray) capacity limit order []).sort

def weightOf (jobs : List Job) (i : Nat) : Int := ((jobs[i]?).map Job.weight).getD 0

def weight (jobs : List Job) (m : Placement) : Int := total (m.served.map (weightOf jobs))

end Placement

end Downlink
