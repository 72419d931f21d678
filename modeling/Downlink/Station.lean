import Downlink.Fault

/-!
Stations with periodic deadline-constrained downlink traffic. All times are in rounds: a packet
arrives every `period` rounds, must be sent at most `deadline` rounds later, and costs `penalty`
when it is dropped.
-/

namespace Downlink

structure Station where
  id : Int
  period : Int
  deadline : Int
  penalty : Int
  deriving DecidableEq, Repr

namespace Station

def check (s : Station) : Except Fault Unit :=
  if s.id < 0 then .error (.showing [s.id] (.setup (.negativeStation s.id)))
  else if s.period < 1 then
    .error (.showing [s.id, s.period] (.setup (.shortPeriod s.id s.period)))
  else if s.deadline < 0 then
    .error (.showing [s.id, s.deadline] (.setup (.negativeDeadline s.id s.deadline)))
  else if s.penalty < 0 then
    .error (.showing [s.id, s.penalty] (.setup (.negativePenalty s.id s.penalty)))
  else .ok ()

structure Valid (s : Station) : Prop where
  id : 0 ≤ s.id
  period : 1 ≤ s.period
  deadline : 0 ≤ s.deadline
  penalty : 0 ≤ s.penalty

theorem check_eq_ok_iff {s : Station} : s.check = .ok () ↔ s.Valid := by
  unfold check
  constructor
  · intro h
    split at h
    · cases h
    split at h
    · cases h
    split at h
    · cases h
    split at h
    · cases h
    exact ⟨by omega, by omega, by omega, by omega⟩
  · rintro ⟨h₁, h₂, h₃, h₄⟩
    rw [if_neg (by omega), if_neg (by omega), if_neg (by omega), if_neg (by omega)]

def checkFrom (seen : List Int) : List Station → Except Fault Unit
  | [] => .ok ()
  | s :: rest =>
    match s.check with
    | .error e => .error e
    | .ok () =>
      if s.id ∈ seen then .error (.showing [s.id] (.setup (.repeatedStation s.id)))
      else checkFrom (s.id :: seen) rest

def checkAll : List Station → Except Fault Unit
  | [] => .error (.setup .noStations)
  | s :: rest => checkFrom [] (s :: rest)

/-- The stations in id order; stations of one id keep their order. -/
def inOrder (stations : List Station) : List Station :=
  stations.mergeSort fun a b => a.id ≤ b.id

def longestDeadline (stations : List Station) : Int :=
  stations.foldl (fun m s => max m s.deadline) 0

end Station

end Downlink
