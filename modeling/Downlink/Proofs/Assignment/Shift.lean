import Downlink.Proofs.Assignment.OnArrival

/-!
# Shifted horizons

Two horizons of the same stations differ by a shift of all rounds. A shift keeps indices, windows
and loads, so that it takes a feasible assignment to a feasible one of the same weight and length.
So best assignments save as much and serve as many packets in one horizon as in any other, although
they need not serve the same ones.
-/

namespace Downlink

variable {stations : List Station} {start H δ : Int} {s : Schedule} {e : Entry}

def Entry.shift (δ : Int) (e : Entry) : Entry :=
  { e with arrival := e.arrival + δ, deadline := e.deadline + δ }

namespace Schedule

def shift (δ : Int) (s : Schedule) : Schedule :=
  { s with start := s.start + δ, entries := s.entries.map (Entry.shift δ) }

theorem shift_neg_shift (s : Schedule) (δ : Int) : (s.shift δ).shift (-δ) = s := by
  have hentry : Entry.shift (-δ) ∘ Entry.shift δ = id := by
    funext e
    simp [Entry.shift]
  simp [shift, hentry]

theorem stationPackets_shift (start H δ : Int) (t : Station) :
    stationPackets (start + δ) H t = (stationPackets start H t).map (Entry.shift δ) := by
  rw [stationPackets_eq, stationPackets_eq, List.map_map]
  refine List.map_congr_left fun k _ => ?_
  simp only [Function.comp_apply, packet, Entry.shift, Entry.mk.injEq, and_true]
  omega

theorem runsFrom_shift (first : Nat) :
    runsFrom first (start + δ) H stations = runsFrom first start H stations := by
  induction stations generalizing first with
  | nil => rfl
  | cons t rest ih => simp [runsFrom, stationPackets_length, ih]

theorem ofStations_shift (stations : List Station) (start H δ : Int) :
    ofStations stations (start + δ) H = (ofStations stations start H).shift δ := by
  have hentries := funext (stationPackets_shift start H δ)
  simp [ofStations, shift, runsFrom_shift, List.map_flatMap, hentries]

theorem length_entries_shift (s : Schedule) (δ : Int) :
    (s.shift δ).entries.length = s.entries.length := by
  simp [shift]

theorem entryAt?_shift (s : Schedule) (δ i : Int) :
    (s.shift δ).entryAt? i = (s.entryAt? i).map (Entry.shift δ) := by
  simp only [entryAt?, shift, List.length_map, List.getElem?_map]
  split_ifs <;> rfl

theorem clip_shift (s : Schedule) (e : Entry) (δ : Int) :
    (s.shift δ).clip (e.shift δ) = ((s.clip e).1 + δ, (s.clip e).2 + δ) := by
  simp only [clip, stop, shift, Entry.shift, Prod.mk.injEq]
  omega

theorem totalPenalty_shift (s : Schedule) (δ : Int) :
    (s.shift δ).totalPenalty = s.totalPenalty := by
  rw [totalPenalty, totalPenalty, shift, List.map_map]
  rfl

end Schedule

namespace Assignment

variable {m m' : Assignment} {capacity : Int}

def shift (δ : Int) (m : Assignment) : Assignment := m.map fun p => (p.1, p.2 + δ)

theorem map_fst_shift (m : Assignment) (δ : Int) : (m.shift δ).map Prod.fst = m.map Prod.fst := by
  rw [shift, List.map_map]
  rfl

theorem length_shift (m : Assignment) (δ : Int) : (m.shift δ).length = m.length := by
  simp [shift]

theorem rounds_shift (m : Assignment) (δ : Int) : (m.shift δ).rounds = m.rounds.map (· + δ) := by
  simp [shift, rounds]

theorem weight_shift (s : Schedule) (m : Assignment) (δ : Int) :
    (m.shift δ).weight (s.shift δ) = m.weight s := by
  rw [weight_eq, weight_eq, map_fst_shift]
  congr 1
  refine List.map_congr_left fun i _ => ?_
  rw [penaltyAt, penaltyAt, Schedule.entryAt?_shift, Option.map_map]
  rfl

theorem Distinct.shift (h : m.Distinct) (δ : Int) : (m.shift δ).Distinct := by
  rw [Distinct, map_fst_shift]
  exact h

theorem Feasible.shift (h : m.Feasible s capacity) (δ : Int) :
    (m.shift δ).Feasible (s.shift δ) capacity where
  index p hp := by
    obtain ⟨q, hq, rfl⟩ := List.mem_map.mp hp
    simpa [Schedule.shift] using h.index q hq
  window p hp x hx := by
    obtain ⟨q, hq, rfl⟩ := List.mem_map.mp hp
    rw [Schedule.entryAt?_shift] at hx
    obtain ⟨e, he, rfl⟩ := Option.map_eq_some_iff.mp hx
    obtain ⟨hlow, hhigh⟩ := h.window q hq e he
    rw [Schedule.clip_shift]
    exact ⟨Int.add_le_add_right hlow δ, Int.add_le_add_right hhigh δ⟩
  load r hr := by
    rw [rounds_shift] at hr ⊢
    obtain ⟨q, hq, rfl⟩ := List.mem_map.mp hr
    have hcount : (m.rounds.map (· + δ)).count (q + δ) = m.rounds.count q :=
      List.count_map_of_injective _ _ (add_left_injective δ) q
    rw [hcount]
    exact h.load q hq

theorem Best.ge_of_shift (hd : m.Distinct) (hf : m.Feasible s capacity)
    (hb : Best (s.shift δ) capacity m') : m.weight s ≤ m'.weight (s.shift δ) ∧
      (m.weight s = m'.weight (s.shift δ) → m.length ≤ m'.length) := by
  rw [← weight_shift s m δ, ← length_shift m δ]
  exact ⟨hb.heaviest _ (hd.shift δ) (hf.shift δ), hb.fullest _ (hd.shift δ) (hf.shift δ)⟩

theorem Best.shift_eq (hb : Best s capacity m) (hb' : Best (s.shift δ) capacity m') :
    m'.weight (s.shift δ) = m.weight s ∧ m'.length = m.length := by
  obtain ⟨hle, hfull⟩ := Best.ge_of_shift hb.distinct hb.feasible hb'
  have hback : Best ((s.shift δ).shift (-δ)) capacity m := by rwa [Schedule.shift_neg_shift]
  obtain ⟨hge, hfull'⟩ := Best.ge_of_shift hb'.distinct hb'.feasible hback
  rw [Schedule.shift_neg_shift] at hge hfull'
  have hweight := le_antisymm hge hle
  exact ⟨hweight, le_antisymm (hfull' hweight) (hfull hweight.symm)⟩

end Assignment

end Downlink
