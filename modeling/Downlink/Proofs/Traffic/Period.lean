import Downlink.Proofs.Assignment.Check
import Downlink.Proofs.Traffic.Horizon

/-!
# The period of the traffic

A station emits in the rounds that its period divides, and every station emits in round zero, so the
traffic repeats after `T` rounds exactly if every period divides `T`. The length of a horizon is the
least such `T`. Above the cap it is refused, by a message that shows it; where it has too many
digits for that, this is the fault that is raised.
-/

namespace Downlink

variable {stations : List Station} {H T cap : Int}

namespace Traffic

variable {tr : Traffic} {round : Int}

def emitters (tr : Traffic) (round : Int) : List Int := (tr.emitted round).map Packet.station

/-- In every round the same stations emit as `T` rounds later; `tr r` is the traffic before round
`r`. -/
def Repeats (tr : Int → Traffic) (T : Int) : Prop :=
  ∀ r, 0 ≤ r → ∀ id, id ∈ (tr r).emitters r ↔ id ∈ (tr (r + T)).emitters (r + T)

theorem emitters_eq (h : Generates stations tr) (round : Int) :
    tr.emitters round = (dueIn stations round).map Station.id := by
  have hentries := congrArg (List.map Entry.station) (emitted_entries h round)
  rw [List.map_map, List.map_map] at hentries
  exact hentries

theorem mem_emitters (h : Generates stations tr) {id : Int} :
    id ∈ tr.emitters round ↔ ∃ s ∈ stations, s.period ∣ round ∧ s.id = id := by
  rw [emitters_eq h]
  simp only [List.mem_map, mem_dueIn, Int.dvd_iff_emod_eq_zero, and_assoc]

theorem mem_emitters_of_mem (hr : Station.Roster stations) (h : Generates stations tr)
    {s : Station} (hs : s ∈ stations) : s.id ∈ tr.emitters round ↔ s.period ∣ round := by
  rw [mem_emitters h]
  constructor
  · rintro ⟨t, ht, hdvd, hid⟩
    rwa [← hr.id_inj ht hs hid]
  · exact fun hdvd => ⟨s, hs, hdvd, rfl⟩

theorem repeats_iff {tr : Int → Traffic} (hr : Station.Roster stations)
    (h : ∀ r, Generates stations (tr r)) : Repeats tr T ↔ ∀ s ∈ stations, s.period ∣ T := by
  constructor
  · intro hrep s hs
    -- every station emits in round zero
    have hzero := (mem_emitters_of_mem hr (h 0) hs).mpr (dvd_zero _)
    have hlater := (hrep 0 le_rfl s.id).mp hzero
    rwa [mem_emitters_of_mem hr (h (0 + T)) hs, zero_add] at hlater
  · intro hdvd r _ id
    rw [mem_emitters (h r), mem_emitters (h (r + T))]
    refine exists_congr fun s => and_congr_right fun hs => and_congr_left fun _ => ?_
    exact (Int.dvd_add_left (hdvd s hs)).symm

theorem repeats_iff_dvd {tr : Int → Traffic} (hc : Station.checkAll stations = .ok ())
    (hH : lcmOfPeriods (stations.map Station.period) = .ok H)
    (h : ∀ r, Generates (Station.inOrder stations) (tr r)) : Repeats tr T ↔ H ∣ T := by
  obtain ⟨hne, hv, hd⟩ := Station.checkAll_eq_ok_iff.mp hc
  rw [repeats_iff (Station.roster_inOrder hne hv hd) h, lcmOfPeriods_dvd_iff hH,
    List.forall_mem_map]
  exact forall_congr' fun s => by rw [Station.mem_inOrder]

end Traffic

theorem lcmOfPeriods_of_checkAll (hc : Station.checkAll stations = .ok ()) :
    ∃ H, lcmOfPeriods (stations.map Station.period) = .ok H := by
  obtain ⟨hne, hv, -⟩ := Station.checkAll_eq_ok_iff.mp hc
  refine ⟨_, lcmOfPeriods_eq_ok_iff.mpr ⟨by simpa using hne, ?_, rfl⟩⟩
  exact List.forall_mem_map.mpr fun s hs => (hv s hs).period

theorem horizonLength_eq_error_iff {f : Fault}
    (hH : lcmOfPeriods (stations.map Station.period) = .ok H) :
    horizonLength stations cap = .error f ↔ cap < H ∧
      Fault.showing (H :: cap :: stations.map Station.period)
        (.setup (.horizonTooLong (stations.map Station.period) H cap)) = f := by
  by_cases hlt : cap < H
  · simp only [horizonLength, hH, hlt, if_true, Except.error.injEq, true_and]
  · rw [horizonLength_eq_ok_iff.mpr ⟨hH, not_lt.mp hlt⟩]
    exact iff_of_false (fun he => by cases he) fun h => hlt h.1

/-- The length is given if the traffic repeats within the cap. Otherwise it is refused as too long,
if all that the refusal shows can be written. -/
structure Capped (stations : List Station) (H cap : Int) (tr : Int → Traffic) : Prop where
  given : horizonLength stations cap = .ok H ↔ ∃ T, 1 ≤ T ∧ T ≤ cap ∧ Traffic.Repeats tr T
  refused : horizonLength stations cap =
      .error (.setup (.horizonTooLong (stations.map Station.period) H cap)) ↔
    (∀ T, 1 ≤ T → Traffic.Repeats tr T → cap < T) ∧
      ∀ i ∈ H :: cap :: stations.map Station.period, Text.isWritable i
  unwritable : horizonLength stations cap = .error (.value .tooManyDigits) ↔
    (∀ T, 1 ≤ T → Traffic.Repeats tr T → cap < T) ∧
      ∃ i ∈ H :: cap :: stations.map Station.period, Text.isWritable i = false

theorem capped {tr : Int → Traffic} (hH : lcmOfPeriods (stations.map Station.period) = .ok H)
    (hrep : ∀ T, Traffic.Repeats tr T ↔ H ∣ T) (cap : Int) : Capped stations H cap tr := by
  have hpos := (lcmOfPeriods_spec hH).1
  have hleast : (∀ T, 1 ≤ T → Traffic.Repeats tr T → cap < T) ↔ cap < H := by
    constructor
    · exact fun h => h H hpos ((hrep H).mpr dvd_rfl)
    · intro h T hT hT'
      exact h.trans_le (Int.le_of_dvd hT ((hrep T).mp hT'))
  have hwithin : (∃ T, 1 ≤ T ∧ T ≤ cap ∧ Traffic.Repeats tr T) ↔ H ≤ cap := by
    rw [← not_lt, ← hleast]
    push Not
    simp only [and_comm]
  have hne : Fault.setup (.horizonTooLong (stations.map Station.period) H cap) ≠
      .value .tooManyDigits := nofun
  refine ⟨?_, ?_, ?_⟩
  · rw [horizonLength_eq_ok_iff, hwithin]
    exact and_iff_right hH
  · rw [hleast, horizonLength_eq_error_iff hH, Fault.showing_eq_self_iff hne]
  · rw [hleast, horizonLength_eq_error_iff hH, Fault.showing_eq_unwritable_iff hne]

/-- The length of a horizon is the exact period of the traffic, whatever the traffic goes through
between two rounds: it depends only on which periods there are, and a cap below every period of the
traffic is what makes it too long. -/
theorem horizon_is_exact_period (hc : Station.checkAll stations = .ok ()) :
    ∃ H, lcmOfPeriods (stations.map Station.period) = .ok H ∧
      (∀ ps, (∀ p, p ∈ ps ↔ p ∈ stations.map Station.period) → lcmOfPeriods ps = .ok H) ∧
      ∀ tr : Int → Traffic, (∀ r, Traffic.Generates (Station.inOrder stations) (tr r)) →
        (∀ T, 1 ≤ T → (Traffic.Repeats tr T ↔ H ∣ T)) ∧ ∀ cap, Capped stations H cap tr := by
  obtain ⟨H, hH⟩ := lcmOfPeriods_of_checkAll hc
  refine ⟨H, hH, fun ps hps => lcmOfPeriods_of_same (fun p => (hps p).symm) hH, fun tr h => ?_⟩
  have hrep : ∀ T, Traffic.Repeats tr T ↔ H ∣ T := fun T => Traffic.repeats_iff_dvd hc hH h
  exact ⟨fun T _ => hrep T, fun cap => capped hH hrep cap⟩

theorem horizon_is_exact_period_three_stations :
    let stations : List Station := [⟨2, 4, 1, 10⟩, ⟨1, 6, 0, 5⟩, ⟨5, 4, 2, 1⟩]
    let tr : Int → Traffic := fun _ => Traffic.fresh (Station.inOrder stations)
    Station.checkAll stations = .ok () ∧
      Traffic.ofStations stations = .ok (tr 0) ∧
      (∀ r, Traffic.Generates (Station.inOrder stations) (tr r)) ∧
      lcmOfPeriods [6, 4] = .ok 12 ∧ Traffic.Repeats tr 24 ∧ ¬ Traffic.Repeats tr 6 ∧
      horizonLength stations 11 = .error (.setup (.horizonTooLong [4, 6, 4] 12 11)) := by
  intro stations tr
  have hc : Station.checkAll stations = .ok () := rfl
  obtain ⟨htr, hgen⟩ := Traffic.ofStations_of_checkAll hc
  obtain ⟨H, hH, hsame, hperiod⟩ := horizon_is_exact_period hc
  obtain ⟨hrep, hcapped⟩ := hperiod tr fun _ => hgen
  obtain rfl : H = 12 := by
    have hlcm : lcmOfPeriods (stations.map Station.period) = .ok 12 := rfl
    rw [hlcm] at hH
    exact (Except.ok.inj hH).symm
  refine ⟨hc, htr, fun _ => hgen, ?_, ?_, ?_, ?_⟩
  · exact hsame [6, 4] (by simp [stations])
  · exact (hrep 24 (by decide)).mpr (by decide)
  · exact fun h => absurd ((hrep 6 (by decide)).mp h) (by decide)
  · refine (hcapped 11).refused.mpr ⟨fun T hT hT' => ?_, by decide +kernel⟩
    have := Int.le_of_dvd hT ((hrep T hT).mp hT')
    omega

/-- Two periods that can be written, with a least common multiple that cannot: the traffic has no
period within the cap, but its length is not refused as too long. -/
theorem horizon_too_long_to_write :
    let stations : List Station := [⟨0, 10 ^ 2200, 0, 1⟩, ⟨1, 10 ^ 2200 + 1, 0, 1⟩]
    Station.checkAll stations = .ok () ∧ (∀ s ∈ stations, Text.isWritable s.period) ∧
      (∀ tr : Int → Traffic, (∀ r, Traffic.Generates (Station.inOrder stations) (tr r)) →
        ∀ T, 1 ≤ T → Traffic.Repeats tr T → 1024 < T) ∧
      horizonLength stations 1024 = .error (.value .tooManyDigits) := by
  have hlarge : (1024 : Int) < 10 ^ 2200 := by decide +kernel
  have hfirst : Text.isWritable (10 ^ 2200) := by decide +kernel
  have hsecond : Text.isWritable (10 ^ 2200 + 1) := by decide +kernel
  have hlong : Text.isWritable
      ([10 ^ 2200, 10 ^ 2200 + 1].foldl (fun a b => a * b / Int.gcd a b) 1) = false := by
    decide +kernel
  generalize (10 : Int) ^ 2200 = a at *
  intro stations
  have hvalid : ∀ s ∈ stations, s.Valid := by
    intro s hs
    simp only [stations, List.mem_cons, List.not_mem_nil, or_false] at hs
    rcases hs with rfl | rfl <;> constructor <;> dsimp only <;> omega
  have hc : Station.checkAll stations = .ok () :=
    Station.checkAll_eq_ok_iff.mpr ⟨by simp [stations], hvalid, by simp [stations]⟩
  obtain ⟨H, hH⟩ := lcmOfPeriods_of_checkAll hc
  have hcap : 1024 < H := by
    have hdvd : a ∣ H := (lcmOfPeriods_spec hH).2.1 a (by simp [stations])
    exact hlarge.trans_le (Int.le_of_dvd (lcmOfPeriods_spec hH).1 hdvd)
  have hvalue := (lcmOfPeriods_eq_ok_iff.mp hH).2.2
  refine ⟨hc, by simp [stations, hfirst, hsecond], fun tr h T hT hrep => ?_, ?_⟩
  · exact hcap.trans_le (Int.le_of_dvd hT ((Traffic.repeats_iff_dvd hc hH h).mp hrep))
  · exact (horizonLength_eq_error_iff hH).mpr
      ⟨hcap, Fault.showing_of_unwritable List.mem_cons_self (by rw [hvalue]; exact hlong) _⟩

end Downlink
