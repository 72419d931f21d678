import Downlink.Command.Placement
import Downlink.Proofs.Agreement
import Downlink.Proofs.Arguments.Reading
import Downlink.Proofs.Exchange.External

/-!
# The program behind the process

The command line that is written for a schedule is read by the integer program as the same instance:
the capacity of the sizing and the windows of the schedule, counted from its start. What the program
writes for an optimum is read back as a sound plan of the weight that the matching reaches. All this
is within the limit on digits.
-/

namespace Downlink

open Placement (Heaviest)

variable {stations : List Station} {start H cap width packets : Int} {pinned : Option RuType}
  {s : Schedule} {z : Sizing} {m : Placement}

theorem Sizing.perRoundAt_eq (h : Sizing.forPackets width packets pinned = .ok z) :
    RuType.perRoundAt z.totalTones z.typeIndex = .ok z.perRound ∧ 0 ≤ z.totalTones := by
  have hof : ∀ w t, Sizing.of w t = .ok z →
      RuType.perRoundAt z.totalTones z.typeIndex = .ok z.perRound ∧ 0 ≤ z.totalTones := by
    intro w t ht
    cases w <;> cases t <;> cases ht <;> exact ⟨rfl, by decide⟩
  rw [forPackets] at h
  split at h
  · cases h
  · exact hof _ _ h

namespace Schedule

theorem group_triples (s : Schedule) :
    Triple.group (s.entries.flatMap (Exchange.entryNumbers s.start)) = s.triples := by
  rw [triples]
  induction s.entries with
  | nil => rfl
  | cons e entries ih =>
    rw [List.flatMap_cons, List.map_cons, ← ih]
    rfl

theorem length_numbers (s : Schedule) :
    (s.entries.flatMap (Exchange.entryNumbers s.start)).length = 3 * s.entries.length := by
  induction s.entries with
  | nil => rfl
  | cons e entries ih =>
    rw [List.flatMap_cons, List.length_append, ih, List.length_cons]
    simp only [Exchange.entryNumbers, List.length_cons, List.length_nil]
    omega

theorem numbers_nonneg (h : Horizon stations H) (ht : 0 ≤ z.totalTones) :
    ∀ n ∈ Exchange.numbers (ofStations stations start H) z, 0 ≤ n := by
  have hentry : ∀ e ∈ (ofStations stations start H).entries,
      ∀ n ∈ Exchange.entryNumbers start e, 0 ≤ n := by
    intro e he
    obtain ⟨s, hs, he⟩ := List.mem_flatMap.mp he
    rw [stationPackets_eq] at he
    obtain ⟨k, -, rfl⟩ := List.mem_map.mp he
    have hv := h.roster.valid s hs
    have hk : 0 ≤ (k : Int) * s.period := Int.mul_nonneg (by omega) (by have := hv.period; omega)
    have hd := hv.deadline
    have hp := hv.penalty
    simp only [Exchange.entryNumbers, packet, List.forall_mem_cons, List.not_mem_nil, false_imp_iff,
      implies_true, and_true]
    omega
  intro n hn
  rcases List.mem_append.mp hn with hn | hn
  · have hH := h.pos
    simp only [List.mem_cons, List.not_mem_nil, or_false] at hn
    rcases hn with rfl | rfl | rfl | rfl
    · exact hH.le
    · omega
    · omega
    · exact ht
  · obtain ⟨e, he, hn⟩ := List.mem_flatMap.mp hn
    exact hentry e he n hn

end Schedule

namespace Command

open Arguments

def single : List Positional := Instance.positionals.take 4

def packetWords : Positional := ⟨"schedule", .whole, true⟩

theorem numeric : Numeric IntegerProgram.grammar single packetWords :=
  ⟨rfl, by decide, rfl, by decide, by decide⟩

theorem wholes_whole (r : Reading) (name : String) (ns : List Int)
    (h : r.given? name = some (ns.map Content.whole)) : r.wholes name = ns := by
  rw [Reading.wholes, h, Option.getD_some, List.filterMap_map]
  exact List.filterMap_some

def reading (s : Schedule) (z : Sizing) : Reading :=
  ⟨[], given single packetWords [s.rounds, s.entries.length, z.typeIndex, z.totalTones]
    (s.entries.flatMap (Exchange.entryNumbers s.start)), []⟩

theorem ofReading_reading (hz : Sizing.forPackets width packets pinned = .ok z) (s : Schedule) :
    Instance.ofReading (reading s z) = .ok ⟨s.rounds, s.entries.length, z.perRound, s.triples⟩ := by
  have hrounds : (reading s z).whole? "rounds" = some s.rounds := by
    rw [Reading.whole?, wholes_whole _ _ [s.rounds] rfl]
    rfl
  have hpackets : (reading s z).whole? "packets" = some (s.entries.length : Int) := by
    rw [Reading.whole?, wholes_whole _ _ [(s.entries.length : Int)] rfl]
    rfl
  have hindex : (reading s z).whole? "ru_type_index" = some (z.typeIndex : Int) := by
    rw [Reading.whole?, wholes_whole _ _ [(z.typeIndex : Int)] rfl]
    rfl
  have htones : (reading s z).whole? "total_tones" = some z.totalTones := by
    rw [Reading.whole?, wholes_whole _ _ [z.totalTones] rfl]
    rfl
  have hvalues : (reading s z).wholes "schedule" =
      s.entries.flatMap (Exchange.entryNumbers s.start) := wholes_whole _ _ _ rfl
  have htriples : Triple.ofValues (s.entries.flatMap (Exchange.entryNumbers s.start))
      s.entries.length = .ok s.triples := by
    rw [Triple.ofValues, if_pos (by rw [s.length_numbers]; omega), s.group_triples]
  rw [Instance.ofReading, hrounds, hpackets, hindex, htones, hvalues]
  simp only [need, (Sizing.perRoundAt_eq hz).1, htriples, bind, Except.bind]

theorem read_arguments (hz : Sizing.forPackets width packets pinned = .ok z)
    (h : Horizon stations H)
    (hw : ∀ i ∈ Exchange.numbers (Schedule.ofStations stations start H) z, Text.isWritable i) :
    Exchange.arguments (Schedule.ofStations stations start H) z =
        .ok ((Exchange.numbers (Schedule.ofStations stations start H) z).map Text.decimal) ∧
      IntegerProgram.grammar.read
          ((Exchange.numbers (Schedule.ofStations stations start H) z).map Text.decimal) =
        .ok (reading (Schedule.ofStations stations start H) z) := by
  constructor
  · exact if_pos (List.all_eq_true.mpr hw)
  · exact read_numbers numeric rfl fun n hn =>
      ⟨Schedule.numbers_nonneg h (Sizing.perRoundAt_eq hz).2 n hn, hw n hn⟩

namespace IntegerProgram

def processBy (solve : Option Float → Int → Int → List Triple → Except Fault Placement)
    (words : List String) : ProcessOutcome :=
  outcome (runBy solve words)

theorem process_eq : process = processBy (Program.solve MipBackend.all) := rfl

theorem processBy_finished
    {solve : Option Float → Int → Int → List Triple → Except Fault Placement}
    {words : List String} {r : Reading} {i : Instance} (hr : grammar.read words = .ok r)
    (hi : Instance.ofReading r = .ok i) (ht : r.real? "--time_limit_s" = none)
    (ho : r.text? "--output" = none) (hm : solve none i.rounds i.capacity i.triples = .ok m)
    (hv : Text.isWritable (Program.value i.rounds i.triples m)) :
    processBy solve words = .finished 0 "" (some (Exchange.written (Plan.assigned m))) := by
  have hdoc : ∀ d, document outputFile d = .ok (outputFile, d) := fun d => rfl
  rw [processBy, runBy, withInstance, hr]
  dsimp only
  rw [hi]
  dsimp only
  rw [ht, hm, answer, ho, Option.getD_none, report, hdoc, Except.bind, printing, if_pos hv]
  rfl

end IntegerProgram

end Command

section ReadBack

variable (h : Horizon stations H)
  (hw : ∀ i ∈ Exchange.numbers (Schedule.ofStations stations start H) z, Text.isWritable i)
  (hm : Heaviest (Program.jobs H (Schedule.ofStations stations start H).triples) z.perRound m)

include hm

theorem fits_schedule : Placement.Fits (Plan.jobs (Schedule.ofStations stations start H)) z.perRound
    (Placement.shift start m) := by
  have hfits := (Plan.jobs_shifted (Schedule.ofStations stations start H)).symm.fits hm.fits
  rwa [Int.neg_neg] at hfits

theorem bounds_of_mem {q : Nat × Int} (hq : q ∈ m) :
    q.1 < (Schedule.ofStations stations start H).entries.length ∧ 0 ≤ q.2 ∧ q.2 < H := by
  obtain ⟨j, hj, hlow, hhigh⟩ := hm.fits.job (i := q.1) (r := q.2) hq
  rw [Program.jobs, Schedule.triples, List.map_map, List.getElem?_map] at hj
  obtain ⟨e, he, rfl⟩ := Option.map_eq_some_iff.mp hj
  have hlt := (List.getElem?_eq_some_iff.mp he).1
  simp only [Function.comp_apply, Triple.job] at hlow hhigh
  omega

include h hw

theorem readBack_optimum :
    ∃ p, External.readBack (Schedule.ofStations stations start H) z
        ⟨some (Exchange.written (Plan.assigned m))⟩ = .ok p ∧
      p.Sound (Schedule.ofStations stations start H) z ∧
      p.totalWeight =
        Placement.weight (Program.jobs H (Schedule.ofStations stations start H).triples) m := by
  have hfits := fits_schedule hm
  have hd := Plan.assigned_distinct hfits.distinct
  have hf := Plan.assigned_feasible hfits
  have hsmall : ∀ k n : Int, n ∈ Exchange.numbers (Schedule.ofStations stations start H) z →
      0 ≤ k → k < n → Text.isWritable k := fun k n hn hk hlt =>
    Text.isWritable_mono hk hlt.le (hw n hn)
  have hparse : Exchange.parse (Exchange.written (Plan.assigned m)).toList
      (Schedule.ofStations stations start H).entries.length start =
        .ok ((Plan.assigned m).map (Exchange.shift start)) := by
    refine Exchange.parse_written (Plan.assigned_distinct hm.fits.distinct) ?_ ?_
    · intro p hp
      obtain ⟨q, hq, rfl⟩ := List.mem_map.mp hp
      have := (bounds_of_mem hm hq).1
      simp only [Int.ofNat_eq_natCast]
      omega
    · intro p hp
      obtain ⟨q, hq, rfl⟩ := List.mem_map.mp hp
      obtain ⟨hi, h₀, hlt⟩ := bounds_of_mem hm hq
      exact ⟨hsmall _ _ External.mem_numbers_length (Int.natCast_nonneg _) (Int.ofNat_lt.mpr hi),
        hsmall _ H (by simp [Exchange.numbers, Schedule.ofStations]) h₀ hlt⟩
  have hshift : (Plan.assigned m).map (Exchange.shift start) =
      Plan.assigned (Placement.shift start m) := by
    rw [Plan.assigned, Plan.assigned, Placement.shift, List.map_map, List.map_map]
    rfl
  have hok := Plan.finish_ok h External.name hd hf
  have hweight := Assignment.redeal_weight h hd hf.index
  refine ⟨_, ?_, Plan.finish_sound h hd hf.index hok, ?_⟩
  · rw [External.readBack]
    dsimp only
    rw [show (Schedule.ofStations stations start H).start = start from rfl, hparse, hshift]
    exact hok
  · dsimp only
    rw [hweight, Plan.assigned_weight]
    have := (Plan.jobs_shifted (Schedule.ofStations stations start H)).symm.weight_eq m
    rwa [Int.neg_neg] at this

end ReadBack

/-- What becomes of a solver's answer on its way through the text: a sound plan of the weight that
every heaviest matching has. The program itself ends well if it can print that weight. -/
structure Recovered (s : Schedule) (z : Sizing)
    (solve : Option Float → Int → Int → List Triple → Except Fault Placement) (p : Plan) :
    Prop where
  read : ∃ m, solve none s.rounds z.perRound s.triples = .ok m ∧
    External.readBack s z ⟨some (Exchange.written (Plan.assigned m))⟩ = .ok p
  sound : p.Sound s z
  weight : ∀ M, SlotGraph.Heaviest s z.perRound M →
    ∃ q, Plan.ofMatching s z M = .ok q ∧ p.totalWeight = q.totalWeight
  planned : Text.isWritable p.totalWeight → ∀ (x : External) (folder : Folder),
    x.plan (fun _ => Command.IntegerProgram.processBy solve) folder s z = .ok p

theorem recovered_of_heaviest
    (solve : Option Float → Int → Int → List Triple → Except Fault Placement)
    (h : Horizon stations H) (hz : Sizing.forPackets width packets pinned = .ok z)
    (hw : ∀ i ∈ Exchange.numbers (Schedule.ofStations stations start H) z, Text.isWritable i)
    (hsolve : solve none H z.perRound (Schedule.ofStations stations start H).triples = .ok m)
    (hm : Heaviest (Program.jobs H (Schedule.ofStations stations start H).triples) z.perRound m) :
    ∃ p, Recovered (Schedule.ofStations stations start H) z solve p := by
  obtain ⟨p, hp, hsound, hweight⟩ := readBack_optimum h hw hm
  obtain ⟨hargs, hread⟩ := Command.read_arguments hz h hw
  refine ⟨p, ⟨m, hsolve, hp⟩, hsound, fun M hM => ?_, fun hv x folder => ?_⟩
  · obtain ⟨q, hq, hqw⟩ := Plan.ofMatching_totalWeight (z := z) h hm hM
    exact ⟨q, hq, hweight.trans hqw.symm⟩
  · have hprocess := Command.IntegerProgram.processBy_finished (m := m) hread
      (Command.ofReading_reading hz _) rfl rfl hsolve (by rwa [hweight] at hv)
    rw [External.plan, External.planOr_eq hargs, hprocess]
    have hjudge : x.judge (Schedule.ofStations stations start H) z folder
        (.finished 0 "" (some (Exchange.written (Plan.assigned m)))) = .ok p := hp
    rw [hjudge]
    rfl

/-- Within the limit on digits nothing is lost between a schedule and an exact solver behind the
integer program: neither the capacity and the windows on the way there nor, on the way back, a map
of the weight that the matching reaches. -/
theorem process_loses_nothing (hg : Schedule.generate stations start cap = .ok s)
    (hz : Sizing.forPackets width packets pinned = .ok z)
    (hw : ∀ i ∈ Exchange.numbers s z, Text.isWritable i)
    {mip : BinaryProgram (Nat × Int) → Except Int (Nat × Int → Bool)}
    (hmip : (Program.build s.rounds z.perRound s.triples).Answers
      (mip (Program.build s.rounds z.perRound s.triples))) :
    (∃ words r, Exchange.arguments s z = .ok words ∧
      Command.IntegerProgram.grammar.read words = .ok r ∧
      Command.Instance.ofReading r = .ok ⟨s.rounds, s.entries.length, z.perRound, s.triples⟩ ∧
      s.triples.map (Triple.job s.rounds) = s.entries.map fun e =>
        ⟨(s.clip e).1 - s.start, (s.clip e).2 - s.start, e.penalty⟩) ∧
      (∃ p, Recovered s z (fun _ => Program.solveBy mip) p) ∧
      ∃ p, Recovered s z (Program.solve MipBackend.all) p := by
  obtain ⟨-, H, -, h, rfl⟩ := Schedule.generate_eq_ok hg
  have hc : (0 : Int) ≤ z.perRound := Int.natCast_nonneg _
  refine ⟨?_, ?_, ?_⟩
  · obtain ⟨hargs, hread⟩ := Command.read_arguments hz h hw
    refine ⟨_, _, hargs, hread, Command.ofReading_reading hz _, ?_⟩
    rw [Schedule.triples, List.map_map]
    apply List.map_congr_left
    intro e _
    simp only [Function.comp_apply, Triple.job, Schedule.clip, Schedule.stop, Job.mk.injEq,
      and_true]
    omega
  · obtain ⟨m, hsolve, hm⟩ := Program.solveBy_heaviest hc hmip
    rw [Int.toNat_natCast] at hm
    exact recovered_of_heaviest (fun _ => Program.solveBy mip) h hz hw hsolve hm
  · obtain ⟨m, hsolve, hm⟩ : ∃ m, Program.optimum H z.perRound
        (Schedule.ofStations (Station.inOrder stations) start H).triples = .ok m ∧ _ :=
      Program.optimum_heaviest hc
    rw [Int.toNat_natCast] at hm
    exact recovered_of_heaviest (Program.solve MipBackend.all) h hz hw hsolve hm

theorem process_loses_nothing_two_stations :
    let stations : List Station := [⟨1, 1, 1, 5⟩, ⟨2, 2, 0, 9⟩]
    let z : Sizing := ⟨.mhz20, .tones242, 1, 3, 242⟩
    let s := Schedule.ofStations stations 4 2
    let mip : BinaryProgram (Nat × Int) → Except Int (Nat × Int → Bool) := fun _ => .ok (· ∈
      Placement.best (Program.jobs 2 s.triples) 1 (Program.jobs 2 s.triples).length
        fun j => 0 < j.weight)
    Schedule.generate stations 4 1024 = .ok s ∧ Sizing.forPackets 20 3 (some .tones242) = .ok z ∧
      (∀ i ∈ Exchange.numbers s z, Text.isWritable i) ∧
      (Program.build 2 1 s.triples).Answers (mip (Program.build 2 1 s.triples)) ∧
      (∃ p, Recovered s z (fun _ => Program.solveBy mip) p) ∧
      ∃ p, Recovered s z (Program.solve MipBackend.all) p := by
  intro stations z s mip
  have horder : Station.inOrder stations = stations := List.mergeSort_of_pairwise (by decide)
  have hg : Schedule.generate stations 4 1024 = .ok s := by
    rw [Schedule.generate, horder]
    rfl
  have hw : ∀ i ∈ Exchange.numbers s z, Text.isWritable i := by decide +kernel
  have hmip : (Program.build 2 1 s.triples).Answers (mip (Program.build 2 1 s.triples)) :=
    Program.optimum_of_heaviest (by decide) (Placement.heaviest_best (Program.jobs 2 s.triples) 1)
  have hz : Sizing.forPackets 20 3 (some .tones242) = .ok z := rfl
  exact ⟨hg, hz, hw, hmip, (process_loses_nothing hg hz hw hmip).2⟩

/-- A deadline that can still be written, and that for a later packet of the station cannot: the
solver is not even called, although the schedule has a plan. -/
theorem process_not_called :
    let stations : List Station :=
      [⟨1, 1, 10 ^ Text.digitLimit - 1, 5⟩, ⟨2, 1, 0, 9⟩, ⟨3, 2, 0, 1⟩]
    let z : Sizing := ⟨.mhz40, .tones242, 2, 3, 484⟩
    ∃ s, Schedule.generate stations 0 1024 = .ok s ∧
      Sizing.forPackets 40 s.entries.length (some .tones242) = .ok z ∧
      (∃ p, Plan.byMatching s z = .ok p) ∧
      ∀ (x : External) (process : List String → List String → ProcessOutcome) (folder : Folder),
        x.plan process folder s z = .error (.value .tooManyDigits) := by
  have hlong : ∀ d : Int, 0 ≤ d → Text.isWritable (d + 1) = false →
      let stations : List Station := [⟨1, 1, d, 5⟩, ⟨2, 1, 0, 9⟩, ⟨3, 2, 0, 1⟩]
      let z : Sizing := ⟨.mhz40, .tones242, 2, 3, 484⟩
      ∃ s, Schedule.generate stations 0 1024 = .ok s ∧
        Sizing.forPackets 40 s.entries.length (some .tones242) = .ok z ∧
        (∃ p, Plan.byMatching s z = .ok p) ∧
        ∀ (x : External) (process : List String → List String → ProcessOutcome) (folder : Folder),
          x.plan process folder s z = .error (.value .tooManyDigits) := by
    intro d hd hlong stations z
    have horder : Station.inOrder stations = stations :=
      List.mergeSort_of_pairwise (by simp [stations])
    have hvalid : ∀ s ∈ stations, s.Valid := by
      intro s hs
      simp only [stations, List.mem_cons, List.not_mem_nil, or_false] at hs
      rcases hs with rfl | rfl | rfl <;> constructor <;> dsimp only <;> omega
    have hlcm : lcmOfPeriods [1, 1, 2] = .ok 2 := rfl
    obtain ⟨hg, h⟩ : Schedule.generate stations 0 1024 = _ ∧ Horizon _ 2 :=
      Schedule.generate_ok (by simp [stations]) hvalid (by simp [stations]) (by decide) hlcm
        (by decide)
    rw [horder] at hg h
    obtain ⟨p, hp, -⟩ := Plan.byMatching_sound h z 0
    have hmem : d + 1 ∈ Exchange.numbers (Schedule.ofStations stations 0 2) z := by
      rw [Int.add_comm d 1]
      simp [Exchange.numbers, Schedule.ofStations, stations, Schedule.stationPackets,
        Exchange.entryNumbers, List.range_succ]
    exact ⟨_, hg, rfl, ⟨p, hp⟩, fun x process folder =>
      External.planOr_of_unwritable x _ process folder hmem hlong⟩
  exact hlong _ (by decide +kernel) (by decide +kernel)

end Downlink
