import Downlink.Proofs.DeadlineAware.Service

/-!
# Loads

All packets that are sent in one round belong to one horizon, and each of them takes its own entry
of the plan. So a round is overfull only where a plan puts more entries into a round than it has
units, and never where the plans are feasible; then every assigned packet is sent.
-/

namespace Downlink

namespace Assignment

variable {s : Schedule} {m : Assignment} {capacity : Int}

def indices (s : Schedule) : List Int := (List.range s.entries.length).map Int.ofNat

def entriesIn (m : Assignment) (s : Schedule) (r : Int) : List Int :=
  (indices s).filter fun i => m.round? i = some r

theorem mem_indices {i : Int} : i ∈ indices s ↔ 0 ≤ i ∧ i < s.entries.length := by
  simp only [indices, List.mem_map, List.mem_range, Int.ofNat_eq_natCast]
  constructor
  · intro h
    obtain ⟨k, hk, rfl⟩ := h
    omega
  · intro h
    exact ⟨i.toNat, by omega, by omega⟩

theorem indices_nodup (s : Schedule) : (indices s).Nodup :=
  List.nodup_range.map fun _ _ hij => Int.ofNat.inj hij

theorem length_entriesIn_le_count (m : Assignment) (s : Schedule) (r : Int) :
    (m.entriesIn s r).length ≤ m.rounds.count r := by
  have hsub : (m.entriesIn s r).map (fun i => (i, r)) ⊆ m.filter fun p => p.2 = r := by
    intro p hp
    obtain ⟨i, hi, rfl⟩ := List.mem_map.mp hp
    have hr := of_decide_eq_true (List.mem_filter.mp hi).2
    exact List.mem_filter.mpr ⟨mem_of_round? hr, decide_eq_true rfl⟩
  have hnodup : ((m.entriesIn s r).map fun i => (i, r)).Nodup :=
    ((indices_nodup s).filter _).map fun i j hij => congrArg Prod.fst hij
  have hcount : (m.filter fun p => p.2 = r).length = m.rounds.count r := by
    rw [rounds, List.count, List.countP_map, List.countP_eq_length_filter]
    congr 1
  have := (List.subperm_of_subset hnodup hsub).length_le
  rwa [List.length_map, hcount] at this

theorem Feasible.length_entriesIn_le (h : m.Feasible s capacity) (hcap : 0 ≤ capacity) (r : Int) :
    ((m.entriesIn s r).length : Int) ≤ capacity := by
  have hle := length_entriesIn_le_count m s r
  by_cases hr : r ∈ m.rounds
  · have := h.load r hr
    omega
  · rw [List.count_eq_zero_of_not_mem hr] at hle
    omega

end Assignment

namespace Course

variable {c : Course} {s u : Station} {a b r : Int} {n t : Nat}

theorem indexOf_nonneg (hc : c.cell.Sound) (hs : s ∈ c.cell.stations) (a : Int) :
    0 ≤ c.indexOf s a := by
  have hp := (hc.horizon.roster.valid s hs).period
  have h₀ : 0 ≤ a % c.length / s.period :=
    Int.ediv_nonneg (Int.emod_nonneg a (length_pos hc).ne') (by omega)
  simp only [indexOf]
  omega

theorem indexOf_mem (hc : c.cell.Sound) (hs : s ∈ c.cell.stations) (hdue : a % s.period = 0) :
    c.indexOf s a ∈ Assignment.indices (c.scheduleOf (c.horizonOf a)) := by
  have h₀ := indexOf_nonneg hc hs a
  have he := entryAt?_indexOf hc hs hdue
  rw [Assignment.entryAt?_of_nonneg h₀] at he
  have := (List.getElem?_eq_some_iff.mp he).1
  exact Assignment.mem_indices.mpr ⟨h₀, by omega⟩

theorem indexOf_inj (hc : c.cell.Sound) (hs : s ∈ c.cell.stations) (hu : u ∈ c.cell.stations)
    (ha : a % s.period = 0) (hb : b % u.period = 0) (hk : c.horizonOf a = c.horizonOf b)
    (h : c.indexOf s a = c.indexOf u b) : s = u ∧ a = b := by
  have he := entryAt?_indexOf hc hs ha
  rw [hk, h, entryAt?_indexOf hc hu hb, Option.some.injEq, Entry.mk.injEq] at he
  exact ⟨hc.horizon.roster.id_inj hs hu he.2.2.2.symm, he.1.symm⟩

def horizonIn (c : Course) (r : Int) : Int := c.horizonOf (min r (c.rounds - 1))

theorem horizonOf_mono (hc : c.cell.Sound) (h : a ≤ b) : c.horizonOf a ≤ c.horizonOf b :=
  Int.ediv_le_ediv (length_pos hc) h

theorem horizonOf_of_sends (hc : c.cell.Sound) (ha : a < c.rounds) (h : c.sends s a r = true) :
    c.horizonOf a = c.horizonIn r := by
  obtain ⟨-, hle, hlt⟩ := sends_iff.mp h
  refine le_antisymm (horizonOf_mono hc (by omega)) (Int.lt_add_one_iff.mp ?_)
  refine Int.ediv_lt_of_lt_mul (length_pos hc) ?_
  unfold expiry at hlt
  split_ifs at hlt with hnext
  · omega
  · omega

def sentEntries (c : Course) (r : Int) : List Int :=
  c.cell.stations.flatMap fun s => (c.sentIn s r).map (c.indexOf s)

theorem mem_sentIn : a ∈ c.sentIn s r ↔ a ∈ Traffic.arrivals s c.rounds ∧ c.sends s a r = true := by
  simp [sentIn]

theorem horizonOf_of_mem_sentIn (hc : c.cell.Sound) (ha : a ∈ c.sentIn s r) :
    c.horizonOf a = c.horizonIn r := by
  obtain ⟨ha, hsends⟩ := mem_sentIn.mp ha
  exact horizonOf_of_sends hc (Traffic.mem_arrivals.mp ha).1.2 hsends

theorem sentEntries_nodup (hc : c.cell.Sound) (r : Int) : (c.sentEntries r).Nodup := by
  have hdue : ∀ {s a}, a ∈ c.sentIn s r → a % s.period = 0 :=
    fun ha => (Traffic.mem_arrivals.mp (mem_sentIn.mp ha).1).2
  have hinj : ∀ s ∈ c.cell.stations, ∀ u ∈ c.cell.stations, ∀ a ∈ c.sentIn s r,
      ∀ b ∈ c.sentIn u r, c.indexOf s a = c.indexOf u b → s = u ∧ a = b := by
    intro s hs u hu a ha b hb
    refine indexOf_inj hc hs hu (hdue ha) (hdue hb) ?_
    rw [horizonOf_of_mem_sentIn hc ha, horizonOf_of_mem_sentIn hc hb]
  refine List.nodup_flatMap.mpr ⟨fun s hs => ?_, ?_⟩
  · refine List.Nodup.map_on (fun a ha b hb hab => ?_)
      ((Traffic.arrivals_nodup s c.rounds).filter _)
    exact (hinj s hs s hs a ha b hb hab).2
  · refine hc.horizon.roster.nodup.pairwise_of_forall_ne fun s hs u hu hne i hi hi' => ?_
    obtain ⟨a, ha, rfl⟩ := List.mem_map.mp hi
    obtain ⟨b, hb, he⟩ := List.mem_map.mp hi'
    exact hne (hinj s hs u hu a ha b hb he.symm).1

def sentPackets (c : Course) (r : Int) : List (Station × Int) :=
  c.cell.stations.flatMap fun s => (c.sentIn s r).map fun a => (s, a)

theorem mem_sentPackets : (s, a) ∈ c.sentPackets r ↔ s ∈ c.cell.stations ∧ a ∈ c.sentIn s r := by
  simp only [sentPackets, List.mem_flatMap, List.mem_map, Prod.mk.injEq]
  constructor
  · intro h
    obtain ⟨u, hu, b, hb, rfl, rfl⟩ := h
    exact ⟨hu, hb⟩
  · intro h
    exact ⟨s, h.1, a, h.2, rfl, rfl⟩

theorem length_sentPackets (c : Course) (r : Int) : (c.sentPackets r).length =
    (c.cell.stations.map fun s => (c.sentIn s r).length).sum := by
  simp only [sentPackets, List.length_flatMap, List.length_map]

theorem rank_eq_idxOf (hc : c.cell.Sound) (hs : s ∈ c.cell.stations) (ha : a ∈ c.sentIn s r) :
    c.rank s a r = (c.sentPackets r).idxOf (s, a) := by
  obtain ⟨before, rest, hsplit⟩ := List.append_of_mem hs
  have hnd : (before ++ s :: rest).Nodup := hsplit ▸ hc.horizon.roster.nodup
  have hfirst : (s, a) ∉ before.flatMap fun s => (c.sentIn s r).map fun a => (s, a) := by
    intro hm
    obtain ⟨u, hu, hm⟩ := List.mem_flatMap.mp hm
    obtain ⟨b, -, he⟩ := List.mem_map.mp hm
    have hus : u = s := congrArg Prod.fst he
    exact (List.nodup_append.mp hnd).2.2 u hu s List.mem_cons_self hus
  have hown : ((c.sentIn s r).map fun a => (s, a)).idxOf (s, a) = (c.sentIn s r).idxOf a := by
    rw [List.idxOf, List.findIdx_map, List.idxOf]
    congr 1
    funext b
    simp
  rw [sentPackets, hsplit, List.flatMap_append, List.flatMap_cons,
    List.idxOf_append_of_notMem hfirst, List.idxOf_append_of_mem (List.mem_map_of_mem ha), hown,
    rank, sentBefore_eq hc hsplit]
  simp only [List.length_flatMap, List.length_map]

theorem rank_inj (hc : c.cell.Sound) (hs : s ∈ c.cell.stations) (ha : a ∈ c.sentIn s r)
    (hu : u ∈ c.cell.stations) (hb : b ∈ c.sentIn u r) (h : c.rank s a r = c.rank u b r) :
    s = u ∧ a = b := by
  rw [rank_eq_idxOf hc hs ha, rank_eq_idxOf hc hu hb,
    List.idxOf_inj (mem_sentPackets.mpr ⟨hs, ha⟩), Prod.mk.injEq] at h
  exact h

theorem length_sentEntries (c : Course) (r : Int) :
    (c.sentEntries r).length = (c.cell.stations.map fun s => (c.sentIn s r).length).sum := by
  simp only [sentEntries, List.length_flatMap, List.length_map]

theorem Overfull.exists_entriesIn (hc : c.cell.Sound) (h : c.Overfull t) :
    ∃ (k : Nat) (m : Assignment) (r : Int), k * c.length < c.rounds ∧ c.decision k = some m ∧
      c.cell.sizing.perRound < (m.entriesIn (c.scheduleOf k) r).length := by
  rw [Overfull, ← length_sentEntries] at h
  obtain ⟨i, hi⟩ := List.exists_mem_of_length_pos (Nat.zero_lt_of_lt h)
  obtain ⟨s, -, hi⟩ := List.mem_flatMap.mp hi
  obtain ⟨a, ha, -⟩ := List.mem_map.mp hi
  obtain ⟨harr, hsends⟩ := mem_sentIn.mp ha
  obtain ⟨⟨h₀, hlt⟩, -⟩ := Traffic.mem_arrivals.mp harr
  have hk := horizonOf_of_mem_sentIn hc ha
  obtain ⟨m, hm, -⟩ := assigned?_eq_some.mp (sends_iff.mp hsends).1
  have hnonneg : 0 ≤ c.horizonOf a := Int.ediv_nonneg h₀ (length_pos hc).le
  have hbegins := (horizonOf_bounds hc a).1
  refine ⟨(c.horizonOf a).toNat, m, t, ?_, ?_, ?_⟩
  · rw [Int.toNat_of_nonneg hnonneg]
    omega
  · rwa [Int.toNat_of_nonneg hnonneg]
  · rw [Int.toNat_of_nonneg hnonneg]
    refine h.trans_le (List.subperm_of_subset (sentEntries_nodup hc t) fun j hj => ?_).length_le
    obtain ⟨u, hu, hj⟩ := List.mem_flatMap.mp hj
    obtain ⟨b, hb, rfl⟩ := List.mem_map.mp hj
    obtain ⟨hb', hsends'⟩ := mem_sentIn.mp hb
    have hsame : c.horizonOf b = c.horizonOf a := by rw [hk, horizonOf_of_mem_sentIn hc hb]
    have hround := (sends_iff.mp hsends').1
    rw [assigned?, hsame, hm, Option.bind_some] at hround
    have hmem := indexOf_mem hc hu (Traffic.mem_arrivals.mp hb').2
    rw [hsame] at hmem
    exact List.mem_filter.mpr ⟨hmem, decide_eq_true hround⟩

def Feasible (c : Course) : Prop :=
  ∀ (k : Nat) (m : Assignment), k * c.length < c.rounds → c.decision k = some m →
    m.Feasible (c.scheduleOf k) c.cell.sizing.perRound

theorem Feasible.not_overfull (hc : c.cell.Sound) (h : c.Feasible) (t : Nat) : ¬ c.Overfull t := by
  intro hover
  obtain ⟨k, m, r, hk, hm, hlt⟩ := hover.exists_entriesIn hc
  have := (h k m hk hm).length_entriesIn_le (by omega) r
  omega

theorem Feasible.window (hc : c.cell.Sound) (h : c.Feasible) (hs : s ∈ c.cell.stations)
    (ha : a ∈ Traffic.arrivals s c.rounds) (hr : c.assigned? s a = some r) :
    a ≤ r ∧ r ≤ a + s.deadline ∧ r < (c.horizonOf a + 1) * c.length := by
  obtain ⟨⟨h₀, hlt⟩, hdue⟩ := Traffic.mem_arrivals.mp ha
  obtain ⟨hlow, hhigh⟩ := horizonOf_bounds hc a
  have hlength := length_pos hc
  have hk : 0 ≤ c.horizonOf a := Int.ediv_nonneg h₀ hlength.le
  obtain ⟨m, hm, hround⟩ := assigned?_eq_some.mp hr
  have hf := h (c.horizonOf a).toNat m
  rw [Int.toNat_of_nonneg hk] at hf
  have hwindow := (hf (by omega) hm).window _ (Assignment.mem_of_round? hround) _
    (entryAt?_indexOf hc hs hdue)
  simp only [Schedule.clip, Schedule.stop, scheduleOf, Schedule.ofStations] at hwindow
  rw [Int.add_mul] at hhigh ⊢
  omega

theorem Feasible.sends (hc : c.cell.Sound) (h : c.Feasible) (hs : s ∈ c.cell.stations)
    (ha : a ∈ Traffic.arrivals s c.rounds) (hr : c.assigned? s a = some r) :
    c.sends s a r = true := by
  obtain ⟨hlow, -, hhigh⟩ := h.window hc hs ha hr
  have hlt := (Traffic.mem_arrivals.mp ha).1.2
  have hstart := (horizonOf_bounds hc a).1
  have hlength := length_pos hc
  have hdeadline := Station.longestDeadline_nonneg c.cell.stations
  refine sends_iff.mpr ⟨hr, hlow, ?_⟩
  rw [Int.add_mul] at hhigh
  rw [expiry, limit, Int.add_mul]
  split_ifs <;> omega

theorem Feasible.rank_lt (hc : c.cell.Sound) (h : c.Feasible) (hs : s ∈ c.cell.stations)
    (ha : a ∈ c.sentIn s r) : c.rank s a r < c.cell.sizing.perRound := by
  have h₀ := (Traffic.mem_arrivals.mp (mem_sentIn.mp ha).1).1.1
  have hle := (sends_iff.mp (mem_sentIn.mp ha).2).2.1
  have hround : r = (r.toNat : Int) := by omega
  have hfits := h.not_overfull hc r.toNat
  rw [Overfull, ← hround, ← length_sentPackets, not_lt] at hfits
  rw [rank_eq_idxOf hc hs ha]
  exact (List.idxOf_lt_length_of_mem (mem_sentPackets.mpr ⟨hs, ha⟩)).trans_le hfits

end Course

end Downlink
