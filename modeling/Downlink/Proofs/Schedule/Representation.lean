import Downlink.Proofs.Schedule.Naming
import Downlink.Proofs.Total

/-!
# What a schedule represents

The schedule of a roster does not depend on the order in which the stations are given. Its runs cut
the positions of the entries up, one run per station in id order; the positions of a run count the
packets of its station from the start of the horizon, wherever that is. Windows open on arrival,
stay within the horizon and move forward along a run, and the search for a packet finds its one
entry.
-/

namespace Downlink

variable {stations stations' : List Station} {H start cap : Int}

theorem Station.Roster.eq_of_perm (h : Roster stations) (h' : Roster stations')
    (hp : stations'.Perm stations) : stations' = stations :=
  hp.eq_of_pairwise (fun _ _ _ _ hlt hgt => absurd hgt (lt_asymm hlt)) h'.increasing h.increasing

theorem Station.checkAll_perm (hc : checkAll stations = .ok ()) (hp : stations'.Perm stations) :
    checkAll stations' = .ok () := by
  obtain ⟨hne, hv, hd⟩ := checkAll_eq_ok_iff.mp hc
  refine checkAll_eq_ok_iff.mpr ⟨fun he => hne ?_, fun s hs => hv s (hp.mem_iff.mp hs), ?_⟩
  · exact List.perm_nil.mp (he ▸ hp).symm
  · exact (hp.map Station.id).nodup_iff.mpr hd

theorem Station.inOrder_of_perm (hc : checkAll stations = .ok ()) (hp : stations'.Perm stations) :
    inOrder stations' = inOrder stations := by
  obtain ⟨hne, hv, hd⟩ := checkAll_eq_ok_iff.mp hc
  obtain ⟨hne', hv', hd'⟩ := checkAll_eq_ok_iff.mp (checkAll_perm hc hp)
  refine (roster_inOrder hne hv hd).eq_of_perm (roster_inOrder hne' hv' hd') ?_
  exact (inOrder_perm stations').trans (hp.trans (inOrder_perm stations).symm)

namespace Schedule

variable {s : Schedule} {rs : List Run} {a b first i : Nat}

/-- The runs lead from `a` to `b`, each starting where the one before it stops. -/
def Adjoining (b : Nat) : Nat → List Run → Prop
  | a, [] => a = b
  | a, r :: rest => r.start = a ∧ a ≤ r.stop ∧ Adjoining b r.stop rest

theorem runsFrom_adjoining (first : Nat) (start H : Int) (stations : List Station) :
    Adjoining (first + (ofStations stations start H).entries.length) first
      (runsFrom first start H stations) := by
  induction stations generalizing first with
  | nil => rfl
  | cons s rest ih =>
    have hrest := ih (first + (stationPackets start H s).length)
    refine ⟨rfl, Nat.le_add_right _ _, ?_⟩
    simpa only [ofStations, List.flatMap_cons, List.length_append, Nat.add_assoc] using hrest

theorem Adjoining.le_start (h : Adjoining b a rs) : ∀ r ∈ rs, a ≤ r.start := by
  induction rs generalizing a with
  | nil => simp
  | cons r rest ih =>
    obtain ⟨hstart, hle, hrest⟩ := h
    intro q hq
    rcases List.mem_cons.mp hq with rfl | hq
    · exact hstart.ge
    · exact hle.trans (ih hrest q hq)

theorem Adjoining.existsUnique (h : Adjoining b a rs) (ha : a ≤ i) (hb : i < b) :
    ∃! r, r ∈ rs ∧ r.start ≤ i ∧ i < r.stop := by
  induction rs generalizing a with
  | nil =>
    have he : a = b := h
    omega
  | cons r rest ih =>
    obtain ⟨hstart, -, hrest⟩ := h
    by_cases hi : i < r.stop
    · refine ⟨r, ⟨List.mem_cons_self, by omega, hi⟩, ?_⟩
      rintro q ⟨hq, hqi, -⟩
      rcases List.mem_cons.mp hq with rfl | hq
      · rfl
      · have := hrest.le_start q hq
        omega
    · obtain ⟨q, ⟨hq, hqi⟩, honly⟩ := ih hrest (not_lt.mp hi)
      refine ⟨q, ⟨List.mem_cons_of_mem r hq, hqi⟩, ?_⟩
      rintro p ⟨hp, hpi⟩
      rcases List.mem_cons.mp hp with rfl | hp
      · exact absurd hpi.2 hi
      · exact honly p ⟨hp, hpi⟩

/-- The entries stand in one run per station, in id order, and position `k` of a run is the
station's `k`-th packet from `start` on. -/
structure InRuns (stations : List Station) (start H : Int) (s : Schedule) : Prop where
  owners : (s.runs.map Run.station).Perm (stations.map Station.id)
  increasing : s.runs.Pairwise fun r q => r.station < q.station
  adjoining : Adjoining s.entries.length 0 s.runs
  partition : ∀ i < s.entries.length, ∃! r, r ∈ s.runs ∧ r.start ≤ i ∧ i < r.stop
  count : (s.entries.length : Int) = packetCount stations H
  packets : ∀ t ∈ stations, ∃ r ∈ s.runs, r.station = t.id ∧
    (r.stop : Int) = r.start + H / t.period ∧
    ∀ k : Nat, k < H / t.period → s.entries[r.start + k]? =
      some ⟨start + k * t.period, start + k * t.period + t.deadline, t.penalty, t.id⟩

theorem coe_packetsIn (h : Horizon stations H) {t : Station} (ht : t ∈ stations) :
    (packetsIn H t : Int) = H / t.period :=
  Int.toNat_of_nonneg
    (Int.ediv_nonneg h.pos.le (by have := (h.roster.valid t ht).period; omega))

theorem inRuns_ofStations (h : Horizon stations H) (start : Int) :
    InRuns stations start H (ofStations stations start H) := by
  have hadjoining : Adjoining (ofStations stations start H).entries.length 0
      (ofStations stations start H).runs := by
    have hruns := runsFrom_adjoining 0 start H stations
    rwa [Nat.zero_add] at hruns
  have hruns := runs_ofStations h.roster start H
  refine ⟨?_, ?_, hadjoining, fun i hi => hadjoining.existsUnique (Nat.zero_le i) hi,
    (packetCount_eq_length h start).symm, fun t ht => ?_⟩
  · rw [hruns, List.map_map]
    exact .refl _
  · rw [hruns]
    exact List.pairwise_map.mpr h.roster.increasing
  · rw [hruns]
    refine ⟨_, List.mem_map_of_mem ht, rfl, ?_, fun k hk => ?_⟩
    · rw [← coe_packetsIn h ht]
      exact Nat.cast_add _ _
    · rw [← coe_packetsIn h ht] at hk
      exact getElem?_entries h.roster ht (Int.ofNat_lt.mp hk) start

/-- An entry may be served from its arrival on, until its deadline or the end of the horizon, and
both ends of the windows move forward along a run. -/
structure Windowed (start H : Int) (s : Schedule) : Prop where
  entry : ∀ (i : Nat) e, s.entries[i]? = some e → ∃ low high, s.window i = .ok (low, high) ∧
    low = e.arrival ∧ start ≤ low ∧ low ≤ high ∧ high < start + H
  forward : ∀ r ∈ s.runs, ∀ i j : Nat, r.start ≤ i → i ≤ j → j < r.stop →
    ∃ w w', s.window i = .ok w ∧ s.window j = .ok w' ∧ w.1 ≤ w'.1 ∧ w.2 ≤ w'.2

theorem window_of_getElem? {e : Entry} (he : s.entries[i]? = some e) :
    s.window i = .ok (s.clip e) := by
  have hentry : s.entryAt? i = some e := by
    rw [entryAt?, if_pos (Int.natCast_nonneg i), Int.toNat_natCast, he]
  rw [window, hentry]

theorem windowed_ofStations (h : Horizon stations H) (start : Int) :
    Windowed start H (ofStations stations start H) := by
  constructor
  · intro i e he
    obtain ⟨t, ht, k, hk, -, rfl⟩ := exists_packet h.roster he
    obtain ⟨hlow, hne, hhigh⟩ := clip_nonempty h ht hk start
    exact ⟨_, _, window_of_getElem? he, congrArg Prod.fst (clip_packet h ht start k), hlow, hne,
      hhigh⟩
  · intro r hr i j hi hij hj
    rw [runs_ofStations h.roster] at hr
    obtain ⟨t, ht, rfl⟩ := List.mem_map.mp hr
    obtain ⟨k, rfl⟩ := Nat.exists_eq_add_of_le hi
    obtain ⟨l, rfl⟩ := Nat.exists_eq_add_of_le hij
    have hl : k + l < packetsIn H t := by
      simp only [runOf] at hj
      omega
    have hfirst := getElem?_entries h.roster ht (Nat.lt_of_le_of_lt (Nat.le_add_right k l) hl) start
    have hsecond := getElem?_entries h.roster ht hl start
    rw [← Nat.add_assoc] at hsecond
    exact ⟨_, _, window_of_getElem? hfirst, window_of_getElem? hsecond,
      clip_mono h ht start (Nat.le_add_right k l)⟩

/-- The search for a packet gives the position of its one entry, and none exactly if its station
does not emit in this round of the horizon; it refuses a station that the schedule does not have. -/
structure Searchable (stations : List Station) (start H : Int) (s : Schedule) : Prop where
  found : ∀ station arrival i, s.indexOf station arrival = .ok (some i) ↔ s.Names i station arrival
  absent : ∀ t ∈ stations, ∀ arrival, s.indexOf t.id arrival = .ok none ↔
    ¬ ∃ k : Int, arrival = start + k * t.period ∧ start ≤ arrival ∧ arrival < start + H
  unknown : ∀ station, (∀ t ∈ stations, t.id ≠ station) → ∀ arrival,
    s.indexOf station arrival =
      .error (.showing [station]
        (.missing (.text s!"STA_{station} has no entries in this schedule")))

theorem indexOf_eq_none_iff (h : Horizon stations H) {t : Station} (ht : t ∈ stations)
    (start arrival : Int) : (ofStations stations start H).indexOf t.id arrival = .ok none ↔
      ∀ k < packetsIn H t, start + k * t.period ≠ arrival := by
  rw [indexOf_eq h.roster ht, Except.ok.injEq, Option.map_eq_none_iff, List.findIdx?_eq_none_iff,
    stationPackets_eq, List.forall_mem_map]
  simp only [List.mem_range, decide_eq_false_iff_not]
  rfl

theorem lt_packetsIn_iff (h : Horizon stations H) {t : Station} (ht : t ∈ stations) (k : Nat) :
    k < packetsIn H t ↔ k * t.period < H := by
  have hp := (h.roster.valid t ht).period
  have hH : H / t.period * t.period = H := Int.ediv_mul_cancel (h.dvd t ht)
  refine ⟨mul_period_lt h ht, fun hlt => ?_⟩
  rw [← hH] at hlt
  have := Int.lt_of_mul_lt_mul_right hlt (by omega)
  rw [← coe_packetsIn h ht] at this
  exact_mod_cast this

theorem searchable_ofStations (h : Horizon stations H) (start : Int) :
    Searchable stations start H (ofStations stations start H) := by
  refine ⟨fun station arrival i => ?_, fun t ht arrival => ?_,
    fun station hne arrival => indexOf_of_unknown h.roster hne start arrival⟩
  · rw [indexOf_eq_some h]
    constructor
    · rintro ⟨e, he, rfl, rfl⟩
      exact names_of_getElem? h he
    · exact Names.entry
  · rw [indexOf_eq_none_iff h ht]
    have hp := (h.roster.valid t ht).period
    constructor
    · rintro hnone ⟨k, rfl, hlow, hhigh⟩
      have hk : 0 ≤ k := by
        by_contra hneg
        have := Int.mul_neg_of_neg_of_pos (not_le.mp hneg) (show 0 < t.period by omega)
        omega
      lift k to Nat using hk
      exact hnone k ((lt_packetsIn_iff h ht k).mpr (by omega)) rfl
    · intro hnone k hk he
      have hlt := (lt_packetsIn_iff h ht k).mp hk
      have h₀ : 0 ≤ (k : Int) * t.period := Int.mul_nonneg (by omega) (by omega)
      exact hnone ⟨k, he.symm, by omega, by omega⟩

/-- Checked stations have one schedule for each start, in whatever order they are given. -/
theorem generated_represents_horizon (hc : Station.checkAll stations = .ok ())
    (hH : horizonLength stations cap = .ok H) (hs : 0 ≤ start) :
    ∃ s, (∀ stations' : List Station, stations'.Perm stations →
        generate stations' start cap = .ok s) ∧
      s.start = start ∧ s.rounds = H ∧ InRuns stations start H s ∧ Windowed start H s ∧
      Searchable stations start H s := by
  obtain ⟨hne, hv, hd⟩ := Station.checkAll_eq_ok_iff.mp hc
  obtain ⟨hl, hcap⟩ := horizonLength_eq_ok_iff.mp hH
  obtain ⟨hg, hh⟩ := generate_ok hne hv hd hs hl hcap
  have hgen : ∀ stations' : List Station, stations'.Perm stations →
      generate stations' start cap = .ok (ofStations (Station.inOrder stations) start H) := by
    intro stations' hp
    rw [← hg, generate, generate, Station.inOrder_of_perm hc hp]
  have hperm := Station.inOrder_perm stations
  have hruns := inRuns_ofStations hh start
  have hsearch := searchable_ofStations hh start
  refine ⟨_, hgen, rfl, rfl, ⟨hruns.owners.trans (hperm.map _), hruns.increasing,
    hruns.adjoining, hruns.partition, ?_, ?_⟩, windowed_ofStations hh start,
    ⟨hsearch.found, ?_, ?_⟩⟩
  · rw [hruns.count]
    exact total_perm (hperm.map _)
  · exact fun t ht => hruns.packets t (Station.mem_inOrder.mpr ht)
  · exact fun t ht => hsearch.absent t (Station.mem_inOrder.mpr ht)
  · exact fun station hne => hsearch.unknown station fun t ht => hne t (Station.mem_inOrder.mp ht)

theorem generated_represents_horizon_three_stations :
    let stations : List Station := [⟨2, 2, 0, 9⟩, ⟨0, 3, 7, 1⟩, ⟨1, 6, 4, 5⟩]
    Station.checkAll stations = .ok () ∧ horizonLength stations 1024 = .ok 6 ∧ (0 : Int) ≤ 5 ∧
      ∃ s, generate stations 5 1024 = .ok s ∧ generate stations.reverse 5 1024 = .ok s ∧
        s.start = 5 ∧ s.rounds = 6 ∧ InRuns stations 5 6 s ∧ Windowed 5 6 s ∧
        Searchable stations 5 6 s := by
  intro stations
  have hc : Station.checkAll stations = .ok () := rfl
  have hH : horizonLength stations 1024 = .ok 6 := rfl
  obtain ⟨s, hany, hs⟩ := generated_represents_horizon hc hH (show (0 : Int) ≤ 5 by decide)
  exact ⟨hc, hH, by decide, s, hany _ (.refl _), hany _ (List.reverse_perm stations), hs⟩

end Schedule

end Downlink
