import Downlink.Proofs.Cell
import Downlink.Proofs.Engine
import Downlink.Proofs.RoundRobin.Queue
import Downlink.Proofs.Schedule.Layout

/-!
# Rounds of the round robin

A packet is paired in the round in which it arrives, while the schedule of its horizon is active, so
the entry is always found. Every queue stays in order through pairing, service and expiry, whatever
the credits are: nothing in it is overdue, and the packets of a round are sent on different units.
-/

namespace Downlink.RoundRobin

variable {z : Sizing} {cell : Cell} {stations before rest : List Station} {s u : Station}
  {n m t id : Nat} {a r H : Int} {d d' d'' : RoundRobin} {p : Packet} {out : RoundAssignment}

def AllKept (z : Sizing) (stations : List Station) (n : Nat) (bound : Station → Int)
    (d : RoundRobin) : Prop :=
  ∀ s ∈ stations, ∃ live, Kept z stations n (bound s) s live d

structure Same (d d' : RoundRobin) : Prop where
  stations : d'.traffic.stations = d.traffic.stations
  generating : d'.traffic.generating = d.traffic.generating
  size : d'.traffic.packets.size = d.traffic.packets.size
  book : d'.book = d.book
  order : d'.order.Perm d.order

theorem Same.refl (d : RoundRobin) : Same d d := ⟨rfl, rfl, rfl, rfl, List.Perm.refl _⟩

theorem Same.trans (h₁ : Same d d') (h₂ : Same d' d'') : Same d d'' :=
  ⟨h₂.stations.trans h₁.stations, h₂.generating.trans h₁.generating, h₂.size.trans h₁.size,
    h₂.book.trans h₁.book, List.Perm.trans h₂.order h₁.order⟩

theorem Beside.same (h : Beside stations n s d d') : Same d d' :=
  ⟨h.traffic.served, h.traffic.generating, h.traffic.size, h.book, by rw [order, h.credits, order]⟩

theorem AllKept.beside {bound bound' : Station → Int} (h : AllKept z stations n bound d)
    (hd : Beside stations n s d d') {live : Int → Bool}
    (hs : Kept z stations n (bound' s) s live d')
    (hbound : ∀ u ∈ stations, u ≠ s → bound u = bound' u) : AllKept z stations n bound' d' := by
  intro u hu
  by_cases hus : u = s
  · subst hus
    exact ⟨live, hs⟩
  · obtain ⟨live', hkept⟩ := h u hu
    exact ⟨live', hbound u hu hus ▸ hkept.beside hd hu hus⟩

theorem sendAll_kept (hr : Station.Roster stations) (hst : d.traffic.stations = stations)
    (hn : (n : Int) ≤ r + 1) (h : AllKept z stations n (fun _ => r) d) {turns : List (Ru × Int)}
    (hnd : (turns.map Prod.snd).Nodup)
    (hturns : ∀ x ∈ turns, ∃ s ∈ stations, s.id = x.2 ∧ d.traffic.waiting s.id ≠ [])
    (hunits : ∀ x ∈ turns, x.1 ∈ z.units) {taken : List Ru}
    (hfree : (turns.map Prod.fst ++ taken).Nodup) (hslots : d.traffic.Slots r taken)
    (out : RoundAssignment) :
    ∃ out' d' used, sendAll r turns out d = .ok out' d' ∧ AllKept z stations n (fun _ => r) d' ∧
      Same d d' ∧ d'.traffic.Slots r used ∧
      ∀ s ∈ stations, d.traffic.waiting s.id = [] → d'.traffic.waiting s.id = [] := by
  induction turns generalizing d taken out with
  | nil => exact ⟨out, d, taken, rfl, h, Same.refl d, hslots, fun _ _ he => he⟩
  | cons x turns ih =>
    obtain ⟨ru, k⟩ := x
    obtain ⟨hk, hrest⟩ := List.nodup_cons.mp hnd
    obtain ⟨hru, hfree'⟩ := List.nodup_cons.mp hfree
    obtain ⟨s, hs, rfl, hne⟩ := hturns _ List.mem_cons_self
    obtain ⟨live, hkept⟩ := h s hs
    obtain ⟨out₁, d₁, live₁, hsend, hkept₁, hbeside, hslots₁⟩ := send_kept hr hs hst hn hkept hne
      (hunits _ List.mem_cons_self) (fun hm => hru (List.mem_append_right _ hm)) hslots out
    obtain ⟨out₂, d₂, used, hall, h₂, hsame, hslots₂, hidle⟩ := ih
      (hbeside.traffic.served.trans hst) (h.beside hbeside hkept₁ fun _ _ _ => rfl) hrest
      (fun y hy => by
        obtain ⟨u, hu, he, hne'⟩ := hturns y (List.mem_cons_of_mem _ hy)
        have hus : u ≠ s := by
          intro hus
          subst hus
          exact hk (List.mem_map.mpr ⟨y, hy, he.symm⟩)
        exact ⟨u, hu, he, by rwa [hbeside.traffic.waiting u hu hus]⟩)
      (fun y hy => hunits y (List.mem_cons_of_mem _ hy))
      (List.perm_middle.nodup_iff.mpr (List.nodup_cons.mpr ⟨hru, hfree'⟩)) hslots₁ out₁
    refine ⟨out₂, d₂, used, by rw [sendAll, hsend]; exact hall, h₂, hbeside.same.trans hsame,
      hslots₂, fun u hu he => hidle u hu ?_⟩
    have hus : u ≠ s := fun hus => hne (hus ▸ he)
    rw [hbeside.traffic.waiting u hu hus, he]

def pending (r : Int) (ids : List Int) (s : Station) : Int := if s.id ∈ ids then r else r + 1

theorem purgeAll_kept (hr : Station.Roster stations) (hst : d.traffic.stations = stations)
    (passedOver : List Int) {ids : List Int} (hnd : ids.Nodup)
    (h : AllKept z stations n (pending r ids) d)
    (hids : ∀ k ∈ ids, ∃ s ∈ stations, s.id = k) (out : RoundAssignment) :
    ∃ out' d', purgeAll r passedOver ids out d = .ok out' d' ∧
      AllKept z stations n (fun _ => r + 1) d' ∧ Same d d' ∧
      Traffic.Still d.traffic d'.traffic := by
  induction ids generalizing d out with
  | nil =>
    refine ⟨out, d, rfl, fun s hs => ?_, Same.refl d, Traffic.Still.refl _⟩
    obtain ⟨live, hkept⟩ := h s hs
    rw [pending, if_neg List.not_mem_nil] at hkept
    exact ⟨live, hkept⟩
  | cons k ids ih =>
    obtain ⟨hk, hrest⟩ := List.nodup_cons.mp hnd
    obtain ⟨s, hs, rfl⟩ := hids _ List.mem_cons_self
    obtain ⟨live, hkept⟩ := h s hs
    rw [pending, if_pos List.mem_cons_self] at hkept
    obtain ⟨out₁, d₁, live₁, hpurge, hkept₁, hbeside, hstill⟩ :=
      purge_kept hr hs hst hkept passedOver out
    have hnext : AllKept z stations n (pending r ids) d₁ := by
      have hpurged : Kept z stations n (pending r ids s) s live₁ d₁ := by
        rwa [pending, if_neg hk]
      refine h.beside hbeside hpurged fun u hu hne => ?_
      have hid : u.id ≠ s.id := fun he => hne (hr.id_inj hu hs he)
      simp only [pending, List.mem_cons, hid, false_or]
    obtain ⟨out₂, d₂, hall, h₂, hsame, hstill₂⟩ := ih (hbeside.traffic.served.trans hst) hrest hnext
      (fun k hk => hids k (List.mem_cons_of_mem _ hk)) out₁
    exact ⟨out₂, d₂, by rw [purgeAll, hpurge]; exact hall, h₂, hbeside.same.trans hsame,
      hstill.trans hstill₂⟩

def scheduleIn (cell : Cell) (t : Int) : Schedule :=
  Schedule.ofStations cell.stations (t / cell.horizonRounds * cell.horizonRounds) cell.horizonRounds

theorem lookUp_arrived (h : Horizon cell.stations cell.horizonRounds) (hs : s ∈ cell.stations)
    (hdue : a % s.period = 0) (hsch : d.book.schedule = some (scheduleIn cell a))
    (hp : p.Open s a) : ∃ i, d.lookUp p = some (i, entryOf s a) := by
  obtain ⟨hk, hpacket⟩ := Schedule.packet_of_due h hs hdue
  set start := a / cell.horizonRounds * cell.horizonRounds with hstart
  have hcontains : (scheduleIn cell a).contains a = true := by
    have hsum := Int.ediv_mul_add_emod a cell.horizonRounds
    have hmod := Int.emod_nonneg a h.pos.ne'
    have hlt := Int.emod_lt_of_pos a h.pos
    simp only [Schedule.contains, Schedule.stop, scheduleIn, Schedule.ofStations, ← hstart,
      Bool.and_eq_true, decide_eq_true_eq]
    omega
  have hfound : ((Schedule.stationPackets start cell.horizonRounds s).findIdx?
      fun e => e.arrival = a).isSome = true := by
    rw [List.findIdx?_isSome, List.any_eq_true]
    have hentry := Schedule.getElem?_stationPackets start hk
    exact ⟨_, List.mem_of_getElem? hentry, decide_eq_true (congrArg Entry.arrival hpacket)⟩
  obtain ⟨i, hi⟩ := Option.isSome_iff_exists.mp hfound
  obtain ⟨hilt, hfirst, -⟩ := List.findIdx?_eq_some_iff_getElem.mp hi
  have hsome := List.getElem?_eq_getElem hilt
  rw [Schedule.length_stationPackets] at hilt
  rw [Schedule.getElem?_stationPackets start hilt, Option.some.injEq] at hsome
  rw [← hsome, decide_eq_true_eq] at hfirst
  have hindex : (scheduleIn cell a).indexOf s.id a =
      .ok (some (Schedule.firstIndex cell.horizonRounds cell.stations s.id + i)) := by
    rw [Schedule.indexOf, Schedule.run, scheduleIn, ← hstart, Schedule.run?_ofStations h.roster hs]
    simp only [Except.map]
    rw [Schedule.slice_runOf h.roster hs, hi]
    rfl
  have hget := Schedule.getElem?_entries h.roster hs hilt start
  rw [lookUp, hsch]
  simp only [hp.arrival, hcontains, if_true, hp.station, hindex]
  refine ⟨Schedule.firstIndex cell.horizonRounds cell.stations s.id + i, ?_⟩
  rw [scheduleIn, ← hstart, hget]
  have hentry : Schedule.packet start s i = entryOf s a := by
    rw [entryOf, ← hfirst]
    rfl
  rw [hentry]
  rfl

structure Present (z : Sizing) (stations : List Station) (n : Nat) (t : Int) (s : Station)
    (live : Int → Bool) (d : RoundRobin) : Prop where
  holds : d.traffic.Holds stations n s (Fate z live s) live
  cached : ∀ a ∈ Traffic.arrivals s n, live a = true → a ≠ t →
    (d.cached? (Traffic.idOf stations s a)).isSome = true
  labelled : Labelled stations s d
  timely : ∀ a ∈ Traffic.arrivals s n, live a = true → t ≤ a + s.deadline

structure Onward (z : Sizing) (stations : List Station) (n : Nat) (d d' : RoundRobin) : Prop where
  same : Same d d'
  holds : ∀ u ∈ stations, ∀ live, d.traffic.Holds stations n u (Fate z live u) live →
    d'.traffic.Holds stations n u (Fate z live u) live
  entry : ∀ i, (d.cached? i).isSome = true → (d'.cached? i).isSome = true
  labelled : ∀ u ∈ stations, Labelled stations u d → Labelled stations u d'
  still : Traffic.Still d.traffic d'.traffic

theorem Onward.refl (z : Sizing) (stations : List Station) (n : Nat) (d : RoundRobin) :
    Onward z stations n d d :=
  ⟨Same.refl d, fun _ _ _ h => h, fun _ h => h, fun _ _ h => h, Traffic.Still.refl _⟩

theorem Onward.trans (h₁ : Onward z stations n d d') (h₂ : Onward z stations n d' d'') :
    Onward z stations n d d'' :=
  ⟨h₁.same.trans h₂.same, fun u hu live h => h₂.holds u hu live (h₁.holds u hu live h),
    fun i h => h₂.entry i (h₁.entry i h), fun u hu h => h₂.labelled u hu (h₁.labelled u hu h),
    h₁.still.trans h₂.still⟩

theorem Present.onward {live : Int → Bool} (h : Present z stations n a s live d) (hs : s ∈ stations)
    (hd : Onward z stations n d d') : Present z stations n a s live d' :=
  ⟨hd.holds s hs live h.holds, fun b hb hlive hne => hd.entry _ (h.cached b hb hlive hne),
    hd.labelled s hs h.labelled, h.timely⟩

theorem cached?_append {e : Entry} (h : d'.entries = d.entries ++ [(id, e)]) (i : Nat) :
    d'.cached? i = (d.cached? i).or (if id = i then some e else none) := by
  unfold cached?
  simp only [h, List.find?_append, List.find?_cons, List.find?_nil]
  cases hf : d.entries.find? fun p => decide (p.1 = i) with
  | some p => simp
  | none =>
    by_cases hi : id = i
    · simp [hi]
    · simp [hi]

theorem pair_onward {live : Int → Bool} (h : Horizon cell.stations cell.horizonRounds)
    (hs : s ∈ cell.stations) (hp : Present z cell.stations n t s live d)
    (hsch : t < m → d.book.schedule = some (scheduleIn cell t)) (hn : n ≤ m)
    (ha : a ∈ Traffic.arrivals s n) (hlive : live a = true) :
    ∃ d', pair (Traffic.idOf cell.stations s a) d = .ok () d' ∧ Onward z cell.stations n d d' ∧
      (d'.cached? (Traffic.idOf cell.stations s a)).isSome = true := by
  cases hentry : (d.cached? (Traffic.idOf cell.stations s a)).isSome with
  | true => exact ⟨d, by rw [pair, hentry, if_pos rfl], Onward.refl _ _ _ _, hentry⟩
  | false =>
    obtain rfl : a = t := by
      by_contra hne
      rw [hp.cached a ha hlive hne] at hentry
      cases hentry
    obtain ⟨hlt, hdue⟩ := Traffic.mem_arrivals.mp ha
    obtain ⟨p, hpacket, hfate⟩ := hp.holds.packet t ha
    have hopen : p.Open s t := by simpa [Fate, hlive] using hfate
    obtain ⟨i, hlook⟩ := lookUp_arrived h hs hdue (hsch (by omega)) hopen
    let q := { p with horizon := some d.book.lastIndex, scheduleIndex := some (Int.ofNat i) }
    have hpair : pair (Traffic.idOf cell.stations s t) d = .ok () { d with
        traffic := d.traffic.setPacket (Traffic.idOf cell.stations s t) q
        entries := d.entries ++ [(Traffic.idOf cell.stations s t, entryOf s t)] } := by
      simp only [pair, hentry, hpacket, hlook]
      rfl
    have hunsent : q.txRound = none := hopen.unsent
    refine ⟨_, hpair, ⟨⟨rfl, rfl, Traffic.size_setPacket _ _ _, rfl, List.Perm.refl _⟩, ?_, ?_, ?_,
      Traffic.Still.setPacket hunsent _ _⟩, ?_⟩
    · intro u hu live' hholds
      by_cases hus : u = s
      · subst hus
        refine hholds.setPacket hu ha ?_ fun _ _ _ _ hq => hq
        obtain ⟨p', hp', hfate'⟩ := hholds.packet t ha
        obtain rfl : p' = p := Option.some.inj (hp'.symm.trans hpacket)
        unfold Fate at hfate' ⊢
        split_ifs at hfate' ⊢
        · exact ⟨⟨hopen.station, hopen.arrival, hopen.deadline, hopen.penalty⟩, hopen.state,
            hopen.unsent, hopen.kept⟩
        · exact absurd hfate'.closed hopen.not_closed
      · exact hholds.apart (Traffic.Apart.setPacket hs ha _ _) hu hus
    · intro j hj
      rw [cached?_append rfl]
      simp [hj]
    · intro u hu hlabelled m' b hb e he
      rw [cached?_append rfl, Option.or_eq_some_iff] at he
      rcases he with he | ⟨-, he⟩
      · exact hlabelled m' b hb e he
      · split_ifs at he with hid
        obtain ⟨rfl, rfl⟩ := Traffic.idOf_inj hs ha hu hb hid
        exact (Option.some.inj he).symm
    · rw [cached?_append rfl]
      simp

theorem pairAll_onward {live : Station → Int → Bool} (h : Horizon cell.stations cell.horizonRounds)
    (hp : ∀ s ∈ cell.stations, Present z cell.stations n t s (live s) d)
    (hsch : t < m → d.book.schedule = some (scheduleIn cell t)) (hn : n ≤ m) {ids : List Nat}
    (hids : ∀ id ∈ ids, ∃ s ∈ cell.stations, ∃ a ∈ Traffic.arrivals s n, live s a = true ∧
      Traffic.idOf cell.stations s a = id) :
    ∃ d', pairAll ids d = .ok () d' ∧ Onward z cell.stations n d d' ∧
      ∀ id ∈ ids, (d'.cached? id).isSome = true := by
  induction ids generalizing d with
  | nil => exact ⟨d, rfl, Onward.refl _ _ _ _, by simp⟩
  | cons id ids ih =>
    obtain ⟨s, hs, a, ha, hlive, rfl⟩ := hids _ List.mem_cons_self
    obtain ⟨d₁, hpair, h₁, hcached⟩ := pair_onward h hs (hp s hs) hsch hn ha hlive
    obtain ⟨d₂, hall, h₂, hcached₂⟩ := ih (fun u hu => (hp u hu).onward hu h₁)
      (fun hlt => by rw [h₁.same.book]; exact hsch hlt)
      fun i hi => hids i (List.mem_cons_of_mem _ hi)
    refine ⟨d₂, by rw [pairAll, hpair]; exact hall, h₁.trans h₂, fun i hi => ?_⟩
    rcases List.mem_cons.mp hi with he | hi
    · rw [he]
      exact h₂.entry _ hcached
    · exact hcached₂ i hi

theorem byCredit_perm (credits : List Credit) : (byCredit credits).Perm credits :=
  List.mergeSort_perm _ _

theorem settleCredits_same (served : List Int) (d : RoundRobin) :
    Same d (settleCredits served d) := by
  unfold settleCredits
  split_ifs
  · exact Same.refl d
  · refine ⟨rfl, rfl, rfl, rfl, ?_⟩
    apply List.Perm.trans ((byCredit_perm _).map Credit.station)
    rw [List.map_map]
    exact List.Perm.refl _

theorem settleCredits_traffic (served : List Int) (d : RoundRobin) :
    (settleCredits served d).traffic = d.traffic := by
  unfold settleCredits
  split_ifs <;> rfl

theorem settleCredits_kept {served : List Int} {bound : Station → Int}
    (h : AllKept z stations n bound d) : AllKept z stations n bound (settleCredits served d) := by
  unfold settleCredits
  split_ifs
  · exact h
  · intro s hs
    obtain ⟨live, hkept⟩ := h s hs
    exact ⟨live, hkept.holds, hkept.cached, hkept.labelled, hkept.timely⟩

theorem pairCandidates_kept {live : Station → Int → Bool}
    (h : Horizon cell.stations cell.horizonRounds)
    (hcandidates : ∀ k, k ∈ d.book.candidates ↔
      (∃ s ∈ cell.stations, s.id = k) ∧ d.traffic.waiting k ≠ [])
    (hp : ∀ s ∈ cell.stations, Present z cell.stations n t s (live s) d)
    (hsch : t < m → d.book.schedule = some (scheduleIn cell t)) (hn : n ≤ m) :
    ∃ d', pairAll (d.book.candidates.flatMap d.traffic.waiting) d = .ok () d' ∧ Same d d' ∧
      Traffic.Still d.traffic d'.traffic ∧
      ∀ s ∈ cell.stations, Kept z cell.stations n t s (live s) d' := by
  have hids : ∀ id ∈ d.book.candidates.flatMap d.traffic.waiting, ∃ s ∈ cell.stations,
      ∃ a ∈ Traffic.arrivals s n, live s a = true ∧ Traffic.idOf cell.stations s a = id := by
    intro id hid
    obtain ⟨k, hk, hid⟩ := List.mem_flatMap.mp hid
    obtain ⟨⟨s, hs, rfl⟩, -⟩ := (hcandidates k).mp hk
    rw [(hp s hs).holds.queue, List.mem_map] at hid
    obtain ⟨a, ha, he⟩ := hid
    obtain ⟨ha, hlive⟩ := List.mem_filter.mp ha
    exact ⟨s, hs, a, ha, hlive, he⟩
  obtain ⟨d', hpair, hon, hcached⟩ := pairAll_onward h hp hsch hn hids
  refine ⟨d', hpair, hon.same, hon.still, fun s hs =>
    ⟨hon.holds s hs _ (hp s hs).holds, fun a ha hlive => hcached _ ?_,
      hon.labelled s hs (hp s hs).labelled, (hp s hs).timely⟩⟩
  have hmem : Traffic.idOf cell.stations s a ∈ d.traffic.waiting s.id := by
    rw [(hp s hs).holds.queue]
    exact List.mem_map_of_mem (List.mem_filter.mpr ⟨ha, hlive⟩)
  exact List.mem_flatMap.mpr
    ⟨s.id, (hcandidates s.id).mpr ⟨⟨s, hs, rfl⟩, List.ne_nil_of_mem hmem⟩, hmem⟩

theorem AllKept.pending {ids : List Int} (h : AllKept z stations n (fun _ => r) d)
    (hidle : ∀ s ∈ stations, s.id ∉ ids → d.traffic.waiting s.id = []) :
    AllKept z stations n (RoundRobin.pending r ids) d := by
  intro s hs
  obtain ⟨live, hkept⟩ := h s hs
  refine ⟨live, hkept.advance fun a ha hlive => ?_⟩
  have hwaits : Traffic.idOf stations s a ∈ d.traffic.waiting s.id :=
    hkept.mem_waiting.mpr ⟨a, ha, hlive, rfl⟩
  have hmem : s.id ∈ ids := by
    by_contra hnot
    rw [hidle s hs hnot] at hwaits
    cases hwaits
  rw [RoundRobin.pending, if_pos hmem]
  exact hkept.timely a ha hlive

theorem assign_kept (h : Horizon cell.stations cell.horizonRounds) (hcell : d.book.cell = cell)
    (hst : d.traffic.stations = cell.stations)
    (hcandidates : ∀ k, k ∈ d.book.candidates ↔
      (∃ s ∈ cell.stations, s.id = k) ∧ d.traffic.waiting k ≠ [])
    (hnd : d.book.candidates.Nodup)
    (hp : ∀ s ∈ cell.stations, ∃ live, Present cell.sizing cell.stations n t s live d)
    (hslots : d.traffic.Slots t [])
    (hsch : t < m → d.book.schedule = some (scheduleIn cell t)) (hn : n ≤ m) (hnt : n ≤ t + 1) :
    ∃ out d', assign t d = .ok out d' ∧
      AllKept cell.sizing cell.stations n (fun _ => t + 1) d' ∧
      d'.traffic.Slots (t + 1) [] ∧ Same d d' := by
  choose! live hpresent using hp
  obtain ⟨d₁, hpair, hsame₁, hstill₁, hkept₁⟩ := pairCandidates_kept h hcandidates hpresent hsch hn
  have hst₁ : d₁.traffic.stations = cell.stations := hsame₁.stations.trans hst
  have hwaiting₁ : ∀ s ∈ cell.stations, d₁.traffic.waiting s.id = d.traffic.waiting s.id := by
    intro s hs
    rw [(hkept₁ s hs).holds.queue, (hpresent s hs).holds.queue]
  let served := d.book.candidates.take cell.sizing.perRound
  have hlength : served.length ≤ cell.sizing.units.length := by
    rw [Sizing.units_length]
    exact List.length_take_le _ _
  have hturns : (cell.sizing.units.zip served).map Prod.snd = served := List.map_snd_zip hlength
  have hdistinct : ((cell.sizing.units.zip served).map Prod.snd).Nodup := by
    rw [hturns]
    exact (List.take_sublist _ _).nodup hnd
  have hfree : ((cell.sizing.units.zip served).map Prod.fst ++ []).Nodup := by
    rw [List.append_nil, List.zip_eq_zip_take_min, List.map_fst_zip (by simp)]
    exact (List.take_sublist _ _).nodup (Sizing.units_nodup cell.sizing)
  obtain ⟨out₂, d₂, used, hsend, hkept₂, hsame₂, hslots₂, hidle₂⟩ := sendAll_kept h.roster hst₁
    (by omega) (fun s hs => ⟨live s, hkept₁ s hs⟩) hdistinct
    (fun x hx => by
      have hmem : x.2 ∈ served := hturns ▸ List.mem_map_of_mem hx
      obtain ⟨⟨s, hs, he⟩, hne⟩ := (hcandidates x.2).mp (List.mem_of_mem_take hmem)
      exact ⟨s, hs, he, by rwa [hwaiting₁ s hs, he]⟩)
    (fun x hx => (List.of_mem_zip hx).1) hfree (hslots.still hstill₁)
    (RoundAssignment.empty t cell.sizing.ruType)
  have hidle : ∀ s ∈ cell.stations, s.id ∉ d.book.candidates → d₂.traffic.waiting s.id = [] := by
    intro s hs hnot
    refine hidle₂ s hs ?_
    rw [hwaiting₁ s hs]
    by_contra hne
    exact hnot ((hcandidates s.id).mpr ⟨⟨s, hs, rfl⟩, hne⟩)
  obtain ⟨out₃, d₃, hpurge, hkept₃, hsame₃, hstill₃⟩ := purgeAll_kept h.roster
    (hsame₂.stations.trans hst₁) (d.book.candidates.drop cell.sizing.perRound) hnd
    (hkept₂.pending hidle) (fun k hk => ((hcandidates k).mp hk).1) out₂
  refine ⟨out₃, settleCredits served d₃, ?_, settleCredits_kept hkept₃, ?_,
    ((hsame₁.trans hsame₂).trans hsame₃).trans (settleCredits_same served d₃)⟩
  · simp only [assign, hcell, hpair]
    rw [hsend]
    dsimp only
    rw [hpurge]
  · rw [settleCredits_traffic]
    exact (hslots₂.still hstill₃).next

end Downlink.RoundRobin
