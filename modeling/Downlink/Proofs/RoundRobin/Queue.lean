import Downlink.Proofs.Traffic.Slots
import Downlink.Scheduler.RoundRobin

/-!
# Queues of the round robin

A queued packet has no outcome yet, has its entry in the cache and is not overdue; a packet that
left its queue was sent within its window or dropped in its deadline round. Sending and dropping
take one packet out of one queue and leave everything else alone.
-/

namespace Downlink.RoundRobin

variable {z : Sizing} {stations : List Station} {s u : Station} {n id : Nat} {a : Int}
  {live : Int → Bool} {d d' : RoundRobin} {q : Packet} {out : RoundAssignment} {r : Int}

def Fate (z : Sizing) (live : Int → Bool) (s : Station) (a : Int) (p : Packet) : Prop :=
  if live a then p.Open s a else p.Settled z s a

def entryOf (s : Station) (a : Int) : Entry := ⟨a, a + s.deadline, s.penalty, s.id⟩

/-- What is cached for a packet of the station is the entry of that packet. -/
def Labelled (stations : List Station) (s : Station) (d : RoundRobin) : Prop :=
  ∀ m, ∀ a ∈ Traffic.arrivals s m, ∀ e, d.cached? (Traffic.idOf stations s a) = some e →
    e = entryOf s a

/-- The packets of a station from the first `n` rounds, before round `r` takes its toll; those in
the queue are the live ones. -/
structure Kept (z : Sizing) (stations : List Station) (n : Nat) (r : Int) (s : Station)
    (live : Int → Bool) (d : RoundRobin) : Prop where
  holds : d.traffic.Holds stations n s (Fate z live s) live
  cached : ∀ a ∈ Traffic.arrivals s n, live a = true →
    (d.cached? (Traffic.idOf stations s a)).isSome = true
  labelled : Labelled stations s d
  timely : ∀ a ∈ Traffic.arrivals s n, live a = true → r ≤ a + s.deadline

structure Beside (stations : List Station) (n : Nat) (s : Station) (d d' : RoundRobin) : Prop where
  traffic : Traffic.Apart stations n s d.traffic d'.traffic
  book : d'.book = d.book
  credits : d'.credits = d.credits
  entry : ∀ u ∈ stations, u ≠ s → ∀ m, ∀ a ∈ Traffic.arrivals u m,
    d'.cached? (Traffic.idOf stations u a) = d.cached? (Traffic.idOf stations u a)

theorem Beside.refl (stations : List Station) (n : Nat) (s : Station) (d : RoundRobin) :
    Beside stations n s d d :=
  ⟨Traffic.Apart.refl _ _ _ _, rfl, rfl, fun _ _ _ _ _ _ => rfl⟩

theorem Beside.trans {d'' : RoundRobin} (h₁ : Beside stations n s d d')
    (h₂ : Beside stations n s d' d'') : Beside stations n s d d'' where
  traffic := h₁.traffic.trans h₂.traffic
  book := h₂.book.trans h₁.book
  credits := h₂.credits.trans h₁.credits
  entry u hu hne m a ha := (h₂.entry u hu hne m a ha).trans (h₁.entry u hu hne m a ha)

theorem Kept.beside (h : Kept z stations n r u live d) (hd : Beside stations n s d d')
    (hu : u ∈ stations) (hne : u ≠ s) : Kept z stations n r u live d' where
  holds := h.holds.apart hd.traffic hu hne
  cached a ha hlive := by
    rw [hd.entry u hu hne n a ha]
    exact h.cached a ha hlive
  labelled m a ha e he := h.labelled m a ha e ((hd.entry u hu hne m a ha).symm.trans he)
  timely := h.timely

theorem Kept.of_eq (h : Kept z stations n r s live d) (ht : d'.traffic = d.traffic)
    (he : d'.entries = d.entries) : Kept z stations n r s live d' := by
  have hentry : ∀ i, d'.cached? i = d.cached? i := fun i => by rw [cached?, he, cached?]
  exact ⟨ht ▸ h.holds, fun a ha hlive => by rw [hentry]; exact h.cached a ha hlive,
    fun m a ha e hsome => h.labelled m a ha e ((hentry _).symm.trans hsome), h.timely⟩

theorem Kept.advance {r' : Int} (h : Kept z stations n r s live d)
    (hr : ∀ a ∈ Traffic.arrivals s n, live a = true → r' ≤ a + s.deadline) :
    Kept z stations n r' s live d := ⟨h.holds, h.cached, h.labelled, hr⟩

theorem cached?_forget_of_ne {i : Nat} (h : i ≠ id) (d : RoundRobin) :
    cached? (d.forget id) i = d.cached? i := by
  unfold cached?
  rw [forget, List.find?_filter]
  congr 2
  funext p
  by_cases hp : p.1 = i
  · simp [hp, h]
  · simp [hp]

theorem cached?_of_forget {i : Nat} {e : Entry} (h : cached? (d.forget id) i = some e) :
    d.cached? i = some e := by
  by_cases hi : i = id
  · subst hi
    obtain ⟨p, hp, -⟩ := Option.map_eq_some_iff.mp h
    have hother := (List.mem_filter.mp (List.mem_of_find?_eq_some hp)).2
    have hsame := List.find?_some hp
    simp only [ne_eq, decide_not, Bool.not_eq_true', decide_eq_false_iff_not, decide_eq_true_eq]
      at hother hsame
    exact absurd hsame hother
  · rwa [cached?_forget_of_ne hi] at h

def take (s : Station) (id : Nat) (q : Packet) (d : RoundRobin) : RoundRobin :=
  { d.forget id with
    traffic := (d.traffic.setQueue s.id ((d.traffic.waiting s.id).filter (· ≠ id))).setPacket id q }

theorem take_beside (hr : Station.Roster stations) (hs : s ∈ stations)
    (ha : a ∈ Traffic.arrivals s n) (q : Packet) (d : RoundRobin) :
    Beside stations n s d (take s (Traffic.idOf stations s a) q d) where
  traffic := (Traffic.Apart.setQueue hr hs n _ _).trans (Traffic.Apart.setPacket hs ha _ _)
  book := rfl
  credits := rfl
  entry u hu hne m b hb := by
    apply cached?_forget_of_ne
    intro he
    exact hne (Traffic.idOf_inj hu hb hs ha he).1

theorem Kept.take (h : Kept z stations n r s live d) (hs : s ∈ stations)
    (hst : d.traffic.stations = stations) (ha : a ∈ Traffic.arrivals s n) (hq : q.Settled z s a) :
    Kept z stations n r s (fun b => live b && b ≠ a)
      (RoundRobin.take s (Traffic.idOf stations s a) q d) where
  holds := by
    refine Traffic.Holds.resolve h.holds hs hst ha ?_ fun b _ hb p hp => ?_
    · simpa [Fate] using hq
    · simpa [Fate, hb] using hp
  cached b hb hlive := by
    simp only [Bool.and_eq_true, decide_eq_true_eq] at hlive
    have hid : Traffic.idOf stations s b ≠ Traffic.idOf stations s a :=
      fun he => hlive.2 (Traffic.idOf_inj hs hb hs ha he).2
    exact (congrArg Option.isSome (cached?_forget_of_ne hid d)).trans (h.cached b hb hlive.1)
  labelled m b hb e he := h.labelled m b hb e (cached?_of_forget he)
  timely b hb hlive := by
    simp only [Bool.and_eq_true] at hlive
    exact h.timely b hb hlive.1

theorem Kept.mem_waiting (h : Kept z stations n r s live d) :
    id ∈ d.traffic.waiting s.id ↔
      ∃ a ∈ Traffic.arrivals s n, live a = true ∧ Traffic.idOf stations s a = id := by
  rw [h.holds.queue, List.mem_map]
  constructor
  · intro hm
    obtain ⟨a, ha, he⟩ := hm
    obtain ⟨ha, hlive⟩ := List.mem_filter.mp ha
    exact ⟨a, ha, hlive, he⟩
  · intro hm
    obtain ⟨a, ha, hlive, he⟩ := hm
    exact ⟨a, List.mem_filter.mpr ⟨ha, hlive⟩, he⟩

theorem Kept.waiting_nodup (h : Kept z stations n r s live d) (hs : s ∈ stations) :
    (d.traffic.waiting s.id).Nodup := by
  rw [h.holds.queue]
  apply List.Nodup.map_on
  · intro a ha b hb he
    exact (Traffic.idOf_inj hs (List.mem_filter.mp ha).1 hs (List.mem_filter.mp hb).1 he).2
  · exact (Traffic.arrivals_nodup s n).filter _

theorem Kept.open (h : Kept z stations n r s live d) (ha : a ∈ Traffic.arrivals s n)
    (hlive : live a = true) :
    ∃ p, d.traffic.packet? (Traffic.idOf stations s a) = some p ∧ p.Open s a := by
  obtain ⟨p, hp, hfate⟩ := h.holds.packet a ha
  exact ⟨p, hp, by simpa [Fate, hlive] using hfate⟩

theorem Kept.entry (h : Kept z stations n r s live d) (ha : a ∈ Traffic.arrivals s n)
    (hlive : live a = true) : d.cached? (Traffic.idOf stations s a) = some (entryOf s a) := by
  obtain ⟨e, he⟩ := Option.isSome_iff_exists.mp (h.cached a ha hlive)
  rw [he, h.labelled n a ha e he]

theorem queue_eq_ok (hs : s ∈ d.traffic.stations) :
    d.traffic.queue s.id = .ok (d.traffic.waiting s.id) := by
  obtain ⟨q, hq⟩ := Traffic.exists_queue? hs
  rw [Traffic.queue, Traffic.waiting, hq]
  rfl

theorem send_kept (hr : Station.Roster stations) (hs : s ∈ stations)
    (hst : d.traffic.stations = stations) (hn : (n : Int) ≤ r + 1)
    (h : Kept z stations n r s live d)
    (hne : d.traffic.waiting s.id ≠ []) {ru : Ru} {taken : List Ru} (hru : ru ∈ z.units)
    (hfree : ru ∉ taken) (hslots : d.traffic.Slots r taken) (out : RoundAssignment) :
    ∃ out' d' live', send r s.id ru out d = .ok out' d' ∧ Kept z stations n r s live' d' ∧
      Beside stations n s d d' ∧ d'.traffic.Slots r (ru :: taken) := by
  obtain ⟨id, ids, hwaiting⟩ := List.exists_cons_of_ne_nil hne
  have hmem : id ∈ d.traffic.waiting s.id := hwaiting ▸ List.mem_cons_self
  obtain ⟨a, ha, hlive, rfl⟩ := h.mem_waiting.mp hmem
  obtain ⟨p, hp, hopen⟩ := h.open ha hlive
  have hlt := (Traffic.mem_arrivals.mp ha).1.2
  obtain ⟨q, hsent, hq, hround, hunit⟩ :=
    hopen.transmit (by omega : a ≤ r) (h.timely a ha hlive) hru
  have hnd := h.waiting_nodup hs
  rw [hwaiting, List.nodup_cons] at hnd
  have htail : (d.traffic.waiting s.id).filter (· ≠ Traffic.idOf stations s a) = ids := by
    rw [hwaiting, List.filter_cons, if_neg (by simp), List.filter_eq_self]
    intro i hi
    exact decide_eq_true fun he => hnd.1 (he ▸ hi)
  have hpop : d.traffic.popFront s.id =
      .ok (Traffic.idOf stations s a, d.traffic.setQueue s.id ids) := by
    rw [Traffic.popFront, queue_eq_ok (hst ▸ hs), hwaiting]
  have hupdate : ((d.traffic.setQueue s.id ids).update (Traffic.idOf stations s a)
      fun p => p.transmit r ru) =
        .ok ((d.traffic.setQueue s.id ids).setPacket (Traffic.idOf stations s a) q) :=
    Traffic.update_ok hp hsent
  have htaken : send r s.id ru out d =
      .ok { out with allocations := out.allocations ++ [⟨s.id, Traffic.idOf stations s a, ru⟩] }
        (take s (Traffic.idOf stations s a) q d) := by
    simp only [send, hpop, hupdate, take, htail]
    rfl
  refine ⟨_, _, _, htaken, h.take hs hst ha (Or.inl hq), take_beside hr hs ha q d, ?_⟩
  exact (hslots.still (Traffic.Still.setQueue _ _ _)).send hfree hround hunit _

theorem expired_eq {ids : List Nat} (h : ∀ id ∈ ids, (d.cached? id).isSome = true) (r : Int) :
    d.expired r ids = .ok (ids.filter fun id => (d.cached? id).any fun e => e.deadline ≤ r) := by
  induction ids with
  | nil => rfl
  | cons id ids ih =>
    obtain ⟨e, he⟩ := Option.isSome_iff_exists.mp (h id List.mem_cons_self)
    have hrest := ih fun i hi => h i (List.mem_cons_of_mem id hi)
    by_cases hdue : e.deadline ≤ r
    · simp [expired, isExpired, he, hrest, hdue]
    · simp [expired, isExpired, he, hrest, hdue]

theorem dropAll_kept (hr : Station.Roster stations) (hs : s ∈ stations) {ids : List Nat}
    (hnd : ids.Nodup) (hst : d.traffic.stations = stations) (h : Kept z stations n r s live d)
    (hids : ∀ id ∈ ids, ∃ a ∈ Traffic.arrivals s n, live a = true ∧
      Traffic.idOf stations s a = id ∧ r = a + s.deadline) (out : RoundAssignment) :
    ∃ out' d' live', dropAll r s.id ids out d = .ok out' d' ∧ Kept z stations n r s live' d' ∧
      Beside stations n s d d' ∧ Traffic.Still d.traffic d'.traffic ∧
      ∀ a ∈ Traffic.arrivals s n, live' a = true →
        live a = true ∧ Traffic.idOf stations s a ∉ ids := by
  induction ids generalizing d live out with
  | nil =>
    exact ⟨out, d, live, rfl, h, Beside.refl _ _ _ _, Traffic.Still.refl _,
      fun a _ hlive => ⟨hlive, List.not_mem_nil⟩⟩
  | cons id ids ih =>
    obtain ⟨hid, hrest⟩ := List.nodup_cons.mp hnd
    obtain ⟨a, ha, hlive, rfl, hdue⟩ := hids _ List.mem_cons_self
    obtain ⟨p, hp, hopen⟩ := h.open ha hlive
    have hlost := hopen.lost hdue
    let q := p.lost r .deadline
    let d₁ := take s (Traffic.idOf stations s a) q d
    have hbeside : Beside stations n s d d₁ := take_beside hr hs ha q d
    have hids₁ : ∀ i ∈ ids, ∃ b ∈ Traffic.arrivals s n, (live b && b ≠ a) = true ∧
        Traffic.idOf stations s b = i ∧ r = b + s.deadline := by
      intro i hi
      obtain ⟨b, hb, hliveb, rfl, hdueb⟩ := hids i (List.mem_cons_of_mem _ hi)
      have hba : b ≠ a := fun he => hid (he ▸ hi)
      exact ⟨b, hb, by simp [hliveb, hba], rfl, hdueb⟩
    obtain ⟨out₂, d₂, live₂, hdrop, hkept, hbeside₂, hstill, hlive₂⟩ := ih hrest
      (hbeside.traffic.served.trans hst) (h.take hs hst ha (Or.inr hlost)) hids₁
      { out with drops := out.drops ++ [Traffic.idOf stations s a] }
    let tr := d.traffic.setQueue s.id
      ((d.traffic.waiting s.id).filter (· ≠ Traffic.idOf stations s a))
    have hupdate : (tr.update (Traffic.idOf stations s a) fun p => p.drop r .deadline) =
        .ok (tr.setPacket (Traffic.idOf stations s a) q) :=
      Traffic.update_ok hp (Packet.drop_ok (Or.inl hopen.state))
    refine ⟨out₂, d₂, live₂, ?_, hkept, hbeside.trans hbeside₂, ?_, fun b hb hliveb => ?_⟩
    · simp only [dropAll, forget]
      rw [hupdate]
      exact hdrop
    · exact ((Traffic.Still.setQueue _ _ _).trans
        (Traffic.Still.setPacket hlost.unsent tr _)).trans hstill
    · obtain ⟨hliveb, hnot⟩ := hlive₂ b hb hliveb
      simp only [Bool.and_eq_true, decide_eq_true_eq] at hliveb
      refine ⟨hliveb.1, fun hm => ?_⟩
      rcases List.mem_cons.mp hm with he | hm
      · exact hliveb.2 (Traffic.idOf_inj hs hb hs ha he).2
      · exact hnot hm

theorem purge_kept (hr : Station.Roster stations) (hs : s ∈ stations)
    (hst : d.traffic.stations = stations) (h : Kept z stations n r s live d) (passedOver : List Int)
    (out : RoundAssignment) :
    ∃ out' d' live', purge r passedOver s.id out d = .ok out' d' ∧
      Kept z stations n (r + 1) s live' d' ∧ Beside stations n s d d' ∧
      Traffic.Still d.traffic d'.traffic := by
  have hcached : ∀ id ∈ d.traffic.waiting s.id, (d.cached? id).isSome = true := by
    intro id hid
    obtain ⟨a, ha, hlive, rfl⟩ := h.mem_waiting.mp hid
    exact h.cached a ha hlive
  obtain ⟨late, hlate⟩ : ∃ l, l = (d.traffic.waiting s.id).filter fun id =>
      (d.cached? id).any fun e => e.deadline ≤ r := ⟨_, rfl⟩
  have hexpired := expired_eq hcached r
  rw [← hlate] at hexpired
  have hmem : ∀ a ∈ Traffic.arrivals s n, live a = true →
      (Traffic.idOf stations s a ∈ late ↔ a + s.deadline ≤ r) := by
    intro a ha hlive
    have hwaits : Traffic.idOf stations s a ∈ d.traffic.waiting s.id :=
      h.mem_waiting.mpr ⟨a, ha, hlive, rfl⟩
    rw [hlate, List.mem_filter, h.entry ha hlive, Option.any_some, decide_eq_true_eq]
    exact and_iff_right hwaits
  have hids : ∀ id ∈ late, ∃ a ∈ Traffic.arrivals s n, live a = true ∧
      Traffic.idOf stations s a = id ∧ r = a + s.deadline := by
    intro id hid
    obtain ⟨a, ha, hlive, rfl⟩ := h.mem_waiting.mp (List.mem_filter.mp (hlate ▸ hid)).1
    exact ⟨a, ha, hlive, rfl, le_antisymm (h.timely a ha hlive) ((hmem a ha hlive).mp hid)⟩
  obtain ⟨out', d', live', hdrop, hkept, hbeside, hstill, hlive'⟩ := dropAll_kept hr hs
    (hlate ▸ (h.waiting_nodup hs).filter _) hst h hids out
  have hpurge : ∃ out'', purge r passedOver s.id out d = .ok out'' d' := by
    simp only [purge, hexpired, hdrop]
    split_ifs
    · exact ⟨_, rfl⟩
    · exact ⟨_, rfl⟩
  obtain ⟨out'', hpurge⟩ := hpurge
  refine ⟨out'', d', live', hpurge, hkept.advance fun a ha hlive => ?_, hbeside, hstill⟩
  obtain ⟨hliveb, hnot⟩ := hlive' a ha hlive
  have := mt (hmem a ha hliveb).mpr hnot
  omega

end Downlink.RoundRobin
