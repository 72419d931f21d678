import Downlink.Proofs.RoundRobin.Custody
import Downlink.Proofs.Schedule.Naming

/-!
# Pairing in the round robin

Pairing notes entries in packets and in the cache and leaves everything else as it was, also when it
fails. It fails exactly if one of the packets has nothing cached and no entry in the active
schedule.
-/

namespace Downlink

def Packet.unpaired (p : Packet) : Packet := { p with horizon := none, scheduleIndex := none }

namespace Traffic

variable {tr tr' : Traffic} {id : Nat} {p q : Packet}

/-- The traffic without the entries that its packets are paired with. -/
def unpaired (tr : Traffic) : Traffic := { tr with packets := tr.packets.map Packet.unpaired }

theorem packet?_unpaired (tr : Traffic) (id : Nat) :
    tr.unpaired.packet? id = (tr.packet? id).map Packet.unpaired :=
  Array.getElem?_map

theorem setPacket_unpaired (hp : tr.packet? id = some p) (hq : q.unpaired = p.unpaired) :
    (tr.setPacket id q).unpaired = tr.unpaired := by
  have hset : (tr.setPacket id q).unpaired = tr.unpaired.setPacket id q.unpaired := by
    rw [unpaired, setPacket, setPacket, unpaired, Array.map_setIfInBounds]
  rw [hset, hq, setPacket_self]
  rw [packet?_unpaired, hp]
  rfl

theorem exists_of_unpaired (h : tr'.unpaired = tr.unpaired) (hp : tr.packet? id = some p) :
    ∃ q, tr'.packet? id = some q ∧ q.unpaired = p.unpaired := by
  have hsame := congrArg (fun t => t.packet? id) h
  simp only [packet?_unpaired, hp, Option.map_some] at hsame
  exact Option.map_eq_some_iff.mp hsame

theorem queues_of_unpaired (h : tr'.unpaired = tr.unpaired) : tr'.queues = tr.queues := by
  have hsame := congrArg Traffic.queues h
  exact hsame

theorem waiting_of_unpaired (h : tr'.unpaired = tr.unpaired) (k : Int) :
    tr'.waiting k = tr.waiting k := by
  rw [waiting, waiting, queue?, queue?, queues_of_unpaired h]

end Traffic

namespace RoundRobin

variable {d d' d'' : RoundRobin} {id i : Nat} {ids ids' : List Nat} {p : Packet} {e : Entry}

theorem lookUp_eq_some {stations : List Station} {start H : Int} (h : Horizon stations H)
    (hsch : d.book.schedule = some (Schedule.ofStations stations start H)) (p : Packet) (i : Nat)
    (e : Entry) : d.lookUp p = some (i, e) ↔
      (Schedule.ofStations stations start H).entries[i]? = some e ∧ e.station = p.station ∧
        e.arrival = p.arrival := by
  have hindex := Schedule.indexOf_eq_some h start p.station p.arrival
  rw [lookUp, hsch]
  dsimp only
  constructor
  · intro hlook
    split_ifs at hlook
    split at hlook
    · rename_i j hj
      obtain ⟨e', he', hnames⟩ := (hindex j).mp hj
      rw [he'] at hlook
      cases hlook
      exact ⟨he', hnames⟩
    · cases hlook
  · rintro ⟨he, hstation, harrival⟩
    rw [if_pos (harrival ▸ Schedule.contains_of_getElem? h he),
      (hindex i).mpr ⟨e, he, hstation, harrival⟩]
    dsimp only
    rw [he]
    rfl

theorem lookUp_eq_none {stations : List Station} {H : Int} (h : Horizon stations H)
    (hsch : d.book.schedule = none ∨
      ∃ start, d.book.schedule = some (Schedule.ofStations stations start H)) (p : Packet) :
    d.lookUp p = none ↔
      ∀ s, d.book.schedule = some s → ∀ e ∈ s.entries, ¬(e.station = p.station ∧
        e.arrival = p.arrival) := by
  rcases hsch with hnone | ⟨start, hsch⟩
  · simp [lookUp, hnone]
  · have hsome := lookUp_eq_some h hsch p
    constructor
    · rintro hlook s hs e he hnames
      obtain rfl := Option.some.inj (hsch.symm.trans hs)
      obtain ⟨j, hj⟩ := List.mem_iff_getElem?.mp he
      rw [(hsome j e).mpr ⟨hj, hnames⟩] at hlook
      cases hlook
    · intro hnot
      refine Option.eq_none_iff_forall_ne_some.mpr fun x hx => ?_
      obtain ⟨he, hnames⟩ := (hsome x.1 x.2).mp hx
      exact hnot _ hsch _ (List.mem_of_getElem? he) hnames

def marked (d : RoundRobin) (i : Nat) (p : Packet) : Packet :=
  { p with horizon := some d.book.lastIndex, scheduleIndex := some (Int.ofNat i) }

def note (d : RoundRobin) (id : Nat) (p : Packet) (i : Nat) (e : Entry) : RoundRobin :=
  { d with
    traffic := d.traffic.setPacket id (d.marked i p)
    entries := d.entries ++ [(id, e)] }

theorem pair_cached (h : (d.cached? id).isSome = true) : pair id d = .ok () d := by
  rw [pair, if_pos h]

theorem pair_note (h : d.cached? id = none) (hp : d.traffic.packet? id = some p)
    (hlook : d.lookUp p = some (i, e)) : pair id d = .ok () (d.note id p i e) := by
  simp only [pair, h, hp, hlook]
  rfl

theorem pair_lost (h : d.cached? id = none) (hp : d.traffic.packet? id = some p)
    (hlook : d.lookUp p = none) :
    pair id d = .error (.showing [p.station, p.id, p.arrival]
      (.desync (.noEntry p.station p.id p.arrival))) d := by
  simp only [pair, h, hp, hlook, Option.isSome_none, Bool.false_eq_true, if_false]

structure Pairs (ids : List Nat) (d d' : RoundRobin) : Prop where
  same : d' = { d with traffic := d'.traffic, entries := d'.entries }
  traffic : d'.traffic.unpaired = d.traffic.unpaired
  entry : ∀ id, id ∉ ids ∨ (d.cached? id).isSome = true → d'.cached? id = d.cached? id
  packet : ∀ id, id ∉ ids ∨ (d.cached? id).isSome = true →
    d'.traffic.packet? id = d.traffic.packet? id

theorem Pairs.refl (ids : List Nat) (d : RoundRobin) : Pairs ids d d :=
  ⟨rfl, rfl, fun _ _ => rfl, fun _ _ => rfl⟩

theorem Pairs.trans (h₁ : Pairs ids d d') (h₂ : Pairs ids' d' d'') : Pairs (ids ++ ids') d d'' := by
  have hstays : ∀ {id}, id ∉ ids ++ ids' ∨ (d.cached? id).isSome = true →
      (id ∉ ids ∨ (d.cached? id).isSome = true) ∧ (id ∉ ids' ∨ (d'.cached? id).isSome = true) := by
    intro id hid
    have hfirst : id ∉ ids ∨ (d.cached? id).isSome = true :=
      hid.imp_left fun hnot hmem => hnot (List.mem_append_left _ hmem)
    refine ⟨hfirst, hid.imp (fun hnot hmem => hnot (List.mem_append_right _ hmem)) fun hsome => ?_⟩
    rw [h₁.entry id hfirst]
    exact hsome
  refine ⟨?_, h₂.traffic.trans h₁.traffic, fun id hid => ?_, fun id hid => ?_⟩
  · rw [h₂.same, h₁.same]
  · exact (h₂.entry id (hstays hid).2).trans (h₁.entry id (hstays hid).1)
  · exact (h₂.packet id (hstays hid).2).trans (h₁.packet id (hstays hid).1)

theorem note_pairs (h : d.cached? id = none) (hp : d.traffic.packet? id = some p) (i : Nat)
    (e : Entry) : Pairs [id] d (d.note id p i e) := by
  have hne : ∀ {j}, j ∉ [id] ∨ (d.cached? j).isSome = true → j ≠ id := by
    rintro j hj rfl
    rcases hj with hj | hj
    · exact hj (List.mem_singleton_self j)
    · rw [h] at hj
      cases hj
  refine ⟨rfl, Traffic.setPacket_unpaired hp rfl, fun j hj => ?_, fun j hj => ?_⟩
  · rw [cached?_append rfl, if_neg (hne hj).symm, Option.or_none]
  · exact Traffic.packet?_setPacket_of_ne (hne hj)

theorem cached?_note (h : d.cached? id = none) (p : Packet) (i : Nat) (e : Entry) :
    cached? (d.note id p i e) id = some e := by
  rw [cached?_append rfl, h, if_pos rfl]
  rfl

theorem Pairs.lookUp (h : Pairs ids d d') (p : Packet) : d'.lookUp p = d.lookUp p := by
  rw [h.same]
  rfl

theorem Pairs.marked (h : Pairs ids d d') (i : Nat) (p : Packet) :
    d'.marked i p = d.marked i p := by
  rw [h.same]
  rfl

/-- What pairing comes to: all are paired that had not been, or one of them cannot be. -/
inductive Pairing (ids : List Nat) (d : RoundRobin) : Attempt RoundRobin Unit → Prop
  | paired {d' : RoundRobin} (pairs : Pairs ids d d')
    (cached : ∀ id ∈ ids, (d'.cached? id).isSome = true)
    (noted : ∀ id ∈ ids, ∀ p, d.cached? id = none → d.traffic.packet? id = some p →
      ∃ i e, d.lookUp p = some (i, e) ∧ d'.traffic.packet? id = some (d.marked i p)) :
    Pairing ids d (.ok () d')
  | lost {d' : RoundRobin} {id : Nat} {p : Packet} (pairs : Pairs ids d d') (hid : id ∈ ids)
    (hentry : d.cached? id = none) (hp : d.traffic.packet? id = some p)
    (hlook : d.lookUp p = none) :
    Pairing ids d (.error (.showing [p.station, p.id, p.arrival]
      (.desync (.noEntry p.station p.id p.arrival))) d')

theorem Pairing.after {d₁ : RoundRobin} {x : Attempt RoundRobin Unit} (h₁ : Pairs [id] d d₁)
    (hcached : (cached? d₁ id).isSome = true)
    (hnoted : ∀ p, d.cached? id = none → d.traffic.packet? id = some p →
      ∃ i e, d.lookUp p = some (i, e) ∧ d₁.traffic.packet? id = some (d.marked i p))
    (h₂ : Pairing ids d₁ x) : Pairing (id :: ids) d x := by
  have hother : ∀ {j}, j ≠ id → j ∉ [id] := fun hj hmem => hj (List.mem_singleton.mp hmem)
  cases h₂ with
  | paired pairs cached noted =>
    refine .paired (h₁.trans pairs) (fun j hj => ?_) fun j hj p hentry hp => ?_
    · rcases List.mem_cons.mp hj with rfl | hj
      · rw [pairs.entry j (Or.inr hcached)]
        exact hcached
      · exact cached j hj
    · by_cases hji : j = id
      · subst hji
        rw [pairs.packet j (Or.inr hcached)]
        exact hnoted p hentry hp
      · have hstays := Or.inl (b := (d.cached? j).isSome = true) (hother hji)
        obtain ⟨i, e, hlook, hmarked⟩ := noted j ((List.mem_cons.mp hj).resolve_left hji) p
          ((h₁.entry j hstays).trans hentry) ((h₁.packet j hstays).trans hp)
        rw [h₁.lookUp] at hlook
        rw [h₁.marked] at hmarked
        exact ⟨i, e, hlook, hmarked⟩
  | @lost d' j p pairs hj hentry hp hlook =>
    have hji : j ≠ id := by
      rintro rfl
      rw [hentry] at hcached
      cases hcached
    have hstays := Or.inl (b := (d.cached? j).isSome = true) (hother hji)
    rw [h₁.entry j hstays] at hentry
    rw [h₁.packet j hstays] at hp
    rw [h₁.lookUp] at hlook
    exact .lost (h₁.trans pairs) (List.mem_cons_of_mem id hj) hentry hp hlook

theorem pairAll_pairing (hids : ∀ id ∈ ids, ∃ p, d.traffic.packet? id = some p) :
    Pairing ids d (pairAll ids d) := by
  induction ids generalizing d with
  | nil => exact .paired (.refl [] d) (by simp) (by simp)
  | cons id ids ih =>
    obtain ⟨p, hp⟩ := hids id List.mem_cons_self
    have hrest : ∀ i ∈ ids, ∃ p, d.traffic.packet? i = some p :=
      fun i hi => hids i (List.mem_cons_of_mem id hi)
    cases hentry : d.cached? id with
    | some e =>
      have hsome : (d.cached? id).isSome = true := hentry ▸ rfl
      rw [pairAll, pair_cached hsome]
      refine .after (.refl [id] d) hsome (fun q hnone _ => ?_) (ih hrest)
      rw [hnone] at hsome
      cases hsome
    | none =>
      cases hlook : d.lookUp p with
      | none =>
        rw [pairAll, pair_lost hentry hp hlook]
        exact .lost (.refl _ d) List.mem_cons_self hentry hp hlook
      | some x =>
        obtain ⟨i, e⟩ := x
        rw [pairAll, pair_note hentry hp hlook]
        have hpairs := note_pairs hentry hp i e
        refine .after hpairs (by rw [cached?_note hentry]; rfl) (fun q _ hq => ?_)
          (ih fun j hj => ?_)
        · obtain rfl := Option.some.inj (hp.symm.trans hq)
          exact ⟨i, e, hlook, Traffic.packet?_setPacket_self hp⟩
        · obtain ⟨q, hq⟩ := hrest j hj
          obtain ⟨q', hq', -⟩ := Traffic.exists_of_unpaired hpairs.traffic hq
          exact ⟨q', hq'⟩

end RoundRobin

end Downlink
