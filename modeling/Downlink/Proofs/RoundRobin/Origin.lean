import Downlink.Proofs.History
import Downlink.Proofs.RoundRobin.Pairing
import Downlink.Proofs.RoundRobin.Run

/-!
# Origins in the round robin

Where a packet comes from, and which entry of which horizon is its own, is settled in the round of
its arrival and never changes. The horizons start one after the other, so the last one that was
recorded when a packet arrives is that of the packet.
-/

namespace Downlink

/-- What a packet says of its emission and of the entry it was paired with. -/
structure Origin where
  id : Int
  station : Int
  arrival : Int
  deadline : Int
  penalty : Int
  horizon : Option Int
  scheduleIndex : Option Int
  deriving DecidableEq, Repr

def Packet.origin (p : Packet) : Origin :=
  ⟨p.id, p.station, p.arrival, p.deadline, p.penalty, p.horizon, p.scheduleIndex⟩

namespace Cell

def position (c : Cell) (s : Station) (a : Int) : Nat :=
  Schedule.firstIndex c.horizonRounds c.stations s.id + (a % c.horizonRounds / s.period).toNat

def origin (c : Cell) (s : Station) (a : Int) : Origin :=
  ⟨Traffic.idOf c.stations s a, s.id, a, a + s.deadline, s.penalty, some (a / c.horizonRounds),
    some (c.position s a)⟩

end Cell

namespace Traffic

variable {tr tr' : Traffic} {id : Nat} {p q : Packet}

def origins (tr : Traffic) : List Origin := tr.packets.toList.map Packet.origin

theorem getElem?_origins (tr : Traffic) (id : Nat) :
    tr.origins[id]? = (tr.packet? id).map Packet.origin := by
  rw [origins, List.getElem?_map, packet?, Array.getElem?_toList]

theorem length_origins (tr : Traffic) : tr.origins.length = tr.packets.size := by
  rw [origins, List.length_map, Array.length_toList]

theorem origins_setPacket (hp : tr.packet? id = some p) (hq : q.origin = p.origin) :
    (tr.setPacket id q).origins = tr.origins := by
  refine List.ext_getElem? fun i => ?_
  rw [getElem?_origins, getElem?_origins]
  by_cases hi : i = id
  · subst hi
    rw [packet?_setPacket_self hp, hp, Option.map_some, Option.map_some, hq]
  · rw [packet?_setPacket_of_ne hi]

theorem origins_update {step : Packet → Except Fault Packet} (h : tr.update id step = .ok tr')
    (hstep : ∀ p q, step p = .ok q → q.origin = p.origin) : tr'.origins = tr.origins := by
  obtain ⟨p, q, hp, hq, rfl⟩ := of_update h
  exact origins_setPacket hp (hstep p q hq)

theorem origins_record (tr : Traffic) (reports : List TxReport) :
    (Engine.record tr reports).origins = tr.origins := by
  induction reports generalizing tr with
  | nil => rfl
  | cons r reports ih =>
    rw [Engine.record]
    cases hp : tr.packet? r.packet with
    | none => exact ih tr
    | some p => exact (ih _).trans (origins_setPacket hp rfl)

end Traffic

theorem Packet.origin_of_transmit {p q : Packet} {round : Int} {ru : Ru}
    (h : p.transmit round ru = .ok q) : q.origin = p.origin := by
  rcases transmit_cases h with ⟨-, rfl⟩ | ⟨-, rfl⟩ <;> rfl

theorem Packet.origin_of_drop {p q : Packet} {round : Int} {reason : DropReason}
    (h : p.drop round reason = .ok q) : q.origin = p.origin := by
  obtain ⟨-, rfl⟩ := of_drop h
  rfl

structure Dated (H : Int) (m : Nat) (starts : List Int) : Prop where
  covered : (m : Int) ≤ starts.length * H
  tight : starts.length * H < m + H
  start : ∀ (k : Nat) r, starts[k]? = some r → r = k * H

namespace Dated

variable {H : Int} {m : Nat} {starts starts' : List Int}

theorem zero (hH : 0 < H) : Dated H 0 [] := by
  constructor <;> simp [hH]

theorem length_eq (hH : 0 < H) (h : Dated H m starts) (h' : Dated H m starts') :
    starts.length = starts'.length := by
  have h₁ : (starts.length : Int) * H < (starts'.length + 1) * H := by
    have := h.tight
    have := h'.covered
    rw [Int.add_mul]
    omega
  have h₂ : (starts'.length : Int) * H < (starts.length + 1) * H := by
    have := h'.tight
    have := h.covered
    rw [Int.add_mul]
    omega
  have h₃ := Int.lt_of_mul_lt_mul_right h₁ hH.le
  have h₄ := Int.lt_of_mul_lt_mul_right h₂ hH.le
  omega

theorem unique (hH : 0 < H) (h : Dated H m starts) (h' : Dated H m starts') : starts = starts' := by
  refine List.ext_getElem (h.length_eq hH h') fun k hk hk' => ?_
  rw [h.start k _ (List.getElem?_eq_getElem hk), h'.start k _ (List.getElem?_eq_getElem hk')]

theorem last (hH : 0 < H) (h : Dated H (m + 1) starts) : (starts.length : Int) - 1 = m / H := by
  have h₁ := h.covered
  have h₂ := h.tight
  push_cast at h₁ h₂
  rw [eq_comm, Int.ediv_eq_iff_of_pos hH, Int.sub_mul]
  omega

theorem stay (h : Dated H m starts) (hm : (m : Int) % H ≠ 0) : Dated H (m + 1) starts := by
  have h₁ := h.covered
  have h₂ := h.tight
  have hne : (m : Int) ≠ starts.length * H := by
    intro he
    rw [he, Int.mul_emod_left] at hm
    exact hm rfl
  refine ⟨?_, ?_, h.start⟩ <;> push_cast <;> omega

theorem begin (hH : 0 < H) (h : Dated H m starts) (hm : (m : Int) % H = 0) :
    Dated H (m + 1) (starts ++ [(m : Int)]) := by
  have h₁ := h.covered
  have h₂ := h.tight
  obtain ⟨k, hk⟩ := Int.dvd_of_emod_eq_zero hm
  rw [Int.mul_comm] at hk
  have hlength : (starts.length : Int) = k := by
    rw [hk] at h₁ h₂
    have h₃ := Int.le_of_mul_le_mul_right h₁ hH
    have h₄ : (starts.length : Int) * H < (k + 1) * H := by rwa [Int.add_mul, Int.one_mul]
    have h₅ := Int.lt_of_mul_lt_mul_right h₄ hH.le
    omega
  rw [← hlength] at hk
  refine ⟨?_, ?_, fun j r hr => ?_⟩
  · simp only [List.length_append, List.length_singleton, Nat.cast_add, Nat.cast_one, Int.add_mul]
    omega
  · simp only [List.length_append, List.length_singleton, Nat.cast_add, Nat.cast_one, Int.add_mul]
    omega
  · rw [List.getElem?_append] at hr
    split_ifs at hr with hj
    · exact h.start j r hr
    · have hlt := (List.getElem?_eq_some_iff.mp hr).1
      rw [List.length_singleton] at hlt
      obtain rfl : j = starts.length := by omega
      rw [Nat.sub_self, List.getElem?_cons_zero, Option.some.injEq] at hr
      rw [← hr, hk]

end Dated

namespace RoundRobin

open Engine Traffic

variable {c : Cell} {s : Station} {n t : Nat} {a r k : Int} {d d' d'' : RoundRobin} {e e' : Engine}
  {out out' : RoundAssignment} {ru : Ru} {ids : List Nat} {turns : List (Ru × Int)}
  {passedOver candidates : List Int} {flag : Bool}

def starts (d : RoundRobin) : List Int := d.book.horizons.map HorizonRecord.start

structure Keeps (d d' : RoundRobin) : Prop where
  origins : d'.traffic.origins = d.traffic.origins
  book : d'.book = d.book
  entry : ∀ id, (d'.cached? id).isSome = true → (d.cached? id).isSome = true

theorem Keeps.refl (d : RoundRobin) : Keeps d d := ⟨rfl, rfl, fun _ h => h⟩

theorem Keeps.trans (h₁ : Keeps d d') (h₂ : Keeps d' d'') : Keeps d d'' :=
  ⟨h₂.origins.trans h₁.origins, h₂.book.trans h₁.book, fun id h => h₁.entry id (h₂.entry id h)⟩

theorem isSome_of_forget {id i : Nat} (h : (cached? (d.forget id) i).isSome = true) :
    (d.cached? i).isSome = true := by
  obtain ⟨e, he⟩ := Option.isSome_iff_exists.mp h
  exact Option.isSome_iff_exists.mpr ⟨e, cached?_of_forget he⟩

theorem send_keeps (h : send r k ru out d = .ok out' d') : Keeps d d' := by
  unfold send at h
  split at h
  · cases h
  rename_i id tr hpop
  obtain ⟨rest, -, rfl⟩ := of_popFront hpop
  dsimp only at h
  split at h
  · cases h
  rename_i tr' hupdate
  cases h
  have hsame := origins_update hupdate fun p q hq => Packet.origin_of_transmit hq
  exact ⟨hsame, rfl, fun i hi => isSome_of_forget hi⟩

theorem sendAll_keeps (h : sendAll r turns out d = .ok out' d') : Keeps d d' := by
  induction turns generalizing d out with
  | nil =>
    cases h
    exact .refl _
  | cons turn turns ih =>
    rw [sendAll] at h
    split at h
    · cases h
    rename_i hfirst
    exact (send_keeps hfirst).trans (ih h)

theorem dropAll_keeps (h : dropAll r k ids out d = .ok out' d') : Keeps d d' := by
  induction ids generalizing d out with
  | nil =>
    cases h
    exact .refl _
  | cons id ids ih =>
    rw [dropAll] at h
    split at h
    · cases h
    rename_i tr hupdate
    have hrest := ih h
    have hsame := origins_update hupdate fun p q hq => Packet.origin_of_drop hq
    exact ⟨hrest.origins.trans hsame, hrest.book, fun i hi => isSome_of_forget (hrest.entry i hi)⟩

theorem purge_keeps (h : purge r passedOver k out d = .ok out' d') : Keeps d d' := by
  unfold purge at h
  split at h
  · cases h
  split at h
  · cases h
  rename_i hdrop
  split_ifs at h <;> cases h <;> exact dropAll_keeps hdrop

theorem purgeAll_keeps (h : purgeAll r passedOver candidates out d = .ok out' d') : Keeps d d' := by
  induction candidates generalizing d out with
  | nil =>
    cases h
    exact .refl _
  | cons k candidates ih =>
    rw [purgeAll] at h
    split at h
    · cases h
    rename_i hfirst
    exact (purge_keeps hfirst).trans (ih h)

theorem settleCredits_keeps (served : List Int) (d : RoundRobin) :
    Keeps d (settleCredits served d) := by
  unfold settleCredits
  split_ifs
  · exact .refl d
  · exact ⟨rfl, rfl, fun _ h => h⟩

theorem assign_keeps (h : assign r d = .ok out d') :
    ∃ d₁, pairAll (d.book.candidates.flatMap d.traffic.waiting) d = .ok () d₁ ∧ Keeps d₁ d' := by
  unfold assign at h
  dsimp only at h
  split at h
  · cases h
  rename_i d₁ hpair
  split at h
  · cases h
  rename_i hsend
  split at h
  · cases h
  rename_i hpurge
  cases h
  exact ⟨d₁, hpair, ((sendAll_keeps hsend).trans (purgeAll_keeps hpurge)).trans
    (settleCredits_keeps _ _)⟩

theorem position_names (hc : c.Sound) (hs : s ∈ c.stations) (hdue : a % s.period = 0) :
    (scheduleIn c a).Names (c.position s a) s.id a := by
  obtain ⟨hk, hpacket⟩ := Schedule.packet_of_due hc.horizon hs hdue
  have hentry := Schedule.getElem?_entries hc.horizon.roster hs hk
    (a / c.horizonRounds * c.horizonRounds)
  rw [hpacket] at hentry
  exact Schedule.names_of_getElem? hc.horizon hentry

theorem position_of_lookUp {p : Packet} {i : Nat} {x : Entry} (hc : c.Sound) (hs : s ∈ c.stations)
    (hdue : a % s.period = 0) (hsch : d.book.schedule = some (scheduleIn c a))
    (hstation : p.station = s.id) (harrival : p.arrival = a) (hlook : d.lookUp p = some (i, x)) :
    i = c.position s a := by
  obtain ⟨hentry, h₁, h₂⟩ := (lookUp_eq_some hc.horizon hsch p i x).mp hlook
  exact (position_names hc hs hdue).only i x hentry (h₁.trans hstation) (h₂.trans harrival)

/-- Before round `t` every packet so far has its origin, and nothing is cached for any other. -/
structure Traced (c : Cell) (n t : Nat) (d : RoundRobin) : Prop where
  origins : d.traffic.origins =
    (emissions c.stations (min t n)).map fun e => c.origin e.1 e.2
  known : ∀ id, (d.cached? id).isSome = true → id < d.traffic.packets.size
  dated : Dated c.horizonRounds (min t n) d.starts

theorem Traced.exists_packet (h : Traced c n t d) (hs : s ∈ c.stations)
    (ha : a ∈ arrivals s (min t n)) :
    ∃ p, d.traffic.packet? (idOf c.stations s a) = some p ∧ p.origin = c.origin s a := by
  have hget := getElem?_origins d.traffic (idOf c.stations s a)
  rw [h.origins, List.getElem?_map, getElem?_idOf hs ha] at hget
  exact Option.map_eq_some_iff.mp hget.symm

theorem Traced.of_keeps (h : Traced c n t d) (hd : Keeps d d') : Traced c n t d' where
  origins := hd.origins.trans h.origins
  known id hid := by
    rw [← length_origins, hd.origins, length_origins]
    exact h.known id (hd.entry id hid)
  dated := by
    rw [starts, hd.book]
    exact h.dated

structure Awaiting (c : Cell) (n t : Nat) (d : RoundRobin) : Prop where
  arrived : Arrived c n t d
  size : d.traffic.packets.size = (emissions c.stations (min (t + 1) n)).length
  old : ∀ s ∈ c.stations, ∀ a ∈ arrivals s (min t n),
    ∃ p, d.traffic.packet? (idOf c.stations s a) = some p ∧ p.origin = c.origin s a
  new : t < n → ∀ s ∈ c.stations, (t : Int) % s.period = 0 →
    d.traffic.packet? (idOf c.stations s t) = some (arriving s (idOf c.stations s t) t) ∧
      idOf c.stations s t ∈ d.traffic.waiting s.id ∧ d.cached? (idOf c.stations s t) = none
  known : ∀ id, (d.cached? id).isSome = true → id < d.traffic.packets.size

theorem Traced.awaiting (hc : c.Sound) (hr : Resting c n t d) (h : Traced c n t d)
    (hphase : Phase n t d.traffic.generating) :
    Awaiting c n t { d with traffic := (d.traffic.generate t).2 } := by
  obtain ⟨harrived, -, hsize, -⟩ := hr.arrived hc hphase
  have hroster := hc.horizon.roster
  rcases hphase with ⟨hlt, hflag⟩ | ⟨hge, hflag⟩
  · have hbefore := hr.size
    have hold := fun s hs a ha => h.exists_packet (s := s) (a := a) hs ha
    rw [min_eq_left hlt.le] at hbefore hold
    have he := generate_emitted hroster hr.stations hflag hbefore
    refine ⟨harrived, hsize, fun s hs a ha => ?_, fun _ s hs hdue => ?_, fun id hid => ?_⟩
    · rw [min_eq_left hlt.le] at ha
      obtain ⟨p, hp, horigin⟩ := hold s hs a ha
      exact ⟨p, (he.old _ (lt_size_of_packet? hp)).trans hp, horigin⟩
    · have hmem := mem_dueIn.mpr ⟨hs, hdue⟩
      obtain ⟨before, after, hsplit⟩ := List.append_of_mem hmem
      refine ⟨he.new s hmem, ?_, ?_⟩
      · rw [he.waiting s hs, if_pos hmem]
        exact List.mem_append_right _ (List.mem_singleton_self _)
      · -- ids are given out in order, so nothing can be cached for this one yet
        refine Option.not_isSome_iff_eq_none.mp fun hsome => ?_
        have hknown : idOf c.stations s t < d.traffic.packets.size := h.known _ hsome
        rw [idOf_due hroster.nodup hsplit, hbefore] at hknown
        omega
    · have hknown : id < d.traffic.packets.size := h.known id hid
      rw [he.size]
      omega
  · have hsame : (d.traffic.generate t).2 = d.traffic := by
      simp only [generate, due, hflag]
      rfl
    rw [hsame] at harrived hsize ⊢
    exact ⟨harrived, hsize, fun s hs a ha => h.exists_packet hs ha, fun hlt => by omega, h.known⟩

theorem Arrived.of_waiting {id : Nat} (h : Arrived c n t d)
    (hid : id ∈ (Book.withBacklog d.traffic d.order).flatMap d.traffic.waiting) :
    ∃ s ∈ c.stations, ∃ a ∈ arrivals s (min (t + 1) n), idOf c.stations s a = id ∧
      (∃ p, d.traffic.packet? id = some p) ∧ (a ≠ t → (d.cached? id).isSome = true) := by
  obtain ⟨k, hk, hid⟩ := List.mem_flatMap.mp hid
  obtain ⟨⟨s, hs, rfl⟩, -⟩ := (mem_candidates h).mp hk
  obtain ⟨live, hp⟩ := h.present s hs
  rw [hp.holds.queue] at hid
  obtain ⟨a, ha, rfl⟩ := List.mem_map.mp hid
  obtain ⟨ha, hlive⟩ := List.mem_filter.mp ha
  obtain ⟨p, hpacket, -⟩ := hp.holds.packet a ha
  exact ⟨s, hs, a, ha, rfl, ⟨p, hpacket⟩, hp.cached a ha hlive⟩

theorem Awaiting.mem_queued (h : Awaiting c n t d) (ht : t < n) (hs : s ∈ c.stations)
    (hdue : (t : Int) % s.period = 0) :
    idOf c.stations s t ∈ (Book.withBacklog d.traffic d.order).flatMap d.traffic.waiting := by
  obtain ⟨-, hwaits, -⟩ := h.new ht s hs hdue
  exact List.mem_flatMap.mpr ⟨s.id, (mem_candidates h.arrived).mpr
    ⟨⟨s, hs, rfl⟩, List.ne_nil_of_mem hwaits⟩, hwaits⟩

theorem origin_of_marked {i : Nat} {x : Entry} (hc : c.Sound) (hs : s ∈ c.stations)
    (hdue : (t : Int) % s.period = 0) (hsch : d.book.schedule = some (scheduleIn c t))
    (hdated : Dated c.horizonRounds (t + 1) d.starts)
    (hlook : d.lookUp (arriving s (idOf c.stations s t) t) = some (i, x)) :
    (d.marked i (arriving s (idOf c.stations s t) t)).origin = c.origin s t := by
  have hlast : d.book.lastIndex = t / c.horizonRounds := by
    have := hdated.last hc.horizon.pos
    rwa [starts, List.length_map] at this
  rw [position_of_lookUp hc hs hdue hsch rfl rfl hlook]
  simp only [Packet.origin, marked, arriving, hlast, Cell.origin, Int.ofNat_eq_natCast]

theorem Awaiting.old_packet (h : Awaiting c n t d) {b : Book}
    (pairs : Pairs ((Book.withBacklog d.traffic d.order).flatMap d.traffic.waiting)
      { d with book := b } d') (hs : s ∈ c.stations) (ha : a ∈ arrivals s (min t n)) :
    ∃ p, d'.traffic.packet? (idOf c.stations s a) = some p ∧ p.origin = c.origin s a := by
  obtain ⟨p, hp, horigin⟩ := h.old s hs a ha
  refine ⟨p, (pairs.packet _ ?_).trans hp, horigin⟩
  refine or_iff_not_imp_left.mpr fun hwaits => ?_
  have hearlier : a ∈ arrivals s (min (t + 1) n) := arrivals_mono (by omega) ha
  obtain ⟨u, hu, b, hb, hid, -, hcached⟩ := h.arrived.of_waiting (not_not.mp hwaits)
  obtain ⟨rfl, rfl⟩ := idOf_inj hu hb hs hearlier hid
  have hbefore := (mem_arrivals.mp ha).1.2
  exact hcached (by omega)

theorem Awaiting.traced (hc : c.Sound) (h : Awaiting c n t d) {b : Book}
    (hcandidates : b.candidates = Book.withBacklog d.traffic d.order)
    (hsch : t < n → b.schedule = some (scheduleIn c t))
    (hdated : Dated c.horizonRounds (min (t + 1) n) (b.horizons.map HorizonRecord.start))
    (hpair : pairAll (b.candidates.flatMap d.traffic.waiting) { d with book := b } = .ok () d') :
    Traced c n (t + 1) d' := by
  rw [hcandidates] at hpair
  have hpackets : ∀ id ∈ (Book.withBacklog d.traffic d.order).flatMap d.traffic.waiting,
      ∃ p, d.traffic.packet? id = some p := fun id hid => by
    obtain ⟨-, -, -, -, -, hpacket, -⟩ := h.arrived.of_waiting hid
    exact hpacket
  have hpairing := pairAll_pairing (d := { d with book := b }) hpackets
  rw [hpair] at hpairing
  cases hpairing with
  | paired pairs cached noted =>
  have hsize : d'.traffic.packets.size = d.traffic.packets.size := by
    have hsame := congrArg (fun tr => tr.packets.size) pairs.traffic
    simpa [unpaired] using hsame
  refine ⟨?_, fun id hid => ?_, ?_⟩
  · refine map_packets hc.horizon.roster.nodup (hsize.trans h.size) fun s hs a ha => ?_
    obtain ⟨⟨h₀, hlt⟩, hdue⟩ := mem_arrivals.mp ha
    by_cases hat : a = t
    · subst hat
      have htn : t < n := by omega
      rw [show min (t + 1) n = t + 1 by omega] at hdated
      obtain ⟨hp, -, hentry⟩ := h.new htn s hs hdue
      obtain ⟨i, x, hlook, hmarked⟩ := noted _ (h.mem_queued htn hs hdue) _ hentry hp
      exact ⟨_, hmarked, origin_of_marked hc hs hdue (hsch htn) hdated hlook⟩
    · exact h.old_packet pairs hs (mem_arrivals.mpr ⟨by omega, hdue⟩)
  · rw [hsize]
    by_cases hmem : id ∈ (Book.withBacklog d.traffic d.order).flatMap d.traffic.waiting
    · obtain ⟨p, hp⟩ := hpackets id hmem
      exact lt_size_of_packet? hp
    · rw [pairs.entry id (Or.inl hmem)] at hid
      exact h.known id hid
  · rw [starts, pairs.same]
    exact hdated

theorem Dated.next {H : Int} {starts : List Int} (h : Dated H (min t n) starts)
    (hstart : ¬ (t < n ∧ (t : Int) % H = 0)) : Dated H (min (t + 1) n) starts := by
  by_cases hlt : t < n
  · rw [min_eq_left hlt.le] at h
    rw [show min (t + 1) n = t + 1 by omega]
    exact h.stay fun hmod => hstart ⟨hlt, hmod⟩
  · rw [show min (t + 1) n = min t n by omega]
    exact h

theorem select_dated (hc : c.Sound) (hphase : Phase n t d.book.generating) (h : Arrived c n t d)
    (hdue : t < n → ∀ s ∈ c.stations, (t : Int) % s.period = 0 → d.traffic.waiting s.id ≠ [])
    (hdated : Dated c.horizonRounds (min t n) d.starts) {f : TxFormat}
    (hselect : select t d = .ok f d') : Dated c.horizonRounds (min (t + 1) n) d'.starts := by
  have hiff := h.startsIn hc hphase
  unfold select at hselect
  dsimp only at hselect
  split_ifs at hselect with hempty hstarts
  · cases hselect
    refine Dated.next hdated fun hstart => ?_
    exact candidates_ne_nil hc h (hdue hstart.1) hstart.2 (List.isEmpty_iff.mp hempty)
  · obtain ⟨hlt, hmod⟩ := hiff.mp hstarts
    rw [startHorizon] at hselect
    dsimp only at hselect
    rw [h.cell, hc.schedule t (by omega)] at hselect
    cases hselect
    rw [min_eq_left hlt.le] at hdated
    rw [show min (t + 1) n = t + 1 by omega]
    simp only [starts, Book.begin, List.map_append]
    exact hdated.begin hc.horizon.pos hmod
  · cases hselect
    exact Dated.next hdated fun hstart => hstarts (hiff.mpr hstart)

def Tracked (c : Cell) (n t : Nat) (flag : Bool) (e : Engine) : Prop :=
  ∃ d, e.scheduler = .roundRobin d ∧ Resting c n t d ∧ Traced c n t d ∧
    d.traffic.generating = flag ∧ d.book.generating = flag

theorem Tracked.between (h : Tracked c n t flag e) : Between c n t flag e := by
  obtain ⟨d, he, hresting, -, hflags⟩ := h
  exact ⟨d, he, hresting, hflags⟩

theorem decide_traced (hc : c.Sound) (hphase : Phase n t d.book.generating) (h : Awaiting c n t d)
    (hdue : t < n → ∀ s ∈ c.stations, (t : Int) % s.period = 0 → d.traffic.waiting s.id ≠ [])
    (hdated : Dated c.horizonRounds (min t n) d.starts) {f : TxFormat} {σ : Scheduler}
    (hdecide : decide t (.roundRobin d) = .ok (f, out) σ) :
    ∃ d', σ = .roundRobin d' ∧ Traced c n (t + 1) d' := by
  obtain ⟨f₁, b, hselect, -, -, hcandidates, hscheduled, hnoTx⟩ :=
    select_scheduled hc hphase h.arrived hdue
  have hdated₁ := select_dated hc hphase h.arrived hdue hdated hselect
  have hsch : t < n → b.schedule = some (scheduleIn c t) :=
    fun hlt => hscheduled.some t (by omega)
  have hscheduler : (Scheduler.roundRobin d).select t =
      .ok f₁ (.roundRobin { d with book := b }) := by
    rw [Scheduler.select, hselect]
    rfl
  rcases of_decide hdecide with ⟨hselected, -, -⟩ | ⟨σ₁, hselected, -, hassigned⟩
  · -- no station has anything queued, so there is nothing to pair
    obtain ⟨rfl, rfl⟩ := EStateM.Result.ok.inj (hscheduler.symm.trans hselected)
    have hnone := hnoTx rfl
    refine ⟨_, rfl, h.traced hc hcandidates hsch hdated₁ ?_⟩
    rw [hnone]
    rfl
  · obtain ⟨rfl, rfl⟩ := EStateM.Result.ok.inj (hscheduler.symm.trans hselected)
    rw [Scheduler.assign] at hassigned
    obtain ⟨d', hassign, rfl⟩ := of_lift hassigned
    obtain ⟨d₁, hpair, hkeeps⟩ := assign_keeps hassign
    exact ⟨d', rfl, (h.traced hc hcandidates hsch hdated₁ hpair).of_keeps hkeeps⟩

theorem step_tracked (hc : c.Sound) (hphase : Phase n t flag) (h : Tracked c n t flag e) :
    ∃ out e', Engine.step t e = .ok out e' ∧ Tracked c n (t + 1) flag e' := by
  obtain ⟨out, e', hstep, d', he', hresting', hgt', hgb'⟩ := step_between hc hphase h.between
  obtain ⟨d, he, hresting, htraced, hgt, hgb⟩ := h
  obtain ⟨f, σ, hcompleted⟩ := of_step hstep
  obtain ⟨-, -, -, hdue⟩ := hresting.arrived hc (hgt ▸ hphase)
  have hawaiting := htraced.awaiting hc hresting (hgt ▸ hphase)
  have hdecided := hcompleted.decided
  rw [Engine.traffic, he] at hdecided
  obtain ⟨d₁, rfl, htraced₁⟩ := decide_traced (d := { d with traffic := (d.traffic.generate t).2 })
    hc (hgb ▸ hphase) hawaiting hdue htraced.dated hdecided
  refine ⟨out, e', hstep, d', he', hresting', ?_, hgt', hgb'⟩
  have hrecorded := hcompleted.scheduler
  rw [hcompleted.traffic, he'] at hrecorded
  obtain rfl := Scheduler.roundRobin.inj hrecorded
  exact htraced₁.of_keeps ⟨origins_record _ _, rfl, fun _ hid => hid⟩

theorem Tracked.quiet (hc : c.Sound) (h : Tracked c n n true e) : Tracked c n n false e.quiet := by
  obtain ⟨d', he', hresting', hflags⟩ := (loop hc n).quiet e h.between
  obtain ⟨d, he, -, htraced, -⟩ := h
  refine ⟨d', he', hresting', ?_, hflags⟩
  have hstopped : e.quiet.scheduler =
      .roundRobin (RoundRobin.stop { d with traffic := d.traffic.stop }) := by
    simp only [Engine.quiet, Engine.traffic, he]
    rfl
  obtain rfl := Scheduler.roundRobin.inj (he'.symm.trans hstopped)
  exact ⟨htraced.origins, htraced.known, htraced.dated⟩

structure Originated (c : Cell) (n : Nat) (d : RoundRobin) : Prop where
  origins : d.traffic.origins = (emissions c.stations n).map fun e => c.origin e.1 e.2
  dated : Dated c.horizonRounds n d.starts

theorem Tracked.originated (ht : n ≤ t) (h : Tracked c n t false e) :
    ∃ d, e.scheduler = .roundRobin d ∧ Originated c n d := by
  obtain ⟨d, he, -, htraced, -⟩ := h
  have horigins := htraced.origins
  have hdated := htraced.dated
  rw [min_eq_right ht] at horigins hdated
  exact ⟨d, he, horigins, hdated⟩

theorem tracked_loop (hc : c.Sound) (n : Nat) : Loop n (limit c) (Tracked c n) (fun _ => False)
    fun e => ∃ d, e.scheduler = .roundRobin d ∧ Originated c n d where
  step _ _ _ _ hphase h := Or.inl (step_tracked hc hphase h)
  positive := limit_pos hc
  drainLimit e h := (loop hc n).drainLimit e h.between
  quiet _ h := h.quiet hc
  idle _ _ ht h _ := h.originated ht
  late t e ht h := by
    have hpos := hc.horizon.pos
    have hdeadline := Station.longestDeadline_nonneg c.stations
    rw [limit] at ht
    exact ⟨e, discardAll_of_idle (idle_of_late hc (by omega) h.between) _ _,
      h.originated (by omega)⟩

theorem run_originated (hc : c.Sound) (roundDuration maxCredit : Float) (channel : Channel)
    (rounds : Int) :
    ∃ last e' d, (Engine.make (.roundRobin
        (RoundRobin.make c (Traffic.fresh c.stations) roundDuration maxCredit))
          channel).run rounds = .ok last e' ∧
        e'.scheduler = .roundRobin d ∧ Originated c rounds.toNat d := by
  obtain ⟨d, he, hresting, hflags⟩ := between_make c rounds.toNat roundDuration maxCredit channel
  have hmade := Scheduler.roundRobin.inj he
  have hstart : Tracked c rounds.toNat 0 true (Engine.make
      (.roundRobin (RoundRobin.make c (Traffic.fresh c.stations) roundDuration maxCredit))
      channel) := by
    refine ⟨d, he, hresting, ?_, hflags⟩
    subst hmade
    refine ⟨?_, fun id hid => ?_, ?_⟩
    · rw [Nat.zero_min]
      rfl
    · cases hid
    · rw [Nat.zero_min]
      exact .zero hc.horizon.pos
  rcases (tracked_loop hc rounds.toNat).run rfl hstart (hasBacklog_stop_fresh _)
    with ⟨last, e', hrun, d', he', horiginated⟩ | ⟨f, e', hf, -⟩
  · exact ⟨last, e', d', hrun, he', horiginated⟩
  · exact hf.elim

end RoundRobin

end Downlink
