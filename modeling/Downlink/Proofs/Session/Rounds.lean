import Downlink.Proofs.RoundRobin.Commitment
import Downlink.Proofs.Session

/-!
# Rounds in a session

Whatever was asked of a round robin before, and however it went, a round that follows a selection is
decided as a whole or not at all.
-/

namespace Downlink

open Traffic

namespace RoundRobin

variable {c : Cell} {d d' d'' : RoundRobin} {tr : Traffic} {k r : Int} {id : Nat}
  {ids late : List Nat}
  {ru : Ru} {out out' : RoundAssignment} {turns : List (Ru × Int)}
  {passedOver candidates : List Int}

theorem Pairs.kept (h : Pairs ids d d') : Same d d' := by
  have hqueues := queues_of_unpaired h.traffic
  have hgenerating := congrArg Traffic.generating h.traffic
  have hsize := congrArg (fun tr => tr.packets.size) h.traffic
  refine ⟨?_, hgenerating, by simpa [unpaired] using hsize, ?_, ?_⟩
  · rw [stations, hqueues]
    rfl
  · rw [h.same]
  · rw [h.same]
    exact List.Perm.refl _

theorem Same.setQueue (d : RoundRobin) (k : Int) (ids : List Nat) :
    Same d { d with traffic := d.traffic.setQueue k ids } :=
  ⟨stations_setQueue _ _ _, rfl, rfl, rfl, List.Perm.refl _⟩

theorem Same.update {step : Packet → Except Fault Packet} (h : d.traffic.update id step = .ok tr)
    (entries : List (Nat × Entry)) : Same d { d with traffic := tr, entries := entries } := by
  obtain ⟨p, q, -, -, rfl⟩ := of_update h
  exact ⟨rfl, rfl, size_setPacket _ _ _, rfl, List.Perm.refl _⟩

theorem send_same (r k : Int) (ru : Ru) (out : RoundAssignment) (d : RoundRobin) :
    Same d (send r k ru out d).state := by
  unfold send
  split
  · exact .refl d
  rename_i id tr hpop
  obtain ⟨rest, -, rfl⟩ := of_popFront hpop
  have hset := Same.setQueue d k rest
  dsimp only
  split
  · exact hset
  rename_i tr hupdate
  exact hset.trans (.update (d := { d with traffic := d.traffic.setQueue k rest }) hupdate _)

theorem sendAll_same (r : Int) (turns : List (Ru × Int)) (out : RoundAssignment) (d : RoundRobin) :
    Same d (sendAll r turns out d).state := by
  induction turns generalizing out d with
  | nil => exact .refl d
  | cons turn turns ih =>
    have hfirst := send_same r turn.2 turn.1 out d
    rw [sendAll]
    split
    · rename_i hx
      rwa [hx] at hfirst
    · rename_i out₁ d₁ hx
      rw [hx] at hfirst
      exact hfirst.trans (ih out₁ d₁)

theorem dropAll_same (r k : Int) (ids : List Nat) (out : RoundAssignment) (d : RoundRobin) :
    Same d (dropAll r k ids out d).state := by
  induction ids generalizing out d with
  | nil => exact .refl d
  | cons id ids ih =>
    have hset := Same.setQueue d k ((d.traffic.waiting k).filter (· ≠ id))
    rw [dropAll]
    dsimp only [forget]
    split
    · exact ⟨hset.stations, rfl, rfl, rfl, List.Perm.refl _⟩
    rename_i tr hupdate
    exact (hset.trans (.update (d := { d with traffic := _ }) hupdate _)).trans (ih _ _)

theorem purge_same (r : Int) (passedOver : List Int) (k : Int) (out : RoundAssignment)
    (d : RoundRobin) : Same d (purge r passedOver k out d).state := by
  unfold purge
  split
  · exact .refl d
  rename_i late _
  have hdrop := dropAll_same r k late out d
  split
  · rename_i hx
    rwa [hx] at hdrop
  · rename_i out₁ d₁ hx
    rw [hx] at hdrop
    split_ifs <;> exact hdrop

theorem purgeAll_same (r : Int) (passedOver candidates : List Int) (out : RoundAssignment)
    (d : RoundRobin) : Same d (purgeAll r passedOver candidates out d).state := by
  induction candidates generalizing out d with
  | nil => exact .refl d
  | cons k candidates ih =>
    have hfirst := purge_same r passedOver k out d
    rw [purgeAll]
    split
    · rename_i hx
      rwa [hx] at hfirst
    · rename_i out₁ d₁ hx
      rw [hx] at hfirst
      exact hfirst.trans (ih out₁ d₁)

theorem assign_same (h : d.traffic.Ready) (r : Int) : Same d (d.assign r).state := by
  have hpairing := pairAll_pairing (h.exists_packet d.book.candidates)
  unfold assign
  dsimp only
  generalize pairAll (d.book.candidates.flatMap d.traffic.waiting) d = x at hpairing
  cases hpairing with
  | lost pairs => exact pairs.kept
  | @paired d₁ pairs =>
    have hsend := pairs.kept.trans (sendAll_same r
      (d.book.cell.sizing.units.zip (d.book.candidates.take d.book.cell.sizing.perRound))
      (.empty r d.book.cell.sizing.ruType) d₁)
    dsimp only
    split
    · rename_i hx
      rwa [hx] at hsend
    rename_i out₂ d₂ hx
    rw [hx] at hsend
    have hpurge := hsend.trans (purgeAll_same r
      (d.book.candidates.drop d.book.cell.sizing.perRound) d.book.candidates out₂ d₂)
    split
    · rename_i hx
      rwa [hx] at hpurge
    · rename_i hx
      rw [hx] at hpurge
      exact hpurge.trans (settleCredits_same _ _)

theorem Orderly.of_same (h : Orderly c d) (hd : Same d d') (hready : d'.traffic.Ready) :
    Orderly c d' where
  ready := hready
  cell := hd.book ▸ h.cell
  stations := hd.stations.trans h.stations
  order := List.Perm.trans hd.order h.order
  schedule := hd.book ▸ h.schedule

theorem Orderly.assign (h : Orderly c d) (r : Int) : Orderly c (d.assign r).state :=
  h.of_same (assign_same h.ready r) (assign_decides h.ready r).ready

theorem Orderly.withTraffic (h : Orderly c d) (hready : tr.Ready)
    (hst : tr.stations = d.traffic.stations) : Orderly c { d with traffic := tr } :=
  ⟨hready, h.cell, hst.trans h.stations, h.order, h.schedule⟩

theorem schedule_eq_ok (hc : c.Sound) {s : Schedule} (h : c.schedule r = .ok s) :
    s = Schedule.ofStations c.stations r c.horizonRounds := by
  have hstart := (Schedule.generate_eq_ok h).1
  exact Except.ok.inj (h.symm.trans (hc.schedule r hstart))

theorem Orderly.select (hc : c.Sound) (h : Orderly c d) (r : Int) :
    Orderly c (d.select r).state ∧ (d.select r).state.book.candidates =
      Book.withBacklog (d.select r).state.traffic (d.select r).state.order := by
  unfold RoundRobin.select startHorizon
  dsimp only
  split_ifs
  · exact ⟨⟨h.ready, h.cell, h.stations, h.order, h.schedule⟩, rfl⟩
  · rw [h.cell]
    cases hsch : c.schedule r with
    | error f => exact ⟨⟨h.ready, rfl, h.stations, h.order, h.schedule⟩, rfl⟩
    | ok s =>
      obtain rfl := schedule_eq_ok hc hsch
      exact ⟨⟨h.ready, rfl, h.stations, h.order, Or.inr ⟨r, rfl⟩⟩, rfl⟩
  · exact ⟨⟨h.ready, h.cell, h.stations, h.order, h.schedule⟩, rfl⟩

end RoundRobin

namespace Traffic

theorem stations_generate (tr : Traffic) (round : Int) :
    (tr.generate round).2.stations = tr.stations := by
  have hall : ∀ (due : List Station) (tr : Traffic),
      (tr.emitAll round due).stations = tr.stations := by
    intro due
    induction due with
    | nil => exact fun _ => rfl
    | cons s due ih => exact fun tr => (ih _).trans (emitFrom_stations tr s round)
  exact hall _ tr

theorem stations_of_emit {tr tr' : Traffic} {k round : Int} {id : Nat}
    (h : tr.emit k round = .ok (id, tr')) : tr'.stations = tr.stations := by
  rw [emit] at h
  split at h
  · cases h
    exact emitFrom_stations _ _ _
  · cases h

end Traffic

theorem Scheduler.answer_select (d : RoundRobin) (round : Int) :
    ((Scheduler.roundRobin d).answer (.select round)).state =
    .roundRobin (d.select round).state := by
  rw [Scheduler.answer, Scheduler.select]
  cases d.select round <;> rfl

theorem Scheduler.answer_assign (d : RoundRobin) (round : Int) :
    ((Scheduler.roundRobin d).answer (.assign round)).state =
    .roundRobin (d.assign round).state := by
  rw [Scheduler.answer, Scheduler.assign]
  cases d.assign round <;> rfl

theorem RoundRobin.Orderly.answer {c : Cell} {d : RoundRobin} (hc : c.Sound) (h : Orderly c d)
    (call : Call) :
    ∃ d', ((Scheduler.roundRobin d).answer call).state = .roundRobin d' ∧ Orderly c d' := by
  cases call with
  | generate round =>
    exact ⟨_, rfl, h.withTraffic (h.ready.generate round) (stations_generate _ _)⟩
  | emit station round =>
    rw [Scheduler.answer]
    split
    · exact ⟨d, rfl, h⟩
    · rename_i hemit
      exact ⟨_, rfl, h.withTraffic (h.ready.emit hemit) (stations_of_emit hemit)⟩
  | report reports =>
    exact ⟨_, rfl, h.withTraffic (h.ready.record reports) (Engine.record_noted _ _).1⟩
  | halt => exact ⟨_, rfl, h.withTraffic ⟨h.ready.pending, h.ready.nodup⟩ rfl⟩
  | select round => exact ⟨_, Scheduler.answer_select d round, (h.select hc round).1⟩
  | assign round => exact ⟨_, Scheduler.answer_assign d round, h.assign round⟩
  | stop => exact ⟨d.stop, rfl, h.ready, h.cell, h.stations, h.order, h.schedule⟩

namespace Session

open RoundRobin

variable {c : Cell} {s : Session}

def Serves (c : Cell) (s : Session) : Prop := ∃ d, s.scheduler = .roundRobin d ∧ Orderly c d

theorem Serves.answerAll (hc : c.Sound) (h : Serves c s) (calls : List Call) :
    Serves c (Session.answerAll calls s) := by
  induction calls generalizing s with
  | nil => exact h
  | cons call calls ih =>
    obtain ⟨d, hd, horderly⟩ := h
    refine ih ?_
    rw [Serves, scheduler_answer, hd]
    exact horderly.answer hc call

theorem serves_make {stations : List Station} {width cap : Int} {pinned : Option RuType}
    {tr : Traffic} (hcell : Cell.make stations width cap pinned = .ok c)
    (htr : Traffic.ofStations stations = .ok tr) (roundDuration maxCredit : Float) :
    Serves c (ofScheduler (.roundRobin (RoundRobin.make c tr roundDuration maxCredit))) := by
  obtain ⟨-, hstations, -⟩ := Cell.make_eq_ok hcell
  obtain rfl := ofStations_eq_ok htr
  refine ⟨_, rfl, ready_fresh _, rfl, ?_, ?_, Or.inl rfl⟩
  · rw [hstations]
    exact stations_fresh _
  · rw [order, RoundRobin.make, List.map_map]
    exact List.Perm.of_eq (List.map_id _)

theorem exists_error_of_returned {d : RoundRobin} {round : Int} (hd : s.scheduler = .roundRobin d)
    (h : (s.answer (.assign round)).state.returned = []) :
    ∃ f d', d.assign round = .error f d' := by
  rw [answer, hd, Scheduler.answer, Scheduler.assign] at h
  cases hx : d.assign round with
  | error f d' => exact ⟨f, d', rfl⟩
  | ok out d' =>
    rw [hx] at h
    simp [Scheduler.lift, Attempt.state, Answer.assignments] at h

/-- A round that directly follows a selection is decided as a whole, or fails for want of an entry
and leaves every queue, every packet but for its pair, and all credits in their order as they were.
It fails exactly if a packet is stranded, with a desynchronisation if the numbers of one can be
written. -/
theorem rounds_all_or_nothing {stations : List Station} {width cap : Int} {pinned : Option RuType}
    {cell : Cell} {tr : Traffic} (hcell : Cell.make stations width cap pinned = .ok cell)
    (htr : Traffic.ofStations stations = .ok tr) (roundDuration maxCredit : Float)
    (calls : List Call) (selected assigned : Int) :
    ∃ d, (answerAll calls (ofScheduler
        (.roundRobin (RoundRobin.make cell tr roundDuration maxCredit)))).scheduler =
        .roundRobin d ∧
      AllOrNothing (d.select selected).state ((d.select selected).state.assign assigned) := by
  obtain ⟨hc, -⟩ := Cell.make_eq_ok hcell
  obtain ⟨d, hd, horderly⟩ := (serves_make hcell htr roundDuration maxCredit).answerAll hc calls
  obtain ⟨hselected, hcandidates⟩ := horderly.select hc selected
  exact ⟨d, hd, hselected.all_or_nothing hc hcandidates assigned⟩

theorem rounds_all_or_nothing_between_rounds :
    let stations : List Station := [⟨1, 2, 0, 5⟩, ⟨2, 1, 1, 10⟩]
    let cell : Cell := ⟨stations, 1024, 2, 3, ⟨.mhz20, .tones242, 1, 3, 242⟩⟩
    let start : Session := ofScheduler
      (.roundRobin (RoundRobin.make cell (Traffic.fresh stations) 10000 1000000))
    Cell.make stations 20 1024 (some .tones242) = .ok cell ∧
      Traffic.ofStations stations = .ok (Traffic.fresh stations) ∧
      ∃ d, (answerAll [.generate 0, .select 0, .emit 1 1] start).scheduler = .roundRobin d ∧
        AllOrNothing (d.select 1).state ((d.select 1).state.assign 1) ∧
        ∃ p, (d.select 1).state.Stranded p := by
  intro stations cell start
  obtain ⟨hset, htr⟩ := Simulation.set_up_two_stations
    (s := { stations := stations, width := 20, ruType := some 242 }) rfl rfl rfl rfl
  have hcell : Cell.make stations 20 1024 (some .tones242) = .ok cell := hset
  obtain ⟨d, hd, hround⟩ := rounds_all_or_nothing hcell htr 10000 1000000
    [.generate 0, .select 0, .emit 1 1] 1 1
  refine ⟨hcell, htr, d, hd, hround, hround.fails_iff.mp ?_⟩
  have hreturned : (answerAll [.generate 0, .select 0, .emit 1 1, .select 1, .assign 1]
      start).returned = [] := by
    simp only [start, cell, stations]
    cbv
  have hselected : ((answerAll [.generate 0, .select 0, .emit 1 1] start).answer
      (.select 1)).state.scheduler = .roundRobin (d.select 1).state := by
    rw [scheduler_answer, hd, Scheduler.answer_select]
  exact exists_error_of_returned hselected hreturned

/-- A packet whose round of arrival has too many digits. No horizon is active in the first round, so
the packet is stranded, and what is raised is that this cannot be put in words. -/
theorem stranded_arrival_too_long :
    let stations : List Station := [⟨1, 2, 0, 5⟩]
    let cell : Cell := ⟨stations, 1024, 2, 1, ⟨.mhz20, .tones242, 1, 3, 242⟩⟩
    let start : Session := ofScheduler
      (.roundRobin (RoundRobin.make cell (Traffic.fresh stations) 10000 1000000))
    Cell.make stations 20 1024 (some .tones242) = .ok cell ∧
      Traffic.ofStations stations = .ok (Traffic.fresh stations) ∧
      ∃ d d', (answerAll [.emit 1 (10 ^ Text.digitLimit)] start).scheduler = .roundRobin d ∧
        (d.select 1).state.assign 1 = .error (.value .tooManyDigits) d' := by
  intro stations cell start
  have horder : Station.inOrder stations = stations := List.mergeSort_of_pairwise (by decide)
  have hlong : Text.isWritable (10 ^ Text.digitLimit) = false := by decide +kernel
  generalize (10 : Int) ^ Text.digitLimit = round at *
  let p : Packet := Traffic.arriving ⟨1, 2, 0, 5⟩ 0 round
  have hassign : ∀ d : RoundRobin, d.book.candidates = [1] → d.book.schedule = none →
      d.entries = [] → d.traffic = (Traffic.fresh stations).emitFrom ⟨1, 2, 0, 5⟩ round →
        d.assign 1 = .error (.value .tooManyDigits) d := by
    intro d hcandidates hschedule hentries htraffic
    have hpair : pair 0 d = .error _ d := pair_lost (p := p)
      (by rw [cached?, hentries]; rfl) (by rw [htraffic]; rfl) (by rw [lookUp, hschedule])
    rw [Fault.showing_of_unwritable (i := round) (by simp [p, Traffic.arriving]) hlong] at hpair
    have hwaiting : [1].flatMap d.traffic.waiting = [0] := by
      rw [htraffic]
      rfl
    simp only [assign, hcandidates, hwaiting, pairAll, hpair]
  refine ⟨?_, ?_, _, _, rfl, hassign _ rfl rfl rfl rfl⟩
  · rw [Cell.make, horder]
    rfl
  · rw [Traffic.ofStations, horder]
    rfl

end Session

end Downlink
