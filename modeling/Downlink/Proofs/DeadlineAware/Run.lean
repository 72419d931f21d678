import Downlink.Proofs.DeadlineAware.Round

/-!
# Runs

A run takes every packet to its last stage: the rounds with traffic and the drain go on round by
round, and what waits after the drain is dropped at its expiry. The run stops early only in a round
that is overfull, or with a fault of the planner.
-/

namespace Downlink

open DeadlineAware Engine

namespace Course

variable {c : Course} {s : Station} {d d' : DeadlineAware} {e e' : Engine} {t n : Nat} {a : Int}
  {L : List Int}

def Between (c : Course) (t : Nat) (flag : Bool) (e : Engine) : Prop :=
  ∃ d, e.scheduler = .deadlineAware d ∧ Paused c t d ∧ d.traffic.generating = flag ∧
    d.book.generating = flag

theorem Paused.stop (h : Paused c t d) :
    Paused c t (DeadlineAware.stop { d with traffic := d.traffic.stop }) where
  ledger :=
    { h.ledger with installed := fun hlt => (h.ledger.installed hlt).of_eq rfl rfl rfl rfl }
  stations := h.stations
  size := h.size
  reached s hs := ⟨(h.reached s hs).packet, (h.reached s hs).queue⟩
  pointing := h.pointing

theorem Between.quiet (h : Between c t true e) : Between c t false e.quiet := by
  obtain ⟨d, he, hpaused, -, -⟩ := h
  refine ⟨_, ?_, hpaused.stop, rfl, rfl⟩
  simp only [Engine.quiet, Engine.traffic, he]
  rfl

theorem late_of_left (hc : c.cell.Sound) (ht : c.rounds + c.limit ≤ t) (ha : a < c.rounds)
    (hleft : c.paused s t a ≠ .done) : c.paused s t a = .held ∧
      ∃ r, c.assigned? s a = some r ∧ c.sends s a r = false ∧ c.resolution s a = t := by
  have hexp := expiry_le hc a
  unfold paused at hleft ⊢
  split_ifs at hleft ⊢ with hle
  · exact ⟨rfl, resolution_of_expired hc ha hle (hexp.trans ht)⟩
  · exact absurd rfl hleft

structure Over (c : Course) (d : DeadlineAware) : Prop where
  ledger : Ledger c c.rounds d
  size : d.traffic.packets.size = (Traffic.emissions c.cell.stations c.rounds).length
  finished : ∀ s ∈ c.cell.stations, c.At s d.traffic c.rounds fun _ => .done

theorem Between.rest (ht : c.rounds ≤ t) (h : Between c t false e) :
    ∃ d, e.scheduler = .deadlineAware d ∧ Ledger c c.rounds d ∧
      d.traffic.stations = c.cell.stations ∧
      d.traffic.packets.size = (Traffic.emissions c.cell.stations c.rounds).length ∧
      ∀ s ∈ c.cell.stations, c.At s d.traffic c.rounds (c.paused s t) := by
  obtain ⟨d, he, hpaused, -, -⟩ := h
  have hmin : min t c.rounds = c.rounds := min_eq_right ht
  have hledger := hpaused.ledger
  have hsize := hpaused.size
  have hreached := hpaused.reached
  rw [hmin] at hledger hsize hreached
  exact ⟨d, he, hledger, hpaused.stations, hsize, hreached⟩

theorem over_of_idle (ht : c.rounds ≤ t) (h : Between c t false e)
    (hidle : e.traffic.hasBacklog = false) :
    ∃ d, e.scheduler = .deadlineAware d ∧ Over c d := by
  obtain ⟨d, he, hledger, -, hsize, hreached⟩ := h.rest ht
  refine ⟨d, he, hledger, hsize, fun s hs => (hreached s hs).congr fun a ha => ?_⟩
  have htraffic : e.traffic = d.traffic := by rw [Engine.traffic, he]; rfl
  have hempty := Traffic.waiting_of_not_hasBacklog (htraffic ▸ hidle) s.id
  rw [(hreached s hs).queue, List.map_eq_nil_iff, List.filter_eq_nil_iff] at hempty
  by_contra hlive
  exact hempty a ha (decide_eq_true hlive)

theorem over_of_late (hc : c.cell.Sound) (ht : (t : Int) = c.rounds + c.limit)
    (h : Between c t false e) :
    ∃ e', Engine.discardAll t e.traffic.stationIds e = .ok () e' ∧
      ∃ d, e'.scheduler = .deadlineAware d ∧ Over c d := by
  have hlimit := limit_pos hc
  obtain ⟨d, he, hledger, hst, hsize, hreached⟩ := h.rest (by omega)
  have htraffic : e.traffic = d.traffic := by rw [Engine.traffic, he]; rfl
  have hleft : ∀ s, ∀ a ∈ Traffic.arrivals s c.rounds, c.paused s t a ≠ .done → _ :=
    fun s a ha => late_of_left (s := s) hc ht.ge (Traffic.mem_arrivals.mp ha).1.2
  obtain ⟨e', tr, hdiscard, hscheduler, hsize', hlost⟩ :=
    discardAll_lost (r := t) (P := fun s a => c.Shape s a (c.paused s t a))
      hc.horizon.roster (List.nil_append _).symm (by rw [htraffic, hst])
      (fun s _ a ha hlive p hp => by
        obtain ⟨hheld, r, hr, -⟩ := hleft s a ha (of_decide_eq_true hlive)
        obtain ⟨x, rfl⟩ := hp
        rw [hheld]
        exact Or.inr (settled_of_assigned_state hr).1)
      (by simp) (by rw [htraffic]; exact hreached)
  rw [Traffic.stationIds_eq, htraffic, hst]
  refine ⟨e', hdiscard, { d with traffic := tr }, by rw [hscheduler, he]; rfl, hledger.of_same rfl,
    ?_, fun s hs => ?_⟩
  · rw [← hsize, ← htraffic]
    exact hsize'
  · refine (hlost s hs).imp (fun a ha p hp => ?_) fun _ _ => rfl
    unfold Lost at hp
    split_ifs at hp with hlive
    · obtain ⟨hheld, r, hr, hnot, hres⟩ := hleft s a ha (of_decide_eq_true hlive)
      obtain ⟨q, ⟨x, rfl⟩, rfl⟩ := hp
      refine ⟨x, ?_⟩
      rw [hheld, packetAt, packetAt, finished_of_late hr hnot, hres]
      rfl
    · have hdone : c.paused s t a = .done := by simpa using hlive
      rwa [hdone] at hp

def engine (c : Course) (channel : Channel) : Engine :=
  Engine.make (.deadlineAware (DeadlineAware.make c.cell (Traffic.fresh c.cell.stations) c.planner))
    channel

theorem between_engine (hc : c.cell.Sound) (channel : Channel) :
    Between c 0 true (c.engine channel) := by
  have hpos := length_pos hc
  have hstations := Traffic.stations_fresh c.cell.stations
  refine ⟨_, rfl, ⟨⟨rfl, rfl, rfl, rfl, ?_, ?_, fun _ => rfl, ?_, ?_, ?_⟩, hstations, ?_, ?_, ?_⟩,
    rfl,
    rfl⟩
  · simp [DeadlineAware.make, Book.ofCell]
  · simpa [DeadlineAware.make, Book.ofCell] using hpos
  · exact fun hlt => absurd hlt (lt_irrefl 0)
  · intro j r hr
    cases hr
  · exact fun j f hj => absurd hj (Nat.not_lt_zero j)
  · rw [Nat.zero_min]
    rfl
  · intro s _
    rw [Nat.zero_min]
    exact ⟨fun a ha => absurd ha List.not_mem_nil, Traffic.waiting_fresh _ _⟩
  · exact fun _ hmod => absurd (Int.zero_emod _) hmod

theorem drainLimit_eq (h : Between c t true e) : e.quiet.drainLimit = c.limit := by
  obtain ⟨d, he, hpaused, -, -⟩ := h
  have hstations : e.quiet.traffic.stations = d.traffic.stations := by
    rw [Engine.quiet, Engine.traffic, Engine.traffic, he]
    rfl
  have hcell : e.quiet.scheduler.book.cell = d.book.cell := by
    rw [Engine.quiet, Engine.traffic, he]
    rfl
  rw [Engine.drainLimit, hstations, hcell, hpaused.stations, hpaused.ledger.cell]
  rfl

theorem loop (hc : c.cell.Sound) (hp : c.Answers) : Loop c.rounds c.limit (Between c) c.Fails
    fun e => ∃ d, e.scheduler = .deadlineAware d ∧ Over c d where
  step t flag e ht hphase h := by
    obtain ⟨d, he, hpaused, hgt, hgb⟩ := h
    rcases step_paused hc hp ht he hpaused (hgt ▸ hphase) (hgb ▸ hphase)
      with ⟨out, e', d', hstep, he', hpaused', hgt', hgb'⟩ | hfails
    · exact Or.inl ⟨out, e', hstep, d', he', hpaused', hgt'.trans hgt, hgb'.trans hgb⟩
    · exact Or.inr hfails
  positive := limit_pos hc
  drainLimit _ h := drainLimit_eq h
  quiet _ h := h.quiet
  idle _ _ ht h hidle := over_of_idle ht h hidle
  late _ _ ht h := over_of_late hc ht h

theorem run_ends (hc : c.cell.Sound) (hp : c.Answers) (channel : Channel) {rounds : Int}
    (hn : rounds.toNat = c.rounds) :
    (∃ last e' d', (c.engine channel).run rounds = .ok last e' ∧
      e'.scheduler = .deadlineAware d' ∧ Over c d') ∨
      ∃ f e', c.Fails f ∧ (c.engine channel).run rounds = .error f e' := by
  rcases (loop hc hp).run hn (between_engine hc channel) (Traffic.hasBacklog_stop_fresh _)
    with ⟨last, e', hrun, d', he', hover⟩ | hfails
  · exact Or.inl ⟨last, e', d', hrun, he', hover⟩
  · exact Or.inr hfails

theorem over_of_run (hc : c.cell.Sound) (hp : c.Answers) {channel : Channel} {rounds last : Int}
    (hn : rounds.toNat = c.rounds) (hrun : (c.engine channel).run rounds = .ok last e) :
    ∃ d, e.scheduler = .deadlineAware d ∧ Over c d := by
  rcases run_ends hc hp channel hn with ⟨last', e', d, hok, he, hover⟩ | ⟨f, e', -, herror⟩
  · rw [hok] at hrun
    cases hrun
    exact ⟨d, he, hover⟩
  · rw [herror] at hrun
    cases hrun

theorem Over.not_raised (hc : c.cell.Sound) (h : Over c d) (f : Fault) : ¬ c.Raised f := by
  rintro ⟨k, hk, hreply⟩
  refine h.ledger.unraised k f ?_ hreply
  by_contra hle
  have hcovered := h.ledger.covered
  have hlength : (d.book.horizons.length : Int) * c.length ≤ k * c.length :=
    Int.mul_le_mul_of_nonneg_right (by omega) (length_pos hc).le
  omega

theorem run_over (hc : c.cell.Sound) (hp : c.Settles) (channel : Channel) {rounds : Int}
    (hn : rounds.toNat = c.rounds) :
    (∃ last e' d', (c.engine channel).run rounds = .ok last e' ∧
      e'.scheduler = .deadlineAware d' ∧ Over c d') ∨
      ∃ u, c.Overfull u ∧ ∃ e', (c.engine channel).run rounds = .error (c.overload u) e' := by
  rcases run_ends hc hp.answers channel hn with hover | ⟨f, e', ⟨u, hu, hf⟩ | hraised, hrun⟩
  · exact Or.inl hover
  · exact Or.inr ⟨u, hu, e', hf ▸ hrun⟩
  · exact absurd hraised (hp.not_raised f)

theorem run_completes (hc : c.cell.Sound) (hp : c.Settles) (hfits : ∀ t, ¬ c.Overfull t)
    (channel : Channel) {rounds : Int} (hn : rounds.toNat = c.rounds) :
    ∃ last e' d', (c.engine channel).run rounds = .ok last e' ∧
      e'.scheduler = .deadlineAware d' ∧ Over c d' := by
  rcases run_over hc hp channel hn with hover | ⟨u, hu, -⟩
  · exact hover
  · exact absurd hu (hfits u)

end Course

end Downlink
