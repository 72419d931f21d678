import Downlink.Proofs.DeadlineAware.Planning

/-!
# Rounds

One round takes every packet from its stage at the start of the round to its stage at the start of
the next. A round can only fail by being overfull, or with a fault of the planner.
-/

namespace Downlink

open DeadlineAware Engine

namespace Course

variable {c : Course} {s : Station} {d d' : DeadlineAware} {e e' : Engine} {t n : Nat}

/-- The scheduler between rounds, when the rounds before `t` are over. -/
structure Paused (c : Course) (t : Nat) (d : DeadlineAware) : Prop where
  ledger : Ledger c (min t c.rounds) d
  stations : d.traffic.stations = c.cell.stations
  size : d.traffic.packets.size = (Traffic.emissions c.cell.stations (min t c.rounds)).length
  reached : ∀ s ∈ c.cell.stations, c.At s d.traffic (min t c.rounds) (c.paused s t)
  pointing : t < c.rounds → (t : Int) % c.length ≠ 0 → ∀ s ∈ c.cell.stations,
    d.cursor? s.id = some (c.cursorAt s (c.horizonOf t) t)

theorem Paused.arrived (hc : c.cell.Sound) (h : Paused c t d)
    (hgen : Phase c.rounds t d.traffic.generating) :
    Arrived c t (min (t + 1) c.rounds) { d with traffic := (d.traffic.generate t).2 } ∧
      (d.traffic.generate t).2.generating = d.traffic.generating ∧
      (d.traffic.generate t).2.packets.size =
        (Traffic.emissions c.cell.stations (min (t + 1) c.rounds)).length := by
  have hl : Ledger c (min t c.rounds) { d with traffic := (d.traffic.generate t).2 } :=
    h.ledger.of_same rfl
  rcases hgen with ⟨hlt, hflag⟩ | ⟨hge, hflag⟩
  · have hn : min (t + 1) c.rounds = t + 1 := by omega
    have ht : min t c.rounds = t := by omega
    have hsize := h.size
    have hreached := h.reached
    rw [ht] at hsize hreached
    have he := Traffic.generate_emitted hc.horizon.roster h.stations hflag hsize
    refine ⟨⟨hl, he.served.trans h.stations, fun s hs => ?_, h.pointing⟩, he.generating, ?_⟩
    · rw [hn]
      have hg := Traffic.Holds.generate (hreached s hs) hc.horizon.roster hs h.stations hflag hsize
      refine hg.imp (fun a ha p hp => ?_) fun a ha => ?_
      · by_cases hat : a = t
        · subst hat
          rw [if_pos rfl] at hp
          exact ⟨none, by rw [Course.present, if_pos rfl]; exact hp⟩
        · rw [if_neg hat] at hp
          rwa [Course.present, if_neg hat]
      · by_cases hat : a = t
        · simp [Course.present, hat]
        · simp [Course.present, hat]
    · rw [he.size, hsize, hn, Traffic.length_emissions_succ]
  · have hsame : (d.traffic.generate t).2 = d.traffic := by
      simp only [Traffic.generate, Traffic.due, hflag]
      rfl
    have hn : min (t + 1) c.rounds = min t c.rounds := by omega
    rw [hsame] at hl ⊢
    refine ⟨⟨hl, h.stations, fun s hs => ?_, h.pointing⟩, rfl, hn ▸ h.size⟩
    rw [hn]
    refine (h.reached s hs).congr fun a ha => ?_
    have := (Traffic.mem_arrivals.mp ha).1
    rw [Course.present, if_neg (by omega)]

theorem At.record {tr : Traffic} {stage : Int → Stage} (h : c.At s tr n stage)
    (reports : List TxReport) : c.At s (record tr reports) n stage := by
  obtain ⟨-, -, -, hwaiting, hpacket⟩ := record_noted tr reports
  constructor
  · intro a ha
    obtain ⟨p, hp, x, rfl⟩ := h.packet a ha
    obtain ⟨y, hy⟩ := hpacket _ _ hp
    exact ⟨_, hy, y, rfl⟩
  · rw [hwaiting]
    exact h.queue

theorem horizonOf_succ (hc : c.cell.Sound) (h : ((t + 1 : Nat) : Int) % c.length ≠ 0) :
    c.horizonOf (t + 1 : Nat) = c.horizonOf t := by
  have hpos := length_pos hc
  obtain ⟨h₁, h₂⟩ := horizonOf_bounds hc t
  have hne : ((t + 1 : Nat) : Int) ≠ (c.horizonOf t + 1) * c.length := by
    intro he
    rw [he, Int.mul_emod_left] at h
    exact h rfl
  rw [Int.add_mul] at h₂ hne
  rw [horizonOf, Int.ediv_eq_iff_of_pos hpos]
  push_cast at hne ⊢
  omega

theorem Serving.paused (hc : c.cell.Sound) (hl : Ledger c (min (t + 1) c.rounds) d)
    (h : Serving c t (min (t + 1) c.rounds) c.cell.stations [] d)
    (hsize : d.traffic.packets.size =
      (Traffic.emissions c.cell.stations (min (t + 1) c.rounds)).length) : Paused c (t + 1) d where
  ledger := hl
  stations := h.stations
  size := hsize
  reached := h.reached
  pointing hlt hmod s hs := by
    have hcursor := h.passed (by omega) s hs
    rw [horizonOf_succ hc hmod, hcursor]
    rfl

def Fails (c : Course) (f : Fault) : Prop := (∃ t, c.Overfull t ∧ f = c.overload t) ∨ c.Raised f

theorem decide_paused (hc : c.cell.Sound) (hp : c.Answers)
    (hgen : Phase c.rounds t d.book.generating) (ht : (t : Int) < c.rounds + c.limit)
    (h : Arrived c t (min (t + 1) c.rounds) d)
    (hsize : d.traffic.packets.size =
      (Traffic.emissions c.cell.stations (min (t + 1) c.rounds)).length) :
    (∃ out d', Engine.decide t (.deadlineAware d) = .ok out (.deadlineAware d') ∧
      Paused c (t + 1) d' ∧ d'.traffic.generating = d.traffic.generating ∧
      d'.book.generating = d.book.generating) ∨
      ∃ f σ, c.Fails f ∧ Engine.decide t (.deadlineAware d) = .error f σ := by
  obtain ⟨f, d₁, hselect, hsel, hnoTx⟩ | ⟨f, d₁, hf, hselect⟩ :=
    select_selected hc hp rfl hgen ht h
  case inr =>
    refine Or.inr ⟨f, .deadlineAware d₁, Or.inr hf, ?_⟩
    simp only [Engine.decide, Scheduler.select, hselect, Scheduler.lift]
  have hcandidates : d₁.book.candidates = c.notedIds d := hsel.candidates
  have hidle : ∀ s ∈ c.cell.stations, noted d s.id = false →
      c.queued s t (min (t + 1) c.rounds) = [] := fun s hs hnot => queued_eq_nil hs h hnot
  have hserve := fun (d₂ : DeadlineAware) (out : RoundAssignment)
    (h₂ : Serving c t (min (t + 1) c.rounds) [] c.cell.stations d₂) (hout : out.allocations = []) =>
      serveAll_serving hc rfl (List.nil_append _).symm h₂ hidle (by rw [hout]; rfl)
  cases f with
  | noTx =>
    have hnil : (c.cell.stations.map Station.id).filter (noted d) = [] := hnoTx rfl
    have hdecide : Engine.decide t (.deadlineAware d) =
        .ok (.noTx, RoundAssignment.empty t d₁.book.cell.sizing.ruType) (.deadlineAware d₁) := by
      simp only [Engine.decide, Scheduler.select, hselect, Scheduler.lift]
      rfl
    rcases hserve d₁ (RoundAssignment.empty t d₁.book.cell.sizing.ruType) hsel.serving rfl
      with ⟨out, d₂, hok, -, -, -, hserving⟩ | ⟨-, d₂, herr⟩
    · rw [hnil] at hok
      cases hok
      exact Or.inl ⟨_, d₁, hdecide, hserving.paused hc hsel.ledger (hsel.size.trans hsize),
        hsel.traffic, hsel.book⟩
    · rw [hnil] at herr
      cases herr
  | dlMuTx =>
    have hassign : assign t d₁ = serveAll t (c.notedIds d)
        { RoundAssignment.empty t d₁.book.cell.sizing.ruType with drops := d₁.unreported }
        { d₁ with unreported := [] } := by
      rw [assign, hcandidates]
    rcases hserve { d₁ with unreported := [] }
      { RoundAssignment.empty t d₁.book.cell.sizing.ruType with drops := d₁.unreported }
      (hsel.serving.of_eq rfl rfl rfl rfl rfl) rfl
      with ⟨out, d₂, hok, hsame, hg, hs, hserving⟩ | ⟨hover, d₂, herr⟩
    · have hdecide : Engine.decide t (.deadlineAware d) = .ok (.dlMuTx, out)
        (.deadlineAware d₂) := by
        simp only [Engine.decide, Scheduler.select, hselect, Scheduler.lift, Scheduler.assign,
          hassign]
        rw [show c.notedIds d = (c.cell.stations.map Station.id).filter (noted d) from rfl, hok]
      have hledger : Ledger c (min (t + 1) c.rounds) d₂ :=
        hsel.ledger.of_same (by rw [hsame])
      refine Or.inl ⟨_, d₂, hdecide, hserving.paused hc hledger (hs.trans (hsel.size.trans hsize)),
        hg.trans hsel.traffic, ?_⟩
      rw [hsame]
      exact hsel.book
    · refine Or.inr ⟨_, .deadlineAware d₂, Or.inl ⟨t, hover, rfl⟩, ?_⟩
      simp only [Engine.decide, Scheduler.select, hselect, Scheduler.lift, Scheduler.assign,
        hassign]
      rw [show c.notedIds d = (c.cell.stations.map Station.id).filter (noted d) from rfl, herr]

theorem Paused.record (h : Paused c t d) (reports : List TxReport) :
    Paused c t { d with traffic := record d.traffic reports } := by
  obtain ⟨hst, -, hsize, -, -⟩ := record_noted d.traffic reports
  exact ⟨h.ledger.of_same rfl, hst.trans h.stations, hsize.trans h.size,
    fun s hs => (h.reached s hs).record reports, h.pointing⟩

theorem step_paused (hc : c.cell.Sound) (hp : c.Answers)
    (ht : (t : Int) < c.rounds + c.limit) (he : e.scheduler = .deadlineAware d) (h : Paused c t d)
    (hgt : Phase c.rounds t d.traffic.generating) (hgb : Phase c.rounds t d.book.generating) :
    (∃ out e' d', Engine.step t e = .ok out e' ∧ e'.scheduler = .deadlineAware d' ∧
      Paused c (t + 1) d' ∧ d'.traffic.generating = d.traffic.generating ∧
      d'.book.generating = d.book.generating) ∨
      ∃ f e', c.Fails f ∧ Engine.step t e = .error f e' := by
  obtain ⟨harrived, hg, hsize⟩ := h.arrived hc hgt
  have htraffic : e.traffic = d.traffic := by rw [Engine.traffic, he]; rfl
  have hwith : e.scheduler.withTraffic (e.traffic.generate t).2 =
      .deadlineAware { d with traffic := (d.traffic.generate t).2 } := by
    rw [he, htraffic]
    rfl
  rcases decide_paused (d := { d with traffic := (d.traffic.generate t).2 }) hc hp hgb ht harrived
    hsize with ⟨⟨f, out⟩, d₁, hdecide, hpaused, hg₁, hb₁⟩ | ⟨f, σ, hf, hdecide⟩
  · let reports := (e.channel.transmit t out.allocations).1
    obtain ⟨-, hgr, -⟩ := record_noted d₁.traffic reports
    have hstep : ∃ e', Engine.step t e = .ok out e' ∧
        e'.scheduler = .deadlineAware { d₁ with traffic := Engine.record d₁.traffic reports } := by
      simp only [Engine.step, hwith, hdecide]
      exact ⟨_, rfl, rfl⟩
    obtain ⟨e', hstep, hscheduler⟩ := hstep
    exact Or.inl ⟨out, e', _, hstep, hscheduler, hpaused.record reports,
      hgr.trans (hg₁.trans hg), hb₁⟩
  · refine Or.inr ⟨f, { e with scheduler := σ }, hf, ?_⟩
    simp only [Engine.step, hwith, hdecide]

end Course

end Downlink
