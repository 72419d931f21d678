import Downlink.Proofs.Drain

/-!
# The records of the horizons

A horizon is recorded when its decision is installed, with what the planner replied for it, and no
record is touched again. So after any number of rounds the k-th record is the one that the k-th
reply calls for, and there are as many records as horizons have begun.
-/

namespace Downlink

open DeadlineAware Engine

def Reply.decision? : Reply → Option Decision
  | .plan p => some ⟨p.assignment, p.totalWeight, none⟩
  | .fail cause => some ⟨[], 0, some cause⟩
  | .raise _ => none
  | .callBack _ _ => none

namespace DeadlineAware

variable {d d' d'' : DeadlineAware} {out out' : RoundAssignment} {round k : Int} {ids : List Nat}
  {stations : List Int}

structure Keeps (d d' : DeadlineAware) : Prop where
  book : d'.book = d.book
  planner : d'.planner = d.planner
  consulted : d'.consulted = d.consulted

theorem Keeps.trans (h : Keeps d d') (h' : Keeps d' d'') : Keeps d d'' :=
  ⟨h'.book.trans h.book, h'.planner.trans h.planner, h'.consulted.trans h.consulted⟩

theorem expire_keeps (h : expire round k ids d = .ok () d') : Keeps d d' := by
  induction ids generalizing d with
  | nil =>
    cases h
    exact ⟨rfl, rfl, rfl⟩
  | cons id ids ih =>
    simp only [expire] at h
    split at h
    · cases h
    · obtain ⟨hbook, hplanner, hconsulted⟩ := ih h
      exact ⟨hbook, hplanner, hconsulted⟩

theorem expireAll_keeps (h : expireAll round stations d = .ok () d') : Keeps d d' := by
  induction stations generalizing d with
  | nil =>
    cases h
    exact ⟨rfl, rfl, rfl⟩
  | cons k stations ih =>
    rw [expireAll] at h
    split at h
    · cases h
    · rename_i d₁ hfirst
      exact (expire_keeps hfirst).trans (ih h)

theorem serveStation_book (h : serveStation round k out d = .ok out' d') : d'.book = d.book := by
  obtain ⟨d₁, w, henroll, -, -, -, rfl⟩ := of_serveStation h
  exact (enrollAll_admits henroll).book

theorem serveAll_book (h : serveAll round stations out d = .ok out' d') : d'.book = d.book := by
  induction stations generalizing d out with
  | nil =>
    cases h
    rfl
  | cons k stations ih =>
    rw [serveAll] at h
    split at h
    · cases h
    · rename_i hfirst
      exact (ih h).trans (serveStation_book hfirst)

theorem assign_book (h : assign round d = .ok out d') : d'.book = d.book :=
  serveAll_book (d := { d with unreported := [] }) h

end DeadlineAware

namespace Course

variable {c : Course} {d d' : DeadlineAware} {e e' : Engine} {decision : Decision}
  {out : RoundAssignment} {f : TxFormat} {flag : Bool} {j t : Nat}

def Decides (c : Course) (j : Nat) (decision : Decision) : Prop :=
  (c.planner.reply j (c.scheduleOf j) c.cell.sizing).decision? = some decision

def recordOf (c : Course) (j : Nat) (decision : Decision) : HorizonRecord where
  index := j
  start := j * c.length
  rounds := c.length
  packets := (c.scheduleOf j).entries.length
  ruType := c.cell.sizing.ruType
  perRound := c.cell.sizing.perRound
  backend := c.planner.name
  matched := decision.assignment.length
  totalWeight := decision.weight
  maxWeight := (c.scheduleOf j).totalPenalty
  failed := decision.failure.isSome
  error := decision.failure.map SolveFault.message

def Recorded (c : Course) (hs : List HorizonRecord) : Prop :=
  ∀ j r, hs[j]? = some r → ∃ decision, c.Decides j decision ∧ r = c.recordOf j decision

theorem Recorded.concat {hs : List HorizonRecord} (h : c.Recorded hs)
    (hd : c.Decides hs.length decision) : c.Recorded (hs ++ [c.recordOf hs.length decision]) := by
  intro j r hr
  rcases lt_trichotomy j hs.length with hlt | rfl | hgt
  · rw [List.getElem?_append_left hlt] at hr
    exact h j r hr
  · simp only [List.getElem?_concat_length, Option.some.injEq] at hr
    exact ⟨decision, hd, hr.symm⟩
  · rw [List.getElem?_eq_none (by simp; omega)] at hr
    cases hr

theorem Answers.decides (hp : c.Answers) (hj : j * c.length < c.rounds)
    (h : consult (c.planner.reply j (c.scheduleOf j) c.cell.sizing) d = .ok decision d') :
    c.Decides j decision ∧ d' = d := by
  unfold Decides
  rcases hp j hj with ⟨plan, hr⟩ | ⟨cause, hr⟩ | ⟨fault, hr⟩
  · rw [hr] at h ⊢
    cases h
    exact ⟨rfl, rfl⟩
  · rw [hr] at h ⊢
    cases h
    exact ⟨rfl, rfl⟩
  · rw [hr] at h
    cases h

theorem planHorizon_records (hc : c.cell.Sound) (hp : c.Answers)
    (hstart : (t : Int) % c.length = 0 ∧ t < c.rounds) (hl : Ledger c t d)
    (h : planHorizon t { d with planning := true } = .ok () d') :
    ∃ decision, c.Decides d.book.horizons.length decision ∧
      d'.book.horizons = d.book.horizons ++ [c.recordOf d.book.horizons.length decision] := by
  obtain ⟨hlen, -⟩ := hl.length_of_start hc hstart.1
  have hsch : d.book.cell.schedule t = .ok (c.scheduleOf d.book.horizons.length) := by
    rw [hl.cell, hc.schedule t (by omega), scheduleOf_eq hlen]
  obtain ⟨s, d₁, decision, d₂, hs, hexpire, hconsult, rfl⟩ := of_planHorizon h
  obtain rfl := Except.ok.inj (hsch.symm.trans hs)
  have hkeeps := expireAll_keeps hexpire
  rw [hkeeps.planner, hkeeps.consulted, hkeeps.book, hl.planner, hl.consulted, hl.cell] at hconsult
  obtain ⟨hdecides, rfl⟩ := hp.decides (by omega) hconsult
  refine ⟨decision, hdecides, ?_⟩
  simp only [install, Book.begin, Book.recordOf, hl.cell, Option.isSome_map]
  rfl

theorem select_records (hc : c.cell.Sound) (hp : c.Answers)
    (hphase : Phase c.rounds t d.book.generating) (hl : Ledger c (min t c.rounds) d)
    (hrecorded : c.Recorded d.book.horizons) (h : select t d = .ok f d') :
    c.Recorded d'.book.horizons := by
  rcases of_selectWith h with ⟨-, rfl⟩ | ⟨-, rfl | ⟨hstarts, hstart⟩⟩
  · exact hrecorded
  · exact hrecorded
  · simp only [Book.startsIn, Bool.and_eq_true, decide_eq_true_eq] at hstarts
    obtain ⟨⟨hgenerating, hstarts⟩, -⟩ := hstarts
    have hmod : (t : Int) % d.book.cell.horizonRounds = 0 := hstarts
    have hlt : t < c.rounds := by
      rcases hphase with ⟨hlt, -⟩ | ⟨-, hflag⟩
      · exact hlt
      · cases hflag.symm.trans hgenerating
    rw [min_eq_left hlt.le] at hl
    rw [hl.cell] at hmod
    obtain ⟨d₁, hplan, rfl⟩ := of_startHorizon hstart
    obtain ⟨decision, hdecides, hhorizons⟩ :=
      planHorizon_records hc hp ⟨hmod, hlt⟩ (hl.withCandidates _) hplan
    show c.Recorded d₁.book.horizons
    rw [hhorizons]
    exact hrecorded.concat hdecides

theorem step_records (hc : c.cell.Sound) (hp : c.Answers) (hphase : Phase c.rounds t flag)
    (hb : Between c t flag e) (hrecorded : c.Recorded e.scheduler.horizons)
    (h : Engine.step t e = .ok out e') : c.Recorded e'.scheduler.horizons := by
  obtain ⟨d, he, hpaused, -, hgenerating⟩ := hb
  obtain ⟨format, σ, hcompleted⟩ := of_step h
  have hdecided := hcompleted.decided
  rw [he] at hdecided hrecorded
  have hafter : e'.scheduler.horizons = σ.horizons := by
    rw [hcompleted.scheduler]
    cases σ <;> rfl
  have hselect : ∀ {f σ'}, (Scheduler.deadlineAware { d with
      traffic := (e.traffic.generate t).2 }).select t = .ok f σ' →
        ∃ d', σ' = .deadlineAware d' ∧ c.Recorded d'.book.horizons := by
    intro f σ' hselect
    obtain ⟨d', hd, rfl⟩ := of_lift hselect
    exact ⟨d', rfl, select_records (d := { d with traffic := (e.traffic.generate t).2 }) hc hp
      (by rw [hgenerating]; exact hphase) (hpaused.ledger.of_same rfl) hrecorded hd⟩
  rw [hafter]
  rcases of_decide hdecided with ⟨hnone, -, -⟩ | ⟨σ₁, hsome, -, hassign⟩
  · obtain ⟨d', rfl, hrecorded'⟩ := hselect hnone
    exact hrecorded'
  · obtain ⟨d₁, rfl, hrecorded₁⟩ := hselect hsome
    obtain ⟨d', hd, rfl⟩ := of_lift hassign
    show c.Recorded d'.book.horizons
    rw [assign_book hd]
    exact hrecorded₁

theorem reaches_recorded (hc : c.cell.Sound) (hp : c.Answers) {channel : Channel}
    (h : Reaches (c.engine channel) c.rounds t flag e) : c.Recorded e.scheduler.horizons := by
  refine h.preserved (P := fun _ _ e => c.Recorded e.scheduler.horizons) (fun j r hr => by cases hr)
    (fun hx hrecorded => ?_) (fun {e} hrecorded => ?_)
  · have hb := (loop hc hp).reaches (between_engine hc channel) hx.before
    exact step_records hc hp hx.phase hb hrecorded hx.step
  · have hsame : e.quiet.scheduler.horizons = e.scheduler.horizons := by
      rw [Engine.quiet]
      cases e.scheduler <;> rfl
    rw [hsame]
    exact hrecorded

theorem run_recorded (hc : c.cell.Sound) (hp : c.Answers) (hf : c.Feasible) {channel : Channel}
    {last : Int} (hrun : (c.engine channel).run c.rounds = .ok last e)
    (he : e.scheduler = .deadlineAware d) : c.Recorded d.book.horizons := by
  obtain ⟨⟨t, -, hreaches⟩, -⟩ := (timely hc hp hf channel).1.ended last e hrun
  have hrecorded := reaches_recorded hc hp hreaches
  rwa [he] at hrecorded

end Course

end Downlink
