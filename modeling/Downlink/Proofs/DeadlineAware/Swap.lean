import Downlink.Proofs.Session.Planned

/-!
# Swapping a horizon

Schedule, assignment, cursors, the mark of a failure and the record of a horizon are replaced in one
place, after everything that can fail. Up to there, and in every other operation, the scheduler
touches packets, cursors and the book's notes for the next round, nothing else.
-/

namespace Downlink

namespace DeadlineAware

/-- A selection in this round tries to start a horizon. -/
def attempts (r : Int) (d : DeadlineAware) : Bool :=
  !(Book.withBacklog d.traffic d.book.cell.ids).isEmpty && d.book.startsIn r

end DeadlineAware

/-- What a reply comes to: a decision or a fault. To call back for another horizon is a fault. -/
def Reply.verdict (d : DeadlineAware) : Reply → Except Fault DeadlineAware.Decision
  | .plan p => .ok ⟨p.assignment, p.totalWeight, none⟩
  | .fail cause => .ok ⟨[], 0, some cause⟩
  | .raise fault => .error fault
  | .callBack round next =>
    if d.attempts round then .error (.showing [round] (.desync (.reentered round)))
    else next.verdict d

namespace DeadlineAware

variable {d d' d'' : DeadlineAware} {decision : Decision} {s : Schedule} {k r : Int}
  {out : RoundAssignment}

theorem consults_eq (r : Int) (d : DeadlineAware) :
    d.consults r = (d.attempts r && !d.planning) := rfl

/-- `d'` is `d` but for its packets, its cursors and what its book notes for the next round. -/
def Abides (d d' : DeadlineAware) : Prop :=
  ∃ generating candidates traffic cursors unreported, d' =
    { d with
      book := { d.book with generating := generating, candidates := candidates }
      traffic := traffic
      cursors := cursors
      unreported := unreported }

theorem Abides.refl (d : DeadlineAware) : Abides d d := ⟨_, _, _, _, _, rfl⟩

theorem Abides.trans (h : Abides d d') (h' : Abides d' d'') : Abides d d'' := by
  obtain ⟨_, _, _, _, _, rfl⟩ := h
  obtain ⟨_, _, _, _, _, rfl⟩ := h'
  exact ⟨_, _, _, _, _, rfl⟩

theorem Abides.planning (h : Abides d d') : d'.planning = d.planning := by
  obtain ⟨_, _, _, _, _, rfl⟩ := h
  rfl

def Steady (d d' : DeadlineAware) : Prop := Abides d d' ∧ d'.cursors = d.cursors

theorem Steady.refl (d : DeadlineAware) : Steady d d := ⟨.refl d, rfl⟩

theorem Steady.trans (h : Steady d d') (h' : Steady d' d'') : Steady d d'' :=
  ⟨h.1.trans h'.1, h'.2.trans h.2⟩

structure Works (d d' : DeadlineAware) : Prop where
  abides : Abides d d'
  generating : d'.book.generating = d.book.generating

theorem Works.refl (d : DeadlineAware) : Works d d := ⟨.refl d, rfl⟩

theorem Works.trans (h : Works d d') (h' : Works d' d'') : Works d d'' :=
  ⟨h.abides.trans h'.abides, h'.generating.trans h.generating⟩

theorem noteBacklog_steady (d : DeadlineAware) : Steady d d.noteBacklog :=
  ⟨⟨_, _, _, _, _, rfl⟩, rfl⟩

theorem expire_works (r k : Int) (ids : List Nat) (d : DeadlineAware) :
    Works d (expire r k ids d).state ∧ (expire r k ids d).state.cursors = d.cursors := by
  induction ids generalizing d with
  | nil => exact ⟨.refl d, rfl⟩
  | cons id ids ih =>
    rw [expire]
    dsimp only
    split
    · exact ⟨⟨⟨_, _, _, _, _, rfl⟩, rfl⟩, rfl⟩
    · obtain ⟨hworks, hcursors⟩ := ih _
      refine ⟨Works.trans ?_ hworks, hcursors⟩
      exact ⟨⟨_, _, _, _, _, rfl⟩, rfl⟩

theorem expireAll_works (r : Int) (stations : List Int) (d : DeadlineAware) :
    Works d (expireAll r stations d).state ∧
      (expireAll r stations d).state.cursors = d.cursors := by
  induction stations generalizing d with
  | nil => exact ⟨.refl d, rfl⟩
  | cons k stations ih =>
    have hfirst := expire_works r k (stale d.traffic k r) d
    rw [expireAll]
    split
    · rename_i hx
      rwa [hx] at hfirst
    · rename_i d₁ hx
      rw [hx] at hfirst
      obtain ⟨hworks, hcursors⟩ := ih d₁
      exact ⟨hfirst.1.trans hworks, hcursors.trans hfirst.2⟩

theorem enroll_works (r : Int) (id : Nat) (p : Packet) (d : DeadlineAware) :
    Works d (enroll r id p d).state := by
  unfold enroll
  dsimp only
  split
  · split_ifs
    · exact .refl d
    split
    · exact .refl d
    split
    · exact ⟨⟨_, _, _, _, _, rfl⟩, rfl⟩
    split_ifs
    · exact ⟨⟨_, _, _, _, _, rfl⟩, rfl⟩
    split
    · exact ⟨⟨_, _, _, _, _, rfl⟩, rfl⟩
    · exact ⟨⟨_, _, _, _, _, rfl⟩, rfl⟩
  · exact .refl d

theorem enrollAll_works (r : Int) (ids : List Nat) (d : DeadlineAware) :
    Works d (enrollAll r ids d).state := by
  induction ids generalizing d with
  | nil => exact .refl d
  | cons id ids ih =>
    rw [enrollAll]
    split
    · exact .refl d
    rename_i p hp
    have hfirst := enroll_works r id p d
    split_ifs
    · split
      · rename_i hx
        rwa [hx] at hfirst
      · rename_i d₁ hx
        rw [hx] at hfirst
        exact hfirst.trans (ih d₁)
    · exact ih d

theorem serveStation_works (r k : Int) (out : RoundAssignment) (d : DeadlineAware) :
    Works d (serveStation r k out d).state := by
  have henroll := enrollAll_works r (d.traffic.waiting k) d
  unfold serveStation
  split
  · rename_i hx
    rwa [hx] at henroll
  rename_i d₁ hx
  rw [hx] at henroll
  dsimp only
  split
  · exact henroll.trans ⟨⟨_, _, _, _, _, rfl⟩, rfl⟩
  · exact henroll.trans ⟨⟨_, _, _, _, _, rfl⟩, rfl⟩

theorem serveAll_works (r : Int) (stations : List Int) (out : RoundAssignment) (d : DeadlineAware) :
    Works d (serveAll r stations out d).state := by
  induction stations generalizing out d with
  | nil => exact .refl d
  | cons k stations ih =>
    have hfirst := serveStation_works r k out d
    rw [serveAll]
    split
    · rename_i hx
      rwa [hx] at hfirst
    · rename_i out₁ d₁ hx
      rw [hx] at hfirst
      exact hfirst.trans (ih out₁ d₁)

theorem assign_works (r : Int) (d : DeadlineAware) : Works d (d.assign r).state := by
  have hreported : Works d { d with unreported := [] } := ⟨⟨_, _, _, _, _, rfl⟩, rfl⟩
  exact hreported.trans (serveAll_works _ _ _ _)

theorem stop_steady (d : DeadlineAware) : Steady d d.stop := ⟨⟨_, _, _, _, _, rfl⟩, rfl⟩

theorem select_of_planning (hplanning : d.planning = true) (hattempt : d.attempts r = true) :
    d.select r = .error (.showing [r] (.desync (.reentered r))) d.noteBacklog := by
  simp only [attempts, Bool.and_eq_true, Bool.not_eq_true'] at hattempt
  obtain ⟨hbacklog, hstarts⟩ := hattempt
  have hstart : d.noteBacklog.book.startsIn r = true := hstarts
  rw [noteBacklog] at hstart
  simp only [select, selectWith, startHorizon, refuse, hbacklog, hstart, Bool.false_eq_true,
    if_false, if_true]
  rw [if_pos hplanning]
  rfl

theorem select_steady (h : d.consults r = false) : Steady d (d.select r).state := by
  by_cases hattempt : d.attempts r = true
  · have hplanning : d.planning = true := by simpa [consults_eq, hattempt] using h
    rw [select_of_planning hplanning hattempt]
    exact d.noteBacklog_steady
  · rw [select, selectWith]
    dsimp only
    split_ifs with hempty hstarts
    · exact d.noteBacklog_steady
    · have hstarts : d.book.startsIn r = true := hstarts
      simp [attempts, hempty, hstarts] at hattempt
    · exact d.noteBacklog_steady

theorem expireAll_of_not_stale {stations : List Int}
    (h : ∀ k ∈ stations, stale d.traffic k r = []) : expireAll r stations d = .ok () d := by
  induction stations with
  | nil => rfl
  | cons k stations ih =>
    rw [expireAll, h k List.mem_cons_self]
    exact ih fun j hj => h j (List.mem_cons_of_mem k hj)

theorem propose_cases (r : Int) (d : DeadlineAware) :
    (∃ e d', propose r d = .error e d' ∧ (d.book.cell.schedule r = .error e ∨
        ∃ k ∈ d.book.cell.ids, stale d.traffic k r ≠ []) ∧ Steady { d with planning := false } d') ∨
      ∃ s d', propose r d = .ok s d' ∧ d.book.cell.schedule r = .ok s ∧
        Steady { d with planning := true } d' := by
  rw [propose]
  dsimp only
  split
  · rename_i hs
    exact Or.inl ⟨_, _, rfl, Or.inl hs, ⟨_, _, _, _, _, rfl⟩, rfl⟩
  rename_i s hs
  obtain ⟨hworks, hcursors⟩ :=
    expireAll_works r d.book.cell.ids { d.noteBacklog with planning := true }
  have hexpire := (noteBacklog_steady { d with planning := true }).trans ⟨hworks.abides, hcursors⟩
  split
  · rename_i e d₁ hx
    have hstale : ∃ k ∈ d.book.cell.ids, stale d.traffic k r ≠ [] := by
      by_contra hnone
      push Not at hnone
      have hok := expireAll_of_not_stale (d := { d.noteBacklog with planning := true }) hnone
      rw [noteBacklog, hx] at hok
      cases hok
    rw [noteBacklog, hx] at hexpire
    obtain ⟨⟨_, _, _, _, _, rfl⟩, hcursors⟩ := hexpire
    exact Or.inl ⟨e, _, rfl, Or.inr hstale, ⟨_, _, _, _, _, rfl⟩, hcursors⟩
  · rename_i d₁ hx
    rw [noteBacklog, hx] at hexpire
    exact Or.inr ⟨s, d₁, rfl, hs, hexpire⟩

theorem selectWith_refuse (r : Int) (d : DeadlineAware) :
    (d.attempts r = true ∧
      selectWith refuse r d = .error (.showing [r] (.desync (.reentered r))) d.noteBacklog) ∨
      d.attempts r = false ∧ ∃ f, selectWith refuse r d = .ok f d.noteBacklog := by
  rw [selectWith]
  dsimp only
  split_ifs with hempty hstarts
  · exact Or.inr ⟨by simp [attempts, hempty], _, rfl⟩
  · have hstarts : d.book.startsIn r = true := hstarts
    exact Or.inl ⟨by simp [attempts, hempty, hstarts], rfl⟩
  · have hstarts : ¬ d.book.startsIn r = true := hstarts
    exact Or.inr ⟨by simp [attempts, hstarts], _, rfl⟩

theorem verdict_congr (reply : Reply) (h : ∀ r, d'.attempts r = d.attempts r) :
    reply.verdict d' = reply.verdict d := by
  induction reply with
  | callBack round next ih => rw [Reply.verdict, Reply.verdict, h, ih]
  | _ => rfl

theorem consult_cases (reply : Reply) (d : DeadlineAware) :
    (∃ e d', reply.verdict d = .error e ∧ consult reply d = .error e d' ∧ Steady d d') ∨
      ∃ decision d', reply.verdict d = .ok decision ∧ consult reply d = .ok decision d' ∧
        Steady d d' := by
  induction reply generalizing d with
  | plan p => exact Or.inr ⟨_, d, rfl, rfl, .refl d⟩
  | fail cause => exact Or.inr ⟨_, d, rfl, rfl, .refl d⟩
  | raise fault => exact Or.inl ⟨fault, d, rfl, rfl, .refl d⟩
  | callBack round next ih =>
    rw [Reply.verdict, consult]
    rcases selectWith_refuse round d with ⟨hattempt, hrefused⟩ | ⟨hattempt, f, hselect⟩
    · rw [if_pos hattempt, hrefused]
      exact Or.inl ⟨_, _, rfl, rfl, d.noteBacklog_steady⟩
    · have hsame : next.verdict d.noteBacklog = next.verdict d := verdict_congr next fun _ => rfl
      rw [hattempt, hselect, if_neg Bool.false_ne_true, ← hsame]
      rcases ih d.noteBacklog with
        ⟨e, d', hverdict, hx, hsteady⟩ | ⟨decision, d', hverdict, hx, hsteady⟩
      · exact Or.inl ⟨e, d', hverdict, hx, d.noteBacklog_steady.trans hsteady⟩
      · exact Or.inr ⟨decision, d', hverdict, hx, d.noteBacklog_steady.trans hsteady⟩

theorem conclude_cases (s : Schedule) (d : DeadlineAware) :
    let verdict := (d.planner.reply d.consulted s d.book.cell.sizing).verdict d
    let after := { d with consulted := d.consulted + 1, planning := false }
    (∃ e d', verdict = .error e ∧ conclude s d = .error e d' ∧ Steady after d') ∨
      ∃ decision d', verdict = .ok decision ∧ conclude s d = .ok .dlMuTx (install s decision d') ∧
        Steady after d' := by
  intro verdict after
  let reply := d.planner.reply d.consulted s d.book.cell.sizing
  have hverdict : reply.verdict { d with consulted := d.consulted + 1 } = verdict :=
    verdict_congr reply fun _ => rfl
  rw [conclude]
  dsimp only
  rcases consult_cases reply { d with consulted := d.consulted + 1 } with
    ⟨e, d₁, hfault, hx, ⟨_, _, _, _, _, rfl⟩, hcursors⟩ |
    ⟨decision, d₁, hdecided, hx, ⟨_, _, _, _, _, rfl⟩, hcursors⟩
  · rw [hx]
    exact Or.inl ⟨e, _, hverdict ▸ hfault, rfl, ⟨_, _, _, _, _, rfl⟩, hcursors⟩
  · rw [hx]
    exact Or.inr ⟨decision, _, hverdict ▸ hdecided, rfl, ⟨_, _, _, _, _, rfl⟩, hcursors⟩

theorem start_of_schedule {c : Cell} (h : c.schedule r = .ok s) : s.start = r := by
  unfold Cell.schedule Schedule.generate at h
  dsimp only at h
  split at h
  · cases h
  split_ifs at h
  split at h
  · cases h
  · cases h
    rfl

theorem cursor?_install (s : Schedule) (decision : Decision) (d : DeadlineAware) (k : Int) :
    (install s decision d).cursor? k =
      (s.run? k).map fun run => ⟨k, run.start, run.stop, run.start⟩ := by
  have hmatch : (fun c : Cursor => decide (c.station = k)) ∘
      (fun run : Run => Cursor.atStart run.station run.start run.stop) =
        fun run => decide (run.station = k) := rfl
  rw [cursor?, install, cursorsOf, List.find?_map, hmatch, Schedule.run?]
  refine Option.map_congr fun run hrun => ?_
  have hstation : run.station = k := by simpa using List.find?_some hrun
  rw [Cursor.atStart, hstation]

end DeadlineAware

end Downlink
