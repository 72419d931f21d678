import Downlink.Proofs.DeadlineAware.Custody
import Downlink.Proofs.Traffic.Outcomes

/-!
# Outcomes with a planner

Every operation of the deadline-aware scheduler respects the outcomes of packets, whether it comes
to an end or fails on the way. Nothing is assumed of the queues: after a failure they still hold
packets that were sent or dropped, and it is the packets themselves that refuse another move.
-/

namespace Downlink.DeadlineAware

open Traffic

variable {r index : Int} {p q : Packet}

theorem expire_lasts (r k : Int) (ids : List Nat) (d : DeadlineAware) :
    Lasts d.traffic (expire r k ids d).state.traffic [] := by
  induction ids generalizing d with
  | nil => exact .refl d.traffic
  | cons id ids ih =>
    rw [expire]
    dsimp only
    have hset := Lasts.setQueue d.traffic k ((d.traffic.waiting k).filter (· ≠ id))
    split
    · exact hset
    · rename_i tr hupdate
      exact (hset.trans (.of_drop hupdate)).trans
        (ih { d with traffic := tr, unreported := d.unreported ++ [id] })

theorem expireAll_lasts (r : Int) (stations : List Int) (d : DeadlineAware) :
    Lasts d.traffic (expireAll r stations d).state.traffic [] := by
  induction stations generalizing d with
  | nil => exact .refl d.traffic
  | cons k stations ih =>
    have hfirst := expire_lasts r k (stale d.traffic k r) d
    rw [expireAll]
    split
    · rename_i hx
      rwa [hx] at hfirst
    · rename_i d₁ hx
      rw [hx] at hfirst
      exact hfirst.trans (ih d₁)

theorem refused_traffic (r : Int) (d : DeadlineAware) :
    (selectWith refuse r d).state.traffic = d.traffic := by
  unfold selectWith refuse
  dsimp only
  split_ifs <;> rfl

theorem consult_traffic (reply : Reply) (d : DeadlineAware) :
    (consult reply d).state.traffic = d.traffic := by
  induction reply generalizing d with
  | plan p => rfl
  | fail cause => rfl
  | raise fault => rfl
  | callBack round next ih =>
    have hrefused := refused_traffic round d
    rw [consult]
    split
    · rename_i hx
      rwa [hx] at hrefused
    · rename_i d₁ hx
      rw [hx] at hrefused
      exact (ih d₁).trans hrefused

theorem propose_lasts (r : Int) (d : DeadlineAware) :
    Lasts d.traffic (propose r d).state.traffic [] := by
  rw [propose]
  dsimp only
  split
  · exact .refl d.traffic
  · have hexpire := expireAll_lasts r d.book.cell.ids { d.noteBacklog with planning := true }
    split
    · rename_i hx
      rw [noteBacklog, hx] at hexpire
      exact hexpire
    · rename_i hx
      rw [noteBacklog, hx] at hexpire
      exact hexpire

theorem conclude_traffic (s : Schedule) (d : DeadlineAware) :
    (conclude s d).state.traffic = d.traffic := by
  have hconsult := consult_traffic (d.planner.reply d.consulted s d.book.cell.sizing)
    { d with consulted := d.consulted + 1 }
  rw [conclude]
  dsimp only
  split
  · rename_i hx
    rw [hx] at hconsult
    exact hconsult
  · rename_i hx
    rw [hx] at hconsult
    exact hconsult

theorem select_of_consults {d : DeadlineAware} (h : d.consults r = true) :
    (∃ e d₁, propose r d = .error e d₁ ∧ d.select r = .error e d₁) ∨
      ∃ s d₁, propose r d = .ok s d₁ ∧ d.select r = conclude s d₁ := by
  simp only [consults, Bool.and_eq_true, Bool.not_eq_true'] at h
  obtain ⟨⟨hbacklog, hstarts⟩, hplanning⟩ := h
  have hstart : d.noteBacklog.book.startsIn r = true := hstarts
  rw [noteBacklog] at hstart
  simp only [select, selectWith, startHorizon, planHorizon, propose, hbacklog, hstart, hplanning,
    Bool.false_eq_true, if_false, if_true]
  cases hs : d.book.cell.schedule r with
  | error e => exact Or.inl ⟨e, _, rfl, rfl⟩
  | ok s =>
    dsimp only
    generalize expireAll r d.book.cell.ids _ = expired
    cases expired with
    | error e d₁ => exact Or.inl ⟨e, _, rfl, rfl⟩
    | ok _ d₁ =>
      refine Or.inr ⟨s, d₁, rfl, ?_⟩
      dsimp only [conclude]
      generalize consult _ _ = decided
      cases decided <;> rfl

theorem select_of_not_consults {d : DeadlineAware} (h : d.consults r = false) :
    (d.select r).state.traffic = d.traffic := by
  rw [select, selectWith]
  dsimp only
  split_ifs with hempty hstarts
  · rfl
  · have hplanning : d.planning = true := by
      simpa [consults, hempty, show d.book.startsIn r = true from hstarts] using h
    rw [startHorizon, if_pos hplanning]
    rfl
  · rfl

theorem select_lasts (r : Int) (d : DeadlineAware) :
    Lasts d.traffic (d.select r).state.traffic [] := by
  cases hconsults : d.consults r with
  | false =>
    rw [select_of_not_consults hconsults]
    exact .refl d.traffic
  | true =>
    have hpropose := propose_lasts r d
    rcases select_of_consults hconsults with ⟨e, d₁, hx, hselect⟩ | ⟨s, d₁, hx, hselect⟩
    · rw [hx] at hpropose
      rwa [hselect]
    · rw [hx] at hpropose
      rw [hselect, conclude_traffic]
      exact hpropose

theorem coherent_settle {d : DeadlineAware} (h : p.Coherent) (hq : d.settle r index p = .ok q) :
    q.Coherent := by
  have hpaired : ∀ {x y}, Packet.Coherent { p with horizon := x, scheduleIndex := y } :=
    ⟨h.sent, h.unit, h.assigned, h.dropped, h.reason⟩
  unfold settle at hq
  dsimp only at hq
  split_ifs at hq
  · obtain ⟨hopen, rfl⟩ := Packet.of_drop hq
    exact hpaired.lost hopen
  · split at hq
    · obtain ⟨hopen, rfl⟩ := Packet.of_schedule hq
      have hblank := hpaired.blank hopen
      exact Packet.Blank.coherent ⟨hblank.txRound, hblank.ru, hblank.dropRound, hblank.dropReason⟩
        rfl
    · obtain ⟨hopen, rfl⟩ := Packet.of_drop hq
      exact hpaired.lost hopen

theorem enroll_lasts (r : Int) (id : Nat) (p : Packet) (d : DeadlineAware) :
    Lasts d.traffic (enroll r id p d).state.traffic [] := by
  unfold enroll
  dsimp only
  split
  · split_ifs
    · exact .refl d.traffic
    split
    · exact .refl d.traffic
    split
    · exact .refl d.traffic
    split_ifs
    · exact .refl d.traffic
    split
    · exact .refl d.traffic
    · rename_i tr hupdate
      obtain ⟨p', q, hp, hq, rfl⟩ := of_update hupdate
      exact .setPacket hp (of_settle hq).2.1 fun hc => coherent_settle hc hq
  · exact .refl d.traffic

theorem enrollAll_lasts (r : Int) (ids : List Nat) (d : DeadlineAware) :
    Lasts d.traffic (enrollAll r ids d).state.traffic [] := by
  induction ids generalizing d with
  | nil => exact .refl d.traffic
  | cons id ids ih =>
    rw [enrollAll]
    split
    · exact .refl d.traffic
    rename_i p hp
    have hfirst := enroll_lasts r id p d
    split_ifs
    · split
      · rename_i hx
        rwa [hx] at hfirst
      · rename_i d₁ hx
        rw [hx] at hfirst
        exact hfirst.trans (ih d₁)
    · exact ih d

theorem visit_lasts (z : Sizing) (r k : Int) (id : Nat) (w : Walk) :
    ∃ sent, Lasts w.traffic (visit z r k id w).state.traffic sent ∧
      (visit z r k id w).state.allocations.map Allocation.packet =
        w.allocations.map Allocation.packet ++ sent := by
  have hstays : ∃ sent, Lasts w.traffic w.traffic sent ∧
      w.allocations.map Allocation.packet = w.allocations.map Allocation.packet ++ sent :=
    ⟨[], .refl w.traffic, (List.append_nil _).symm⟩
  unfold visit
  split
  · exact hstays
  rename_i p hp
  split_ifs
  · exact hstays
  split
  · exact hstays
  rename_i due hdue
  split_ifs with hround
  · split
    · exact hstays
    split
    · exact hstays
    · rename_i ru _ _ tr hupdate
      obtain ⟨p', q, hp', hq, rfl⟩ := of_update hupdate
      obtain rfl := Option.some.inj (hp.symm.trans hp')
      exact ⟨[id], .send hp (Or.inr (hround ▸ hdue)) hq, List.map_append⟩
  · split
    · exact hstays
    · rename_i tr hupdate
      exact ⟨[], .of_drop hupdate, (List.append_nil _).symm⟩
  · exact hstays

theorem visitAll_lasts (z : Sizing) (r k : Int) (ids : List Nat) (w : Walk) :
    ∃ sent, Lasts w.traffic (visitAll z r k ids w).state.traffic sent ∧
      (visitAll z r k ids w).state.allocations.map Allocation.packet =
        w.allocations.map Allocation.packet ++ sent := by
  induction ids generalizing w with
  | nil => exact ⟨[], .refl w.traffic, (List.append_nil _).symm⟩
  | cons id ids ih =>
    obtain ⟨sent, hlasts, hsent⟩ := visit_lasts z r k id w
    rw [visitAll]
    split
    · rename_i hx
      rw [hx] at hlasts hsent
      exact ⟨sent, hlasts, hsent⟩
    · rename_i w₁ hx
      rw [hx] at hlasts hsent
      obtain ⟨sent', hlasts', hsent'⟩ := ih w₁
      exact ⟨sent ++ sent', hlasts.trans hlasts', by
        rw [hsent', ← List.append_assoc]
        exact congrArg (· ++ sent') hsent⟩

theorem serveStation_allots (r k : Int) (out : RoundAssignment) (d : DeadlineAware) :
    Allots traffic d.traffic out (serveStation r k out d) := by
  have henroll := enrollAll_lasts r (d.traffic.waiting k) d
  unfold serveStation
  split
  · rename_i hx
    rw [hx] at henroll
    exact .fail henroll
  rename_i d₁ hx
  rw [hx] at henroll
  refine .after henroll ?_
  dsimp only
  obtain ⟨sent, hlasts, hsent⟩ := visitAll_lasts d₁.book.cell.sizing r k
    (d₁.traffic.waiting k) ⟨d₁.traffic, out.allocations, out.drops, [], false⟩
  split
  · rename_i hw
    rw [hw] at hlasts
    exact .fail hlasts.untold
  · rename_i w hw
    rw [hw] at hlasts hsent
    have hleft := hlasts.trans (.setQueue w.traffic k w.kept)
    rw [List.append_nil] at hleft
    exact .result hleft hsent

theorem serveAll_allots (r : Int) (stations : List Int) (out : RoundAssignment)
    (d : DeadlineAware) :
    Allots traffic d.traffic out (serveAll r stations out d) := by
  induction stations generalizing out d with
  | nil => exact .keep (.refl d.traffic) rfl
  | cons k stations ih =>
    have hfirst := serveStation_allots r k out d
    rw [serveAll]
    split
    · rename_i hx
      rwa [hx] at hfirst
    · rename_i out₁ d₁ hx
      rw [hx] at hfirst
      exact hfirst.trans (ih out₁ d₁)

theorem assign_allots (r : Int) (d : DeadlineAware) :
    Allots traffic d.traffic (.empty r d.book.cell.sizing.ruType) (d.assign r) :=
  serveAll_allots r d.book.candidates _ { d with unreported := [] }

end Downlink.DeadlineAware
