import Downlink.Proofs.Traffic.Custody
import Downlink.Session

/-!
# Outcomes

A packet records its outcome in full and only once it has one, and from then on nothing about it
changes but the report on its transmission. What a stretch of work does to the traffic is said by
`Lasts`, which composes: it lists the packets that were given out as allocated, and these have not
been sent before.
-/

namespace Downlink

namespace Packet

variable {p q : Packet} {round index : Int} {ru : Ru} {reason : DropReason}

/-- The records of a packet go with its state. -/
structure Coherent (p : Packet) : Prop where
  sent : p.state = .transmitted ↔ p.txRound.isSome
  unit : p.txRound.isSome ↔ p.ru.isSome
  assigned : p.state = .transmitted → p.assignedRound = p.txRound
  dropped : p.state = .dropped ↔ p.dropRound.isSome
  reason : p.dropRound.isSome ↔ p.dropReason.isSome

structure Blank (p : Packet) : Prop where
  txRound : p.txRound = none
  ru : p.ru = none
  dropRound : p.dropRound = none
  dropReason : p.dropReason = none

theorem Coherent.blank (h : p.Coherent) (hopen : p.isResolved = false) : p.Blank := by
  have hsent : p.txRound = none := by
    refine Option.not_isSome_iff_eq_none.mp fun hsome => ?_
    rw [isResolved, h.sent.mpr hsome] at hopen
    cases hopen
  have hdropped : p.dropRound = none := by
    refine Option.not_isSome_iff_eq_none.mp fun hsome => ?_
    rw [isResolved, h.dropped.mpr hsome] at hopen
    cases hopen
  exact ⟨hsent, by simpa [hsent] using h.unit, hdropped, by simpa [hdropped] using h.reason⟩

theorem Blank.coherent (h : p.Blank) (hopen : p.isResolved = false) : p.Coherent := by
  have hsent : p.state ≠ .transmitted := fun he => by rw [isResolved, he] at hopen; cases hopen
  have hdropped : p.state ≠ .dropped := fun he => by rw [isResolved, he] at hopen; cases hopen
  constructor <;> simp [hsent, hdropped, h.txRound, h.ru, h.dropRound, h.dropReason]

theorem Coherent.noted (h : p.Coherent) (x : Option TxStatus) : (p.noted x).Coherent :=
  ⟨h.sent, h.unit, h.assigned, h.dropped, h.reason⟩

theorem Coherent.lost (h : p.Coherent) (hopen : p.isResolved = false) :
    (p.lost round reason).Coherent := by
  have hb := h.blank hopen
  constructor <;> simp [Packet.lost, hb.txRound, hb.ru]

theorem Coherent.transmit (h : p.Coherent)
    (hround : p.state = .pending ∨ p.assignedRound = some round)
    (ht : p.transmit round ru = .ok q) : q.Coherent := by
  have hb := h.blank (of_transmit ht).unresolved
  rcases transmit_cases ht with ⟨-, rfl⟩ | ⟨hstate, rfl⟩
  · constructor <;> simp [hb.dropRound, hb.dropReason]
  · have hassigned : p.assignedRound = some round := hround.resolve_left (by simp [hstate])
    constructor <;> simp [hb.dropRound, hb.dropReason, hassigned]

end Packet

def RoundAssignment.packets (a : RoundAssignment) : List Nat := a.allocations.map Allocation.packet

namespace Traffic

variable {tr tr' tr'' : Traffic} {id : Nat} {p q : Packet} {round k : Int} {reason : DropReason}
  {ru : Ru} {sent sent' : List Nat}

def Coherent (tr : Traffic) : Prop := ∀ id p, tr.packet? id = some p → p.Coherent

/-- What was resolved stays as it was up to its report, records stay coherent, and the packets
`sent`, all different, had not been sent before and have been since. -/
structure Lasts (tr tr' : Traffic) (sent : List Nat) : Prop where
  resolved : ∀ id p, tr.packet? id = some p → p.isResolved = true →
    ∃ x, tr'.packet? id = some (p.noted x)
  coherent : tr.Coherent → tr'.Coherent
  nodup : sent.Nodup
  unsent : ∀ id ∈ sent, tr.state? id ≠ some .transmitted
  sent : ∀ id ∈ sent, tr'.state? id = some .transmitted

theorem Lasts.of_packet? (h : ∀ id, tr'.packet? id = tr.packet? id) : Lasts tr tr' [] where
  resolved id p hp _ := ⟨p.txStatus, (h id).trans hp⟩
  coherent hc id p hp := hc id p (h id ▸ hp)
  nodup := .nil
  unsent := by simp
  sent := by simp

theorem Lasts.refl (tr : Traffic) : Lasts tr tr [] := .of_packet? fun _ => rfl

theorem Lasts.setQueue (tr : Traffic) (k : Int) (ids : List Nat) :
    Lasts tr (tr.setQueue k ids) [] := .of_packet? fun _ => rfl

theorem Lasts.final (h : Lasts tr tr' sent) : Final tr tr' := by
  intro id s hs hid
  obtain ⟨p, hp, rfl⟩ := Option.map_eq_some_iff.mp hid
  obtain ⟨x, hx⟩ := h.resolved id p hp hs
  rw [state?_of_packet? hx, Packet.noted_state]

theorem Lasts.trans (h₁ : Lasts tr tr' sent) (h₂ : Lasts tr' tr'' sent') :
    Lasts tr tr'' (sent ++ sent') where
  resolved id p hp hresolved := by
    obtain ⟨x, hx⟩ := h₁.resolved id p hp hresolved
    obtain ⟨y, hy⟩ := h₂.resolved id (p.noted x) hx hresolved
    exact ⟨y, hy⟩
  coherent hc := h₂.coherent (h₁.coherent hc)
  nodup := List.nodup_append.mpr ⟨h₁.nodup, h₂.nodup, fun i hi j hj hij =>
    h₂.unsent j hj (hij ▸ h₁.sent i hi)⟩
  unsent id hid := by
    rcases List.mem_append.mp hid with hid | hid
    · exact h₁.unsent id hid
    · exact fun hsent => h₂.unsent id hid (h₁.final id .transmitted rfl hsent)
  sent id hid := by
    rcases List.mem_append.mp hid with hid | hid
    · exact h₂.final id .transmitted rfl (h₁.sent id hid)
    · exact h₂.sent id hid

theorem Lasts.untold (h : Lasts tr tr' sent) : Lasts tr tr' [] :=
  ⟨h.resolved, h.coherent, .nil, by simp, by simp⟩

theorem Lasts.setPacket (hp : tr.packet? id = some p) (hopen : p.isResolved = false)
    (hq : p.Coherent → q.Coherent) : Lasts tr (tr.setPacket id q) [] where
  resolved i r hr hresolved := by
    have hi : i ≠ id := by
      rintro rfl
      rw [Option.some.inj (hr.symm.trans hp), hopen] at hresolved
      cases hresolved
    exact ⟨r.txStatus, (packet?_setPacket_of_ne hi).trans hr⟩
  coherent hc i r hr := by
    by_cases hi : i = id
    · subst hi
      obtain rfl := Option.some.inj ((packet?_setPacket_self hp).symm.trans hr)
      exact hq (hc i p hp)
    · exact hc i r ((packet?_setPacket_of_ne hi).symm.trans hr)
  nodup := .nil
  unsent := by simp
  sent := by simp

theorem Lasts.send (hp : tr.packet? id = some p)
    (hround : p.state = .pending ∨ p.assignedRound = some round)
    (hq : p.transmit round ru = .ok q) : Lasts tr (tr.setPacket id q) [id] := by
  have hleaves := Packet.of_transmit hq
  have h := Lasts.setPacket hp hleaves.unresolved fun hc => hc.transmit hround hq
  refine ⟨h.resolved, h.coherent, List.nodup_singleton id, ?_, ?_⟩
  · intro i hi hsent
    rw [List.mem_singleton.mp hi, state?_of_packet? hp, Option.some.injEq] at hsent
    exact Bool.false_ne_true
      (hleaves.unresolved.symm.trans (Packet.isResolved_of_transmitted hsent))
  · intro i hi
    rw [List.mem_singleton.mp hi, state?_setPacket_self hp, hleaves.state]

theorem Lasts.of_drop (h : tr.update id (fun p => p.drop round reason) = .ok tr') :
    Lasts tr tr' [] := by
  obtain ⟨p, q, hp, hq, rfl⟩ := of_update h
  obtain ⟨hopen, rfl⟩ := Packet.of_drop hq
  exact .setPacket hp hopen fun hc => hc.lost hopen

theorem coherent_arriving (s : Station) (id : Nat) (round : Int) :
    (arriving s id round).Coherent :=
  Packet.Blank.coherent ⟨rfl, rfl, rfl, rfl⟩ rfl

theorem Lasts.emitFrom (tr : Traffic) (s : Station) (round : Int) :
    Lasts tr (tr.emitFrom s round) [] where
  resolved id p hp _ := ⟨p.txStatus, (Grows.emitFrom tr s round).old id p hp⟩
  coherent hc id p hp := by
    rw [packet?_emitFrom] at hp
    split_ifs at hp
    · cases hp
      exact coherent_arriving s id round
    · exact hc id p hp
  nodup := .nil
  unsent := by simp
  sent := by simp

theorem Lasts.generate (tr : Traffic) (round : Int) : Lasts tr (tr.generate round).2 [] := by
  have hall : ∀ (due : List Station) (tr : Traffic), Lasts tr (tr.emitAll round due) [] := by
    intro due
    induction due with
    | nil => exact Lasts.refl
    | cons s due ih => exact fun tr => (Lasts.emitFrom tr s round).trans (ih _)
  exact hall _ tr

theorem Lasts.emit (h : tr.emit k round = .ok (id, tr')) : Lasts tr tr' [] := by
  rw [Traffic.emit] at h
  split at h
  · cases h
    exact .emitFrom tr _ round
  · cases h

section Decisions

variable {σ : Type} {traffic : σ → Traffic} {out out' : RoundAssignment} {s s' : σ} {e : Fault}
  {x : Attempt σ RoundAssignment}

def Allots (traffic : σ → Traffic) (tr : Traffic) (out : RoundAssignment)
    (x : Attempt σ RoundAssignment) : Prop :=
  ∃ sent, Lasts tr (traffic x.state) sent ∧
    ∀ out' s, x = .ok out' s → out'.packets = out.packets ++ sent

theorem Allots.fail (h : Lasts tr (traffic s) []) : Allots traffic tr out (.error e s) :=
  ⟨[], h, by simp⟩

theorem Allots.result (h : Lasts tr (traffic s) sent) (hout : out'.packets = out.packets ++ sent) :
    Allots traffic tr out (.ok out' s) := by
  refine ⟨sent, h, fun out₁ s₁ hx => ?_⟩
  cases hx
  exact hout

theorem Allots.keep (h : Lasts tr (traffic s) []) (hout : out'.allocations = out.allocations) :
    Allots traffic tr out (.ok out' s) :=
  .result h (by rw [RoundAssignment.packets, hout, List.append_nil]; rfl)

theorem Allots.trans (h₁ : Allots traffic tr out (.ok out' s))
    (h₂ : Allots traffic (traffic s) out' x) :
    Allots traffic tr out x := by
  obtain ⟨sent₁, hlasts₁, hout₁⟩ := h₁
  obtain ⟨sent₂, hlasts₂, hout₂⟩ := h₂
  refine ⟨sent₁ ++ sent₂, hlasts₁.trans hlasts₂, fun out₂ s₂ hx => ?_⟩
  rw [hout₂ out₂ s₂ hx, hout₁ out' s rfl, List.append_assoc]

theorem Allots.after (h₁ : Lasts tr tr' []) (h₂ : Allots traffic tr' out x) :
    Allots traffic tr out x := by
  obtain ⟨sent, hlasts, hout⟩ := h₂
  exact ⟨sent, h₁.trans hlasts, hout⟩

end Decisions

end Traffic

end Downlink
