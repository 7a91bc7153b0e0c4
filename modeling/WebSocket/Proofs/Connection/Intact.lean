import WebSocket.Proofs.Connection.Health

/-!
# Connections that are left to their end

Any operation may be in progress on a connection: messages are sent, somebody closes it, somebody
drains it or looks for the end of its events, and calls are given up. As long as the peer is there
to be written to and the reader was not told to stop, it is still the reader alone that brings the
connection to its end.

## Main results

* `Connection.Intact.transition`: a connection **stays intact** in every move that neither takes the
  peer away nor tells the reader to stop.
-/

namespace WebSocket

/-- The actions of operations that leave the end of a connection to its reader, those that **wait
for the end** included. -/
def Action.isPatient : Action → Bool
  | .takeEventOrEnd | .beginDraining | .drainEvents .. => true
  | action => action.isOrdinary

theorem Action.isPatient_of_isOrdinary {action : Action} (h : action.isOrdinary = true) :
    action.isPatient = true := by
  cases action <;> first | rfl | exact h

/-- A script that leaves the end of a connection to its reader, or that **first tells the reader to
stop**. -/
def Script.IsPatient (script : Script) : Prop :=
  script.head? = some .cancelReader ∨ ∀ b ∈ script, b.isPatient = true

theorem Script.isPatient_ofOperation (size : Nat) (operation : Operation) :
    Script.IsPatient (Script.ofOperation size operation) := by
  by_cases hordinary : operation.isOrdinary = true
  · exact .inr fun b hb =>
      Action.isPatient_of_isOrdinary (Operation.isOrdinary_script hordinary size b hb)
  · cases operation with
    | abort => exact .inl rfl
    | next | drain => exact .inr (by simp [Script.ofOperation, Action.isPatient])
    | _ => exact absurd rfl hordinary

namespace Connection

variable {c c' c₁ : Connection} {task : TaskId} {action : Action} {rest script : Script}
  {move : Move}

/-- A connection that is **left to its end**: nobody but the reader can bring it about. -/
structure Intact (c : Connection) : Prop extends Tended c where
  uncancelled : c.cancelled = false
  calls : ∀ id, (c.script (.call id)).IsPatient

theorem Healthy.intact (h : c.Healthy) : c.Intact where
  toTended := h.tended
  uncancelled := h.uncancelled
  calls := fun id => .inr fun b hb => Action.isPatient_of_isOrdinary (h.calls id b hb)

/-! ### What nobody undoes -/

/-- Who tells the reader to stop, tells it **for good**. -/
theorem Transition.uncancelled (hmove : Transition c move c') (h : c'.cancelled = false) :
    c.cancelled = false := by
  cases hmove with
  | act _ heffect =>
      rw [setScript_cancelled] at h
      cases heffect with
      | cancelReader => exact (Bool.or_eq_false_iff.mp h).1
      | _ => exact h
  | _ => exact h

/-- A peer that has gone away **stays away**. -/
theorem Transition.unbroken (hmove : Transition c move c') (h : c'.transport.broken = false) :
    c.transport.broken = false := by
  cases hmove with
  | act _ heffect =>
      rw [setScript_transport, heffect.broken] at h
      exact h
  | peerGone => cases h
  | _ => exact h

/-! ### Moves -/

/-- While the reader is not told to stop, **an operation** leaves it alone and stays patient. -/
theorem Intact.spares (h : c.Intact) {id : Nat} (hscript : c.script (.call id) = action :: rest)
    (heffect : Effect c (.call id) action rest c₁ script) (huncancelled : c₁.cancelled = false) :
    Spares c c₁ ∧ script.IsPatient := by
  have hpatient := h.calls id
  rw [hscript] at hpatient
  have hrunning := h.running
  obtain hcancels | hall := hpatient
  · obtain rfl : action = .cancelReader := Option.some.inj hcancels
    cases heffect with
    | cancelReader =>
        dsimp only at huncancelled
        rw [hrunning, Bool.or_eq_false_iff] at huncancelled
        cases huncancelled.2
  obtain ⟨haction, hrest⟩ := List.forall_mem_cons.mp hall
  by_cases hordinary : action.isOrdinary = true
  · obtain ⟨hspares, hscript'⟩ := h.toTended.spares hordinary heffect
    exact ⟨hspares, .inr fun b hb =>
      (hscript' b hb).elim Action.isPatient_of_isOrdinary (hrest b)⟩
  cases heffect with
  | takeNext => exact ⟨{ Spares.refl c with }, .inr (by simp [Action.isPatient, Action.isOrdinary])⟩
  | takeEnd => exact ⟨Spares.refl c, .inr (by simp [Action.isPatient, Action.isOrdinary])⟩
  | failToDrain => exact ⟨Spares.refl c, .inr (by simp [Action.isPatient, Action.isOrdinary])⟩
  | beginDraining => exact ⟨Spares.refl c, .inr (by simp [Action.isPatient])⟩
  | drainNothing _ hstage => exact absurd hrunning hstage
  | discard => exact ⟨{ Spares.refl c with }, .inr (by simp [Action.isPatient])⟩
  | drained => exact ⟨Spares.refl c, .inr (by simp [Action.isPatient, Action.isOrdinary])⟩
  | drainTimeout => exact ⟨Spares.refl c, .inl rfl⟩
  | _ => exact absurd haction hordinary

/-- A connection **stays intact** while the peer is there and the reader is not told to stop. -/
theorem Intact.transition (h : c.Intact) (hreach : Reachable c) (hmove : Transition c move c')
    (huncancelled : c'.cancelled = false) (hunbroken : c'.transport.broken = false) :
    c'.Intact := by
  obtain ⟨task, action, rest, c₁, script, rfl, hscript, heffect, rfl⟩ | hact := hmove.act_or
  · rw [setScript_transport] at hunbroken
    have hcancelled := huncancelled
    rw [setScript_cancelled] at hcancelled
    have hother : ∀ id, .call id ≠ task →
        ((c₁.setScript task script).script (.call id)).IsPatient := by
      intro id hne
      obtain ⟨heq, -⟩ | ⟨-, heq⟩ | ⟨hreader, -⟩ := heffect.script_after hscript (.call id)
      · exact absurd heq hne
      · rw [heq]
        exact h.calls id
      · cases hreader
    cases task with
    | reader =>
        obtain ⟨htended, -⟩ := h.toTended.act_reader hreach hscript heffect hunbroken
        exact ⟨htended, huncancelled, fun id => hother id nofun⟩
    | call id =>
        obtain ⟨hspares, hpatient⟩ := h.spares hscript heffect hcancelled
        refine ⟨h.toTended.act_call hspares hunbroken id script, huncancelled, fun j => ?_⟩
        by_cases heq : j = id
        · subst heq
          rw [heffect.script_self hscript]
          exact hpatient
        · exact hother j fun hj => heq (TaskId.call.inj hj)
  · have hstop : move ≠ .stopReader := by
      rintro rfl
      cases hmove with
      | stopReader hcancelled => rw [h.uncancelled] at hcancelled; cases hcancelled
    refine ⟨h.toTended.of_ne_act hreach hmove hact hstop hunbroken, huncancelled, fun id => ?_⟩
    obtain heq | heq | ⟨_, operation, -, -, -, heq⟩ := hmove.script_of_ne_act hact (.call id)
    · rw [heq]
      exact h.calls id
    · rw [heq]
      exact .inr fun _ hb => nomatch hb
    · rw [heq]
      exact Script.isPatient_ofOperation _ operation

end Connection

end WebSocket
