import WebSocket.Proofs.Connection.Steady

/-!
# What arrives

An event arrives when an operation that receives is answered with it. What was offered to the
application so far is what has arrived, and behind it what still waits in the event queue.

## Main results

* `Connection.arriving_of_run`: what arrives is **what was offered**, each item once and in order.
-/

namespace WebSocket

/-- The event of an answer, if it is one. -/
def Answer.event? : Answer → Option Event
  | .event e => some e
  | _ => none

/-- The event of an item of the event queue, if it is no error. -/
def eventOf? : Except ConnectionError Event → Option Event
  | .ok e => some e
  | .error _ => none

/-- The actions that **take an event** for the application. -/
def Action.receives : Action → Bool
  | .takeEvent | .takeEventOrEnd => true
  | _ => false

namespace Connection

variable {c c' c₁ : Connection} {task : TaskId} {action : Action} {rest script : Script}
  {move : Move} {moves : List Move} {role : Role} {options : Options} {keys : Nat → Mask}
  {arrived : List Event}

theorem event?_answerOfItem (item : Except ConnectionError Event) :
    (answerOfItem item).event? = eventOf? item := by
  cases item <;> rfl

/-- The event with which a move **answers an operation that receives**. -/
def arrival? (c : Connection) (move : Move) : Option Event :=
  match move with
  | .act (.call id) =>
    match c.script (.call id) with
    | action :: _ =>
      if action.receives then ((c.step move).bind fun c => c.answer? id).bind Answer.event?
      else none
    | [] => none
  | _ => none

/-- The events that **arrive in a run**, in order. -/
def arrivals (c : Connection) (moves : List Move) : List Event := c.trace arrival? moves

/-- **What has arrived so far**: what was offered is what was taken and what still waits. -/
def Arriving (arrived : List Event) (c : Connection) : Prop :=
  ∃ taken, c.offered.reverse = taken ++ c.events ∧ arrived = taken.filterMap eventOf?

/-- Other actions bring **no event**. -/
theorem arrival?_of_not_receives (hscript : c.script task = action :: rest)
    (haction : action.receives = false) : c.arrival? (.act task) = none := by
  cases task with
  | reader => rfl
  | call id => simp only [arrival?, hscript, haction, Bool.false_eq_true, if_false]

/-- An action that takes an event brings **the event that it answers with**. -/
theorem arrival?_of_receives {id : Nat} {a : Answer}
    (hscript : c.script (.call id) = action :: rest) (haction : action.receives = true)
    (hstep : c.step (.act (.call id)) = some c')
    (hanswer : c'.script (.call id) = [.answer a]) : c.arrival? (.act (.call id)) = a.event? := by
  simp only [arrival?, hscript, haction, if_true, hstep, Option.bind_some, answer?, hanswer]

/-- What leaves the queue alone keeps the account. -/
theorem Arriving.keep (h : Arriving arrived c) (hevents : c'.events = c.events)
    (hoffered : c'.offered = c.offered) : Arriving arrived c' := by
  obtain ⟨taken, hqueue, harrived⟩ := h
  exact ⟨taken, by rw [hoffered, hevents, hqueue], harrived⟩

/-- An item that is offered waits **behind the others**. -/
theorem Arriving.offer {item : Except ConnectionError Event} (h : Arriving arrived c)
    (hevents : c'.events = c.events ++ [item]) (hoffered : c'.offered = item :: c.offered) :
    Arriving arrived c' := by
  obtain ⟨taken, hqueue, harrived⟩ := h
  refine ⟨taken, ?_, harrived⟩
  rw [hoffered, hevents, List.reverse_cons, hqueue, List.append_assoc]

/-- The item that is taken is **the oldest one**. -/
theorem Arriving.take {item : Except ConnectionError Event} (h : Arriving arrived c)
    (hevents : c.events = item :: c'.events) (hoffered : c'.offered = c.offered) :
    Arriving (arrived ++ (eventOf? item).toList) c' := by
  obtain ⟨taken, hqueue, harrived⟩ := h
  refine ⟨taken ++ [item], ?_, ?_⟩
  · rw [hoffered, hqueue, hevents, List.append_assoc, List.singleton_append]
  · rw [harrived, List.filterMap_append]
    cases item <;> rfl

/-- The reader takes no event, and **throws none away**. -/
theorem ReaderScript.not_receives (h : ReaderScript (action :: rest)) :
    action.receives = false ∧ ∀ deadline status, action ≠ .drainEvents deadline status := by
  cases h with
  | ponging _ hwrites => cases hwrites <;> exact ⟨rfl, fun _ _ => nofun⟩
  | closing hwrites => cases hwrites <;> exact ⟨rfl, fun _ _ => nofun⟩
  | _ => exact ⟨rfl, fun _ _ => nofun⟩

/-- **Every move** keeps the account, with the event that it brings. -/
theorem Arriving.step (h : Arriving arrived c) (hreach : Reachable c) (hsteady : c.Steady)
    (hstep : c.step move = some c') : Arriving (arrived ++ (c.arrival? move).toList) c' := by
  obtain ⟨task, action, rest, c₁, script, rfl, hscript, heffect, rfl⟩ | hact :=
    (transition_of_step hstep).act_or
  · have hself := heffect.script_self hscript
    have hevents : (c₁.setScript task script).events = c₁.events := setScript_events ..
    have hoffered : (c₁.setScript task script).offered = c₁.offered := setScript_offered ..
    by_cases hreceives : action.receives = true
    · cases task with
      | reader =>
          rw [(hreach.scripted.readerScript hscript).not_receives.1] at hreceives
          cases hreceives
      | call id =>
          have harrival : ∀ {a}, script = [.answer a] →
              c.arrival? (.act (.call id)) = a.event? := by
            rintro a rfl
            exact arrival?_of_receives hscript hreceives hstep hself
          cases heffect with
          | takeItem _ hitem =>
              rw [harrival rfl, event?_answerOfItem]
              exact h.take (hitem.trans (congrArg _ hevents.symm)) hoffered
          | takeNext _ hitem =>
              rw [harrival rfl, event?_answerOfItem]
              exact h.take (hitem.trans (congrArg _ hevents.symm)) hoffered
          | takeLast | takeEarly | takeNone | takeEnd =>
              rw [harrival rfl]
              simp only [Answer.event?, Option.toList_none, List.append_nil]
              exact h.keep hevents hoffered
          | _ => cases hreceives
    · rw [arrival?_of_not_receives hscript (Bool.eq_false_iff.mpr hreceives), Option.toList_none,
        List.append_nil]
      cases heffect with
      | offer => exact h.offer hevents hoffered
      | takeItem | takeNext => exact absurd rfl hreceives
      | discard =>
          cases task with
          | reader =>
              exact absurd rfl ((hreach.scripted.readerScript hscript).not_receives.2 _ _)
          | call id =>
              have haction := hsteady.calls id _ (by rw [hscript]; exact List.mem_cons_self ..)
              cases haction
      | _ => exact h.keep hevents hoffered
  · have hnone : c.arrival? move = none := by
      cases move with
      | act task => exact absurd rfl (hact task)
      | _ => rfl
    rw [hnone, Option.toList_none, List.append_nil]
    cases transition_of_step hstep with
    | act => exact absurd rfl (hact _)
    | _ => exact h.keep rfl rfl

/-- **What arrives** is what was offered, each item once and in order, up to those that still wait
in the event queue. -/
theorem arriving_of_run (hrun : (new role options keys).run moves = some c)
    (hsteady : (new role options keys).steadily moves = true) (hphase : c.phase.isEnding = false)
    (hunbroken : c.transport.broken = false) :
    Arriving ((new role options keys).arrivals moves) c := by
  refine steady_induction (P := fun moves x => Arriving ((new role options keys).arrivals moves) x)
    ⟨[], rfl, rfl⟩ ?_ hrun hsteady hphase hunbroken
  intro before c₁ move c₂ hbefore hsteady₁ _ h hstep _ _
  rw [arrivals, trace_append hbefore, trace_singleton hstep]
  exact h.step ((reachable_new role options keys).run hbefore) hsteady₁ hstep

end Connection

end WebSocket
