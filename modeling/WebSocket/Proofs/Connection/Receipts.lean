import WebSocket.Proofs.Connection.Scripts

/-!
# What receiving gives

The results of all receive operations of a run, in the order in which they come, are the
**receipts** of the run. A receipt is the oldest event of the queue, or it says that no event will
come any more.

## Main results

* `Connection.receipts_append`: the receipts of one run after the other.
* `Connection.receipt_cases`: a receipt takes **the oldest event**, or tells of the end.
-/

namespace WebSocket

namespace Connection

variable {c c' c₁ : Connection} {move : Move} {moves : List Move}

/-- The answers of operations that **receive some items** and then, some of them, learn that there
are no more. -/
def answersOf (items : List (Except ConnectionError Event)) (ends : Nat) : List Answer :=
  items.map answerOfItem ++ List.replicate ends (.failed .connectionClosed)

/-- What a move gives to an operation that **receives**. -/
def receipt? (c : Connection) (move : Move) : Option Answer :=
  match move with
  | .act (.call id) =>
    match c.script (.call id) with
    | [.takeEvent] => (c.step move).bind fun c => c.answer? id
    | _ => none
  | _ => none

/-- What the operations of a run **receive**, in order. -/
def receipts (c : Connection) : List Move → List Answer
  | [] => []
  | move :: moves =>
    match c.step move with
    | none => []
    | some c' => (c.receipt? move).toList ++ c'.receipts moves

theorem receipts_cons (hstep : c.step move = some c') (moves : List Move) :
    c.receipts (move :: moves) = (c.receipt? move).toList ++ c'.receipts moves := by
  rw [receipts, hstep]

/-- The **receipts** of one run after the other. -/
theorem receipts_append {before after : List Move} (hrun : c.run before = some c₁) :
    c.receipts (before ++ after) = c.receipts before ++ c₁.receipts after := by
  induction before generalizing c with
  | nil =>
      obtain rfl : c = c₁ := by simpa using hrun
      rfl
  | cons move before ih =>
      obtain ⟨c₂, hstep, hrest⟩ := run_cons_eq_some.mp hrun
      rw [List.cons_append, receipts_cons hstep, receipts_cons hstep, ih hrest, List.append_assoc]

/-- **What one move receives**: nothing, the oldest event, or word that there is none. The move
leaves the events alone otherwise, or takes one away for somebody else, or adds one. -/
inductive Received (c : Connection) (move : Move) (c' : Connection) : Option Answer → Prop
  | nothing (hnot : ∀ id, move = .act (.call id) → c.script (.call id) ≠ [.takeEvent]) :
      Received c move c' none
  | event {id : Nat} {item : Except ConnectionError Event} (hmove : move = .act (.call id))
      (hscript : c.script (.call id) = [.takeEvent]) (hstage : c.stage = .running)
      (hevents : c.events = item :: c'.events) : Received c move c' (some (answerOfItem item))
  | last {id : Nat} (hmove : move = .act (.call id))
      (hscript : c.script (.call id) = [.takeEvent])
      (hend : c.stage = .running → c.events = [] ∧ c.reader = []) (hstage : c.stage ≠ .handshake)
      (hevents : c'.events = c.events) :
      Received c move c' (some (.failed .connectionClosed))
  | early {id : Nat} (hmove : move = .act (.call id))
      (hscript : c.script (.call id) = [.takeEvent]) (hstage : c.stage = .handshake)
      (hevents : c'.events = c.events) :
      Received c move c' (some (.failed (.invalidState .connecting)))

/-- The answer of an operation after its action. -/
theorem Effect.answer {id : Nat} {action : Action} {rest : Script} {a : Answer}
    (heffect : Effect c (.call id) action rest c₁ [.answer a])
    (hscript : c.script (.call id) = action :: rest) :
    (c₁.setScript (.call id) [.answer a]).answer? id = some a := by
  rw [answer?, heffect.script_self hscript]

/-- A receipt takes **the oldest event**, or tells of the end. -/
theorem receipt_cases (hstep : c.step move = some c') : Received c move c' (c.receipt? move) := by
  by_cases hreceives : ∃ id, move = .act (.call id) ∧ c.script (.call id) = [.takeEvent]
  · obtain ⟨id, rfl, hreceive⟩ := hreceives
    have hvalue : c.receipt? (.act (.call id)) = c'.answer? id := by
      simp only [receipt?, hreceive, hstep, Option.bind_some]
    rw [hvalue]
    cases transition_of_step hstep with
    | act hscript heffect =>
        rw [hreceive] at hscript
        cases hscript
        cases heffect with
        | takeItem hstage hevents =>
            rw [Effect.answer (.takeItem hstage hevents) hreceive]
            exact .event rfl hreceive hstage hevents
        | takeLast hstage hevents hend =>
            rw [Effect.answer (.takeLast hstage hevents hend) hreceive]
            refine .last rfl hreceive (fun _ => ⟨hevents, List.isEmpty_iff.mp hend⟩) ?_ rfl
            rw [hstage]
            exact nofun
        | takeEarly hstage =>
            rw [Effect.answer (.takeEarly hstage) hreceive]
            exact .early rfl hreceive hstage rfl
        | takeNone hstage =>
            rw [Effect.answer (.takeNone hstage) hreceive]
            refine .last rfl hreceive ?_ ?_ rfl
            · intro hrunning
              obtain h | h := hstage <;> rw [hrunning] at h <;> cases h
            · obtain h | h := hstage <;> rw [h] <;> exact nofun
  · have hvalue : c.receipt? move = none := by
      unfold receipt?
      split
      · rename_i id
        split
        · rename_i hscript
          exact absurd ⟨id, rfl, hscript⟩ hreceives
        · rfl
      · rfl
    rw [hvalue]
    exact .nothing fun id hmove hscript => hreceives ⟨id, hmove, hscript⟩

end Connection

end WebSocket
