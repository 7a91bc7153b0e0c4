import WebSocket.Proofs.Connection.Departures
import WebSocket.Proofs.Connection.Hauls
import WebSocket.Proofs.Connection.Parting

/-!
# What goes out until the end

Of a connection in use the ledgers of frames and of bytes are kept as long as nobody ends it. Here
they are kept until the very end, in a connection that lives and whose tasks take turns. Whoever
writes has a writer, and when nobody is at work behind the lock the writer holds nothing
(`Connection.Flushed`), nor is there a frame in its slot. So the reader finds an empty writer when
it takes the writer away, and no frame is lost with it.

## Main results

* `Connection.Living.sends`: in a connection that lives, **whatever anybody does** about what goes
  out is one of the listed steps.
* `Connection.outgoing_of_run`: what goes out is **one haul behind the other**, encoded, until the
  end.
-/

namespace WebSocket

namespace Connection

variable {c c' c₁ : Connection} {task : TaskId} {action : Action} {rest script : Script}
  {move : Move} {moves : List Move} {role : Role} {options : Options} {keys : Nat → Mask}

/-! ### Nothing is left behind in the writer -/

/-- What the **writer holds** is somebody's who will have it written. -/
structure Flushed (c : Connection) : Prop where
  idle : (∀ task, (c.script task).holdsLock = false) → c.held = []
  shutting : ∀ held, c.reader = [.shutDown held] → held = []

/-- Who asks for the lock in order to write **has frames** to write. -/
theorem Scripted.frames_ne_nil (h : c.Scripted) {frames : List Frame} {recovery : Recovery}
    (hscript : c.script task = .lockWriter frames recovery :: rest) : frames ≠ [] := by
  cases task with
  | reader =>
      cases h.readerScript hscript with
      | ponging _ hw => cases hw; exact List.cons_ne_nil _ _
      | closing hw => cases hw; exact List.cons_ne_nil _ _
  | call id =>
      obtain ⟨_, _, -, -, hcall⟩ := h.callScript hscript
      cases hcall with
      | ordinary hordinary =>
          cases hordinary with
          | @sending m size _ hw =>
              cases hw
              obtain ⟨first, parts, -, heq, -⟩ := m.fragments_eq size
              rw [heq]
              exact List.cons_ne_nil _ _
          | pinging _ hw => cases hw; exact List.cons_ne_nil _ _
          | closing _ hw => cases hw; exact List.cons_ne_nil _ _
      | negotiating hnegotiating => cases hnegotiating

/-- In a connection that lives, **whatever anybody does** about what goes out is one of the listed
steps. -/
theorem Living.sends (h : c.Living) (hreach : Reachable c) (hparting : c.Parting)
    (hflushed : c.Flushed) : c.Sends := by
  intro task action rest c₁ script hscript heffect
  refine heffect.sendStep_of_writer h.unbroken hreach hscript ?_ (fun hholds hgone => ?_)
    (fun htakes hheld => ?_) fun held hshuts => ?_
  · rintro frames recovery rfl hgone
    have hcargo := (hparting.gone hgone task).1
    rw [hscript] at hcargo
    exact hreach.scripted.frames_ne_nil hscript hcargo
  · have hnot := (hparting.gone hgone task).2
    rw [hscript] at hnot
    exact nomatch hholds.symm.trans hnot
  · refine hflushed.idle fun other => Bool.eq_false_iff.mpr fun hholds => ?_
    have hholder := Lock.holder_acquire (hreach.locked.holds hholds) task
    obtain rfl := Option.some.inj (hholder.symm.trans hheld)
    rw [hscript, htakes] at hholds
    cases hholds
  · subst hshuts
    cases task with
    | reader =>
        refine hflushed.shutting held ?_
        cases hreach.scripted.readerScript hscript with
        | ponging _ hw => cases hw
        | closing hw => cases hw
        | shutting => exact hscript
    | call id =>
        have hintact := h.intact_of_needsStream hreach hscript rfl
        exact ((hintact.not_takes hscript).2.1 held rfl).elim

/-- Behind the work at the lock the writer **holds nothing**. -/
theorem Effect.held_eq_nil (heffect : Effect c task action rest c₁ script) (hreach : Reachable c)
    (hscript : c.script task = action :: rest) (hafter : script.holdsLock = false)
    (hidle : action.holdsLock = false → c.held = []) : c₁.held = [] := by
  cases heffect with
  | refuseFrame hw _ he => exact absurd he (hreach.sendable.emptySlot_ne_error hw)
  | feedInVain hw => exact (held_of_gone hw).1
  | flushInVain hw => exact (held_of_gone hw).1
  | fedAll => cases hafter
  | makeRoom => cases hafter
  | feed => cases hafter
  | failToMakeRoom => rfl
  | @flush _ _ w _ hw =>
      have hslot : w.written.slot = none := hreach.slot_of_flush (w := w) hscript hw
      rw [(held_of_writer rfl).1, emptied_of_slot hslot]
      rfl
  | failToFlush => rfl
  | takeWriter => rfl
  | establish => rfl
  | _ => exact hidle rfl

section Action

variable (hreach : Reachable c) (hscript : c.script task = action :: rest)
  (heffect : Effect c task action rest c₁ script)

include hreach hscript heffect

/-- An action leaves **nothing behind** in the writer. -/
theorem Flushed.act (h : c.Flushed) (hliving : c.Living) :
    (c₁.setScript task script).Flushed := by
  have hholder : ∀ {other}, (c.script other).holdsLock = true → c.lock.holder = some other :=
    hreach.locked.holds
  refine ⟨fun hidle => ?_, fun held hreader => ?_⟩
  · have hafter := hidle task
    rw [heffect.script_self hscript] at hafter
    have hheld : c₁.held = [] := by
      refine heffect.held_eq_nil hreach hscript hafter fun hnot => h.idle fun other => ?_
      by_cases hne : other = task
      · rw [hne, hscript]
        exact hnot
      · obtain ⟨heq, -⟩ | ⟨-, heq⟩ | ⟨rfl, -, -, _, _, rfl⟩ := heffect.script_after hscript other
        · exact absurd heq hne
        · rw [← heq]
          exact hidle other
        · have hstage := hreach.staged.negotiating hscript rfl
          rw [script_reader, (hreach.staged.idle (by simp [hstage])).reader]
          rfl
    have hkept : (c₁.setScript task script).held = c₁.held := by
      cases task <;> rfl
    rw [hkept]
    exact hheld
  · have hintact := hliving.intact_of_reader hreach (heffect.reader_ne_nil hscript
      (by simp [hreader]) (by simp [hreader]))
    obtain hbefore | ⟨hbefore, -, rfl, hheld⟩ :=
      hintact.shutDown_before hreach hscript heffect hreader
    · exact h.shutting held hbefore
    · refine h.idle fun other => Bool.eq_false_iff.mpr fun hholds => ?_
      have hfirst := Lock.holder_acquire (hholder hholds) .reader
      obtain rfl := Option.some.inj (hfirst.symm.trans hheld)
      rw [script_reader, hbefore] at hholds
      cases hholds

end Action

/-- Where tasks take turns, nobody who works behind the lock is given up. -/
theorem holdsLock_of_isCourteous (h : c.isCourteous move = true) (id : Nat)
    (hmove : move = .giveUp id) : (c.script (.call id)).holdsLock = false := by
  subst hmove
  rw [isCourteous, Bool.and_eq_true, Bool.not_eq_true', Bool.not_eq_true'] at h
  exact h.2

/-- **Every move** leaves nothing behind in the writer. -/
theorem Flushed.transition (h : c.Flushed) (hreach : Reachable c) (hliving : c.Living)
    (hmove : Transition c move c') (hcourteous : c.isCourteous move = true) : c'.Flushed := by
  obtain ⟨task, action, rest, c₁, script, rfl, hscript, heffect, rfl⟩ | hact := hmove.act_or
  · exact h.act hreach hscript heffect hliving
  · have hheld : c'.held = c.held := by
      cases hmove with
      | act => exact absurd rfl (hact _)
      | _ => rfl
    have hreader : c'.reader = c.reader := hmove.reader_of_ne_act hact hliving.uncancelled
    refine ⟨fun hidle => ?_, fun held => hreader ▸ h.shutting held⟩
    refine hheld.trans (h.idle fun task => Bool.eq_false_iff.mpr fun hholds => ?_)
    have hkept := hmove.script_eq_of_holdsLock hact (holdsLock_of_isCourteous hcourteous)
      hliving.uncancelled hholds
    have hnot := hidle task
    rw [hkept] at hnot
    exact nomatch hholds.symm.trans hnot

/-! ### Runs -/

/-- **What goes out** of a connection in a run. -/
structure Outgoing (start : Connection) (moves : List Move) (c : Connection) : Prop where
  parting : c.Parting
  flushed : c.Flushed
  hauling : Hauling ((start.hauls moves).flatMap Haul.frames) c
  departing : Departing (start.departures moves) (start.greetings moves) c

/-- **What goes out is one haul behind the other**, encoded, until the very end of a connection that
lives and whose tasks take turns. -/
theorem outgoing_of_run (hrun : (new role options keys).run moves = some c)
    (hcourteous : (new role options keys).courteously moves = true)
    (hopened : OpenedFirst (new role options keys) moves c)
    (hunbroken : c.transport.broken = false) (huncancelled : c.cancelled = false) :
    Outgoing (new role options keys) moves c := by
  refine living_induction (P := fun moves x => Outgoing (new role options keys) moves x) ?_ ?_ hrun
    hcourteous hopened hunbroken huncancelled
  · refine ⟨parting_new role options keys, ⟨fun _ => rfl, nofun⟩, .of_idle (fun task => ?_) rfl,
      ⟨rfl, [], rfl, rfl⟩⟩
    cases task <;> rfl
  · intro before c₁ move c₂ hbefore hliving ih hstep hcourteous hliving'
    obtain ⟨hparting, hflushed, hhauling, hdeparting⟩ := ih
    have hreach := (reachable_new role options keys).run hbefore
    have hmove := transition_of_step hstep
    have hsends : c₁.Sends := hliving.sends hreach hparting hflushed
    refine ⟨hparting.transition hreach hliving hmove hcourteous hliving',
      hflushed.transition hreach hliving hmove hcourteous, ?_, ?_⟩
    · rw [hauls_concat hbefore hstep, List.flatMap_append, flatMap_toList]
      exact hhauling.transition hreach hsends hliving.uncancelled hmove
        (holdsLock_of_isCourteous hcourteous)
    · rw [departures_concat hbefore hstep, greetings_concat hbefore hstep]
      exact hdeparting.transition hsends hmove

end Connection

end WebSocket
