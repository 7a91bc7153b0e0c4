import WebSocket.Proofs.Connection.Closing

/-!
# Taking turns

On a single thread tasks take turns: a task goes on until it may have to wait, and only there does
another one take its turn (`Connection.courteously`). Nothing comes between the look of a task at
the phase and its place at the writer lock then. So nobody straddles the end of a connection, and
the close frame is the last one that is written.

## Main results

* `Connection.not_straddler_of_courteously`: where tasks take turns, **nobody straddles the end**.
* `Connection.orderly_of_courteously`: so nothing is written behind the close frame.
-/

namespace WebSocket

namespace Connection

variable {c c' c₁ : Connection} {task : TaskId} {action : Action} {rest script : Script}
  {move : Move} {moves before after : List Move} {role : Role} {options : Options}
  {keys : Nat → Mask}

/-- Whether a task **pauses** where it stands, so that another one may take its turn: it has nothing
to do, it has not begun or has ended, or it may have to wait. In front of the writer lock it pauses
in its place, and not before it has one. -/
def pauses (c : Connection) (task : TaskId) : Bool :=
  match c.script task with
  | [] => true
  | action :: _ =>
    action.isOpening ||
      (action.mayWait && (!action.asksLock || decide (task ∈ c.lock.queue)))

/-- Whether all tasks but one pause. -/
def othersPause (c : Connection) (task : TaskId) : Bool :=
  (task == .reader || c.pauses .reader) &&
    c.calls.all fun call => task == .call call.id || c.pauses (.call call.id)

/-- The moves of tasks that **take turns**, and with which nobody is given up who works behind the
writer lock, or waits there with the close frame. -/
def isCourteous (c : Connection) : Move → Bool
  | .act task => c.othersPause task
  | .giveUp id => !(c.script (.call id)).isClosing && !(c.script (.call id)).holdsLock
  | _ => true

/-- The runs of which all moves are so. -/
def courteously (c : Connection) : List Move → Bool
  | [] => true
  | move :: moves =>
    c.isCourteous move && match c.step move with
      | none => true
      | some c' => c'.courteously moves

theorem courteously_eq (c : Connection) (moves : List Move) :
    c.courteously moves = c.always isCourteous moves := by
  induction moves generalizing c with
  | nil => rfl
  | cons move moves ih =>
      rw [courteously, always]
      cases c.step move with
      | none => rfl
      | some c' => exact congrArg (c.isCourteous move && ·) (ih c')

theorem courteously_append (hrun : c.run before = some c₁) :
    c.courteously (before ++ after) = (c.courteously before && c₁.courteously after) := by
  rw [courteously_eq, courteously_eq, courteously_eq, always_append hrun]

theorem courteously_singleton (c : Connection) (move : Move) :
    c.courteously [move] = c.isCourteous move := by
  rw [courteously_eq, always_singleton]

/-! ### Where tasks pause -/

/-- While all tasks but one pause, every other one **pauses**. -/
theorem pauses_of_othersPause (h : c.othersPause task = true) {other : TaskId}
    (hne : other ≠ task) : c.pauses other = true := by
  rw [othersPause, Bool.and_eq_true, Bool.or_eq_true, List.all_eq_true] at h
  cases other with
  | reader => exact h.1.resolve_left fun heq => hne (eq_of_beq heq).symm
  | call id =>
      cases hcall : c.call? id with
      | none => rw [pauses, script_call, hcall]; rfl
      | some call =>
          have hall := h.2 call (mem_of_call? hcall)
          rw [id_of_call? hcall, Bool.or_eq_true] at hall
          exact hall.resolve_left fun heq => hne (eq_of_beq heq).symm

/-- While a task acts, every other one **pauses**. -/
theorem pauses_of_isCourteous (h : c.isCourteous (.act task) = true) {other : TaskId}
    (hne : other ≠ task) : c.pauses other = true :=
  pauses_of_othersPause h hne

/-- A task that pauses does not stand **between its look at the phase and the lock**. -/
theorem not_straddles_of_pauses (hlocked : c.Locked) (h : c.pauses task = true) :
    ¬c.Straddles task := by
  rintro ⟨hcargo, hnot⟩
  cases hscript : c.script task with
  | nil => rw [hscript] at hcargo; exact hcargo rfl
  | cons action rest =>
      rw [pauses, hscript] at h
      rw [hscript] at hcargo
      cases action with
      | enlist => cases h
      | lockWriter => simp [Action.isOpening, Action.mayWait, Action.asksLock, hnot] at h
      | feed =>
          exact hnot (Lock.mem_queue_of_held (hlocked.holds (by rw [hscript]; rfl)))
      | _ => exact hcargo rfl

/-- Nor is it about to **claim the close frame**. -/
theorem not_claims_of_pauses (h : c.pauses task = true) (status : Option Close.Status)
    (recovery : Recovery) (rest : Script) :
    c.script task ≠ .claimClose status recovery :: rest := by
  intro hscript
  rw [pauses, hscript] at h
  cases h

/-! ### The end of the connection -/

/-- A task that moves the phase on from `opened` has **nothing to write** then. -/
theorem Effect.cargo_of_leaving (heffect : Effect c task action rest c₁ script)
    (hopen : c.phase = .opened) (hending : c₁.phase.isEnding = true) :
    Script.cargo (action :: rest) = [] := by
  have hsame : c₁.phase = c.phase → Script.cargo (action :: rest) = [] := by
    intro hphase
    rw [hphase, hopen] at hending
    cases hending
  cases heffect <;> first | rfl | exact hsame rfl

/-- Where tasks take turns, **nobody straddles the end**. -/
theorem not_straddler_of_courteously (hreach : Reachable c) (h : c.courteously moves = true)
    (task : TaskId) : ¬Straddler c moves task := by
  rintro ⟨before, move, after, c₁, c₂, rfl, hbefore, hstep, hopen, hending, hstraddles⟩
  rw [courteously_append hbefore, courteously, Bool.and_eq_true, Bool.and_eq_true] at h
  obtain ⟨task', action, rest, c₃, script, rfl, hscript, heffect, rfl⟩ | hact :=
    (transition_of_step hstep).act_or
  · by_cases hne : task = task'
    · subst hne
      rw [setScript_phase] at hending
      refine hstraddles.1 ?_
      rw [hscript]
      exact heffect.cargo_of_leaving hopen hending
    · exact not_straddles_of_pauses (hreach.run hbefore).locked
        (pauses_of_isCourteous h.2.1 hne) hstraddles
  · rw [((transition_of_step hstep).sent_of_ne_act hact).1, hopen] at hending
    cases hending

/-- Where tasks take turns, **nothing is written behind the close frame**. -/
theorem orderly_of_courteously (hrun : (new role options keys).run moves = some c)
    (h : (new role options keys).courteously moves = true) : c.Orderly fun _ => False :=
  (orderly_of_run hrun).mono fun task =>
    not_straddler_of_courteously (reachable_new role options keys) h task

/-- The close frame is the **last frame** of such a connection, and nobody has more to write. -/
theorem Orderly.last (h : c.Orderly fun _ => False) {s : Sent} (hs : s ∈ c.sent)
    (hclose : s.frame.isClose = true) :
    (∃ earlier, c.sent = s :: earlier ∧ ∀ x ∈ earlier, x.frame.isClose = false) ∧
      ∀ task, (c.script task).cargo = [] := by
  obtain ⟨later, earlier, hsent⟩ := List.append_of_mem hs
  have hlast : later = [] := by
    cases later with
    | nil => rfl
    | cons x later => exact (h.ledger hsent hclose x List.mem_cons_self).2.elim
  subst hlast
  refine ⟨⟨earlier, hsent, fun x hx => Bool.eq_false_iff.mpr fun hx' => ?_⟩, fun task => ?_⟩
  · obtain ⟨between, more, hearlier⟩ := List.append_of_mem hx
    have hsplit : c.sent = (s :: between) ++ x :: more := by
      rw [hsent, hearlier]
      rfl
    exact (h.ledger hsplit hx' s List.mem_cons_self).2.elim
  · by_contra hcargo
    exact h.behind ⟨s, hs, hclose⟩ hcargo

end Connection

end WebSocket
