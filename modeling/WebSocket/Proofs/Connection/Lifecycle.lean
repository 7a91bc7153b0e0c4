import Mathlib.Data.List.Chain
import WebSocket.Proofs.Connection.Closing

/-!
# The life of a connection

A connection goes through its phases in one direction: it begins `connecting`, may be `opened`, may
be `closing`, and ends `closed`. Some of the steps from phase to phase are taken only by a task that
has looked first (closing, and following the peer into closing), others whatever the phase is
(marking the connection closed, a handshake that fails), and tasks race for them. Whichever comes
first, only the five steps of `Phase.Leads` occur, and the mark for the close frame, the frames that
were written and the phase stay in agreement.

## Main results

* `Connection.lifecycle_of_run`: in **every run** the phases lead on from one to the next, no frame
  is written while connecting, the mark for the close frame is set only at the end, and at most one
  close frame is written.
-/

namespace WebSocket

/-- The **steps of a connection's life**. -/
inductive Phase.Leads : Phase → Phase → Prop
  | opens : Leads .connecting .opened
  | fails : Leads .connecting .closed
  | beginsToClose : Leads .opened .closing
  | breaksOff : Leads .opened .closed
  | ends : Leads .closing .closed

/-- From every phase but the last one a connection **may be closed**. -/
theorem Phase.eq_or_leads_closed (p : Phase) : .closed = p ∨ p.Leads .closed := by
  cases p with
  | connecting => exact .inr .fails
  | opened => exact .inr .breaksOff
  | closing => exact .inr .ends
  | closed => exact .inl rfl

/-- No phase leads **back to the beginning**. -/
theorem Phase.Leads.ne_connecting {p q : Phase} (h : p.Leads q) : q ≠ .connecting := by
  cases h <;> exact nofun

/-- No phase leads back from **the end**. -/
theorem Phase.Leads.isEnding {p q : Phase} (h : p.Leads q) (hp : p.isEnding = true) :
    q.isEnding = true := by
  cases h with
  | opens | fails => cases hp
  | _ => rfl

namespace Connection

variable {c c' c₁ : Connection} {task : TaskId} {action : Action} {rest script : Script}
  {move : Move} {moves : List Move} {role : Role} {options : Options} {keys : Nat → Mask}

/-! ### From phase to phase -/

/-- An action leaves the phase alone, or takes **one step** of the connection's life. -/
theorem Effect.leads (heffect : Effect c task action rest c₁ script) :
    c₁.phase = c.phase ∨ c.phase.Leads c₁.phase := by
  cases heffect with
  | beginClosing h => exact .inr (h ▸ .beginsToClose)
  | followClosing h => exact .inr (h ▸ .beginsToClose)
  | markClosed => exact c.phase.eq_or_leads_closed
  | failHandshake => exact c.phase.eq_or_leads_closed
  | establish =>
      by_cases h : c.phase = .connecting
      · exact .inr (by simpa only [if_pos h, h] using .opens)
      · exact .inl (if_neg h)
  | _ => exact .inl rfl

/-- So does every move. -/
theorem Transition.leads (hmove : Transition c move c') :
    c'.phase = c.phase ∨ c.phase.Leads c'.phase := by
  obtain ⟨task, action, rest, c₁, script, -, -, heffect, rfl⟩ | hact := hmove.act_or
  · rw [setScript_phase]
    exact heffect.leads
  · exact .inl (hmove.sent_of_ne_act hact).1

/-- Once a connection has begun, **it has begun for good**. -/
theorem Transition.begun (hmove : Transition c move c') (h : c.phase ≠ .connecting) :
    c'.phase ≠ .connecting := by
  obtain heq | hleads := hmove.leads
  · exact heq ▸ h
  · exact hleads.ne_connecting

theorem isEnding_of_ne (hbegun : c.phase ≠ .connecting) (hnot : c.phase ≠ .opened) :
    c.phase.isEnding = true := by
  cases hphase : c.phase with
  | connecting => exact absurd hphase hbegun
  | opened => exact absurd hphase hnot
  | closing | closed => rfl

/-- An end that has begun goes on. -/
theorem Transition.stays_ending (hmove : Transition c move c') (h : c.phase.isEnding = true) :
    c'.phase.isEnding = true := by
  obtain heq | hleads := hmove.leads
  · rwa [heq]
  · exact hleads.isEnding h

/-- The **phases of a run**: the one it begins with, and the one behind each of its moves. -/
def phases (c : Connection) (moves : List Move) : List Phase :=
  c.phase :: c.trace (fun c move => (c.step move).map Connection.phase) moves

/-- A run begins with its first phase, and **goes on** from behind its first move. -/
theorem phases_cons (hstep : c.step move = some c') (moves : List Move) :
    c.phases (move :: moves) = c.phase :: c'.phases moves := by
  simp only [phases, trace, hstep, Option.map_some, Option.toList_some, List.singleton_append]

/-- The phases of a run **lead on** from one to the next. -/
theorem isChain_phases (hrun : c.run moves = some c') :
    (c.phases moves).IsChain fun p q => q = p ∨ p.Leads q := by
  induction moves generalizing c with
  | nil => exact .singleton _
  | cons move moves ih =>
      obtain ⟨c₁, hstep, hrest⟩ := run_cons_eq_some.mp hrun
      rw [phases_cons hstep]
      exact .cons_cons (transition_of_step hstep).leads (ih hrest)

/-! ### Frames -/

/-- While a connection is connecting, **no frame** was written. -/
theorem Staged.sent_of_connecting (hstaged : c.Staged) (hphase : c.phase = .connecting) :
    c.sent = [] :=
  (hstaged.idle fun hstage => hstaged.begun hstage hphase).sent

/-- If **none of the later ones** has a property that an earlier one has, at most one has it. -/
theorem countP_le_one_of_later {α : Type} {p : α → Bool} {l : List α}
    (h : ∀ later x earlier, l = later ++ x :: earlier → p x = true → ∀ y ∈ later, p y = false) :
    l.countP p ≤ 1 := by
  induction l with
  | nil => exact Nat.zero_le 1
  | cons x l ih =>
      cases hx : p x with
      | false =>
          rw [List.countP_cons_of_neg (by simp [hx])]
          exact ih fun later y earlier hl hy z hz =>
            h (x :: later) y earlier (by rw [hl, List.cons_append]) hy z (List.mem_cons_of_mem x hz)
      | true =>
          have hnone : l.countP p = 0 := by
            refine List.countP_eq_zero.mpr fun y hy hpy => ?_
            obtain ⟨later, earlier, rfl⟩ := List.append_of_mem hy
            have hfalse := h (x :: later) y earlier rfl hpy x List.mem_cons_self
            rw [hx] at hfalse
            cases hfalse
          rw [List.countP_cons_of_pos hx, hnone]

/-- **At most one close frame** is written in the life of a connection. -/
theorem Orderly.countP_isClose_le {late : TaskId → Prop} (h : c.Orderly late) :
    c.sent.countP (fun s => s.frame.isClose) ≤ 1 :=
  countP_le_one_of_later fun _ _ _ hsent hclose x hx => (h.ledger hsent hclose x hx).1

/-- **The life of a connection**, in every run: operations of every kind, in any number and in every
order that is possible, given up or not, with a transport that stalls or fails, and whatever the
peer does. The phases lead on from one to the next. While the connection is connecting, no frame was
written. Where the close frame is marked as sent, the end of the connection has begun. And at most
one close frame is written. -/
theorem lifecycle_of_run (hrun : (new role options keys).run moves = some c) :
    ((new role options keys).phases moves).IsChain (fun p q => q = p ∨ p.Leads q) ∧
      (c.phase = .connecting → c.sent = []) ∧
      (c.closeSent = true → c.phase = .closing ∨ c.phase = .closed) ∧
      c.sent.countP (fun s => s.frame.isClose) ≤ 1 := by
  have hreach := (reachable_new role options keys).run hrun
  have hord := orderly_of_run hrun
  refine ⟨isChain_phases hrun, hreach.staged.sent_of_connecting, fun hclaimed => ?_,
    hord.countP_isClose_le⟩
  cases hphase : c.phase with
  | closing => exact .inl rfl
  | closed => exact .inr rfl
  | _ =>
      rw [hord.calm (by rw [hphase]; rfl)] at hclaimed
      cases hclaimed

/-! ### A race for the close frame -/

/-- The moves in which a server that is open is closed by its application while the peer's close
frame, which has come already, is read: both set about the close frame, and one of them writes it.
-/
def racingMoves : List Move :=
  openingMoves ++
    [.collect 0, .peerSend [0x88, 0x80, 0, 0, 0, 0], .read 6,
      .start 1 (.close .goingAway ""), .act .reader, .act (.call 1), .act .reader,
      .act (.call 1), .act .reader, .act (.call 1), .act (.call 1), .act (.call 1),
      .act (.call 1), .act .reader, .act .reader, .act .reader, .act .reader]

theorem sent_of_racingMoves :
    ((new .server {} fun _ => Mask.zero).run racingMoves).map
        (fun c => (c.phase, c.sent.countP fun s => s.frame.isClose)) =
      some (.closed, 1) := by
  decide +kernel

/-- In such a race **one close frame** is written. -/
theorem lifecycle_of_racingMoves :
    ∃ c : Connection, (new .server {} fun _ => Mask.zero).run racingMoves = some c ∧
      c.phase = .closed ∧ c.sent.countP (fun s => s.frame.isClose) ≤ 1 := by
  obtain ⟨c, hrun, hfacts⟩ := Option.map_eq_some_iff.mp sent_of_racingMoves
  exact ⟨c, hrun, congrArg Prod.fst hfacts, (lifecycle_of_run hrun).2.2.2⟩

end Connection

end WebSocket
