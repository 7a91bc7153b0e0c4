import WebSocket.Proofs.Connection.CloseCodes
import WebSocket.Proofs.Connection.Outgoing

/-!
# Writing that nothing breaks off

Whoever writes frames has to wait behind the writer lock only while the transport takes no bytes.
Where it always takes them, nobody is given up or told to stop in the middle of writing
(`Connection.isUnhindered`), whatever the order in which tasks take their turns. Then nothing is
ever left behind in the writer (`Connection.Tidy`): it is empty whenever nobody is at work behind
the lock, and there is no frame in its slot.

A closed connection is **mute** when its writer is gone, or when nobody is left who has frames to
write (`Connection.IsMute`). Somebody may still tear it down, again and again, and the last to do so
takes the writer away and writes what it holds: in a tidy connection, nothing.

## Main results

* `Connection.tidy_of_run`: in an unhindered run **nothing is left behind** in the writer.
* `Connection.IsMute.silent_of_run`: a mute connection **writes nothing** in an unhindered run.
-/

namespace WebSocket

/-- The actions of a task that **has frames to write**. -/
def Action.isWriting : Action → Bool
  | .enlist _ | .claimClose .. | .lockWriter .. | .feed .. | .flush _ => true
  | _ => false

/-- No operation begins with a frame to write. -/
theorem Action.not_isWriting_of_isOpening {action : Action} (h : action.isOpening = true) :
    action.isWriting = false := by
  cases action <;> first | rfl | cases h

namespace Connection

variable {c c' c₁ : Connection} {task : TaskId} {action : Action} {rest script : Script}
  {move : Move} {moves : List Move} {role : Role} {options : Options} {keys : Nat → Mask}

/-! ### Nothing is left behind -/

/-- Whether a move is possible **where writing does not block**: nobody is given up or told to stop
at work behind the lock. -/
def isUnhindered (c : Connection) : Move → Bool
  | .giveUp id => !(c.script (.call id)).holdsLock
  | .stopReader => !c.reader.holdsLock
  | _ => true

/-- **Nothing lies about** in the writer: it is empty when nobody is at work behind the lock, and so
is what was taken away from it. -/
structure Tidy (c : Connection) : Prop where
  idle : (∀ task, (c.script task).holdsLock = false) → c.held = []
  shutting : ∀ {task held rest}, c.script task = .shutDown held :: rest → held = []

/-- Whoever gets the lock gets it while **nobody is at work** behind it. -/
theorem Locked.not_holdsLock (h : c.Locked) (hscript : c.script task = action :: rest)
    (hnot : action.holdsLock = false) (hheld : (c.lock.acquire task).holder = some task)
    (other : TaskId) : (c.script other).holdsLock = false := by
  refine Bool.eq_false_iff.mpr fun hholds => ?_
  have hholder := Lock.holder_acquire (h.holds hholds) task
  obtain rfl := Option.some.inj (hholder.symm.trans hheld)
  rw [hscript, Script.holdsLock, hnot] at hholds
  cases hholds

/-- A task ends the stream **with what the writer held** when it took the writer away. -/
theorem Effect.held_of_shutDown (heffect : Effect c task action rest c₁ script) (h : c.Scripted)
    (hscript : c.script task = action :: rest) {held : Bytes} {more : Script}
    (hnew : script = .shutDown held :: more) :
    held = c.held ∧ action.holdsLock = false ∧ (c.lock.acquire task).holder = some task := by
  cases heffect.comesTo hnew rfl with
  | next hrest =>
      exact nomatch h.tail_not_shutsDown hscript (.shutDown held) (hrest ▸ List.mem_cons_self ..)
  | takes hheld hw => exact ⟨(held_of_writer hw).1.symm, rfl, hheld⟩

/-- One action leaves **nothing behind** in the writer. -/
theorem Tidy.act (h : c.Tidy) (hreach : Reachable c) (hscript : c.script task = action :: rest)
    (heffect : Effect c task action rest c₁ script) : (c₁.setScript task script).Tidy := by
  have hnobody : action.holdsLock = false → (∀ other, other ≠ task →
      (c.script other).holdsLock = false) → c.held = [] := by
    refine fun hnot hothers => h.idle fun other => ?_
    by_cases hne : other = task
    · rw [hne, hscript]
      exact hnot
    · exact hothers other hne
  have hafter := heffect.script_after hscript
  refine ⟨fun hidle => ?_, fun {other held more} hshuts => ?_⟩
  · have hself := hidle task
    rw [heffect.script_self hscript] at hself
    have hheld : c₁.held = [] := by
      refine heffect.held_eq_nil hreach hscript hself fun hnot => hnobody hnot fun other hne => ?_
      obtain ⟨heq, -⟩ | ⟨-, heq⟩ | ⟨rfl, -, -, _, _, rfl⟩ := hafter other
      · exact absurd heq hne
      · rw [← heq]
        exact hidle other
      · have hstage := hreach.staged.negotiating hscript rfl
        rw [script_reader, (hreach.staged.idle (by simp [hstage])).reader]
        rfl
    have hkept : (c₁.setScript task script).held = c₁.held := by
      cases task <;> rfl
    exact hkept.trans hheld
  · obtain ⟨rfl, heq⟩ | ⟨-, heq⟩ | ⟨-, -, heq, -⟩ := hafter other
    · obtain ⟨rfl, hnot, hheld⟩ :=
        heffect.held_of_shutDown hreach.scripted hscript (heq.symm.trans hshuts)
      exact h.idle fun u => hreach.locked.not_holdsLock hscript hnot hheld u
    · exact h.shutting (heq.symm.trans hshuts)
    · cases heq.symm.trans hshuts

/-- Where writing does not block, a move that is no action takes **nobody away** who works behind
the lock. -/
theorem Transition.script_of_isUnhindered (hmove : Transition c move c')
    (hact : ∀ task, move ≠ .act task) (hunhindered : c.isUnhindered move = true)
    (hholds : (c.script task).holdsLock = true) : c'.script task = c.script task := by
  have hbusy : c.script task ≠ [] := fun hempty => by
    rw [hempty] at hholds
    cases hholds
  obtain hkept | ⟨id, a, -, -, hanswer⟩ | ⟨id, rfl, rfl, -⟩ | ⟨rfl, -⟩ :=
    hmove.kept_of_ne_act hact hbusy
  · exact hkept
  · rw [hanswer] at hholds
    cases hholds
  · rw [isUnhindered, hholds] at hunhindered
    cases hunhindered
  · cases hmove with
    | act => exact absurd rfl (hact _)
    | stopReader =>
        rw [script_reader] at hholds
        rw [isUnhindered, hholds] at hunhindered
        cases hunhindered
    | _ => rfl

/-- **Every move** leaves nothing behind in the writer, where writing does not block. -/
theorem Tidy.transition (h : c.Tidy) (hreach : Reachable c) (hmove : Transition c move c')
    (hunhindered : c.isUnhindered move = true) : c'.Tidy := by
  obtain ⟨task, action, rest, c₁, script, rfl, hscript, heffect, rfl⟩ | hact := hmove.act_or
  · exact h.act hreach hscript heffect
  · have hheld : c'.held = c.held := by
      cases hmove with
      | act => exact absurd rfl (hact _)
      | _ => rfl
    refine ⟨fun hidle => ?_, fun {task held rest} hshuts => ?_⟩
    · refine hheld.trans (h.idle fun task => Bool.eq_false_iff.mpr fun hholds => ?_)
      have hkept := hmove.script_of_isUnhindered hact hunhindered hholds
      have hnot := hidle task
      rw [hkept] at hnot
      exact nomatch hholds.symm.trans hnot
    · obtain hbefore | hopening := hmove.opening_of_ne_act hact hshuts
      · exact h.shutting hbefore
      · cases hopening

/-- In a run in which writing does not block **nothing is left behind** in the writer. -/
theorem tidy_of_run (hrun : (new role options keys).run moves = some c)
    (hunhindered : (new role options keys).always isUnhindered moves = true) : c.Tidy := by
  refine always_induction (P := fun _ x => x.Tidy) ?_ ?_ hrun hunhindered
  · have hnobody : ∀ task, (new role options keys).script task = [] := by
      intro task
      cases task <;> rfl
    refine ⟨fun _ => rfl, ?_⟩
    intro task held rest hscript
    exact nomatch (hnobody task).symm.trans hscript
  · intro before c₁ move c₂ hbefore htidy hmove hstep
    exact htidy.transition ((reachable_new role options keys).run hbefore)
      (transition_of_step hstep) hmove

/-! ### Connections that write nothing more -/

/-- A closed connection that **writes nothing more**: its handshake is over, and the writer is gone
or nobody is left who has frames to write. -/
structure IsMute (c : Connection) : Prop where
  phase : c.phase = .closed
  past : c.IsPast
  still : c.writer = none ∨
    c.reader = [] ∧ ∀ {task action rest}, c.script task = action :: rest → action.isWriting = false

/-- An operation gets frames to write only **behind a look** at the phase. -/
theorem Scripted.isWriting_of_tail (h : c.Scripted) {id : Nat}
    (hscript : c.script (.call id) = action :: rest) {next : Action} {more : Script}
    (hrest : rest = next :: more) (hnext : next.isWriting = true) :
    action.isWriting = true ∨ action = .ensureOpen ∨ action = .beginClosing := by
  obtain ⟨_, _, -, -, hcall⟩ := h.callScript hscript
  subst hrest
  cases hcall with
  | ordinary hordinary =>
      cases hordinary with
      | send => exact .inr (.inl rfl)
      | ping => exact .inr (.inl rfl)
      | enlisting => exact .inl rfl
      | close => exact .inr (.inr rfl)
      | _ => cases hnext
  | negotiating hnegotiating => cases hnegotiating

/-- In a closed connection an operation gets **no frames to write**. -/
theorem Effect.not_isWriting {id : Nat} (heffect : Effect c (.call id) action rest c₁ script)
    (h : c.Scripted) (hscript : c.script (.call id) = action :: rest) (hphase : c.phase = .closed)
    (hnot : action.isWriting = false) {next : Action} {more : Script}
    (hnew : script = next :: more) : next.isWriting = false := by
  refine Bool.eq_false_iff.mpr fun hnext => ?_
  have hrest : action ≠ .ensureOpen → action ≠ .beginClosing → rest ≠ next :: more := by
    intro hopen hclosing heq
    obtain hwriting | heq | heq := h.isWriting_of_tail hscript heq hnext
    · exact nomatch hnot.symm.trans hwriting
    · exact hopen heq
    · exact hclosing heq
  have hjudged : Negotiating script → False := fun hnegotiating => by
    rw [hnew] at hnegotiating
    cases hnegotiating <;> cases hnext
  have hreacts := h.not_reacts hscript
  cases heffect with
  | passOpen hopen => exact nomatch hphase.symm.trans hopen
  | beginClosing hopen => exact nomatch hphase.symm.trans hopen
  | judgeResponse => exact hjudged (.judgeResponse _ _)
  | judgeRequest => exact hjudged (.judgeRequest _ _)
  | missRequest => exact hjudged (.turnDown _)
  | _ => first
    | (cases hnot; done)
    | (cases hreacts; done)
    | exact hrest nofun nofun hnew
    | (cases hnew; cases hnext)

/-- Where the writer is gone, or nothing is to be written, an action **writes nothing**. -/
theorem Effect.writes_nothing (heffect : Effect c task action rest c₁ script)
    (hnegotiates : action.negotiates = false)
    (hstill : c.writer = none ∨ action.isWriting = false)
    (hshuts : ∀ held, action = .shutDown held → held = []) :
    c₁.sent = c.sent ∧ c₁.transport.outgoing = c.transport.outgoing := by
  have hgone : ∀ {w}, c.writer = some w → action.isWriting = true →
      c₁.sent = c.sent ∧ c₁.transport.outgoing = c.transport.outgoing := by
    intro w hw hwriting
    obtain hnone | hnot := hstill
    · exact nomatch hnone.symm.trans hw
    · exact nomatch hnot.symm.trans hwriting
  cases heffect with
  | makeRoom hw => exact hgone hw rfl
  | failToMakeRoom hw => exact hgone hw rfl
  | feed hw => exact hgone hw rfl
  | flush hw => exact hgone hw rfl
  | failToFlush hw => exact hgone hw rfl
  | shutDown ht =>
      obtain rfl := hshuts _ rfl
      refine ⟨rfl, ?_⟩
      simpa using Transport.outgoing_of_write ht
  | _ => first
    | exact ⟨rfl, rfl⟩
    | cases hnegotiates

/-- When the handshake is over, a writer that is gone **stays away**. -/
theorem IsPast.writer_eq_none (hpast : c.IsPast) (hstaged : c.Staged) (hmove : Transition c move c')
    (hgone : c.writer = none) : c'.writer = none := by
  cases hmove with
  | act hscript heffect =>
      rw [setScript_writer]
      exact heffect.writer_eq_none (hpast.not_negotiates hstaged hscript) hgone
  | _ => exact hgone

/-- A mute connection **stays mute**. -/
theorem IsMute.transition (h : c.IsMute) (hreach : Reachable c) (hmove : Transition c move c') :
    c'.IsMute := by
  refine ⟨hmove.closed h.phase, ?_, ?_⟩
  · rw [IsPast, h.past.transition hreach.staged hmove]
    exact h.past
  obtain hnone | ⟨hreader, hstill⟩ := h.still
  · exact .inl (h.past.writer_eq_none hreach.staged hmove hnone)
  refine .inr ?_
  obtain ⟨task, action, rest, c₁, script, rfl, hscript, heffect, rfl⟩ | hact := hmove.act_or
  · have hnot := h.past.not_negotiates hreach.staged hscript
    cases task with
    | reader => cases hreader.symm.trans hscript
    | call id =>
        have hkept : c₁.reader = c.reader := by
          obtain heq | ⟨_, _, rfl, -⟩ := heffect.reader_eq
          · exact heq
          · cases hnot
        refine ⟨by rw [setScript_reader_of_call, hkept, hreader], ?_⟩
        intro other next more hother
        obtain ⟨rfl, heq⟩ | ⟨-, heq⟩ | ⟨-, -, -, _, _, rfl⟩ := heffect.script_after hscript other
        · exact heffect.not_isWriting hreach.scripted hscript h.phase (hstill hscript)
            (heq.symm.trans hother)
        · exact hstill (heq.symm.trans hother)
        · cases hnot
  · refine ⟨?_, fun {task next more} hscript => ?_⟩
    · cases hmove with
      | act => exact absurd rfl (hact _)
      | stopReader => rfl
      | _ => exact hreader
    · obtain hbefore | hopening := hmove.opening_of_ne_act hact hscript
      · exact hstill hbefore
      · exact Action.not_isWriting_of_isOpening hopening

/-- If nothing lies about in a mute connection, **nothing is written**. -/
theorem IsMute.silent (h : c.IsMute) (hreach : Reachable c) (htidy : c.Tidy)
    (hmove : Transition c move c') :
    c'.sent = c.sent ∧ c'.transport.outgoing <:+ c.transport.outgoing := by
  obtain ⟨task, action, rest, c₁, script, rfl, hscript, heffect, rfl⟩ | hact := hmove.act_or
  · obtain ⟨hsent, hout⟩ := heffect.writes_nothing (h.past.not_negotiates hreach.staged hscript)
      (h.still.imp_right fun hstill => hstill.2 hscript)
      fun held heq => htidy.shutting (heq ▸ hscript)
    rw [setScript_sent, setScript_transport, hsent, hout]
    exact ⟨rfl, List.suffix_refl _⟩
  · refine ⟨(hmove.sent_of_ne_act hact).2.2, ?_⟩
    cases hmove with
    | act => exact absurd rfl (hact _)
    | peerTake => exact List.drop_suffix _ _
    | _ => exact List.suffix_refl _

/-- **A mute connection writes nothing** in a run in which writing does not block, if nothing lies
about. -/
theorem IsMute.silent_of_run (h : c.IsMute) (hreach : Reachable c) (htidy : c.Tidy)
    (hrun : c.run moves = some c') (hunhindered : c.always isUnhindered moves = true) :
    c'.sent = c.sent ∧ c'.transport.outgoing <:+ c.transport.outgoing := by
  refine (always_induction (P := fun _ x => x.Tidy ∧ x.IsMute ∧ x.sent = c.sent ∧
    x.transport.outgoing <:+ c.transport.outgoing) ⟨htidy, h, rfl, List.suffix_refl _⟩ ?_ hrun
      hunhindered).2.2
  rintro before x move x' hbefore ⟨htidy, hmute, hsent, hout⟩ hmove hstep
  have hreach' := hreach.run hbefore
  have htransition := transition_of_step hstep
  obtain ⟨hsent', hout'⟩ := hmute.silent hreach' htidy htransition
  exact ⟨htidy.transition hreach' htransition hmove, hmute.transition hreach' htransition,
    hsent'.trans hsent, hout'.trans hout⟩

end Connection

end WebSocket
