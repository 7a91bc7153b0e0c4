import WebSocket.Proofs.Connection.Scripts

/-!
# Stages and phases

A connection has its transport in one of four stages, and its life goes through four phases. The
two are told apart here: frames are read and written only once the stream of frames has begun
(`Stage.running`), a handshake is under way only while the stage says so, and a connection whose
stream has not begun is as good as new but for its transport.

## Main results

* `Connection.Reachable.staged`: the stage and the scripts of all tasks **agree** in every
  connection.
* `Connection.Staged.running`: once the stream of frames has begun, it stays so.
-/

namespace WebSocket

/-- The actions of a handshake that **has taken the transport**. -/
def Action.negotiates : Action → Bool
  | .sendRequest _ | .awaitResponse _ | .awaitRequest | .sendAcceptance .. | .sendRejection _
  | .failHandshake _ | .establish .. => true
  | _ => false

/-- The actions that come up only once the **stream of frames** has begun. -/
def Action.needsStream : Action → Bool
  | .enlist _ | .startWaiting | .claimClose .. | .lockWriter .. | .feed .. | .flush _
  | .shutDown _ | .readFrame | .answerPing _ | .resolvePings _ | .reportFault _ | .followClosing
  | .offer _ | .drainEvents .. => true
  | _ => false

/-- No operation begins in the middle of a handshake, or of the stream of frames. -/
theorem Action.plain_of_isOpening {action : Action} (h : action.isOpening = true) :
    action.negotiates = false ∧ action.needsStream = false := by
  cases action <;> first | exact ⟨rfl, rfl⟩ | cases h

namespace Connection

variable {c c' c₁ : Connection} {task : TaskId} {action : Action} {rest script : Script}
  {move : Move}

/-! ### Heads and tails of scripts -/

theorem Writes.not_negotiates {frames : List Frame} {recovery : Recovery}
    (h : Writes frames recovery action) : action.negotiates = false := by
  cases h <;> rfl

theorem Writes.needsStream {frames : List Frame} {recovery : Recovery}
    (h : Writes frames recovery action) : action.needsStream = true := by
  cases h <;> rfl

theorem ReaderScript.not_negotiates (h : ReaderScript script) :
    ∀ b ∈ script, b.negotiates = false := by
  cases h with
  | ponging _ hw => exact List.forall_mem_cons.mpr ⟨hw.not_negotiates, by simp [Action.negotiates]⟩
  | closing hw => exact List.forall_mem_cons.mpr ⟨hw.not_negotiates, by simp [Action.negotiates]⟩
  | _ => simp [Action.negotiates]

theorem OrdinaryScript.not_negotiates {claim : Claim} (h : OrdinaryScript claim script) :
    ∀ b ∈ script, b.negotiates = false := by
  cases h with
  | sending hw => exact List.forall_mem_cons.mpr ⟨hw.not_negotiates, by simp [Action.negotiates]⟩
  | pinging _ hw => exact List.forall_mem_cons.mpr ⟨hw.not_negotiates, by simp [Action.negotiates]⟩
  | closing _ hw => exact List.forall_mem_cons.mpr ⟨hw.not_negotiates, by simp [Action.negotiates]⟩
  | _ => simp [Action.negotiates]

theorem Negotiating.negotiates (h : Negotiating (action :: rest)) : action.negotiates = true := by
  cases h <;> rfl

/-- A script that begins in the middle of a handshake is **the script of one operation** that needs
the connection for itself. -/
theorem Scripted.negotiating (h : c.Scripted) (hscript : c.script task = action :: rest)
    (hnegotiates : action.negotiates = true) :
    ∃ id call, task = .call id ∧ c.call? id = some call ∧ call.claim = .whole ∧
      Negotiating (action :: rest) := by
  cases task with
  | reader =>
      rw [(h.readerScript hscript).not_negotiates action (List.mem_cons_self ..)] at hnegotiates
      cases hnegotiates
  | call id =>
      obtain ⟨call, claim, hcall, hclaim, hshape⟩ := h.callScript hscript
      cases hshape with
      | ordinary hordinary =>
          rw [hordinary.not_negotiates action (List.mem_cons_self ..)] at hnegotiates
          cases hnegotiates
      | connect => cases hnegotiates
      | accept => cases hnegotiates
      | negotiating hnegotiating => exact ⟨id, call, rfl, hcall, hclaim, hnegotiating⟩

/-- Only one operation at a time can have **taken the transport** for a handshake. -/
theorem Scripted.eq_of_negotiates (h : c.Scripted) (hscript : c.script task = action :: rest)
    (hnegotiates : action.negotiates = true) {other : TaskId} {action' : Action} {rest' : Script}
    (hother : c.script other = action' :: rest') (hnegotiates' : action'.negotiates = true) :
    other = task := by
  obtain ⟨i, a, rfl, ha, hclaim, -⟩ := h.negotiating hscript hnegotiates
  obtain ⟨j, b, rfl, hb, hclaim', -⟩ := h.negotiating hother hnegotiates'
  rw [h.eq_of_whole hb ha hclaim' (by rw [hclaim]; exact nofun)]

/-- An operation **gets to the stream of frames** only through a look at the phase. -/
theorem Scripted.needsStream_of_tail (h : c.Scripted) (hscript : c.script task = action :: rest)
    {next : Action} {rest' : Script} (hrest : rest = next :: rest')
    (hnext : next.needsStream = true) :
    action.needsStream = true ∨ action = .ensureOpen ∨ action = .beginClosing ∨ task = .reader := by
  subst hrest
  cases task with
  | reader => exact Or.inr (Or.inr (Or.inr rfl))
  | call id =>
      obtain ⟨_, claim, -, -, hcall⟩ := h.callScript hscript
      cases hcall with
      | ordinary hordinary =>
          cases hordinary with
          | sending hw => exact Or.inl hw.needsStream
          | pinging _ hw => exact Or.inl hw.needsStream
          | closing _ hw => exact Or.inl hw.needsStream
          | send => exact Or.inr (Or.inl rfl)
          | ping => exact Or.inr (Or.inl rfl)
          | close => exact Or.inr (Or.inr (Or.inl rfl))
          | _ => first | exact Or.inl rfl | cases hnext
      | negotiating hnegotiating => cases hnegotiating

/-! ### The stage and the rest of the connection -/

/-- What is true of a connection whose stream of frames **has not begun**, or never will. -/
structure Idle (c : Connection) : Prop where
  writer : c.writer = none
  lock : c.lock = {}
  reader : c.reader = []
  cancelled : c.cancelled = false
  closeSent : c.closeSent = false
  events : c.events = []
  offered : c.offered = []
  sent : c.sent = []
  assembly : c.assembly = Assembly.fresh c.options.maxMessageSize

/-- The **stage** agrees with the phase, with the scripts, and with everything that belongs to the
stream of frames. -/
structure Staged (c : Connection) : Prop where
  idle : c.stage ≠ .running → c.Idle
  opened : c.phase = .opened ∨ c.phase = .closing → c.stage = .running
  begun : c.stage = .running → c.phase ≠ .connecting
  negotiating : ∀ {task action rest}, c.script task = action :: rest →
    action.negotiates = true → c.stage = .negotiating
  streaming : ∀ {task action rest}, c.script task = action :: rest →
    action.needsStream = true → c.stage = .running

/-- Once the stream of frames **has begun**, no action ends it. -/
theorem Effect.running (heffect : Effect c task action rest c₁ script)
    (hnegotiating : action.negotiates = true → c.stage = .negotiating)
    (hstage : c.stage = .running) : c₁.stage = .running := by
  cases heffect with
  | beginConnecting h => rw [hstage] at h; cases h
  | failToBuild h => rw [hstage] at h; cases h
  | beginAccepting h => rw [hstage] at h; cases h
  | failHandshake => rw [hstage] at hnegotiating; cases hnegotiating rfl
  | establish => rfl
  | _ => exact hstage

/-- A phase with a stream of frames is reached only in the stage that has one. -/
theorem Effect.opened (heffect : Effect c task action rest c₁ script)
    (h : c.phase = .opened ∨ c.phase = .closing → c.stage = .running)
    (hrunning : c.stage = .running → c₁.stage = .running)
    (hphase : c₁.phase = .opened ∨ c₁.phase = .closing) : c₁.stage = .running := by
  cases heffect with
  | beginClosing hopen => exact h (Or.inl hopen)
  | followClosing hopen => exact h (Or.inl hopen)
  | markClosed => cases hphase <;> contradiction
  | failHandshake => cases hphase <;> contradiction
  | establish => rfl
  | _ => exact hrunning (h hphase)

/-- Once the stream of frames has begun, the connection is past the phase before it. -/
theorem Effect.begun (heffect : Effect c task action rest c₁ script)
    (h : c.stage = .running → c.phase ≠ .connecting) (hstage : c₁.stage = .running) :
    c₁.phase ≠ .connecting := by
  cases heffect with
  | establish =>
      show (if c.phase = .connecting then Phase.opened else c.phase) ≠ .connecting
      split
      · exact nofun
      · assumption
  | beginClosing => exact nofun
  | followClosing => exact nofun
  | markClosed => exact nofun
  | failHandshake => exact nofun
  | beginConnecting | failToBuild | beginAccepting => cases hstage
  | _ => exact h hstage

/-- A handshake **goes on** in the stage it has, and ends with an answer. -/
theorem Effect.negotiating (heffect : Effect c task action rest c₁ script)
    (hnegotiates : action.negotiates = true) :
    c₁.stage = c.stage ∨ ∃ a, script = [.answer a] := by
  cases heffect with
  | failHandshake => exact Or.inr ⟨_, rfl⟩
  | establish => exact Or.inr ⟨_, rfl⟩
  | _ => first | exact Or.inl rfl | cases hnegotiates

/-- A handshake is under way only in its own stage; it begins by **entering** that stage. -/
theorem Staged.negotiating_effect (hstaged : c.Staged) (h : c.Scripted)
    (hscript : c.script task = action :: rest) (heffect : Effect c task action rest c₁ script)
    {next : Action} {rest' : Script} (hnew : script = next :: rest')
    (hnext : next.negotiates = true) : c₁.stage = .negotiating := by
  cases task with
  | reader =>
      have hreader := (h.readerScript hscript).next heffect
      rw [hreader.not_negotiates next (hnew ▸ List.mem_cons_self ..)] at hnext
      cases hnext
  | call id =>
      obtain ⟨_, claim, -, -, hcall⟩ := h.callScript hscript
      cases hcall with
      | ordinary hordinary =>
          have hafter := hordinary.next heffect
          rw [hafter.not_negotiates next (hnew ▸ List.mem_cons_self ..)] at hnext
          cases hnext
      | connect =>
          cases heffect with
          | beginConnecting => rfl
          | failToBuild => rfl
          | connectAgain => cases hnew; cases hnext
      | accept =>
          cases heffect with
          | beginAccepting => rfl
          | acceptAgain => cases hnew; cases hnext
      | negotiating hnegotiating =>
          obtain heq | ⟨a, rfl⟩ := heffect.negotiating hnegotiating.negotiates
          · exact heq.trans (hstaged.negotiating hscript hnegotiating.negotiates)
          · cases hnew; cases hnext

/-- What begins with a needed stream of frames has one, also when it **comes up only now**. -/
theorem Staged.streaming_effect (hstaged : c.Staged) (h : c.Scripted)
    (hscript : c.script task = action :: rest) (heffect : Effect c task action rest c₁ script)
    {next : Action} {rest' : Script} (hnew : script = next :: rest')
    (hnext : next.needsStream = true) : c₁.stage = .running := by
  refine heffect.running (hstaged.negotiating hscript) ?_
  by_cases hneeds : action.needsStream = true
  · exact hstaged.streaming hscript hneeds
  by_cases hnegotiates : action.negotiates = true
  · obtain ⟨_, _, -, -, -, hnegotiating⟩ := h.negotiating hscript hnegotiates
    subst hnew
    obtain hafter | ⟨a, ha⟩ := hnegotiating.next heffect
    · cases hafter <;> cases hnext
    · cases ha; cases hnext
  cases task with
  | reader =>
      by_contra hstage
      rw [script_reader, (hstaged.idle hstage).reader] at hscript
      cases hscript
  | call id =>
      have htail : rest = next :: rest' → c.phase ≠ .opened → c.stage = .running := by
        intro hrest _
        obtain hhead | rfl | rfl | htask := h.needsStream_of_tail hscript hrest hnext
        · exact absurd hhead hneeds
        · cases heffect with
          | passOpen hopen => contradiction
          | failOpen => cases hnew; cases hnext
        · cases heffect with
          | beginClosing hopen => contradiction
          | failClosing => cases hnew; cases hnext
        · cases htask
      by_cases hopen : c.phase = .opened
      · exact hstaged.opened (Or.inl hopen)
      · cases heffect with
        | passOpen h => exact absurd h hopen
        | beginClosing h => exact absurd h hopen
        | markClosed => exact htail hnew hopen
        | abandon => exact htail hnew hopen
        | queueUpToTake => cases hnew; cases hnext
        | takeNothing => exact htail hnew hopen
        | takeWriter _ hw =>
            by_contra hstage
            rw [(hstaged.idle hstage).writer] at hw
            cases hw
        | beginDraining _ hstage => exact hstage
        | cancelReader => exact htail hnew hopen
        | abandonReader htask => cases htask
        | _ => first
            | exact absurd rfl hneeds
            | exact absurd rfl hnegotiates
            | (cases hnew; cases hnext)

/-- A connection **stays idle** until its stream of frames begins. -/
theorem Idle.effect (h : c.Idle) (hstage : c.stage ≠ .running) (hphase : c.phase ≠ .opened)
    (heffect : Effect c task action rest c₁ script) (hneeds : action.needsStream = false)
    (hstage' : c₁.stage ≠ .running) : c₁.Idle := by
  have hlock : (c.lock.acquire task).holder = some task ∧ (c.lock.acquire task).release = {} := by
    rw [h.lock]
    exact ⟨rfl, rfl⟩
  cases heffect with
  | passOpen hopen => exact absurd hopen hphase
  | beginClosing hopen => exact absurd hopen hphase
  | takeItem hrunning => exact absurd hrunning hstage
  | takeNext hrunning => exact absurd hrunning hstage
  | queueUpToTake hheld => exact absurd hlock.1 hheld
  | takeNothing => exact { h with lock := hlock.2 }
  | takeWriter _ hw => rw [h.writer] at hw; cases hw
  | cancelReader =>
      refine { h with cancelled := ?_ }
      simp only [h.cancelled, Bool.false_or, decide_eq_false_iff_not]
      exact hstage
  | establish => exact absurd rfl hstage'
  | _ => first | exact { h with } | cases hneeds

/-- An action keeps the stage in **agreement** with the rest. -/
theorem Staged.effect (hstaged : c.Staged) (h : c.Scripted)
    (hscript : c.script task = action :: rest) (heffect : Effect c task action rest c₁ script) :
    (c₁.setScript task script).Staged := by
  have hrunning := heffect.running (hstaged.negotiating hscript)
  have hidle : c₁.stage ≠ .running → c₁.Idle := by
    intro hstage'
    have hstage : c.stage ≠ .running := fun hstage => hstage' (hrunning hstage)
    refine (hstaged.idle hstage).effect hstage ?_ heffect ?_ hstage'
    · exact fun hopen => hstage (hstaged.opened (Or.inl hopen))
    · exact Bool.eq_false_iff.mpr fun hneeds => hstage (hstaged.streaming hscript hneeds)
  refine ⟨?_, ?_, ?_, ?_, ?_⟩
  · rw [setScript_stage]
    intro hstage'
    have hafter := hidle hstage'
    refine ⟨?_, ?_, ?_, ?_, ?_, ?_, ?_, ?_, ?_⟩
    · rw [setScript_writer, hafter.writer]
    · rw [setScript_lock, hafter.lock]
    · cases task with
      | reader =>
          have hreader := (hstaged.idle fun hstage => hstage' (hrunning hstage)).reader
          rw [script_reader, hreader] at hscript
          cases hscript
      | call id => exact hafter.reader
    · rw [setScript_cancelled, hafter.cancelled]
    · rw [setScript_closeSent, hafter.closeSent]
    · rw [setScript_events, hafter.events]
    · rw [setScript_offered, hafter.offered]
    · rw [setScript_sent, hafter.sent]
    · rw [setScript_assembly, setScript_options, hafter.assembly]
  · rw [setScript_phase, setScript_stage]
    exact heffect.opened hstaged.opened hrunning
  · rw [setScript_phase, setScript_stage]
    exact heffect.begun hstaged.begun
  · intro other action' rest' hother hnegotiates
    rw [setScript_stage]
    obtain ⟨rfl, heq⟩ | ⟨hne, heq⟩ | ⟨rfl, -, heq, -⟩ := heffect.script_after hscript other
    · rw [heq] at hother
      exact hstaged.negotiating_effect h hscript heffect hother hnegotiates
    · rw [heq] at hother
      have hbefore := hstaged.negotiating hother hnegotiates
      -- the action is not one of the handshake: that one belongs to another task
      cases heffect with
      | beginConnecting | failToBuild | beginAccepting => rfl
      | failHandshake => exact absurd (h.eq_of_negotiates hscript rfl hother hnegotiates) hne
      | establish => exact absurd (h.eq_of_negotiates hscript rfl hother hnegotiates) hne
      | _ => exact hbefore
    · rw [heq] at hother
      cases hother
      cases hnegotiates
  · intro other action' rest' hother hneeds
    rw [setScript_stage]
    obtain ⟨rfl, heq⟩ | ⟨hne, heq⟩ | ⟨rfl, -, -, _, _, rfl⟩ := heffect.script_after hscript other
    · rw [heq] at hother
      exact hstaged.streaming_effect h hscript heffect hother hneeds
    · rw [heq] at hother
      exact hrunning (hstaged.streaming hother hneeds)
    · cases heffect with
      | establish => rfl

/-- What does not depend on scripts is kept when **only the scripts** of some operations go, or new
ones begin. -/
theorem Staged.of_scripts (hstaged : c.Staged) (hstage : c'.stage = c.stage)
    (hidle : c.Idle → c'.Idle) (hphase : c'.phase = c.phase)
    (hscripts : ∀ {task action rest}, c'.script task = action :: rest →
      c.script task = action :: rest ∨ action.isOpening = true) : c'.Staged := by
  refine ⟨?_, ?_, ?_, ?_, ?_⟩
  · rw [hstage]
    exact fun h => hidle (hstaged.idle h)
  · rw [hstage, hphase]
    exact hstaged.opened
  · rw [hstage, hphase]
    exact hstaged.begun
  · intro task action rest hscript hnegotiates
    obtain hbefore | hopening := hscripts hscript
    · exact hstage.trans (hstaged.negotiating hbefore hnegotiates)
    · rw [(Action.plain_of_isOpening hopening).1] at hnegotiates
      cases hnegotiates
  · intro task action rest hscript hneeds
    obtain hbefore | hopening := hscripts hscript
    · exact hstage.trans (hstaged.streaming hbefore hneeds)
    · rw [(Action.plain_of_isOpening hopening).2] at hneeds
      cases hneeds

/-- When the handshake is **given up**, nothing of it is left. -/
theorem Staged.giveUp (hstaged : c.Staged) (h : c.Scripted) {id : Nat}
    (hstage : c.stage = .negotiating) (halone : c.isAlone id = true) (hstage' : c'.stage = .done)
    (hidle : c.Idle → c'.Idle) (hphase : c'.phase = c.phase) (hreader : c'.reader = c.reader)
    (hcalls : c'.calls = c.calls.filter fun call => call.id != id) : c'.Staged := by
  have hkept : ∀ {task action rest}, c'.script task = action :: rest →
      task ≠ .call id ∧ c.script task = action :: rest := by
    intro task action rest hscript
    cases task with
    | reader => exact ⟨nofun, hreader.symm.trans hscript⟩
    | call j =>
        rw [script_of_filter hcalls j] at hscript
        split at hscript
        · cases hscript
        · exact ⟨fun heq => ‹¬j = id› (TaskId.call.inj heq), hscript⟩
  refine ⟨?_, ?_, ?_, ?_, ?_⟩
  · intro _
    exact hidle (hstaged.idle (by rw [hstage]; exact nofun))
  · rw [hphase]
    intro hopened
    rw [hstaged.opened hopened] at hstage
    cases hstage
  · rw [hstage']
    exact nofun
  · intro task action rest hscript hnegotiates
    obtain ⟨hne, hbefore⟩ := hkept hscript
    obtain ⟨j, call, rfl, hcall, hclaim, -⟩ := h.negotiating hbefore hnegotiates
    obtain ⟨other, hother, hwhole⟩ := h.isAlone halone
    rw [h.eq_of_whole hother hcall hwhole (by rw [hclaim]; exact nofun)] at hne
    exact absurd rfl hne
  · intro task action rest hscript hneeds
    rw [hstaged.streaming (hkept hscript).2 hneeds] at hstage
    cases hstage

/-- A move keeps the stage in **agreement** with the rest. -/
theorem Staged.transition (hstaged : c.Staged) (h : c.Scripted) (hmove : Transition c move c') :
    c'.Staged := by
  have hscripts := hmove.opening_of_ne_act
  cases hmove with
  | act hscript heffect => exact hstaged.effect h hscript heffect
  | @giveUp id hsuspended =>
      by_cases hends : c.stage = .negotiating ∧ c.isAlone id = true
      · refine hstaged.giveUp h hends.1 hends.2 (if_pos hends) ?_ rfl rfl rfl
        intro hidle
        exact { hidle with lock := by simp only [hidle.lock]; rfl }
      · refine hstaged.of_scripts (if_neg hends) ?_ rfl (hscripts fun _ => nofun)
        intro hidle
        exact { hidle with lock := by simp only [hidle.lock]; rfl }
  | stopReader hcancelled hsuspended =>
      refine hstaged.of_scripts rfl ?_ rfl (hscripts fun _ => nofun)
      intro hidle
      rw [hidle.cancelled] at hcancelled
      cases hcancelled
  | _ =>
      refine hstaged.of_scripts rfl ?_ rfl (hscripts fun _ => nofun)
      exact fun hidle => { hidle with }

/-- In a connection that a run leads to, the stage **agrees** with everything else. -/
theorem Reachable.staged (h : Reachable c) : c.Staged := by
  refine h.invariant ?_ fun hreach hstaged => hstaged.transition hreach.scripted
  intro role options keys
  refine ⟨?_, ?_, nofun, ?_, ?_⟩
  · exact fun _ => ⟨rfl, rfl, rfl, rfl, rfl, rfl, rfl, rfl, rfl⟩
  · rintro (hphase | hphase) <;> cases hphase
  · intro task action rest hscript
    cases task <;> cases hscript
  · intro task action rest hscript
    cases task <;> cases hscript

/-- Once the stream of frames **has begun**, no move ends it. -/
theorem Staged.running (hstaged : c.Staged) (hstage : c.stage = .running)
    (hmove : Transition c move c') : c'.stage = .running := by
  cases hmove with
  | act hscript heffect =>
      rw [setScript_stage]
      exact heffect.running (hstaged.negotiating hscript) hstage
  | giveUp =>
      rw [if_neg]
      · exact hstage
      · rw [hstage]
        exact fun h => nomatch h.1
  | _ => exact hstage

end Connection

end WebSocket
