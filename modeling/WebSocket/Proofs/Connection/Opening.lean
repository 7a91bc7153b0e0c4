import WebSocket.Proofs.Connection.Health
import WebSocket.Proofs.Handshake.Head

/-!
# How a connection opens

Whatever the peer sends before the handshake is over is collected: first the head, and behind it the
beginning of the stream of frames. When the connection opens, everything that came behind the head
is still there to be read, in the buffer or in the transport, wherever the stream was cut.

## Main results

* `Connection.collected_of_run`: during a handshake **nothing that was sent is lost**.
* `Connection.Collected.opening`: a connection that opens is healthy, and has all bytes behind the
  head still to read.
-/

namespace WebSocket

/-- The actions of a handshake that **still needs** the peer's head. -/
def Action.precedesHead : Action → Bool
  | .sendRequest _ | .awaitResponse _ | .awaitRequest => true
  | _ => false

/-- The actions of a handshake that **has accepted** the peer's head. -/
def Action.followsHead : Action → Bool
  | .sendAcceptance .. | .establish .. => true
  | _ => false

theorem Action.negotiates_of_precedesHead {action : Action} (h : action.precedesHead = true) :
    action.negotiates = true := by
  cases action <;> first | rfl | cases h

theorem Action.negotiates_of_followsHead {action : Action} (h : action.followsHead = true) :
    action.negotiates = true := by
  cases action <;> first | rfl | cases h

namespace Connection

/-- What the peer **sends** in a move. -/
def Move.peerBytes : Move → Bytes
  | .peerSend b => b
  | _ => []

/-- What the peer sends **in a run**. -/
def peerBytes (moves : List Move) : Bytes := (moves.map Move.peerBytes).flatten

theorem peerBytes_append (before after : List Move) :
    peerBytes (before ++ after) = peerBytes before ++ peerBytes after := by
  rw [peerBytes, List.map_append, List.flatten_append]
  rfl

theorem peerBytes_singleton (move : Move) : peerBytes [move] = move.peerBytes :=
  List.append_nil _

/-- What the peer has sent and **nobody has used yet**. -/
def unread (c : Connection) : Bytes := c.buffer ++ c.transport.incoming

variable {c c' c₁ : Connection} {task : TaskId} {action : Action} {rest script : Script}
  {move : Move} {moves : List Move} {sent : Bytes}

/-! ### What moves leave alone -/

/-- The role and the options **stay the same**. -/
theorem Transition.settings (hmove : Transition c move c') :
    c'.role = c.role ∧ c'.options = c.options := by
  cases hmove with
  | act _ heffect =>
      rw [setScript_role, setScript_options]
      exact heffect.settings
  | _ => exact ⟨rfl, rfl⟩

/-- Only the reader and a handshake use what the peer has sent. -/
theorem Effect.unread (heffect : Effect c task action rest c₁ script)
    (hneeds : action.needsStream = false) (hnegotiates : action.negotiates = false) :
    c₁.unread = c.unread := by
  have hbuffer : c₁.buffer = c.buffer := by
    cases heffect <;> first | rfl | (cases hneeds; done) | cases hnegotiates
  obtain ⟨_, _, htransport⟩ := heffect.transport
  rw [Connection.unread, Connection.unread, hbuffer, htransport]

/-- A move that is no action only **adds** what the peer sends. -/
theorem Transition.unread_of_ne_act (hmove : Transition c move c')
    (hact : ∀ task, move ≠ .act task) : c'.unread = c.unread ++ move.peerBytes := by
  cases hmove with
  | act => exact absurd rfl (hact _)
  | read => simp only [Connection.unread, Move.peerBytes, List.append_assoc, List.take_append_drop,
      List.append_nil]
  | peerSend => exact (List.append_assoc _ _ _).symm
  | _ => exact (List.append_nil _).symm

/-! ### The handshake -/

/-- **How a handshake gets on**: it keeps what was sent until it finds the head there. -/
theorem Negotiating.unread (h : Negotiating (action :: rest))
    (heffect : Effect c task action rest c₁ script) {next : Action} {rest' : Script}
    (hnew : script = next :: rest') :
    (next.precedesHead = true → action.precedesHead = true ∧ c₁.unread = c.unread) ∧
      (next.followsHead = true → (action.followsHead = true ∧ c₁.unread = c.unread) ∨
        (action.precedesHead = true ∧
          ∃ head, Handshake.headProgress c.options.maxHandshakeSize c.unread =
            .done head c₁.unread)) := by
  obtain ⟨_, _, htransport⟩ := heffect.transport
  have hsame : c₁.buffer = c.buffer → c₁.unread = c.unread := by
    intro hbuffer
    rw [Connection.unread, Connection.unread, hbuffer, htransport]
  have hfound : ∀ {head : Bytes},
      Handshake.headProgress c.options.maxHandshakeSize c.buffer = .done head c₁.buffer →
        Handshake.headProgress c.options.maxHandshakeSize c.unread = .done head c₁.unread := by
    intro head hhead
    rw [Connection.unread, Connection.unread, htransport]
    exact Handshake.headProgress_append hhead _
  cases h with
  | sendRequest =>
      cases heffect with
      | sendRequest => cases hnew; exact ⟨fun _ => ⟨rfl, hsame rfl⟩, nofun⟩
      | failToRequest => cases hnew; exact ⟨nofun, nofun⟩
  | awaitResponse =>
      cases heffect with
      | judgeResponse hhead =>
          have hshape : next.precedesHead = false := by
            unfold Connection.judgeResponse at hnew
            split at hnew
            · cases hnew; rfl
            · split at hnew <;> (cases hnew; rfl)
          rw [hshape]
          exact ⟨nofun, fun _ => Or.inr ⟨rfl, _, hfound hhead⟩⟩
      | missResponse => cases hnew; exact ⟨nofun, nofun⟩
  | awaitRequest =>
      cases heffect with
      | judgeRequest hhead =>
          have hshape : next.precedesHead = false := by
            unfold Connection.judgeRequest Connection.turnDown at hnew
            split at hnew
            · split at hnew <;> (cases hnew; rfl)
            · cases hnew; rfl
          rw [hshape]
          exact ⟨nofun, fun _ => Or.inr ⟨rfl, _, hfound hhead⟩⟩
      | missRequest =>
          unfold Connection.turnDown at hnew
          split at hnew <;> (cases hnew; exact ⟨nofun, nofun⟩)
  | sendAcceptance =>
      cases heffect with
      | sendAcceptance => cases hnew; exact ⟨nofun, fun _ => Or.inl ⟨rfl, hsame rfl⟩⟩
      | failToAccept => cases hnew; exact ⟨nofun, nofun⟩
  | sendRejection =>
      cases heffect with
      | sendRejection => cases hnew; exact ⟨nofun, nofun⟩
      | failToReject => cases hnew; exact ⟨nofun, nofun⟩
  | failHandshake =>
      cases heffect with
      | failHandshake => cases hnew; exact ⟨nofun, nofun⟩
  | establish =>
      cases heffect with
      | establish => cases hnew; exact ⟨nofun, nofun⟩

/-- What the peer has sent, as long as the **head is not read**; behind it, once it is. -/
structure Collected (sent : Bytes) (c : Connection) : Prop where
  untouched : c.stage = .handshake → c.unread = sent
  waiting : ∀ {task action rest}, c.script task = action :: rest → action.precedesHead = true →
    c.unread = sent
  behind : ∀ {task action rest}, c.script task = action :: rest → action.followsHead = true →
    ∃ head, Handshake.headProgress c.options.maxHandshakeSize sent = .done head c.unread

/-- A handshake **begins** with all that was sent. -/
theorem Scripted.begins (h : c.Scripted) (hscript : c.script task = action :: rest)
    (heffect : Effect c task action rest c₁ script) (hnot : action.negotiates = false)
    {next : Action} {rest' : Script} (hnew : script = next :: rest')
    (hnext : next.negotiates = true) :
    c.stage = .handshake ∧ c₁.unread = c.unread ∧ next.followsHead = false := by
  cases task with
  | reader =>
      have hreader := (h.readerScript hscript).next heffect
      rw [hreader.not_negotiates next (hnew ▸ List.mem_cons_self ..)] at hnext
      cases hnext
  | call id =>
      obtain ⟨_, claim, -, -, hcall⟩ := h.callScript hscript
      cases hcall with
      | ordinary hordinary =>
          have hafter := hordinary.next heffect
          rw [hafter.not_negotiates next (hnew ▸ List.mem_cons_self ..)] at hnext
          cases hnext
      | connect =>
          cases heffect with
          | beginConnecting hstage => cases hnew; exact ⟨hstage, rfl, rfl⟩
          | failToBuild hstage => cases hnew; exact ⟨hstage, rfl, rfl⟩
          | connectAgain => cases hnew; cases hnext
      | accept =>
          cases heffect with
          | beginAccepting hstage => cases hnew; exact ⟨hstage, rfl, rfl⟩
          | acceptAgain => cases hnew; cases hnext
      | negotiating hnegotiating =>
          rw [hnegotiating.negotiates] at hnot
          cases hnot

/-- An action of a task that is not in a handshake **keeps what was sent**, unless the stream of
frames has begun. -/
theorem Staged.unread_of_other (hstaged : c.Staged) (hstage : c.stage ≠ .running)
    (hscript : c.script task = action :: rest) (hnot : action.negotiates = false)
    (heffect : Effect c task action rest c₁ script) : c₁.unread = c.unread := by
  refine heffect.unread (Bool.eq_false_iff.mpr fun hneeds => ?_) hnot
  exact hstage (hstaged.streaming hscript hneeds)

/-- An action keeps what the peer has sent. -/
theorem Collected.effect (hcollected : Collected sent c) (h : c.Scripted) (hstaged : c.Staged)
    (hscript : c.script task = action :: rest) (heffect : Effect c task action rest c₁ script) :
    Collected sent (c₁.setScript task script) := by
  have hunread : (c₁.setScript task script).unread = c₁.unread := by
    rw [Connection.unread, Connection.unread, setScript_buffer, setScript_transport]
  -- a task other than the acting one is in the middle of a handshake
  have hother : ∀ {other next more}, other ≠ task →
      (c₁.setScript task script).script other = next :: more → next.negotiates = true →
        c.script other = next :: more ∧ c₁.unread = c.unread := by
    intro other next more hne hscript' hnext
    obtain ⟨heq, -⟩ | ⟨-, heq⟩ | ⟨-, -, heq, -⟩ := heffect.script_after hscript other
    · exact absurd heq hne
    · rw [heq] at hscript'
      have hstage := hstaged.negotiating hscript' hnext
      refine ⟨hscript', hstaged.unread_of_other (by rw [hstage]; exact nofun) hscript ?_ heffect⟩
      exact Bool.eq_false_iff.mpr fun hnegotiates =>
        hne (h.eq_of_negotiates hscript hnegotiates hscript' hnext)
    · rw [heq] at hscript'
      cases hscript'
      cases hnext
  refine ⟨?_, ?_, ?_⟩
  · intro hstage'
    rw [setScript_stage] at hstage'
    have hstage : c.stage = .handshake := by
      cases heffect with
      | beginConnecting | failToBuild | beginAccepting | failHandshake | establish => cases hstage'
      | _ => exact hstage'
    have hnot : action.negotiates = false := by
      refine Bool.eq_false_iff.mpr fun hnegotiates => ?_
      rw [hstaged.negotiating hscript hnegotiates] at hstage
      cases hstage
    rw [hunread, hstaged.unread_of_other (by rw [hstage]; exact nofun) hscript hnot heffect]
    exact hcollected.untouched hstage
  · intro other next more hscript' hprecedes
    have hnext := Action.negotiates_of_precedesHead hprecedes
    rw [hunread]
    by_cases hne : other = task
    · subst hne
      rw [heffect.script_self hscript] at hscript'
      by_cases hnegotiates : action.negotiates = true
      · obtain ⟨_, _, -, -, -, hnegotiating⟩ := h.negotiating hscript hnegotiates
        obtain ⟨hbefore, hsame⟩ := (hnegotiating.unread heffect hscript').1 hprecedes
        rw [hsame]
        exact hcollected.waiting hscript hbefore
      · obtain ⟨hstage, hsame, -⟩ :=
          h.begins hscript heffect (Bool.eq_false_iff.mpr hnegotiates) hscript' hnext
        rw [hsame]
        exact hcollected.untouched hstage
    · obtain ⟨hbefore, hsame⟩ := hother hne hscript' hnext
      rw [hsame]
      exact hcollected.waiting hbefore hprecedes
  · intro other next more hscript' hfollows
    have hnext := Action.negotiates_of_followsHead hfollows
    rw [hunread, setScript_options, heffect.settings.2]
    by_cases hne : other = task
    · subst hne
      rw [heffect.script_self hscript] at hscript'
      by_cases hnegotiates : action.negotiates = true
      · obtain ⟨_, _, -, -, -, hnegotiating⟩ := h.negotiating hscript hnegotiates
        obtain ⟨hbefore, hsame⟩ | ⟨hbefore, head, hhead⟩ :=
          (hnegotiating.unread heffect hscript').2 hfollows
        · rw [hsame]
          exact hcollected.behind hscript hbefore
        · rw [← hcollected.waiting hscript hbefore]
          exact ⟨head, hhead⟩
      · obtain ⟨-, -, hnot⟩ :=
          h.begins hscript heffect (Bool.eq_false_iff.mpr hnegotiates) hscript' hnext
        rw [hnot] at hfollows
        cases hfollows
    · obtain ⟨hbefore, hsame⟩ := hother hne hscript' hnext
      rw [hsame]
      exact hcollected.behind hbefore hfollows

/-- Every move keeps what the peer has sent, and **adds what it sends**. -/
theorem Collected.transition (hcollected : Collected sent c) (hreach : Reachable c)
    (hmove : Transition c move c') : Collected (sent ++ move.peerBytes) c' := by
  obtain ⟨task, _, _, _, _, rfl, hscript, heffect, rfl⟩ | hact := hmove.act_or
  · rw [show Move.peerBytes (.act task) = [] from rfl, List.append_nil]
    exact hcollected.effect hreach.scripted hreach.staged hscript heffect
  · have hunread := hmove.unread_of_ne_act hact
    have hkept : ∀ {task next more}, c'.script task = next :: more → next.negotiates = true →
        c.script task = next :: more := by
      intro task next more hscript hnext
      obtain hbefore | hopening := hmove.opening_of_ne_act hact hscript
      · exact hbefore
      · rw [(Action.plain_of_isOpening hopening).1] at hnext
        cases hnext
    refine ⟨fun hstage' => ?_, fun hscript hprecedes => ?_, fun hscript hfollows => ?_⟩
    · rw [hunread, hcollected.untouched]
      cases hmove with
      | act => exact absurd rfl (hact _)
      | giveUp =>
          dsimp only at hstage'
          split at hstage'
          · cases hstage'
          · exact hstage'
      | _ => exact hstage'
    · have hbefore := hkept hscript (Action.negotiates_of_precedesHead hprecedes)
      rw [hunread, hcollected.waiting hbefore hprecedes]
    · have hbefore := hkept hscript (Action.negotiates_of_followsHead hfollows)
      obtain ⟨head, hhead⟩ := hcollected.behind hbefore hfollows
      rw [hmove.settings.2, hunread]
      exact ⟨head, Handshake.headProgress_append hhead _⟩

/-- During a handshake, **nothing that was sent is lost**. -/
theorem collected_of_run {role : Role} {options : Options} {keys : Nat → Mask}
    (hrun : (new role options keys).run moves = some c) : Collected (peerBytes moves) c := by
  refine run_induction (P := fun moves x => Collected (peerBytes moves) x) ?_ ?_ hrun
  · refine ⟨fun _ => rfl, ?_, ?_⟩
    · intro task action rest hscript
      cases task <;> cases hscript
    · intro task action rest hscript
      cases task <;> cases hscript
  · intro before c₁ move c₂ hbefore hcollected hstep
    rw [peerBytes_append, peerBytes_singleton]
    exact hcollected.transition ⟨_, _, _, _, hbefore⟩ (transition_of_step hstep)

/-! ### The opening -/

/-- Beside an operation that needs the connection for itself, all others are **ordinary**. -/
theorem Scripted.ordinary_of_whole (h : c.Scripted) {i j : Nat} {call : Call}
    (hcall : c.call? i = some call) (hwhole : call.claim = .whole) (hne : j ≠ i) :
    ∀ b ∈ c.script (.call j), b.isOrdinary = true := by
  cases hscript : c.script (.call j) with
  | nil => exact fun _ hb => nomatch hb
  | cons first more =>
      obtain ⟨other, claim, hother, rfl, hshape⟩ := h.callScript hscript
      have hnothing : other.claim = .nothing := by
        by_contra hclaim
        exact hne (h.eq_of_whole hcall hother hwhole hclaim).symm
      rw [hnothing] at hshape
      cases hshape with
      | ordinary hordinary => cases hordinary <;> simp [Action.isOrdinary]

/-- **How a connection opens**: by the action that starts its reader. -/
theorem Effect.opens (heffect : Effect c task action rest c₁ script) (hnot : c.phase ≠ .opened)
    (hopen : c₁.phase = .opened) : ∃ protocol a, action = .establish protocol a := by
  cases heffect with
  | establish => exact ⟨_, _, rfl⟩
  | beginClosing => cases hopen
  | followClosing => cases hopen
  | markClosed => cases hopen
  | failHandshake => cases hopen
  | _ => exact absurd hopen hnot

/-- What is true of a connection that **has just opened**, when the peer has sent some bytes. -/
structure Fresh (sent : Bytes) (c : Connection) : Prop where
  healthy : c.transport.broken = false → c.Healthy
  reader : c.reader = [.readFrame]
  assembly : c.assembly = Assembly.fresh c.options.maxMessageSize
  events : c.events = []
  offered : c.offered = []
  unread : ∃ head, Handshake.headProgress c.options.maxHandshakeSize sent = .done head c.unread

/-- A connection that opens **begins afresh**: nothing was read yet but the head, and all bytes
behind it are still to be read. -/
theorem Collected.opening (hcollected : Collected sent c) (hreach : Reachable c)
    (hmove : Transition c move c') (hnot : c.phase ≠ .opened) (hopen : c'.phase = .opened) :
    move.peerBytes = [] ∧ Fresh sent c' := by
  have hscripted := hreach.scripted
  cases hmove with
  | @act task action rest c₁ script hscript heffect =>
      rw [setScript_phase] at hopen
      obtain ⟨protocol, a, rfl⟩ := heffect.opens hnot hopen
      obtain ⟨id, call, rfl, hcall, hwhole, hnegotiating⟩ :=
        hscripted.negotiating hscript rfl
      obtain ⟨head, hhead⟩ := hcollected.behind hscript rfl
      have hidle := hreach.staged.idle (by rw [hreach.staged.negotiating hscript rfl]; exact nofun)
      cases heffect with
      | establish =>
          refine ⟨rfl, fun hunbroken => ?_, rfl, hidle.assembly, hidle.events, hidle.offered,
            head, hhead⟩
          refine ⟨rfl, hunbroken, hidle.cancelled, fun _ => nofun, ?_, nofun, fun j => ?_⟩
          · rw [setScript_phase, hopen]
            exact ⟨nofun, nofun⟩
          · by_cases heq : j = id
            · subst heq
              rw [Effect.script_self .establish hscript]
              simp [Action.isOrdinary]
            · have hne : TaskId.call j ≠ .call id := fun h => heq (TaskId.call.inj h)
              rw [script_setScript_of_ne _ hne]
              exact hscripted.ordinary_of_whole hcall hwhole heq
  | _ => exact absurd hopen hnot

end Connection

end WebSocket
