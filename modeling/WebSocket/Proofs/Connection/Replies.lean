import WebSocket.Proofs.Connection.Closing
import WebSocket.Proofs.Connection.Occasions
import WebSocket.Proofs.Connection.Receiving

/-!
# What the reader writes

The reader writes a frame only when the stream calls for one, and it looks at each occasion once: at
a ping it looks whether the connection is open, and at the end of the stream whether anybody has set
about sending a close frame. What it has written, with what it is about to write, are the frames
called for by the occasions that it took (`Connection.Replying`).

Main results:

* `Connection.replies_of_stream`: the frames that the reader writes are those that the stream calls
  for, and behind the end of the stream it shuts the transport down and closes the connection;
* `Connection.not_closed_at_stop`: the second half needs room for events.
-/

namespace WebSocket

namespace Connection

variable {c c' c₁ : Connection} {task : TaskId} {action : Action} {rest script : Script}
  {move : Move} {moves : List Move}

/-- A **look** at an occasion, and whether the reader takes it. -/
structure Look where
  occasion : Occasion
  taken : Bool
  deriving DecidableEq, Repr

/-- The look that a move takes. A ping is answered while the connection is **open**, and the end of
the stream as long as **nobody has set about** sending a close frame. -/
def look? (c : Connection) : Move → Option Look
  | .act .reader =>
    match c.reader with
    | .answerPing payload :: _ => some ⟨.ping payload, c.phase = .opened⟩
    | .claimClose status _ :: _ => some ⟨.stop (Frame.close status).payload, !c.closeSent⟩
    | _ => none
  | _ => none

/-- The looks that the reader takes **in a run**. -/
def looks (c : Connection) (moves : List Move) : List Look := c.trace look? moves

/-- The frames that are called for by **the occasions taken**. -/
def replies (looks : List Look) : List Frame :=
  (looks.filter Look.taken).map fun look => look.occasion.frame

theorem replies_append (looks more : List Look) :
    replies (looks ++ more) = replies looks ++ replies more := by
  rw [replies, List.filter_append, List.map_append]
  rfl

/-- The frames that a task has **handed to the writer**, in order. -/
def sentBy (c : Connection) (task : TaskId) : List Frame :=
  ((c.sent.filter fun s => s.task = task).map Sent.frame).reverse

theorem sentBy_congr (h : c₁.sent = c.sent) (task : TaskId) : c₁.sentBy task = c.sentBy task := by
  rw [sentBy, sentBy, h]

theorem sentBy_self {f : Frame} (h : c₁.sent = ⟨task, f⟩ :: c.sent) :
    c₁.sentBy task = c.sentBy task ++ [f] := by
  simp [sentBy, h]

theorem sentBy_of_ne {other : TaskId} {f : Frame} (h : c₁.sent = ⟨other, f⟩ :: c.sent)
    (hne : other ≠ task) : c₁.sentBy task = c.sentBy task := by
  simp [sentBy, h, hne]

/-! ### Writing one frame -/

/-- A frame is **handed over once**, as long as there is a writer. -/
theorem Writes.sentBy {f : Frame} {recovery : Recovery} (hwrites : Writes [f] recovery action)
    (heffect : Effect c task action rest c₁ script) (hsendable : c.Sendable)
    (hwriter : c.writer ≠ none) (hunbroken : c.transport.broken = false)
    (hrest : Script.cargo rest = []) :
    c₁.sentBy task ++ script.cargo = c.sentBy task ++ Script.cargo (action :: rest) := by
  cases hwrites with
  | lock =>
      cases heffect with
      | queueUp => rfl
      | startWriting => rfl
      | lockInVain _ hw => exact absurd hw hwriter
  | feed hmore =>
      cases heffect with
      | fedAll => rfl
      | feedInVain hw => exact absurd hw hwriter
      | makeRoom => rfl
      | failToMakeRoom _ _ ht => exact absurd ht (Transport.write_ne_broken hunbroken)
      | refuseFrame hw _ he => exact absurd he (hsendable.emptySlot_ne_error hw)
      | feed =>
          rw [sentBy_self rfl, List.append_assoc]
          rfl
  | flush =>
      cases heffect with
      | flushInVain hw => exact absurd hw hwriter
      | flush => rw [hrest]; rfl
      | failToFlush _ ht => exact absurd ht (Transport.write_ne_broken hunbroken)

/-! ### One action of the reader -/

/-- **What an action of the reader does** to the occasions and to the frames called for: it looks at
the next occasion; or it goes on writing, offering and reading, and what it reads has new occasions
ahead. -/
inductive ReplyStep (c : Connection) (before : Script) (c₁ : Connection) (after : Script) : Prop
  | looks {look : Look} (hlook : c.look? (.act .reader) = some look)
      (hahead : before.ahead = look.occasion :: after.ahead)
      (houtlook : after.outlook = before.outlook) (hoffered : c₁.offered = c.offered)
      (hsent : c₁.sent = c.sent) (hbefore : before.cargo = [])
      (hafter : after.cargo = if look.taken then [look.occasion.frame] else [])
  | goesOn (new : List Occasion) (hlook : c.look? (.act .reader) = none)
      (hahead : after.ahead = before.ahead ++ new)
      (hitems : (c₁.offered.reverse ++ after.outlook.items).filterMap Occasion.ofItem? =
        (c.offered.reverse ++ before.outlook.items).filterMap Occasion.ofItem? ++ new)
      (hcargo : c₁.sentBy .reader ++ after.cargo = c.sentBy .reader ++ before.cargo)

/-- An action that neither looks nor reads, and that offers at most what it was about to offer. -/
theorem ReplyStep.keeps {before after : Script} (hlook : c.look? (.act .reader) = none)
    (hahead : after.ahead = before.ahead)
    (hitems : c₁.offered.reverse ++ after.outlook.items =
      c.offered.reverse ++ before.outlook.items)
    (hcargo : c₁.sentBy .reader ++ after.cargo = c.sentBy .reader ++ before.cargo) :
    ReplyStep c before c₁ after := by
  refine .goesOn [] hlook ?_ ?_ hcargo
  · rw [hahead, List.append_nil]
  · rw [hitems, List.append_nil]

/-- An action that reads has **new occasions** ahead, those of the items that it will offer. -/
theorem ReplyStep.ofRead {after : Script} (hreader : c.reader = [.readFrame])
    (hahead : after.ahead = after.outlook.items.filterMap Occasion.ofItem?)
    (hoffered : c₁.offered = c.offered) (hsent : c₁.sent = c.sent) (hcargo : after.cargo = []) :
    ReplyStep c [.readFrame] c₁ after := by
  have hlook : c.look? (.act .reader) = none := by
    simp only [look?, hreader]
  have hsilent : (Script.outlook [.readFrame]).items = [] := rfl
  refine .goesOn after.ahead hlook rfl ?_ ?_
  · rw [hoffered, hahead, hsilent, List.append_nil, List.filterMap_append]
  · rw [sentBy_congr hsent, hcargo]
    rfl

theorem Writes.look?_eq_none {frames : List Frame} {recovery : Recovery}
    (h : Writes frames recovery action) (hreader : c.reader = action :: rest) :
    c.look? (.act .reader) = none := by
  cases h <;> simp only [look?, hreader]

theorem Writes.ahead {frames : List Frame} {recovery : Recovery}
    (h : Writes frames recovery action) (rest : Script) :
    Script.ahead (action :: rest) = Script.ahead rest := by
  cases h <;> rfl

/-- While the reader **writes one frame**, nothing else changes for it. -/
theorem ReplyStep.ofWrites {f : Frame} {recovery : Recovery} (hwrites : Writes [f] recovery action)
    (hreader : c.reader = action :: rest) (hrest : Script.cargo rest = [])
    (heffect : Effect c .reader action rest c₁ script) (hsendable : c.Sendable)
    (hwriter : c.writer ≠ none) (hunbroken : c.transport.broken = false) :
    ReplyStep c (action :: rest) c₁ script := by
  obtain ⟨hspares, -, hnext⟩ := hwrites.next_of_writer heffect hsendable hwriter hunbroken
  have hcargo := hwrites.sentBy heffect hsendable hwriter hunbroken hrest
  have hafter : script.ahead = Script.ahead rest ∧ script.outlook = Script.outlook rest := by
    obtain ⟨a, ha, rfl⟩ | rfl := hnext
    · exact ⟨ha.ahead rest, outlook_writes ha⟩
    · exact ⟨rfl, rfl⟩
  refine .keeps (hwrites.look?_eq_none hreader) ?_ ?_ hcargo
  · rw [hafter.1, hwrites.ahead]
  · rw [hspares.offered, hafter.2, outlook_writes hwrites]

/-- **Whatever the reader of a tended connection does** is such a step. -/
theorem Tended.replyStep (h : c.Tended) (hreach : Reachable c)
    (hreader : c.reader = action :: rest) (heffect : Effect c .reader action rest c₁ script) :
    ReplyStep c (action :: rest) c₁ script := by
  have hopen : Script.isOver (action :: rest) = false → c.phase ≠ .closed := by
    intro hover hphase
    rw [h.closed, hreader, hover] at hphase
    cases hphase
  have hwriter : Script.isOver (action :: rest) = false → c.writer ≠ none :=
    fun hover => h.writer (hopen hover)
  have hmark := h.finishing
  rw [hreader] at hmark
  cases hreach.scripted.readerScript hreader with
  | reading =>
      cases heffect with
      | readEnd => exact .ofRead hreader rfl rfl rfl rfl
      | readFault => exact .ofRead hreader (Script.ahead_ofAssembled (.error _)) rfl rfl rfl
      | @readFrame _ f _ _ =>
          have hcargo := cargo_ofAssembled (c.assembly.feed f).2 []
          rw [List.append_nil] at hcargo ⊢
          exact .ofRead hreader (Script.ahead_ofAssembled _) rfl rfl hcargo
  | @answering payload _ =>
      cases heffect with
      | answerPing hphase =>
          have hlook : c.look? (.act .reader) = some ⟨.ping payload, true⟩ := by
            simp only [look?, hreader, hphase, decide_true]
          exact .looks hlook rfl rfl rfl rfl rfl rfl
      | ignorePing hphase =>
          have hlook : c.look? (.act .reader) = some ⟨.ping payload, false⟩ := by
            simp only [look?, hreader, hphase, decide_false]
          exact .looks hlook rfl rfl rfl rfl rfl rfl
  | ponging hlength hwrites =>
      exact .ofWrites hwrites hreader rfl heffect hreach.sendable
        (hwriter (hwrites.not_over _).1) h.unbroken
  | @reporting fault =>
      cases heffect with
      | keepFault hkeeps =>
          have hnone : fault.closeCode? = none := hkeeps.resolve_right (hopen rfl)
          have hahead : Occasion.ofFault? fault = none := by
            rw [Occasion.ofFault?_eq, hnone]
            rfl
          refine .keeps (by simp only [look?, hreader]) ?_ rfl rfl
          simp only [Script.ahead, List.filterMap_cons, Action.occasion?, hahead]
      | reportFault hcode =>
          have hahead := Occasion.ofFault?_eq fault
          rw [hcode] at hahead
          refine .keeps (by simp only [look?, hreader]) ?_ rfl rfl
          simp only [Script.ahead, List.filterMap_cons, Action.occasion?, hahead, Option.map_some]
  | @claiming status _ =>
      cases heffect with
      | claimClose hclaim =>
          have hlook :
              c.look? (.act .reader) = some ⟨.stop (Frame.close status).payload, true⟩ := by
            simp only [look?, hreader, hclaim, Bool.not_false]
          exact .looks hlook rfl rfl rfl rfl rfl rfl
      | closeClaimed hclaim =>
          have hlook :
              c.look? (.act .reader) = some ⟨.stop (Frame.close status).payload, false⟩ := by
            simp only [look?, hreader, hclaim, Bool.not_true]
          exact .looks hlook rfl rfl rfl rfl rfl rfl
  | closing hwrites =>
      exact .ofWrites hwrites hreader rfl heffect hreach.sendable
        (hwriter (hwrites.not_over _).1) h.unbroken
  | broken => cases hmark _ rfl
  | brokenPong => cases hmark _ rfl
  | offering =>
      cases heffect with
      | offer =>
          refine .keeps (by simp only [look?, hreader]) rfl ?_ rfl
          rw [List.reverse_cons, List.append_assoc]
          rfl
  | offeringLast =>
      cases heffect with
      | offer =>
          refine .keeps (by simp only [look?, hreader]) rfl ?_ rfl
          rw [List.reverse_cons, List.append_assoc]
          rfl
  | resolving =>
      cases heffect with
      | resolvePings => exact .keeps (by simp only [look?, hreader]) rfl rfl rfl
  | following =>
      cases heffect with
      | followClosing => exact .keeps (by simp only [look?, hreader]) rfl rfl rfl
      | pastClosing => exact .keeps (by simp only [look?, hreader]) rfl rfl rfl
  | finishing =>
      cases heffect with
      | markClosed => exact .keeps (by simp only [look?, hreader]) rfl rfl rfl
  | releasing =>
      cases heffect with
      | queueUpToTake => exact .keeps (by simp only [look?, hreader]) rfl rfl rfl
      | takeNothing => exact .keeps (by simp only [look?, hreader]) rfl rfl rfl
      | takeWriter => exact .keeps (by simp only [look?, hreader]) rfl rfl rfl
  | shutting =>
      cases heffect with
      | shutBroken => exact .keeps (by simp only [look?, hreader]) rfl rfl rfl
      | shutDown => exact .keeps (by simp only [look?, hreader]) rfl rfl rfl

/-! ### The account of occasions and replies -/

/-- **The replies so far**, given the looks that the reader took: the occasions of what it has
offered, and of what it is about to offer, are those that it looked at and those ahead of it; and
the frames that it has handed over, and is about to hand over, are those called for. -/
structure Replying (looks : List Look) (c : Connection) : Prop where
  met : looks.map Look.occasion ++ c.reader.ahead =
    (c.offered.reverse ++ c.reader.outlook.items).filterMap Occasion.ofItem?
  written : c.sentBy .reader ++ c.reader.cargo = replies looks

/-- An action of the reader keeps the account. -/
theorem Replying.replyStep {looks : List Look} (h : Replying looks c)
    (hstep : ReplyStep c c.reader c₁ script) :
    Replying (looks ++ (c.look? (.act .reader)).toList) (c₁.setScript .reader script) := by
  have hsame : (c₁.setScript .reader script).sentBy .reader = c₁.sentBy .reader :=
    sentBy_congr (setScript_sent c₁ .reader script) .reader
  cases hstep with
  | @looks look hlook hahead houtlook hoffered hsent hbefore hafter =>
      rw [hlook, Option.toList_some]
      refine ⟨?_, ?_⟩
      · have hmet := h.met
        rw [hahead] at hmet
        rw [setScript_offered, setScript_reader_of_reader, hoffered, houtlook, ← hmet,
          List.map_append, List.append_assoc]
        rfl
      · have hwritten := h.written
        rw [hbefore, List.append_nil] at hwritten
        rw [hsame, setScript_reader_of_reader, sentBy_congr hsent, hwritten, hafter,
          replies_append]
        cases htaken : look.taken <;> simp [replies, htaken]
  | goesOn new hlook hahead hitems hcargo =>
      rw [hlook, Option.toList_none, List.append_nil]
      refine ⟨?_, ?_⟩
      · rw [setScript_offered, setScript_reader_of_reader, hitems, ← h.met, hahead,
          List.append_assoc]
      · rw [hsame, setScript_reader_of_reader, hcargo, h.written]

/-- A move that leaves the reader, what it has offered and what it has sent alone keeps the
account. -/
theorem Replying.keep {looks : List Look} (h : Replying looks c) (hreader : c'.reader = c.reader)
    (hoffered : c'.offered = c.offered) (hsent : c'.sentBy .reader = c.sentBy .reader) :
    Replying looks c' := by
  refine ⟨?_, ?_⟩
  · rw [hreader, hoffered, h.met]
  · rw [hreader, hsent, h.written]

/-- Every move after which the connection is intact **keeps the account**. -/
theorem Replying.transition {looks : List Look} (h : Replying looks c) (hintact : c.Intact)
    (hreach : Reachable c) (hmove : Transition c move c') (huncancelled : c'.cancelled = false) :
    Replying (looks ++ (c.look? move).toList) c' := by
  obtain ⟨task, action, rest, c₁, script, rfl, hscript, heffect, rfl⟩ | hact := hmove.act_or
  · cases task with
    | reader =>
        have hreader : c.reader = action :: rest := hscript
        have hstep := hintact.toTended.replyStep hreach hscript heffect
        rw [← hreader] at hstep
        exact h.replyStep hstep
    | call id =>
        rw [setScript_cancelled] at huncancelled
        obtain ⟨hspares, -⟩ := hintact.spares hscript heffect huncancelled
        have hsent : (c₁.setScript (.call id) script).sentBy .reader = c.sentBy .reader := by
          rw [sentBy_congr (setScript_sent ..)]
          obtain heq | ⟨f, heq, -⟩ := heffect.sent hreach hscript
          · exact sentBy_congr heq _
          · exact sentBy_of_ne heq nofun
        rw [show c.look? (.act (.call id)) = none from rfl, Option.toList_none, List.append_nil]
        exact h.keep hspares.reader hspares.offered hsent
  · have hlook : c.look? move = none := by
      cases move with
      | act task => exact absurd rfl (hact task)
      | _ => rfl
    have hsent := sentBy_congr (hmove.sent_of_ne_act hact).2.2 .reader
    rw [hlook, Option.toList_none, List.append_nil]
    cases hmove with
    | act => exact absurd rfl (hact _)
    | stopReader hcancelled => rw [hintact.uncancelled] at hcancelled; cases hcancelled
    | _ => exact h.keep rfl rfl hsent

/-! ### The end of the reader -/

/-- What becomes of the **writer and the transport** when the reader winds up: it takes the writer
away, and with that it shuts the transport down. -/
structure Releasing (c : Connection) : Prop where
  kept : c.reader = [.takeWriter] → c.writer ≠ none
  gone : ∀ held, c.reader = [.shutDown held] → c.writer = none
  shut : c.reader = [] → c.writer = none ∧ c.transport.shut = true

theorem Releasing.of_isOver (h : c.reader.isOver = false) : c.Releasing := by
  refine ⟨fun heq => ?_, fun held heq => ?_, fun heq => ?_⟩
  · rw [heq] at h; cases h
  · rw [heq] at h; cases h
  · rw [heq] at h; cases h

/-- Without a writer there is **never a new one**, once the stream of frames has begun. -/
theorem Effect.writer_eq_none (heffect : Effect c task action rest c₁ script)
    (hnot : action.negotiates = false) (h : c.writer = none) : c₁.writer = none := by
  cases heffect with
  | makeRoom hw | refuseFrame hw | fedAll hw | feed hw | flush hw => exact nomatch h.symm.trans hw
  | establish => cases hnot
  | _ => first | exact h | rfl

/-- A transport that was shut **stays shut**. -/
theorem Effect.shut (heffect : Effect c task action rest c₁ script)
    (h : c.transport.shut = true) : c₁.transport.shut = true := by
  have hwrite : ∀ {b t}, c.transport.write b = .done t → t.shut = true := by
    intro b t ht
    rw [Transport.write_eq_done ht]
    exact h
  cases heffect with
  | makeRoom _ _ ht => exact hwrite ht
  | flush _ ht => exact hwrite ht
  | sendRequest ht => exact hwrite ht
  | sendAcceptance ht => exact hwrite ht
  | sendRejection ht => exact hwrite ht
  | shutDown => rfl
  | failHandshake => rfl
  | _ => exact h

/-- Only by **closing the connection** does the reader get to winding up. -/
theorem ReaderStep.not_over {before after : Script} (hstep : ReaderStep c before c₁ after)
    (hbefore : before.isOver = false) (hmark : before ≠ [.markClosed, .takeWriter]) :
    after.isOver = false := by
  cases hstep with
  | goesOn _ _ _ hafter => exact hafter
  | offers _ _ _ hafter => exact hafter
  | @reads f =>
      obtain ⟨first, more, heq, hreacts⟩ := ofAssembled_head (c.assembly.feed f).2 []
      rw [List.append_nil] at heq
      exact (isOver_of_reacts heq hreacts).1
  | fails => rfl
  | ends => rfl
  | closes => exact absurd rfl hmark
  | givesBack _ _ hover => rw [hover] at hbefore; cases hbefore

/-- An action of the reader keeps what it has to release. -/
theorem Releasing.reader (h : c.Releasing) (htended : c.Tended) (hreach : Reachable c)
    (hreader : c.reader = action :: rest) (heffect : Effect c .reader action rest c₁ script) :
    (c₁.setScript .reader script).Releasing := by
  have hstep := htended.readerStep hreach hreader heffect
  by_cases hmark : action :: rest = [.markClosed, .takeWriter]
  · obtain ⟨rfl, rfl⟩ := List.cons.inj hmark
    cases heffect with
    | markClosed =>
        refine ⟨fun _ => ?_, fun _ => nofun, nofun⟩
        refine htended.writer fun hphase => ?_
        rw [htended.closed, hreader] at hphase
        cases hphase
  cases hover : Script.isOver (action :: rest) with
  | false => exact .of_isOver (hstep.not_over hover hmark)
  | true =>
      cases hreach.scripted.readerScript hreader with
      | releasing =>
          cases heffect with
          | queueUpToTake => exact ⟨fun _ => h.kept hreader, fun _ => nofun, nofun⟩
          | takeNothing _ hw => exact absurd hw (h.kept hreader)
          | takeWriter => exact ⟨nofun, fun _ _ => rfl, nofun⟩
      | shutting =>
          cases heffect with
          | shutBroken ht => exact absurd ht (Transport.write_ne_broken htended.unbroken)
          | shutDown => exact ⟨nofun, fun _ => nofun, fun _ => ⟨h.gone _ hreader, rfl⟩⟩
      | ponging _ hwrites => rw [(hwrites.not_over _).1] at hover; cases hover
      | closing hwrites => rw [(hwrites.not_over _).1] at hover; cases hover
      | _ => cases hover

/-- Every move after which the connection is intact keeps what the reader has to release. -/
theorem Releasing.transition (h : c.Releasing) (hintact : c.Intact) (hreach : Reachable c)
    (hmove : Transition c move c') (huncancelled : c'.cancelled = false) : c'.Releasing := by
  obtain ⟨task, action, rest, c₁, script, rfl, hscript, heffect, rfl⟩ | hact := hmove.act_or
  · cases task with
    | reader => exact h.reader hintact.toTended hreach hscript heffect
    | call id =>
        rw [setScript_cancelled] at huncancelled
        obtain ⟨hspares, -⟩ := hintact.spares hscript heffect huncancelled
        have hnot : action.negotiates = false := by
          refine Bool.eq_false_iff.mpr fun hnegotiates => ?_
          have hstage := hreach.staged.negotiating hscript hnegotiates
          rw [hintact.running] at hstage
          cases hstage
        refine ⟨fun heq => ?_, fun held heq => ?_, fun heq => ?_⟩ <;>
          rw [setScript_reader_of_call, hspares.reader] at heq
        · exact hspares.writer (h.kept heq)
        · exact heffect.writer_eq_none hnot (h.gone held heq)
        · obtain ⟨hwriter, hshut⟩ := h.shut heq
          exact ⟨heffect.writer_eq_none hnot hwriter, heffect.shut hshut⟩
  · cases hmove with
    | act => exact absurd rfl (hact _)
    | stopReader hcancelled => rw [hintact.uncancelled] at hcancelled; cases hcancelled
    | _ => exact ⟨h.kept, h.gone, h.shut⟩

/-! ### Runs -/

/-- A connection that has just opened has **sent no frame**. -/
theorem Transition.sent_of_opening (hmove : Transition c move c') (hreach : Reachable c)
    (hnot : c.phase ≠ .opened) (hopen : c'.phase = .opened) : c'.sent = [] := by
  obtain ⟨task, action, rest, c₁, script, rfl, hscript, heffect, rfl⟩ | hact := hmove.act_or
  · rw [setScript_phase] at hopen
    obtain ⟨protocol, a, rfl⟩ := heffect.opens hnot hopen
    have hstage := hreach.staged.negotiating hscript rfl
    have hidle := hreach.staged.idle (by rw [hstage]; exact nofun)
    cases heffect with
    | establish =>
        rw [setScript_sent]
        exact hidle.sent
  · rw [(hmove.sent_of_ne_act hact).1] at hopen
    exact absurd hopen hnot

/-- In a run through the opening, the connection **begins afresh**, and what the peer sends from its
first byte on is a head and the stream of which nothing was read when the connection opened. -/
theorem opening_of_run {role : Role} {options : Options} {keys : Nat → Mask}
    {before after : List Move} {c₀ : Connection}
    (hbefore : (new role options keys).run before = some c₀) (hnot : c₀.phase ≠ .opened)
    (hopens : c₀.step move = some c₁) (hopen : c₁.phase = .opened)
    (hafter : c₁.run after = some c) :
    Fresh (peerBytes before) c₁ ∧ c.role = role ∧ c.options = options ∧
      ∃ head, Handshake.headProgress options.maxHandshakeSize
        (peerBytes (before ++ move :: after)) = .done head (c₁.unread ++ peerBytes after) := by
  have hnew := reachable_new role options keys
  obtain ⟨hsilent, hfresh⟩ :=
    (collected_of_run hbefore).opening (hnew.run hbefore) (transition_of_step hopens) hnot hopen
  obtain ⟨head, hhead⟩ := hfresh.unread
  have hsettings₁ := settings_of_run hnew
    (run_append_eq_some.mpr ⟨c₀, hbefore, run_cons_eq_some.mpr ⟨c₁, hopens, run_nil c₁⟩⟩)
  have hsettings := settings_of_run hnew
    (run_append_eq_some.mpr ⟨c₀, hbefore, run_cons_eq_some.mpr ⟨c₁, hopens, hafter⟩⟩)
  have hbytes : peerBytes (before ++ move :: after) = peerBytes before ++ peerBytes after := by
    rw [← List.singleton_append, peerBytes_append, peerBytes_append, peerBytes_singleton, hsilent,
      List.nil_append]
  rw [hsettings₁.2] at hhead
  refine ⟨hfresh, hsettings.1, hsettings.2, head, ?_⟩
  rw [hbytes]
  exact Handshake.headProgress_append hhead _

/-- Along a run of a connection that has just opened, with the peer there and the reader not told to
stop, **all accounts are kept**. -/
theorem replying_of_run {sent : Bytes} (hfresh : Fresh sent c₁) (hsent : c₁.sent = [])
    (hreach : Reachable c₁) (hrun : c₁.run moves = some c) (hunbroken : c.transport.broken = false)
    (huncancelled : c.cancelled = false) :
    c.Intact ∧ Telling (c₁.unread ++ peerBytes moves) c ∧ Replying (c₁.looks moves) c ∧
      c.Releasing := by
  refine run_induction (P := fun moves x => x.transport.broken = false → x.cancelled = false →
    x.Intact ∧ Telling (c₁.unread ++ peerBytes moves) x ∧ Replying (c₁.looks moves) x ∧
      x.Releasing) ?_ ?_ hrun hunbroken huncancelled
  · intro hunbroken _
    refine ⟨(hfresh.healthy hunbroken).intact, ?_, ⟨?_, ?_⟩, .of_isOver ?_⟩
    · rw [show peerBytes [] = [] from rfl, List.append_nil]
      exact .start hfresh.assembly hfresh.offered hfresh.reader rfl
    · rw [hfresh.offered, hfresh.reader]
      rfl
    · rw [sentBy, hsent, hfresh.reader]
      rfl
    · rw [hfresh.reader]
      rfl
  · intro before c₂ move c₃ hbefore ih hstep hunbroken huncancelled
    have hmove := transition_of_step hstep
    obtain ⟨hintact, htelling, hreplying, hreleasing⟩ :=
      ih (hmove.unbroken hunbroken) (hmove.uncancelled huncancelled)
    have hreach₂ := hreach.run hbefore
    have hlooks : c₁.looks (before ++ [move]) = c₁.looks before ++ (c₂.look? move).toList := by
      rw [looks, trace_append hbefore, trace_singleton hstep]
      rfl
    rw [peerBytes_append, peerBytes_singleton, ← List.append_assoc, hlooks]
    exact ⟨hintact.transition hreach₂ hmove huncancelled hunbroken,
      htelling.transition hintact hreach₂ hmove huncancelled,
      hreplying.transition hintact hreach₂ hmove huncancelled,
      hreleasing.transition hintact hreach₂ hmove huncancelled⟩

/-- **What the reader has written**, given the occasions of the stream so far and whether the stream
has stopped, and given the looks that the reader took. -/
structure Replies (occasions : List Occasion) (stopped : Bool) (looks : List Look)
    (c : Connection) : Prop where
  /-- The reader looks at the occasions **in order**, each once. -/
  ordered : looks.map Look.occasion <+: occasions
  /-- It writes **the frames called for** by those that it takes, and no others. -/
  written : c.sentBy .reader ++ c.reader.cargo = replies looks
  /-- When everything is at rest and there is room for events, **nothing is left to do**, and behind
  the end of the stream the reader has ended. -/
  atRest : c.isQuiet = true → c.transport.stalled = false → c.events.length < c.capacity →
    looks.map Look.occasion = occasions ∧ c.sentBy .reader = replies looks ∧
      (stopped = true ∨ c.transport.ending ≠ none → c.reader = [])
  /-- A reader that has ended has looked at all occasions, **shut the transport down** and closed
  the connection. -/
  ended : c.reader = [] → looks.map Look.occasion = occasions ∧ c.sentBy .reader = replies looks ∧
    c.transport.shut = true ∧ c.phase = .closed

/-- The reader of a quiet connection does not wait for room that **there is**. -/
theorem full_of_quiet (hquiet : c.isQuiet = true) {item : Except ConnectionError Event}
    (hreader : c.reader = .offer item :: rest) : c.capacity ≤ c.events.length := by
  have hnone := perform_of_act ((act_of_quiet hquiet).2 .reader) hreader
  by_contra hroom
  simp only [perform, offerEvent, if_pos (Nat.lt_of_not_le hroom)] at hnone
  cases hnone

/-- The accounts together say **what the reader has written**. -/
theorem Replying.replies {looks : List Look} {b : Bytes} (h : Replying looks c)
    (htelling : Telling b c) (hintact : c.Intact) (hreleasing : c.Releasing)
    (hreach : Reachable c) :
    Replies ((c.outlook b).items.filterMap Occasion.ofItem?) (c.outlook b).stopped looks c := by
  have hall : (c.outlook b).items = c.offered.reverse → c.reader.ahead = [] →
      c.reader.outlook.items = [] →
        looks.map Look.occasion = (c.outlook b).items.filterMap Occasion.ofItem? := by
    intro houtlook hahead hitems
    have hmet := h.met
    rw [hahead, hitems, List.append_nil, List.append_nil] at hmet
    rw [houtlook, hmet]
  have hended : c.reader = [] →
      looks.map Look.occasion = (c.outlook b).items.filterMap Occasion.ofItem? ∧
        c.sentBy .reader = Connection.replies looks := by
    intro hreader
    refine ⟨?_, ?_⟩
    · cases htelling with
      | going hgoing =>
          have hwhole := hgoing []
          rw [List.append_nil, hreader] at hwhole
          refine hall ?_ (by rw [hreader]; rfl) (by rw [hreader]; rfl)
          rw [hwhole]
          exact List.append_nil _
      | ended _ _ houtlook =>
          exact hall (by rw [houtlook]) (by rw [hreader]; rfl) (by rw [hreader]; rfl)
    · have hwritten := h.written
      rw [hreader] at hwritten
      exact (List.append_nil _).symm.trans hwritten
  refine ⟨?_, h.written, fun hquiet hstalled hroom => ?_, fun hreader => ?_⟩
  · cases htelling with
    | going hgoing =>
        have hwhole := hgoing []
        rw [List.append_nil, Outlook.mk_false_andThen] at hwhole
        have hitems : ∃ later, (c.outlook b).items =
            c.offered.reverse ++ c.reader.outlook.items ++ later := by
          rw [hwhole, Outlook.andThen]
          split
          · exact ⟨[], by simp⟩
          · exact ⟨_, (List.append_assoc _ _ _).symm⟩
        obtain ⟨later, hitems⟩ := hitems
        rw [hitems, List.filterMap_append, ← h.met, List.append_assoc]
        exact List.prefix_append _ _
    | ended hover _ houtlook =>
        have hmet := h.met
        rw [hover, List.append_nil] at hmet
        rw [houtlook, ← hmet]
        exact List.prefix_append _ _
  · obtain hreader | ⟨item, more, hreader, -⟩ | ⟨hreader, hd, hend⟩ :=
      reader_of_quiet hreach.locked hreach.scripted hquiet hstalled
    · obtain ⟨hlooks, hsent⟩ := hended hreader
      exact ⟨hlooks, hsent, fun _ => hreader⟩
    · exact absurd hroom (Nat.not_lt.mpr (full_of_quiet hquiet hreader))
    · have houtlook := htelling.outlook_of_reading hreader (act_of_quiet hquiet).1 hd
      refine ⟨hall (by rw [houtlook]) (by rw [hreader]; rfl) (by rw [hreader]; rfl), ?_, ?_⟩
      · have hwritten := h.written
        rw [hreader] at hwritten
        exact (List.append_nil _).symm.trans hwritten
      · rintro (hstopped | hends)
        · rw [houtlook] at hstopped
          cases hstopped
        · exact absurd hend hends
  · obtain ⟨hlooks, hsent⟩ := hended hreader
    exact ⟨hlooks, hsent, (hreleasing.shut hreader).2,
      hintact.closed.mpr (by rw [hreader]; rfl)⟩

end Connection

end WebSocket
