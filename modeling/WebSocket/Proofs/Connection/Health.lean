import WebSocket.Proofs.Connection.Outlook
import WebSocket.Proofs.Connection.Sendable
import WebSocket.Proofs.Connection.Stages

/-!
# Connections that nobody disturbs

As long as the application does not tear a connection down and the peer is there to be written to,
the connection comes to its end in one way only: the reader reaches the end of what it has to tell.
Until then there is a writer, so that no frame is lost and the reader never stops for want of one.

## Main results

* `Connection.Healthy.transition`: a healthy connection **stays healthy** in every ordinary move.
-/

namespace WebSocket

/-! ### What nobody is disturbed by -/

/-- The actions of operations that leave the end of a connection **to its reader**. -/
def Action.isOrdinary : Action → Bool
  | .answer _ | .refuse | .ensureOpen | .beginClosing | .enlist _ | .startWaiting | .abandon
  | .takeEvent | .awaitPong _ | .beginConnecting .. | .beginAccepting => true
  | .claimClose _ recovery | .lockWriter _ recovery | .feed _ recovery | .flush recovery =>
    recovery == .report
  | _ => false

/-- The operations that neither tear a connection down nor take its events **other than by
receiving**. -/
def Operation.isOrdinary : Operation → Bool
  | .next | .drain | .abort => false
  | _ => true

theorem Operation.isOrdinary_script {operation : Operation} (h : operation.isOrdinary = true)
    (size : Nat) : ∀ b ∈ Script.ofOperation size operation, b.isOrdinary = true := by
  cases operation with
  | next => cases h
  | drain => cases h
  | abort => cases h
  | ping payload =>
      simp only [Script.ofOperation]
      split <;> simp [Action.isOrdinary, Script.writing]
  | close code reason =>
      simp only [Script.ofOperation]
      split <;> simp [Action.isOrdinary]
  | _ => simp [Script.ofOperation, Script.sending, Script.writing, Action.isOrdinary]

/-- Whether a script of the reader has **closed the connection** already. -/
def Script.isOver : Script → Bool
  | [] | .takeWriter :: _ | .shutDown _ :: _ => true
  | _ => false

namespace Connection

variable {c c' c₁ : Connection} {task : TaskId} {action : Action} {rest script : Script}
  {move : Move}

/-- The moves after which the peer is **still there** and nobody tears the connection down. -/
def Move.isOrdinary : Move → Bool
  | .start _ operation => operation.isOrdinary
  | .peerGone => false
  | _ => true

/-- A connection that is **not disturbed**: its stream of frames has begun, the peer is there to be
written to, and nobody but the reader can bring it to its end. -/
structure Healthy (c : Connection) : Prop where
  running : c.stage = .running
  unbroken : c.transport.broken = false
  uncancelled : c.cancelled = false
  writer : c.phase ≠ .closed → c.writer ≠ none
  closed : c.phase = .closed ↔ c.reader.isOver = true
  finishing : ∀ more, c.reader = .markClosed :: more → more = [.takeWriter]
  calls : ∀ id, ∀ b ∈ c.script (.call id), b.isOrdinary = true

/-- A connection whose end is **left to its reader**, who can write until then. -/
structure Tended (c : Connection) : Prop where
  running : c.stage = .running
  unbroken : c.transport.broken = false
  writer : c.phase ≠ .closed → c.writer ≠ none
  closed : c.phase = .closed ↔ c.reader.isOver = true
  finishing : ∀ more, c.reader = .markClosed :: more → more = [.takeWriter]

theorem Healthy.tended (h : c.Healthy) : c.Tended :=
  ⟨h.running, h.unbroken, h.writer, h.closed, h.finishing⟩

/-! ### Operations -/

/-- What an ordinary operation **leaves alone**: what belongs to the reader, and the writer. -/
structure Spares (c c₁ : Connection) : Prop where
  stage : c₁.stage = c.stage
  closed : c₁.phase = .closed ↔ c.phase = .closed
  writer : c.writer ≠ none → c₁.writer ≠ none
  cancelled : c₁.cancelled = c.cancelled
  reader : c₁.reader = c.reader
  buffer : c₁.buffer = c.buffer
  assembly : c₁.assembly = c.assembly
  offered : c₁.offered = c.offered

theorem Spares.refl (c : Connection) : Spares c c :=
  ⟨rfl, Iff.rfl, id, rfl, rfl, rfl, rfl, rfl⟩

theorem ordinary_recover {recovery : Recovery} (hrecovery : (recovery == .report) = true)
    (e : ConnectionError) (rest : Script) :
    ∀ b ∈ Script.recover recovery e rest, b.isOrdinary = true ∨ b ∈ rest := by
  rw [eq_of_beq hrecovery]
  simp [Script.recover, Action.isOrdinary]

/-- An **ordinary action** of an operation leaves the reader alone, and puts only ordinary actions
in front of what was still to be done. -/
theorem Tended.spares (h : c.Tended) {id : Nat} (haction : action.isOrdinary = true)
    (heffect : Effect c (.call id) action rest c₁ script) :
    Spares c c₁ ∧ ∀ b ∈ script, b.isOrdinary = true ∨ b ∈ rest := by
  have hrunning := h.running
  have hrest : ∀ b ∈ rest, b.isOrdinary = true ∨ b ∈ rest := fun _ hb => .inr hb
  have hkept : ∀ {b : Action}, b.isOrdinary = true →
      ∀ b' ∈ b :: rest, b'.isOrdinary = true ∨ b' ∈ rest :=
    fun hb => List.forall_mem_cons.mpr ⟨.inl hb, hrest⟩
  cases heffect with
  | beginClosing hopen =>
      refine ⟨{ Spares.refl c with closed := ?_ }, hrest⟩
      rw [hopen]
      exact ⟨nofun, nofun⟩
  | claimClose => exact ⟨{ Spares.refl c with }, hkept haction⟩
  | queueUp => exact ⟨{ Spares.refl c with }, hkept haction⟩
  | startWriting => exact ⟨{ Spares.refl c with }, hkept haction⟩
  | lockInVain => exact ⟨{ Spares.refl c with }, ordinary_recover haction _ _⟩
  | fedAll => exact ⟨{ Spares.refl c with writer := fun _ => nofun }, hkept haction⟩
  | feedInVain => exact ⟨{ Spares.refl c with }, ordinary_recover haction _ _⟩
  | makeRoom => exact ⟨{ Spares.refl c with writer := fun _ => nofun }, hkept haction⟩
  | failToMakeRoom _ _ ht => exact absurd ht (Transport.write_ne_broken h.unbroken)
  | refuseFrame =>
      exact ⟨{ Spares.refl c with writer := fun _ => nofun }, ordinary_recover haction _ _⟩
  | feed => exact ⟨{ Spares.refl c with writer := fun _ => nofun }, hkept haction⟩
  | flushInVain => exact ⟨{ Spares.refl c with }, ordinary_recover haction _ _⟩
  | flush => exact ⟨{ Spares.refl c with writer := fun _ => nofun }, hrest⟩
  | failToFlush _ ht => exact absurd ht (Transport.write_ne_broken h.unbroken)
  | beginConnecting hstage => rw [hrunning] at hstage; cases hstage
  | failToBuild hstage => rw [hrunning] at hstage; cases hstage
  | beginAccepting hstage => rw [hrunning] at hstage; cases hstage
  | _ => first
      | (cases haction; done)
      | exact ⟨{ Spares.refl c with }, hrest⟩
      | exact ⟨{ Spares.refl c with }, by simp [Action.isOrdinary]⟩

/-- An **ordinary operation** goes on with ordinary actions, and leaves the reader alone. -/
theorem Healthy.spares (h : c.Healthy) {id : Nat} (hscript : c.script (.call id) = action :: rest)
    (heffect : Effect c (.call id) action rest c₁ script) :
    Spares c c₁ ∧ ∀ b ∈ script, b.isOrdinary = true := by
  have hordinary := h.calls id
  rw [hscript] at hordinary
  obtain ⟨haction, hrest⟩ := List.forall_mem_cons.mp hordinary
  obtain ⟨hspares, hscript'⟩ := h.tended.spares haction heffect
  exact ⟨hspares, fun b hb => (hscript' b hb).elim (fun hb => hb) (hrest b)⟩

/-! ### The reader -/

/-- While there is a writer and the peer is there, **writing goes on**, or it is done. The writer is
kept. -/
theorem Writes.next_of_writer {frames : List Frame} {recovery : Recovery}
    (hwrites : Writes frames recovery action) (heffect : Effect c task action rest c₁ script)
    (hsendable : c.Sendable) (hwriter : c.writer ≠ none) (hunbroken : c.transport.broken = false) :
    Spares c c₁ ∧ c₁.events = c.events ∧
      ((∃ action', Writes frames recovery action' ∧ script = action' :: rest) ∨ script = rest) := by
  cases hwrites with
  | lock =>
      cases heffect with
      | queueUp => exact ⟨{ Spares.refl c with }, rfl, Or.inl ⟨_, .lock, rfl⟩⟩
      | startWriting =>
          exact ⟨{ Spares.refl c with }, rfl, Or.inl ⟨_, .feed (List.suffix_refl frames), rfl⟩⟩
      | lockInVain _ hw => exact absurd hw hwriter
  | feed hmore =>
      cases heffect with
      | fedAll =>
          exact ⟨{ Spares.refl c with writer := fun _ => nofun }, rfl, Or.inl ⟨_, .flush, rfl⟩⟩
      | feedInVain hw => exact absurd hw hwriter
      | makeRoom =>
          exact ⟨{ Spares.refl c with writer := fun _ => nofun }, rfl, Or.inl ⟨_, .feed hmore, rfl⟩⟩
      | failToMakeRoom _ _ ht => exact absurd ht (Transport.write_ne_broken hunbroken)
      | refuseFrame hw _ he => exact absurd he (hsendable.emptySlot_ne_error hw)
      | feed =>
          exact ⟨{ Spares.refl c with writer := fun _ => nofun }, rfl,
            Or.inl ⟨_, .feed ((List.suffix_cons _ _).trans hmore), rfl⟩⟩
  | flush =>
      cases heffect with
      | flushInVain hw => exact absurd hw hwriter
      | flush =>
          exact ⟨{ Spares.refl c with writer := fun _ => nofun }, rfl, Or.inr rfl⟩
      | failToFlush _ ht => exact absurd ht (Transport.write_ne_broken hunbroken)

theorem Writes.not_over {frames : List Frame} {recovery : Recovery}
    (h : Writes frames recovery action) (rest : Script) :
    Script.isOver (action :: rest) = false ∧ action ≠ .markClosed := by
  cases h <;> exact ⟨rfl, nofun⟩

theorem outlook_writes {frames : List Frame} {recovery : Recovery}
    (h : Writes frames recovery action) :
    Script.outlook (action :: rest) = Script.outlook rest := by
  cases h <;> rfl

/-- **What the reader does** in a tended connection: it goes on, offers an item, reads, ends its
reading, or closes the connection and gives the writer back. -/
inductive ReaderStep (c : Connection) : Script → Connection → Script → Prop
  | goesOn {before after : Script} {c₁ : Connection} (hspares : Spares c c₁)
      (hevents : c₁.events = c.events) (hbefore : before.isOver = false)
      (hafter : after.isOver = false) (hmark : ∀ more, after ≠ .markClosed :: more)
      (houtlook : after.outlook = before.outlook) : ReaderStep c before c₁ after
  | offers {item : Except ConnectionError Event} {rest : Script} {c₁ : Connection}
      (hevents : c₁.events = c.events ++ [item]) (hoffered : c₁.offered = item :: c.offered)
      (hspares : Spares c { c₁ with offered := c.offered }) (hafter : rest.isOver = false)
      (hmark : ∀ more, rest = .markClosed :: more → more = [.takeWriter]) :
      ReaderStep c (.offer item :: rest) c₁ rest
  | reads {f : Frame} {buffer : Bytes} (hd : c.codec.decode c.buffer = .found f buffer) :
      ReaderStep c [.readFrame] { c with buffer := buffer, assembly := (c.assembly.feed f).1 }
        (Script.ofAssembled (c.assembly.feed f).2)
  | fails {fault : Fault} (hd : c.codec.decode c.buffer = .fault fault) :
      ReaderStep c [.readFrame] c (Script.ofFault fault)
  | ends (hd : c.codec.decode c.buffer = .incomplete) (hend : c.transport.isExhausted = true) :
      ReaderStep c [.readFrame] c [.markClosed, .takeWriter]
  | closes : ReaderStep c [.markClosed, .takeWriter] c.closed [.takeWriter]
  | givesBack {before after : Script} {c₁ : Connection}
      (hspares : Spares c { c₁ with writer := c.writer }) (hevents : c₁.events = c.events)
      (hbefore : before.isOver = true) (hafter : after.isOver = true)
      (houtlook : after.outlook = before.outlook) : ReaderStep c before c₁ after

/-- Whatever the reader of a tended connection does is one of these steps. -/
theorem Tended.readerStep (h : c.Tended) (hreach : Reachable c)
    (hreader : c.reader = action :: rest) (heffect : Effect c .reader action rest c₁ script) :
    ReaderStep c (action :: rest) c₁ script := by
  have hsendable := hreach.sendable
  have hwriter : Script.isOver (action :: rest) = false → c.writer ≠ none := by
    intro hover
    refine h.writer fun hphase => ?_
    rw [h.closed, hreader, hover] at hphase
    cases hphase
  have hmark := h.finishing
  rw [hreader] at hmark
  cases hreach.scripted.readerScript hreader with
  | reading =>
      cases heffect with
      | readEnd hd hend => exact .ends hd hend
      | readFault hd => exact .fails hd
      | readFrame hd =>
          rw [List.append_nil]
          exact .reads hd
  | offering =>
      cases heffect with
      | offer => exact .offers rfl rfl { Spares.refl c with } rfl nofun
  | answering hlength =>
      cases heffect with
      | answerPing => exact .goesOn (Spares.refl c) rfl rfl rfl nofun rfl
      | ignorePing => exact .goesOn (Spares.refl c) rfl rfl rfl nofun rfl
  | @ponging payload _ hlength hwrites =>
      have hover := hwrites.not_over [.offer (.ok (.ping payload)), .readFrame]
      obtain ⟨hspares, hevents, ⟨a, ha, rfl⟩ | rfl⟩ :=
        hwrites.next_of_writer heffect hsendable (hwriter hover.1) h.unbroken
      · refine .goesOn hspares hevents hover.1 (ha.not_over _).1 ?_ ?_
        · exact fun more heq => (ha.not_over more).2 (List.cons.inj heq).1
        · rw [outlook_writes ha, outlook_writes hwrites]
      · exact .goesOn hspares hevents hover.1 rfl nofun (outlook_writes hwrites).symm
  | resolving =>
      cases heffect with
      | resolvePings => exact .goesOn { Spares.refl c with } rfl rfl rfl nofun rfl
  | reporting =>
      cases heffect with
      | keepFault => exact .goesOn (Spares.refl c) rfl rfl rfl nofun rfl
      | reportFault => exact .goesOn (Spares.refl c) rfl rfl rfl nofun rfl
  | following =>
      cases heffect with
      | followClosing hopen =>
          refine .goesOn { Spares.refl c with closed := ?_ } rfl rfl rfl nofun rfl
          rw [hopen]
          exact ⟨nofun, nofun⟩
      | pastClosing => exact .goesOn (Spares.refl c) rfl rfl rfl nofun rfl
  | claiming =>
      cases heffect with
      | claimClose => exact .goesOn { Spares.refl c with } rfl rfl rfl nofun rfl
      | closeClaimed => exact .goesOn (Spares.refl c) rfl rfl rfl nofun rfl
  | @closing _ item _ hwrites =>
      have hover := hwrites.not_over [.offer item, .markClosed, .takeWriter]
      obtain ⟨hspares, hevents, ⟨a, ha, rfl⟩ | rfl⟩ :=
        hwrites.next_of_writer heffect hsendable (hwriter hover.1) h.unbroken
      · refine .goesOn hspares hevents hover.1 (ha.not_over _).1 ?_ ?_
        · exact fun more heq => (ha.not_over more).2 (List.cons.inj heq).1
        · rw [outlook_writes ha, outlook_writes hwrites]
      · exact .goesOn hspares hevents hover.1 rfl nofun (outlook_writes hwrites).symm
  | broken => cases hmark _ rfl
  | offeringLast =>
      cases heffect with
      | offer =>
          refine .offers rfl rfl { Spares.refl c with } rfl ?_
          rintro _ ⟨⟩
          rfl
  | brokenPong => cases hmark _ rfl
  | finishing =>
      cases heffect with
      | markClosed => exact .closes
  | releasing =>
      cases heffect with
      | queueUpToTake => exact .givesBack { Spares.refl c with } rfl rfl rfl rfl
      | takeNothing => exact .givesBack { Spares.refl c with } rfl rfl rfl rfl
      | takeWriter => exact .givesBack { Spares.refl c with } rfl rfl rfl rfl
  | shutting =>
      cases heffect with
      | shutBroken => exact .givesBack { Spares.refl c with } rfl rfl rfl rfl
      | shutDown => exact .givesBack { Spares.refl c with } rfl rfl rfl rfl

/-! ### Moves -/

/-- What the reader does about a frame neither ends the connection at once nor **begins with its
end**. -/
theorem isOver_of_reacts {script more : Script} (hscript : script = action :: more)
    (hreacts : reacts action = true) :
    script.isOver = false ∧ ∀ more, script ≠ .markClosed :: more := by
  subst hscript
  cases action with
  | readFrame | offer _ | answerPing _ | resolvePings _ | reportFault _ | followClosing =>
      exact ⟨rfl, nofun⟩
  | _ => cases hreacts

/-- A step of the reader keeps what makes a connection tended. -/
theorem Tended.of_readerStep (h : c.Tended) (hreader : c.reader = action :: rest)
    (hstep : ReaderStep c (action :: rest) c₁ script) :
    c₁.stage = .running ∧ c₁.cancelled = c.cancelled ∧ (c₁.phase ≠ .closed → c₁.writer ≠ none) ∧
      (c₁.phase = .closed ↔ script.isOver = true) ∧
      ∀ more, script = .markClosed :: more → more = [.takeWriter] := by
  have hover := h.closed
  rw [hreader] at hover
  have hopen : Script.isOver (action :: rest) = false → c.phase ≠ .closed := by
    intro hnot hphase
    rw [hover, hnot] at hphase
    cases hphase
  have hspared : ∀ {c₂ : Connection}, Spares c c₂ → c₂.stage = .running ∧
      c₂.cancelled = c.cancelled ∧ (c₂.phase ≠ .closed → c₂.writer ≠ none) := by
    intro c₂ hspares
    refine ⟨hspares.stage.trans h.running, hspares.cancelled, fun hphase => ?_⟩
    exact hspares.writer (h.writer fun hclosed => hphase (hspares.closed.mpr hclosed))
  have hgoing : ∀ {phase : Phase} {script' : Script}, (phase = .closed ↔ c.phase = .closed) →
      Script.isOver (action :: rest) = false → script'.isOver = false →
        (phase = .closed ↔ script'.isOver = true) := by
    intro phase script' hclosed hbefore hafter
    rw [hclosed, hover, hbefore, hafter]
  cases hstep with
  | goesOn hspares _ hbefore hafter hmark =>
      obtain ⟨hstage, hcancelled, hwriter⟩ := hspared hspares
      exact ⟨hstage, hcancelled, hwriter, hgoing hspares.closed hbefore hafter,
        fun more heq => absurd heq (hmark more)⟩
  | offers _ _ hspares hafter hmark =>
      obtain ⟨hstage, hcancelled, hwriter⟩ := hspared hspares
      exact ⟨hstage, hcancelled, hwriter, hgoing hspares.closed rfl hafter, hmark⟩
  | reads =>
      obtain ⟨first, more, heq, hreacts⟩ := ofAssembled_head (c.assembly.feed _).2 []
      rw [List.append_nil] at heq
      obtain ⟨hafter, hmark⟩ := isOver_of_reacts heq hreacts
      refine ⟨h.running, rfl, h.writer, ?_, fun more heq => absurd heq (hmark more)⟩
      exact hgoing Iff.rfl rfl hafter
  | fails =>
      exact ⟨h.running, rfl, h.writer, hgoing Iff.rfl rfl rfl, nofun⟩
  | ends =>
      refine ⟨h.running, rfl, h.writer, hgoing Iff.rfl rfl rfl, ?_⟩
      rintro _ ⟨⟩
      rfl
  | closes => exact ⟨h.running, rfl, fun hphase => absurd rfl hphase, ⟨fun _ => rfl,
      fun _ => rfl⟩, nofun⟩
  | givesBack hspares _ hbefore hafter =>
      have hphase : c₁.phase = .closed := hspares.closed.mpr (hover.mpr hbefore)
      refine ⟨hspares.stage.trans h.running, hspares.cancelled,
        fun hnot => absurd hphase hnot, ⟨fun _ => hafter, fun _ => hphase⟩, ?_⟩
      rintro more rfl
      cases hafter

/-- While the peer is there, a connection stays tended when **its reader** acts. -/
theorem Tended.act_reader (h : c.Tended) (hreach : Reachable c)
    (hscript : c.script .reader = action :: rest) (heffect : Effect c .reader action rest c₁ script)
    (hunbroken : c₁.transport.broken = false) :
    (c₁.setScript .reader script).Tended ∧ c₁.cancelled = c.cancelled := by
  have hstep := h.readerStep hreach hscript heffect
  obtain ⟨hstage, hcancelled, hwriter, hover, hmark⟩ := h.of_readerStep hscript hstep
  exact ⟨⟨hstage, hunbroken, hwriter, hover, hmark⟩, hcancelled⟩

/-- While the peer is there, a connection stays tended when an operation acts that **spares** the
reader. -/
theorem Tended.act_call (h : c.Tended) (hspares : Spares c c₁)
    (hunbroken : c₁.transport.broken = false) (id : Nat) (script : Script) :
    (c₁.setScript (.call id) script).Tended := by
  refine ⟨hspares.stage.trans h.running, hunbroken, fun hphase => ?_, ?_, ?_⟩
  · exact hspares.writer (h.writer fun hclosed => hphase (hspares.closed.mpr hclosed))
  · rw [setScript_phase, setScript_reader_of_call, hspares.closed, hspares.reader]
    exact h.closed
  · rw [setScript_reader_of_call, hspares.reader]
    exact h.finishing

/-- While the peer is there, a connection stays tended when **nobody acts**, unless the reader is
stopped. -/
theorem Tended.of_ne_act (h : c.Tended) (hreach : Reachable c) (hmove : Transition c move c')
    (hact : ∀ task, move ≠ .act task) (hstop : move ≠ .stopReader)
    (hunbroken : c'.transport.broken = false) : c'.Tended := by
  have hrunning := hreach.staged.running h.running hmove
  cases hmove with
  | act => exact absurd rfl (hact _)
  | stopReader => exact absurd rfl hstop
  | _ => exact ⟨hrunning, hunbroken, h.writer, h.closed, h.finishing⟩

theorem Effect.broken (heffect : Effect c task action rest c₁ script) :
    c₁.transport.broken = c.transport.broken := by
  obtain ⟨_, _, heq⟩ := heffect.transport
  rw [heq]

/-- A healthy connection **stays healthy** in every ordinary move. -/
theorem Healthy.transition (h : c.Healthy) (hreach : Reachable c)
    (hordinary : move.isOrdinary = true) (hmove : Transition c move c') : c'.Healthy := by
  have hmove' := hmove
  cases hmove with
  | @act task action rest c₁ script hscript heffect =>
      have hunbroken := heffect.broken.trans h.unbroken
      have hcalls : ∀ id, .call id ≠ task → ∀ b ∈ (c₁.setScript task script).script (.call id),
          b.isOrdinary = true := by
        intro id hne
        obtain ⟨heq, -⟩ | ⟨-, heq⟩ | ⟨hreader, -⟩ := heffect.script_after hscript (.call id)
        · exact absurd heq hne
        · rw [heq]
          exact h.calls id
        · cases hreader
      cases task with
      | reader =>
          obtain ⟨htended, hcancelled⟩ := h.tended.act_reader hreach hscript heffect hunbroken
          exact ⟨htended.running, hunbroken, hcancelled.trans h.uncancelled, htended.writer,
            htended.closed, htended.finishing, fun id => hcalls id nofun⟩
      | call id =>
          obtain ⟨hspares, hscript'⟩ := h.spares hscript heffect
          have htended := h.tended.act_call hspares hunbroken id script
          refine ⟨htended.running, hunbroken, hspares.cancelled.trans h.uncancelled, htended.writer,
            htended.closed, htended.finishing, fun j => ?_⟩
          by_cases heq : j = id
          · subst heq
            rw [heffect.script_self hscript]
            exact hscript'
          · exact hcalls j fun hj => heq (TaskId.call.inj hj)
  | peerGone => cases hordinary
  | stopReader hcancelled => rw [h.uncancelled] at hcancelled; cases hcancelled
  | _ =>
      have htended := h.tended.of_ne_act hreach hmove' (fun _ => nofun) nofun h.unbroken
      refine ⟨htended.running, h.unbroken, h.uncancelled, htended.writer, htended.closed,
        htended.finishing, fun id => ?_⟩
      obtain heq | heq | ⟨_, operation, hstart, -, -, heq⟩ :=
        hmove'.script_of_ne_act (fun _ => nofun) (.call id)
      · rw [heq]
        exact h.calls id
      · rw [heq]
        exact fun _ hb => nomatch hb
      · rw [hstart] at hordinary
        rw [heq]
        exact Operation.isOrdinary_script hordinary _

end Connection

end WebSocket
