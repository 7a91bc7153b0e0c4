import WebSocket.Proofs.Connection.Intact
import WebSocket.Proofs.Connection.Opening
import WebSocket.Proofs.Connection.Quiet
import WebSocket.Proofs.Connection.Receipts
import WebSocket.Proofs.Connection.Settling

/-!
# Receiving

What a healthy connection offers to the application is what its stream has to tell, in order and
each item once. At every moment the items offered so far, then those that the reader is about to
offer, then those that the unread bytes tell, are what the whole stream tells
(`Connection.Telling`), whatever comes later. And the items offered so far are those received,
followed by those that still wait in the queue (`Connection.Delivering`).

## Main results

* `Connection.receipts_of_stream`: the receipts of a run are **what the stream tells**.
-/

namespace WebSocket

namespace Connection

variable {c c' c₁ : Connection} {task : TaskId} {action : Action} {rest script : Script}
  {move : Move} {moves : List Move} {b : Bytes}

/-! ### What is told -/

/-- What the **whole stream** of a connection tells, from its first byte on. -/
def outlook (c : Connection) (b : Bytes) : Outlook :=
  .ofStream c.codec (Assembly.fresh c.options.maxMessageSize) b

/-- What the **unread part** of the stream tells, with more bytes behind it. -/
def remaining (c : Connection) (more : Bytes) : Outlook :=
  .ofStream c.codec c.assembly (c.unread ++ more)

/-- **What was told so far**, of a stream of which some bytes have come: the rest is still to be
told, or the stream has ended in front of it. -/
inductive Telling (b : Bytes) (c : Connection) : Prop
  | going (h : ∀ more, c.outlook (b ++ more) =
      (Outlook.mk c.offered.reverse false).andThen (c.reader.outlook.andThen (c.remaining more)))
  | ended (hreader : c.reader.outlook = ⟨[], true⟩) (hend : c.transport.ending ≠ none)
      (h : c.outlook b = ⟨c.offered.reverse, false⟩)

/-- What a stream tells depends only on **what the connection was made with**. -/
theorem outlook_congr (hsettings : c'.role = c.role ∧ c'.options = c.options) (b : Bytes) :
    c'.outlook b = c.outlook b := by
  rw [outlook, outlook, codec, codec, hsettings.1, hsettings.2]

theorem remaining_congr (hsettings : c'.role = c.role ∧ c'.options = c.options)
    (hassembly : c'.assembly = c.assembly) {more : Bytes} (hunread : c'.unread = c.unread ++ more)
    (further : Bytes) : c'.remaining further = c.remaining (more ++ further) := by
  rw [remaining, remaining, codec, codec, hsettings.1, hsettings.2, hassembly, hunread,
    List.append_assoc]

/-- A connection that has just opened has **everything still to tell**. -/
theorem Telling.start {stream : Bytes}
    (hassembly : c.assembly = Assembly.fresh c.options.maxMessageSize) (hoffered : c.offered = [])
    (hreader : c.reader = [.readFrame]) (hunread : c.unread = stream) : Telling stream c := by
  refine .going fun more => ?_
  rw [hoffered, hreader, remaining, hassembly, hunread]
  rfl

/-- A move that changes **neither what was told nor what is still to be told** keeps the account,
with the bytes that came in the move. -/
theorem Telling.keep (h : Telling b c) {more : Bytes}
    (hsettings : c'.role = c.role ∧ c'.options = c.options) (hoffered : c'.offered = c.offered)
    (hreader : c'.reader.outlook = c.reader.outlook) (hassembly : c'.assembly = c.assembly)
    (hunread : c'.unread = c.unread ++ more)
    (hend : c.transport.ending ≠ none → c'.transport.ending ≠ none ∧ more = []) :
    Telling (b ++ more) c' := by
  cases h with
  | going h =>
      refine .going fun further => ?_
      rw [outlook_congr hsettings, List.append_assoc, h, hoffered, hreader,
        remaining_congr hsettings hassembly hunread]
  | ended hover hends h =>
      obtain ⟨hends', rfl⟩ := hend hends
      refine .ended (hreader.trans hover) hends' ?_
      rw [outlook_congr hsettings, List.append_nil, h, hoffered]

/-- A step of the reader **tells what it reads**, in order. -/
theorem Telling.readerStep (h : Telling b c) {before : Script} (hreader : c.reader = before)
    (hstep : ReaderStep c before c₁ script) (hsettings : c₁.role = c.role ∧ c₁.options = c.options)
    (hincoming : c₁.transport.incoming = c.transport.incoming)
    (hend : c₁.transport.ending = c.transport.ending) :
    Telling b (c₁.setScript .reader script) := by
  have hkeep : c₁.offered = c.offered → script.outlook = before.outlook →
      c₁.assembly = c.assembly → c₁.buffer = c.buffer →
        Telling b (c₁.setScript .reader script) := by
    intro hoffered houtlook hassembly hbuffer
    have hunread : c₁.unread = c.unread ++ [] := by
      rw [List.append_nil]
      exact congrArg₂ _ hbuffer hincoming
    have hkept : Telling (b ++ []) (c₁.setScript .reader script) :=
      h.keep hsettings hoffered (houtlook.trans (congrArg _ hreader.symm)) hassembly hunread
        fun hends => ⟨fun hnone => hends (hend.symm.trans hnone), rfl⟩
    rwa [List.append_nil] at hkept
  cases hstep with
  | goesOn hspares _ _ _ _ houtlook =>
      exact hkeep hspares.offered houtlook hspares.assembly hspares.buffer
  | closes => exact hkeep rfl rfl rfl rfl
  | givesBack hspares _ _ _ houtlook =>
      exact hkeep hspares.offered houtlook hspares.assembly hspares.buffer
  | @offers item _ _ _ hoffered hspares =>
      have houtlook :
          c.reader.outlook = ⟨item :: script.outlook.items, script.outlook.stopped⟩ := by
        rw [hreader]
        rfl
      cases h with
      | ended hover => rw [houtlook] at hover; cases hover
      | going h =>
          have hunread : c₁.unread = c.unread ++ [] := by
            rw [List.append_nil]
            exact congrArg₂ _ hspares.buffer hincoming
          refine .going fun more => ?_
          have hwhole := h more
          rw [houtlook, Outlook.cons_andThen, ← List.reverse_cons, ← hoffered,
            ← outlook_congr hsettings,
            show c.remaining more = c₁.remaining more from
              (remaining_congr hsettings hspares.assembly hunread more).symm] at hwhole
          exact hwhole
  | @reads f buffer hd =>
      cases h with
      | ended hover => rw [hreader] at hover; cases hover
      | going h =>
          refine .going fun more => ?_
          have hfound : c.codec.decode (c.unread ++ more) =
              .found f (buffer ++ c.transport.incoming ++ more) :=
            Codec.decode_append_of_found (Codec.decode_append_of_found hd _) more
          have hwhole := h more
          rw [hreader, remaining, Outlook.ofStream_of_found _ hfound,
            ← Script.outlook_ofAssembled] at hwhole
          exact hwhole
  | @fails fault hd =>
      cases h with
      | ended hover => rw [hreader] at hover; cases hover
      | going h =>
          refine .going fun more => ?_
          have hfault : c.codec.decode (c.unread ++ more) = .fault fault :=
            Codec.decode_append_of_fault (Codec.decode_append_of_fault hd _) more
          have hwhole := h more
          rw [hreader, remaining, Outlook.ofStream_of_fault _ hfault] at hwhole
          exact hwhole
  | ends hd hexhausted =>
      rw [Transport.isExhausted, Bool.and_eq_true, List.isEmpty_iff, Option.isSome_iff_ne_none]
        at hexhausted
      obtain ⟨hempty, hends⟩ := hexhausted
      cases h with
      | ended hover => rw [hreader] at hover; cases hover
      | going h =>
          refine .ended rfl hends ?_
          have hwhole := h []
          have hincomplete : c.codec.decode (c.unread ++ []) = .incomplete := by
            rwa [Connection.unread, hempty, List.append_nil, List.append_nil]
          rw [hreader, remaining, Outlook.ofStream_of_incomplete _ hincomplete,
            List.append_nil] at hwhole
          exact hwhole.trans (congrArg (Outlook.mk · false) (List.append_nil _))

/-- Every move after which the connection is intact keeps **the account of what was told**. -/
theorem Telling.transition (h : Telling b c) (hintact : c.Intact) (hreach : Reachable c)
    (hmove : Transition c move c') (huncancelled : c'.cancelled = false) :
    Telling (b ++ move.peerBytes) c' := by
  obtain ⟨task, action, rest, c₁, script, rfl, hscript, heffect, rfl⟩ | hact := hmove.act_or
  · rw [show Move.peerBytes (.act task) = [] from rfl]
    obtain ⟨outgoing, shut, htransport⟩ := heffect.transport
    have hincoming : c₁.transport.incoming = c.transport.incoming := by rw [htransport]
    have hend : c₁.transport.ending = c.transport.ending := by rw [htransport]
    cases task with
    | reader =>
        rw [List.append_nil]
        exact h.readerStep hscript (hintact.toTended.readerStep hreach hscript heffect)
          heffect.settings hincoming hend
    | call id =>
        rw [setScript_cancelled] at huncancelled
        obtain ⟨hspares, -⟩ := hintact.spares hscript heffect huncancelled
        refine h.keep heffect.settings hspares.offered (congrArg _ hspares.reader)
          hspares.assembly ?_ fun hends => ⟨fun hnone => hends (hend.symm.trans hnone), rfl⟩
        rw [List.append_nil]
        exact congrArg₂ _ hspares.buffer hincoming
  · have hunread := hmove.unread_of_ne_act hact
    have hsettings := hmove.settings
    cases hmove with
    | act => exact absurd rfl (hact _)
    | stopReader hcancelled => rw [hintact.uncancelled] at hcancelled; cases hcancelled
    | peerSend hopen =>
        exact h.keep hsettings rfl rfl rfl hunread fun hends => absurd hopen hends
    | peerEnd | peerGone => exact h.keep hsettings rfl rfl rfl hunread fun _ => ⟨nofun, rfl⟩
    | _ => exact h.keep hsettings rfl rfl rfl hunread fun hends => ⟨hends, rfl⟩

/-! ### What is received -/

/-- **What a move does to the event queue** of a healthy connection: nothing, or the reader puts an
item in, or somebody who receives takes the oldest one out. -/
inductive QueueStep (c : Connection) (move : Move) (c' : Connection) : Prop
  | same (hevents : c'.events = c.events) (hoffered : c'.offered = c.offered)
  | added {item : Except ConnectionError Event} (hreader : c.reader ≠ [])
      (hevents : c'.events = c.events ++ [item]) (hoffered : c'.offered = item :: c.offered)
  | taken {item : Except ConnectionError Event} {id : Nat} (hmove : move = .act (.call id))
      (hscript : c.script (.call id) = [.takeEvent]) (hevents : c.events = item :: c'.events)
      (hoffered : c'.offered = c.offered)

/-- Somebody who receives does **nothing else**. -/
theorem Scripted.takeEvent (h : c.Scripted) (hscript : c.script task = .takeEvent :: rest) :
    rest = [] := by
  cases task with
  | reader => cases h.readerScript hscript with
      | ponging _ hw => cases hw
      | closing hw => cases hw
  | call id =>
      obtain ⟨_, claim, -, -, hcall⟩ := h.callScript hscript
      cases hcall with
      | ordinary hordinary =>
          cases hordinary with
          | sending hw => cases hw
          | pinging _ hw => cases hw
          | closing _ hw => cases hw
          | receive => rfl
      | negotiating hnegotiating => cases hnegotiating

/-- Whatever an ordinary move does to the event queue is one of these. -/
theorem Healthy.queueStep (hhealthy : c.Healthy) (hreach : Reachable c)
    (hordinary : move.isOrdinary = true) (hmove : Transition c move c') :
    QueueStep c move c' ∧ (c.reader = [] → c'.reader = []) := by
  cases hmove with
  | @act task action rest c₁ script hscript heffect =>
      cases task with
      | reader =>
          have hreader : c.reader = action :: rest := hscript
          refine ⟨?_, fun hnil => nomatch hreader.symm.trans hnil⟩
          have hstep := hhealthy.tended.readerStep hreach hscript heffect
          cases hstep with
          | goesOn hspares hevents => exact .same hevents hspares.offered
          | offers hevents hoffered =>
              exact .added (fun hnil => nomatch hreader.symm.trans hnil) hevents hoffered
          | givesBack hspares hevents => exact .same hevents hspares.offered
          | _ => exact .same rfl rfl
      | call id =>
          obtain ⟨hspares, -⟩ := hhealthy.spares hscript heffect
          refine ⟨?_, fun hnil => hspares.reader.trans hnil⟩
          have haction := hhealthy.calls id
          rw [hscript, List.forall_mem_cons] at haction
          cases heffect with
          | takeItem _ hevents =>
              obtain rfl := hreach.scripted.takeEvent hscript
              exact .taken rfl hscript hevents rfl
          | takeNext => cases haction.1
          | discard => cases haction.1
          | offer => cases haction.1
          | _ => exact .same rfl rfl
  | stopReader => exact ⟨.same rfl rfl, fun _ => rfl⟩
  | _ => exact ⟨.same rfl rfl, id⟩

/-- The **receipts so far**: what was offered is what was received and what still waits, and whoever
learnt that there is no more learnt it when nothing waited and the reader had ended. -/
structure Delivering (got : List Answer) (taken : List (Except ConnectionError Event)) (ends : Nat)
    (c : Connection) : Prop where
  got : got = answersOf taken ends
  queue : c.offered.reverse = taken ++ c.events
  ends : 0 < ends → c.events = [] ∧ c.reader = []

theorem answersOf_append_item (items : List (Except ConnectionError Event))
    (item : Except ConnectionError Event) :
    answersOf items 0 ++ [answerOfItem item] = answersOf (items ++ [item]) 0 := by
  simp [answersOf]

theorem answersOf_append_end (items : List (Except ConnectionError Event)) (ends : Nat) :
    answersOf items ends ++ [.failed .connectionClosed] = answersOf items (ends + 1) := by
  simp [answersOf, List.replicate_succ']

/-- Every ordinary move keeps **the account of what was received**. -/
theorem Delivering.step {got : List Answer} {taken : List (Except ConnectionError Event)}
    {ends : Nat} (h : Delivering got taken ends c) (hhealthy : c.Healthy) (hreach : Reachable c)
    (hordinary : move.isOrdinary = true) (hstep : c.step move = some c') :
    ∃ taken' ends', Delivering (got ++ (c.receipt? move).toList) taken' ends' c' := by
  obtain ⟨hqueue, hreader⟩ := hhealthy.queueStep hreach hordinary (transition_of_step hstep)
  have hreceipt := receipt_cases hstep
  generalize c.receipt? move = receipt at hreceipt
  cases hreceipt with
  | nothing hnot =>
      refine ⟨taken, ends, ?_⟩
      rw [Option.toList_none, List.append_nil]
      cases hqueue with
      | same hevents hoffered =>
          refine ⟨h.got, by rw [hoffered, hevents, h.queue], fun hends => ?_⟩
          rw [hevents]
          exact ⟨(h.ends hends).1, hreader (h.ends hends).2⟩
      | added hnot hevents hoffered =>
          refine ⟨h.got, ?_, fun hends => absurd (h.ends hends).2 hnot⟩
          rw [hoffered, hevents, List.reverse_cons, h.queue, List.append_assoc]
      | taken hmove hscript => exact absurd hscript (hnot _ hmove)
  | @event id item hmove hscript hstage hevents =>
      have hends : ends = 0 := by
        by_contra hne
        have hempty := (h.ends (Nat.pos_of_ne_zero hne)).1
        rw [hevents] at hempty
        cases hempty
      subst hends
      refine ⟨taken ++ [item], 0, ?_, ?_, nofun⟩
      · rw [h.got]
        exact answersOf_append_item taken item
      · have hlength := congrArg List.length hevents
        rw [List.length_cons] at hlength
        cases hqueue with
        | same hevents' => rw [hevents'] at hlength; omega
        | added _ hevents' => rw [hevents', List.length_append] at hlength; omega
        | taken _ _ hevents' hoffered =>
            rw [hoffered, h.queue, hevents, List.append_assoc]
            rfl
  | last hmove hscript hend hstage hevents =>
      obtain ⟨hempty, hended⟩ := hend hhealthy.running
      refine ⟨taken, ends + 1, ?_, ?_, fun _ => ⟨hevents.trans hempty, hreader hended⟩⟩
      · rw [h.got]
        exact answersOf_append_end taken ends
      · cases hqueue with
        | same hevents' hoffered => rw [hoffered, hevents', h.queue]
        | added hnot => exact absurd hended hnot
        | taken _ _ hevents' => rw [hempty] at hevents'; cases hevents'
  | early _ _ hstage => rw [hhealthy.running] at hstage; cases hstage

/-! ### The whole run -/

/-- **What was received of a stream** that tells `o`: the items `taken`, and then word that there is
no more, `ends` times. -/
structure Receives (o : Outlook) (taken : List (Except ConnectionError Event)) (ends : Nat)
    (c : Connection) : Prop where
  /-- What was received is what the stream tells **first**. -/
  ordered : taken <+: o.items
  /-- Word that there is no more comes when **all was received**, and never before. -/
  atEnd : 0 < ends → taken = o.items ∧ (o.stopped = true ∨ c.transport.ending ≠ none) ∧
    c.phase = .closed
  /-- Whoever still waits when everything has come to rest waits for **bytes that have not come**.
  -/
  waiting : c.isQuiet = true → c.transport.stalled = false →
    ∀ id, c.script (.call id) = [.takeEvent] →
      taken = o.items ∧ o.stopped = false ∧ c.transport.ending = none
  /-- When all was received and no more can come, the connection **closes**. -/
  closed : c.isQuiet = true → c.transport.stalled = false → taken = o.items →
    (o.stopped = true ∨ c.transport.ending ≠ none) → c.phase = .closed ∧ c.reader = []

/-- What the reader of a quiet connection waits for has **nothing to tell** yet. -/
theorem Telling.outlook_of_reading (h : Telling b c) (hreader : c.reader = [.readFrame])
    (hincoming : c.transport.incoming = []) (hd : c.codec.decode c.buffer = .incomplete) :
    c.outlook b = ⟨c.offered.reverse, false⟩ := by
  cases h with
  | ended hover => rw [hreader] at hover; cases hover
  | going h =>
      have hwhole := h []
      have hincomplete : c.codec.decode (c.unread ++ []) = .incomplete := by
        rwa [Connection.unread, hincoming, List.append_nil, List.append_nil]
      rw [hreader, remaining, Outlook.ofStream_of_incomplete _ hincomplete,
        List.append_nil] at hwhole
      exact hwhole.trans (congrArg (Outlook.mk · false) (List.append_nil _))

/-- The two accounts together say **what was received of the stream**. -/
theorem Telling.receives {got : List Answer} {taken : List (Except ConnectionError Event)}
    {ends : Nat} (h : Telling b c) (hgot : Delivering got taken ends c) (hhealthy : c.Healthy)
    (hreach : Reachable c) : Receives (c.outlook b) taken ends c := by
  have hordered : ∃ later, (c.outlook b).items = taken ++ (c.events ++ later) := by
    cases h with
    | going h =>
        have hwhole := h []
        rw [List.append_nil, Outlook.mk_false_andThen] at hwhole
        rw [hwhole, hgot.queue]
        exact ⟨_, List.append_assoc _ _ _⟩
    | ended _ _ h =>
        rw [h, hgot.queue]
        exact ⟨[], by rw [List.append_nil]⟩
  obtain ⟨later, hitems⟩ := hordered
  have hrest : ∀ {P : Prop}, c.isQuiet = true → c.transport.stalled = false →
      (c.reader = [] → P) → (c.events ≠ [] → P) →
        (c.outlook b = ⟨c.offered.reverse, false⟩ → c.transport.ending = none → P) → P := by
    intro P hquiet hstalled hdone hfull hwaits
    obtain hended | ⟨_, _, -, hevents⟩ | ⟨hreader, hd, hend⟩ :=
      reader_of_quiet hreach.locked hreach.scripted hquiet hstalled
    · exact hdone hended
    · exact hfull hevents
    · exact hwaits (h.outlook_of_reading hreader (act_of_quiet hquiet).1 hd) hend
  refine ⟨⟨_, hitems.symm⟩, fun hends => ?_, fun hquiet hstalled id hscript => ?_,
    fun hquiet hstalled hall hend => ?_⟩
  · obtain ⟨hevents, hreader⟩ := hgot.ends hends
    have htaken : c.offered.reverse = taken := by rw [hgot.queue, hevents, List.append_nil]
    refine ⟨?_, ?_, hhealthy.closed.mpr (by rw [hreader]; rfl)⟩
    · cases h with
      | going h =>
          have hwhole := h []
          rw [List.append_nil, hreader] at hwhole
          rw [hwhole, ← htaken]
          exact (List.append_nil _).symm
      | ended _ _ h => rw [h, htaken]
    · cases h with
      | going h =>
          have hwhole := h []
          rw [List.append_nil, hreader] at hwhole
          rw [hwhole]
          exact Or.inl rfl
      | ended _ hends => exact Or.inr hends
  · obtain ⟨hevents, hreader⟩ := receiver_of_quiet hquiet hhealthy.running hscript
    refine hrest hquiet hstalled (absurd · hreader) (absurd hevents ·) fun hwhole hnone => ?_
    rw [hwhole]
    exact ⟨by rw [hgot.queue, hevents, List.append_nil], rfl, hnone⟩
  · have hempty : c.events ++ later = [] := by
      rw [← hall] at hitems
      exact List.self_eq_append_right.mp hitems
    refine hrest hquiet hstalled (fun hreader => ?_) (fun hevents => ?_) fun hwhole hnone => ?_
    · exact ⟨hhealthy.closed.mpr (by rw [hreader]; rfl), hreader⟩
    · exact absurd (List.append_eq_nil_iff.mp hempty).1 hevents
    · rw [hwhole, hnone] at hend
      obtain hstopped | hends := hend
      · cases hstopped
      · exact absurd rfl hends

/-- Along a run of a connection that has just opened, **both accounts are kept**. -/
theorem accounts_of_run {sent : Bytes} (hfresh : Fresh sent c₁) (hreach : Reachable c₁)
    (hunbroken : c₁.transport.broken = false) (hordinary : ∀ m ∈ moves, m.isOrdinary = true)
    (hrun : c₁.run moves = some c) :
    c.Healthy ∧ Telling (c₁.unread ++ peerBytes moves) c ∧
      ∃ taken ends, Delivering (c₁.receipts moves) taken ends c := by
  refine run_induction (P := fun moves x => (∀ m ∈ moves, m.isOrdinary = true) → x.Healthy ∧
    Telling (c₁.unread ++ peerBytes moves) x ∧
      ∃ taken ends, Delivering (c₁.receipts moves) taken ends x) ?_ ?_ hrun hordinary
  · refine fun _ => ⟨hfresh.healthy hunbroken, ?_, [], 0, rfl, ?_, nofun⟩
    · rw [show peerBytes [] = [] from rfl, List.append_nil]
      exact .start hfresh.assembly hfresh.offered hfresh.reader rfl
    · rw [hfresh.offered, hfresh.events]
      rfl
  -- neither account needs the other, but both need the connection to be healthy
  · intro before c₂ move c₃ hbefore ih hstep hordinary
    obtain ⟨hordinary, hlast⟩ := List.forall_mem_append.mp hordinary
    have hmove : move.isOrdinary = true := hlast move (List.mem_singleton_self move)
    obtain ⟨hhealthy, htelling, taken, ends, hgot⟩ := ih hordinary
    have hreach₂ := hreach.run hbefore
    have hreceipts : c₁.receipts (before ++ [move]) =
        c₁.receipts before ++ (c₂.receipt? move).toList := by
      rw [receipts_append hbefore, receipts_cons hstep, receipts, List.append_nil]
    rw [peerBytes_append, peerBytes_singleton, ← List.append_assoc, hreceipts]
    have hhealthy' := hhealthy.transition hreach₂ hmove (transition_of_step hstep)
    exact ⟨hhealthy',
      htelling.transition hhealthy.intact hreach₂ (transition_of_step hstep) hhealthy'.uncancelled,
      hgot.step hhealthy hreach₂ hmove hstep⟩

/-- What a connection was made with **stays the same** along a run. -/
theorem settings_of_run (hreach : Reachable c) (hrun : c.run moves = some c') :
    c'.role = c.role ∧ c'.options = c.options := by
  refine run_invariant (P := fun x => x.role = c.role ∧ x.options = c.options) ?_ hreach
    ⟨rfl, rfl⟩ hrun
  rintro x move x' - ⟨hrole, hoptions⟩ hmove
  exact ⟨hmove.settings.1.trans hrole, hmove.settings.2.trans hoptions⟩

/-- **The receipts of a run are what the stream tells.** From the moment at which a connection
opens, and as long as nobody tears it down and the peer is there to be written to, the receive
operations get the items that the bytes behind the peer's head tell: all of them, each once and in
order, and then word that there are no more. Neither the way in which the stream is cut, nor the
size of the event queue, nor what other operations do makes a difference. Left to itself the
connection comes to rest, so that whoever receives gets an answer as soon as there is one. -/
theorem receipts_of_stream {role : Role} {options : Options} {keys : Nat → Mask}
    {before after : List Move} {c₀ : Connection}
    (hbefore : (new role options keys).run before = some c₀) (hnot : c₀.phase ≠ .opened)
    (hopens : c₀.step move = some c₁) (hopen : c₁.phase = .opened)
    (hunbroken : c₁.transport.broken = false) (hordinary : ∀ m ∈ after, m.isOrdinary = true)
    (hafter : c₁.run after = some c) :
    ∃ head stream, Handshake.headProgress options.maxHandshakeSize
        (peerBytes (before ++ move :: after)) = .done head stream ∧
      (∃ taken ends, c₁.receipts after = answersOf taken ends ∧
        Receives (Outlook.ofStream ⟨role, options.maxFrameSize⟩
          (Assembly.fresh options.maxMessageSize) stream) taken ends c) ∧
      ∃ bound, ∀ moves c', (∀ m ∈ moves, m.isOwn = true) → c.run moves = some c' →
        moves.length ≤ bound := by
  have hnew := reachable_new role options keys
  have hreach₀ := hnew.run hbefore
  have hreach₁ := hreach₀.step hopens
  have hreach := hreach₁.run hafter
  have hmoves : (new role options keys).run (before ++ move :: after) = some c :=
    run_append_eq_some.mpr ⟨c₀, hbefore, run_cons_eq_some.mpr ⟨c₁, hopens, hafter⟩⟩
  obtain ⟨hsilent, hfresh⟩ :=
    (collected_of_run hbefore).opening hreach₀ (transition_of_step hopens) hnot hopen
  obtain ⟨head, hhead⟩ := hfresh.unread
  have hsettings₁ := settings_of_run hnew
    (run_append_eq_some.mpr ⟨c₀, hbefore, run_cons_eq_some.mpr ⟨c₁, hopens, run_nil c₁⟩⟩)
  have hsettings := settings_of_run hnew hmoves
  rw [hsettings₁.2] at hhead
  refine ⟨head, c₁.unread ++ peerBytes after, ?_, ?_, c.stepsLeft, fun moves c' hown hrun => ?_⟩
  · have hbytes : peerBytes (before ++ move :: after) = peerBytes before ++ peerBytes after := by
      rw [← List.singleton_append (x := move), peerBytes_append, peerBytes_append,
        peerBytes_singleton, hsilent, List.nil_append]
    rw [hbytes]
    exact Handshake.headProgress_append hhead _
  · obtain ⟨hhealthy, htelling, taken, ends, hgot⟩ :=
      accounts_of_run hfresh hreach₁ hunbroken hordinary hafter
    have hreceives := htelling.receives hgot hhealthy hreach
    rw [outlook, codec, hsettings.1, hsettings.2] at hreceives
    exact ⟨taken, ends, hgot.got, hreceives⟩
  · have := length_le_stepsLeft hreach hown hrun
    omega

/-- The moves by which a server gets a request with the **beginning of a frame** behind it, up to
the move that opens it. -/
def gluedMoves : List Move :=
  [.start 0 .accept, .act (.call 0), .peerSend (openingRequest ++ [0x81, 0x81, 0]),
    .read (openingRequest.length + 3), .act (.call 0), .act (.call 0)]

/-- The moves in which the rest of the frame and a close frame come, and somebody receives three
times. -/
def receivingMoves : List Move :=
  [.collect 0, .peerSend [0, 0, 0, 0x61, 0x88, 0x80, 0, 0, 0, 0], .read 10] ++
    List.replicate 3 (.act .reader) ++ [.start 1 .receive, .act (.call 1), .collect 1] ++
    List.replicate 10 (.act .reader) ++
    [.start 2 .receive, .act (.call 2), .collect 2, .start 3 .receive, .act (.call 3)]

theorem opened_of_gluedMoves :
    (((new .server {} fun _ => Mask.zero).run gluedMoves).bind fun c₀ =>
      (c₀.step (.act (.call 0))).map fun c₁ =>
        (c₀.phase, c₁.phase, c₁.transport.broken, (c₁.run receivingMoves).isSome,
          c₁.receipts receivingMoves)) =
      some (.connecting, .opened, false, true,
        [.event (.message (Message.ofText "a")), .event (.close none),
          .failed .connectionClosed]) := by
  decide +kernel

/-- Such a server receives the text, the end, and **word that there is no more**. -/
theorem receipts_of_stream_of_gluedMoves :
    ∃ c₀ c₁ c : Connection, (new .server {} fun _ => Mask.zero).run gluedMoves = some c₀ ∧
      c₀.step (.act (.call 0)) = some c₁ ∧ c₁.run receivingMoves = some c ∧
      c₁.receipts receivingMoves =
        [.event (.message (Message.ofText "a")), .event (.close none),
          .failed .connectionClosed] ∧
      ∃ stream taken ends, c₁.receipts receivingMoves = answersOf taken ends ∧
        Receives (Outlook.ofStream ⟨.server, Options.maxFrameSize {}⟩
          (Assembly.fresh (Options.maxMessageSize {})) stream) taken ends c := by
  obtain ⟨c₀, hbefore, hfacts⟩ := Option.bind_eq_some_iff.mp opened_of_gluedMoves
  obtain ⟨c₁, hopens, hfacts⟩ := Option.map_eq_some_iff.mp hfacts
  simp only [Prod.mk.injEq] at hfacts
  obtain ⟨hphase₀, hphase₁, hunbroken, hsome, hreceipts⟩ := hfacts
  obtain ⟨c, hafter⟩ := Option.isSome_iff_exists.mp hsome
  obtain ⟨-, stream, -, ⟨taken, ends, hgot, hreceives⟩, -⟩ :=
    receipts_of_stream hbefore (by rw [hphase₀]; exact nofun) hopens hphase₁ hunbroken
      (by decide) hafter
  exact ⟨c₀, c₁, c, hbefore, hopens, hafter, hreceipts, stream, taken, ends, hgot, hreceives⟩

end Connection

end WebSocket
