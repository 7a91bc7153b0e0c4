import WebSocket.Proofs.Connection.CloseCodes
import WebSocket.Proofs.Pair.Closing

/-!
# Two ends part

A client and a server face each other, and somebody has set about closing at one end or at both.
When both have to wait and the pipe has nothing more to carry, nothing is left to go out. So the
close frame of one end has come to the other, which has answered it or had sent one already, and
both have closed (`Pair.Closing.answers_of_quiet`). Who was the first at an end, which status it has
sent and what it has been told says `Pair.Parted`.

## Main results

* `Pair.parted_of_quiet`: when everything is quiet, **both ends have parted**: each has sent one
  close frame and got the one of the other, behind everything else that the other one has sent.
-/

namespace WebSocket

namespace Pair

open Connection

variable {p p₀ : Pair} {end_ : Role} {moves before after : List Move} {options : Role → Options}
  {keys : Role → Nat → Mask}

/-! ### When everything is quiet -/

/-- What cannot be carried is **nothing**, or the other end takes nothing more. -/
theorem left_of_carry (h : p.step (.carry end_ (p.get end_).transport.outgoing.length) = none) :
    (p.get end_).transport.outgoing = [] ∨
      (p.get end_.opposite).transport.ending ≠ none ∨ (p.get end_.opposite).released = true := by
  by_contra hnot
  rw [not_or, not_or, not_not, Bool.not_eq_true] at hnot
  obtain ⟨hfull, hgoes, hheld⟩ := hnot
  rw [step, if_pos ⟨List.length_pos_iff.mpr hfull, Nat.le_refl _⟩] at h
  simp [Connection.step, hgoes, hheld] at h

namespace Closing

/-- Each end, as if the other one were still there, **has to wait as well**. -/
theorem quiet_mended (h : Closing options keys moves p) (hquiet : p.isQuiet = true) (end_ : Role) :
    (p.get end_).mended.isQuiet = true :=
  (isQuiet_mended (h.silent end_)).trans (quiet_end hquiet end_).1

/-- When everything is quiet, **nothing is left to go out**. -/
theorem pending_of_quiet (h : Closing options keys moves p) (hquiet : p.isQuiet = true)
    (hstalled : (p.get end_).transport.stalled = false) : (p.get end_).pending = [] := by
  obtain hempty | hends | hreleased := left_of_carry (quiet_end hquiet end_).2
  · have hheld : (p.get end_).held = [] :=
      (h.facing.course end_).held_of_quiet (h.quiet_mended hquiet end_) hstalled
    rw [pending, hempty, hheld]
    rfl
  · have hended := h.facing.ended end_.opposite hends
    rw [Role.opposite_opposite] at hended
    exact hended.2
  · exact (h.spent_of_closed end_ (h.closed_of_left end_.opposite (.inr hreleased)).1).2

/-- An end that gets the close frame of the other one **answers it and closes**. -/
theorem answers_of_quiet (h : Closing options keys moves p) (hquiet : p.isQuiet = true)
    (hstalled : ∀ end_, (p.get end_).transport.stalled = false)
    (hroom : (p.get end_).events.length < (p.get end_).capacity)
    (hsigned : (p.get end_.opposite).Signed) :
    (p.get end_).Signed ∧ (p.get end_).phase = .closed ∧ (p.get end_).reader = [] := by
  have hcourse := h.facing.course end_
  have hquiet' := h.quiet_mended hquiet end_
  have hspent : (p.get end_.opposite).Spent :=
    ⟨hsigned, h.pending_of_quiet hquiet (hstalled end_.opposite)⟩
  have hreader : (p.get end_).reader = [] :=
    h.facing.ended_of_quiet end_ hspent hquiet' (hstalled end_) hroom
  have hclosed : (p.get end_).phase = .closed :=
    hcourse.living.closed_of_ended hcourse.begun hreader
  have hidle := cargo_of_quiet hcourse.reach hquiet' (hstalled end_)
  exact ⟨h.facing.signed_of_closed end_ hclosed hidle, hclosed, hreader⟩

/-- The close frame of **one end** closes both: the other one answers it, and is answered itself. -/
theorem all_answer (h : Closing options keys moves p) (hquiet : p.isQuiet = true)
    (hstalled : ∀ end_, (p.get end_).transport.stalled = false)
    (hroom : ∀ end_, (p.get end_).events.length < (p.get end_).capacity)
    (hsigned : (p.get end_).Signed) (other : Role) :
    (p.get other).Signed ∧ (p.get other).phase = .closed ∧ (p.get other).reader = [] := by
  have hopposite := (h.answers_of_quiet hquiet hstalled (hroom end_.opposite)
    (by rwa [Role.opposite_opposite])).1
  refine h.answers_of_quiet hquiet hstalled (hroom other) ?_
  obtain heq | heq := eq_or_eq_opposite end_ other.opposite
  · rwa [heq]
  · rwa [heq]

/-- An end where somebody has set about closing **has sent its close frame** when everything is
quiet. -/
theorem signed_of_start (h : Closing options keys (before ++ after) p) (hquiet : p.isQuiet = true)
    (hstalled : (p.get end_).transport.stalled = false) (hopen : (p₀.get end_).phase = .opened)
    (hafter : p₀.run after = some p) {id : Nat} {code : Close.Code} {reason : String}
    (hcode : code.isReserved = false) (hmem : .on end_ (.start id (.close code reason)) ∈ after) :
    (p.get end_).Signed := by
  have hcourse := h.facing.course end_
  have hquiet' := h.quiet_mended hquiet end_
  obtain hending | ⟨rest, hscript⟩ := closes_of_start (by rw [hopen]; exact nofun)
    (run_view hafter end_) hcode (mem_view hafter hmem)
  · cases hphase : (p.get end_).phase with
    | closing => exact hcourse.signed_of_quiet hquiet' hstalled hphase
    | closed =>
        exact h.facing.signed_of_closed end_ hphase (cargo_of_quiet hcourse.reach hquiet' hstalled)
    | connecting | opened => rw [hphase] at hending; cases hending
  · have hnone := perform_of_act ((act_of_quiet (quiet_end hquiet end_).1).2 (.call id)) hscript
    rw [perform] at hnone
    split at hnone <;> cases hnone

end Closing

/-- The closers of one end come **first** among those in a longer run. -/
theorem closers_isPrefix (hbefore : (fresh options keys).run before = some p₀) :
    (fresh options keys).closers end_ before <+:
      (fresh options keys).closers end_ (before ++ after) := by
  rw [closers, closers, view_append hbefore, Connection.closers, Connection.closers,
    trace_append (run_view hbefore end_)]
  exact List.prefix_append _ _

/-- A reader that gets a close frame before anybody has been asked to close **is the closer**. -/
theorem reader_closes (hbefore : (fresh options keys).run before = some p₀)
    (hopen : ∀ end_, (p₀.get end_).phase = .opened) (h : Courteous options keys (before ++ after) p)
    {first last : List Move} {q : Pair} {rest : Script}
    (hsplit : after = first ++ .on end_ (.act .reader) :: last) (hfirst : p₀.run first = some q)
    (hreader : (q.get end_).reader = .followClosing :: rest)
    (hunasked : ∀ id code reason, .on end_ (.start id (.close code reason)) ∉ before ++ first) :
    .reader ∈ (fresh options keys).closers end_ (before ++ after) := by
  subst hsplit
  have hrun : (fresh options keys).run (before ++ first) = some q :=
    run_append_eq_some.mpr ⟨p₀, hbefore, hfirst⟩
  have hall := h
  rw [← List.append_assoc] at hall ⊢
  have hclosing := closing_of_run hbefore hopen hfirst (hall.earlier hrun)
  have hcourse := hclosing.facing.course end_
  have hscript : (q.get end_).mended.script .reader = .followClosing :: rest := hreader
  cases hcourse.endedBy with
  | @closer task hclosers _ hsets =>
      refine (closers_isPrefix hrun).subset ?_
      rw [hclosing.closers_eq, hclosers, List.mem_singleton]
      cases task with
      | reader => rfl
      | call id =>
          obtain ⟨f, code, reason, -, hstart⟩ := hsets.asked
          obtain hview | hend := mem_softened hstart
          · exact absurd (mem_of_view rfl hview) (hunasked id code reason)
          · cases hend
  | nobody _ _ hphase =>
      have hopened : (q.get end_).phase = .opened := by
        by_contra hnot
        exact hcourse.living.not_follows hcourse.reach hnot hphase hscript
      obtain ⟨q₁, hq₁, hrest⟩ := run_append_eq_some.mp hall.run
      obtain rfl : q₁ = q := Option.some.inj (hq₁.symm.trans hrun)
      obtain ⟨q', hstep, -⟩ := run_cons_eq_some.mp hrest
      have hnow := run_append_eq_some.mpr ⟨q₁, hrun, run_cons_eq_some.mpr ⟨q', hstep, run_nil q'⟩⟩
      rw [← List.singleton_append, ← List.append_assoc]
      refine (closers_isPrefix hnow).subset ?_
      have hshare : q₁.share end_ (.on end_ (.act .reader)) = [.act .reader] := if_pos rfl
      have hown := (transition_of_step hstep).run_share end_
      rw [hshare] at hown
      obtain ⟨c', hact, -⟩ := Connection.run_cons_eq_some.mp hown
      rw [closers, view_concat hrun hstep, hshare, closers_concat (run_view hrun end_) hact,
        closes?_act (show (q₁.get end_).script .reader = _ from hreader) (.inr rfl) hopened]
      exact List.mem_append_right _ (List.mem_singleton_self _)

/-- **How an end has parted** from the other one: who was the first to set about it at this end, the
status that this end has sent, and the one that the other end has sent. -/
structure Parted (options : Role → Options) (keys : Role → Nat → Mask) (before after : List Move)
    (p₀ p : Pair) (end_ : Role) (closer : TaskId) (own theirs : Close.Status) : Prop where
  closed : (p.get end_).phase = .closed
  /-- One close frame was written, as the last frame of all. -/
  sent : ∃ earlier, (p.get end_).sent = ⟨closer, Frame.close (some own)⟩ :: earlier ∧
    ∀ x ∈ earlier, x.frame.isClose = false
  /-- An operation that is the first closes with **the status that it was begun with**. -/
  called : ∀ id, closer = .call id →
    .on end_ (.start id (.close own.code own.reason)) ∈ before ++ after
  /-- The reader **replies** with the code of the other end, and without a reason. -/
  replied : closer = .reader → own.code.toNumber = theirs.code.toNumber ∧ own.reason = ""
  /-- The reader is the first if nobody has been asked to close when it gets the close frame. -/
  unasked : ∀ first last q rest, after = first ++ .on end_ (.act .reader) :: last →
    p₀.run first = some q → (q.get end_).reader = .followClosing :: rest →
      (∀ id code reason, .on end_ (.start id (.close code reason)) ∉ before ++ first) →
        closer = .reader
  /-- What was put into the event queue are the messages of the other end, pings and pongs, and
  behind them one close event, with **the code of the other end** and as much of its reason as fits.
  -/
  told : ∃ (events : List Event) (heard : Close.Status),
    (p.get end_).offered.reverse = events.map .ok ++ [.ok (.close (some heard))] ∧
      (∀ status, .close status ∉ events) ∧
        events.filterMap Event.message? =
          (fresh options keys).sends end_.opposite (before ++ after) ∧
        heard.code = .ofNumber theirs.code.toNumber ∧
          Utf8.encode heard.reason = Utf8.truncate 123 (Utf8.encode theirs.reason)

/-- **Who has sent the close frame of an end**, and with which status: the first to set about
closing, an operation with the status that it was begun with. -/
structure Signing (options : Role → Options) (keys : Role → Nat → Mask) (moves : List Move)
    (p : Pair) (end_ : Role) (closer : TaskId) (own : Close.Status) : Prop where
  closers : (fresh options keys).closers end_ moves = [closer]
  frame : Frame.close (some own) ∈ (p.get end_).sentBy closer
  called : ∀ id, closer = .call id → .on end_ (.start id (.close own.code own.reason)) ∈ moves

namespace Closing

/-- An end that has sent its close frame has it from **an operation** or from the reader. -/
theorem signing_or (h : Closing options keys moves p) (end_ : Role)
    (hsigned : (p.get end_).Signed) :
    (∃ id own, Signing options keys moves p end_ (.call id) own) ∨
      (fresh options keys).closers end_ moves = [.reader] ∧
        ∃ status, Frame.close status ∈ (p.get end_).sentBy .reader := by
  obtain ⟨task, status, hclosers, hframe, hasked⟩ := (h.facing.course end_).signer hsigned
  rw [← h.closers_eq] at hclosers
  have hsent : Frame.close status ∈ (p.get end_).sentBy task := hframe
  cases task with
  | reader => exact .inr ⟨hclosers, status, hsent⟩
  | call id =>
      obtain ⟨code, reason, heq, hstart⟩ := hasked
      rw [heq] at hsent
      refine .inl ⟨id, ⟨code, reason⟩, hclosers, hsent, fun id' hid => ?_⟩
      obtain rfl := TaskId.call.inj hid
      obtain hview | hends := mem_softened hstart
      · exact mem_of_view rfl hview
      · cases hends

/-- An end that winds up has its close frame from an operation, or from the reader, which
**answers** the one of the other end. -/
theorem signing_of_isOver (h : Closing options keys moves p) (end_ : Role)
    (hsigned : (p.get end_).Signed) (hover : (p.get end_).reader.isOver = true)
    {theirs : Close.Status}
    (htheirs : Frame.close (some theirs) ∈ (p.get end_.opposite).sentFrames) :
    ∃ closer own, Signing options keys moves p end_ closer own ∧
      (closer = .reader → own = ⟨Script.replyCode theirs.received.code, ""⟩) := by
  obtain ⟨id, own, hsigning⟩ | ⟨hclosers, status, hframe⟩ := h.signing_or end_ hsigned
  · exact ⟨.call id, own, hsigning, nofun⟩
  · have hreply := h.facing.reply_eq end_ hover htheirs hframe
    refine ⟨.reader, ⟨Script.replyCode theirs.received.code, ""⟩, ⟨hclosers, ?_, nofun⟩,
      fun _ => rfl⟩
    rw [hreply] at hframe
    exact hframe

/-- An end that has closed and wound up **has parted** from the other one. -/
theorem parted (h : Closing options keys (before ++ after) p)
    (hbefore : (fresh options keys).run before = some p₀)
    (hopen : ∀ end_, (p₀.get end_).phase = .opened) {closer : TaskId} {own theirs : Close.Status}
    (hsigning : Signing options keys (before ++ after) p end_ closer own)
    (hreplied : closer = .reader → own.code.toNumber = theirs.code.toNumber ∧ own.reason = "")
    (htheirs : Frame.close (some theirs) ∈ (p.get end_.opposite).sentFrames)
    (hclosed : (p.get end_).phase = .closed) (hover : (p.get end_).reader.isOver = true) :
    Parted options keys before after p₀ p end_ closer own theirs := by
  refine ⟨hclosed, (h.facing.course end_).sent_of_sentBy hsigning.frame, hsigning.called, hreplied,
    ?_, ?_⟩
  · intro first last q rest hsplit hfirst hreader hunasked
    have hmem := reader_closes hbefore hopen h.courteous hsplit hfirst hreader hunasked
    rw [hsigning.closers] at hmem
    exact (List.mem_singleton.mp hmem).symm
  · obtain ⟨events, hnot, hmessages, htold⟩ := h.facing.told end_ hover htheirs
    refine ⟨events, theirs.received, htold, hnot, ?_, rfl, theirs.encode_received⟩
    rw [hmessages, sends, get_fresh]
    exact congrArg (List.filterMap Haul.message?) (h.softened end_.opposite).hauls

end Closing

/-- What holds of the two ends, **each with a share of its own**, holds of every end. -/
theorem exists_of_both {α : Type} {P : Role → α → α → Prop} (first : Role) {a b : α}
    (hfirst : P first a b) (hother : P first.opposite b a) :
    ∃ f : Role → α, ∀ end_, P end_ (f end_) (f end_.opposite) := by
  refine ⟨fun end_ => if end_ = first then a else b, fun end_ => ?_⟩
  cases first <;> cases end_ <;> assumption

/-- A code that may be sent **comes back** in the reply. -/
theorem toNumber_reply {theirs : Close.Status}
    (h : theirs.code.toNumber.toNat ∉ Close.reservedNumbers) :
    (Script.replyCode theirs.received.code).toNumber = theirs.code.toNumber := by
  have hnot : theirs.received.code.isReserved = false := by
    refine Bool.eq_false_iff.mpr fun hreserved => h ?_
    obtain heq | heq | heq := (Occasion.isReserved_ofNumber _).mp hreserved <;>
      rw [heq] <;> decide
  rw [Script.replyCode, hnot]
  exact theirs.toNumber_received

/-- Two ends that have sent their close frames and wound up **have parted**. At one of the two an
operation was the first; the other end follows it, or an operation was the first there as well. -/
theorem Closing.exists_parted (h : Closing options keys (before ++ after) p)
    (hbefore : (fresh options keys).run before = some p₀)
    (hopen : ∀ end_, (p₀.get end_).phase = .opened)
    (hnumbers : ∀ end_ id code reason, .on end_ (.start id (.close code reason)) ∈ before ++ after →
      code.toNumber.toNat ∉ Close.reservedNumbers)
    (hall : ∀ end_, (p.get end_).Signed ∧ (p.get end_).phase = .closed ∧
      (p.get end_).reader = []) :
    ∃ (closer : Role → TaskId) (status : Role → Close.Status), ∀ end_,
      Parted options keys before after p₀ p end_ (closer end_) (status end_)
        (status end_.opposite) := by
  have hover : ∀ end_, (p.get end_).reader.isOver = true := fun end_ => by rw [(hall end_).2.2]; rfl
  obtain ⟨first, id, hfirst⟩ := h.asked .client (h.closers_of_signed .client (hall .client).1)
  obtain ⟨id, own, hsigning⟩ | ⟨hreader, -⟩ := h.signing_or first (hall first).1
  · have hown : Frame.close (some own) ∈ (p.get first.opposite.opposite).sentFrames := by
      rw [Role.opposite_opposite]
      exact mem_sentFrames_of_sentBy hsigning.frame
    obtain ⟨closer, theirs, hsigning', hreplied⟩ := h.signing_of_isOver first.opposite
      (hall first.opposite).1 (hover first.opposite) hown
    have htheirs := mem_sentFrames_of_sentBy hsigning'.frame
    have hnumber := toNumber_reply (hnumbers _ _ _ _ (hsigning.called id rfl))
    have hanswers : closer = .reader →
        theirs.code.toNumber = own.code.toNumber ∧ theirs.reason = "" := by
      intro hreader
      rw [hreplied hreader]
      exact ⟨hnumber, rfl⟩
    obtain ⟨f, hf⟩ := exists_of_both first
      (P := fun end_ (own theirs : TaskId × Close.Status) =>
        Parted options keys before after p₀ p end_ own.1 own.2 theirs.2)
      (a := (.call id, own)) (b := (closer, theirs))
      (h.parted hbefore hopen hsigning nofun htheirs (hall first).2.1 (hover first))
      (h.parted hbefore hopen hsigning' hanswers hown (hall first.opposite).2.1
        (hover first.opposite))
    exact ⟨fun end_ => (f end_).1, fun end_ => (f end_).2, hf⟩
  · rw [hreader] at hfirst
    cases List.mem_singleton.mp hfirst

/-- **When everything is quiet, both ends have closed.** A client and a server have opened, and then
somebody has set about closing at one end or at both, at any time and beside messages and pings.
Each end has sent one close frame, as its last frame: of the operation that was the first to set
about it, or in reply to the close frame of the other end. And each end has been told the messages
of the other one, and behind them what arrives of its status.

Tasks take turns, the limits of each end admit what the other one sends, and no code is one that is
never to be sent. No reader is told to stop, both ends take what the other one writes and have room
for an event. The request of the client is one head; a path that holds the end of a head would make
it more. -/
theorem parted_of_quiet (hbefore : (fresh options keys).run before = some p₀)
    (hopen : ∀ end_, (p₀.get end_).phase = .opened) (hafter : p₀.run after = some p)
    (hcourteous : Courteous options keys (before ++ after) p)
    (hclose : ∃ end_ id code reason, .on end_ (.start id (.close code reason)) ∈ after)
    (hnumbers : ∀ end_ id code reason, .on end_ (.start id (.close code reason)) ∈ before ++ after →
      code.toNumber.toNat ∉ Close.reservedNumbers)
    (hquiet : p.isQuiet = true) (hstalled : ∀ end_, (p.get end_).transport.stalled = false)
    (hroom : ∀ end_, (p.get end_).events.length < (p.get end_).capacity) :
    ∃ (closer : Role → TaskId) (status : Role → Close.Status), ∀ end_,
      Parted options keys before after p₀ p end_ (closer end_) (status end_)
        (status end_.opposite) := by
  have h := closing_of_run hbefore hopen hafter hcourteous
  obtain ⟨asked, id, code, reason, hstart⟩ := hclose
  have hcode : code.isReserved = false := by
    have hnot := hnumbers asked id code reason (List.mem_append_right _ hstart)
    exact Bool.eq_false_iff.mpr fun hreserved => hnot (Close.Code.mem_reservedNumbers hreserved)
  have hsigned := h.signed_of_start hquiet (hstalled asked) (hopen asked) hafter hcode hstart
  exact h.exists_parted hbefore hopen hnumbers (h.all_answer hquiet hstalled hroom hsigned)

/-! ### Closes that cross -/

/-- The moves that begin **no close with a code** that is never to be sent. -/
def Move.namesSendable : Move → Bool
  | .on _ (.start _ (.close code _)) => decide (code.toNumber.toNat ∉ Close.reservedNumbers)
  | _ => true

/-- The moves in which a client sends a text and closes, and a server closes before it has got
either; then each end gets the close frame of the other one. -/
def partingMoves : List Move :=
  [.on .client (.collect 0), .on .server (.collect 0),
    .on .client (.start 1 (.send (Message.ofText "ab"))),
    .on .client (.start 2 (.close .goingAway "late")),
    .on .server (.start 1 (.close .normalClosure "done"))] ++
    acts .client (.call 1) 5 ++ acts .client (.call 2) 6 ++ acts .server (.call 1) 6 ++
    [.carry .client 20, .carry .server 8, .on .client (.read 8)] ++ acts .client .reader 7 ++
    [.on .server (.read 20)] ++ acts .server .reader 9 ++ [.carryEnd .client, .carryEnd .server]

theorem phases_of_partingMoves :
    ((fresh talkOptions talkKeys).run greetingMoves).bind (fun p₀ =>
      (p₀.run partingMoves).map fun p =>
        ([p₀.client.phase, p₀.server.phase], [p.client.sentFrames, p.server.sentFrames])) =
      some ([.opened, .opened],
        [[Frame.text [97, 98], Frame.close (some ⟨.goingAway, "late"⟩)],
          [Frame.close (some ⟨.normalClosure, "done"⟩)]]) := by
  decide +kernel

/-- Then **everything is quiet**, and there is room for more events. -/
theorem quiet_of_partingMoves :
    ((fresh talkOptions talkKeys).run (greetingMoves ++ partingMoves)).map (fun p =>
      (p.isQuiet, [p.client.cancelled, p.server.cancelled],
        [p.client.transport.stalled, p.server.transport.stalled],
        [p.client.capacity - p.client.events.length, p.server.capacity - p.server.events.length])) =
      some (true, [false, false], [false, false], [63, 62]) := by
  decide +kernel

theorem turns_of_partingMoves :
    ([Role.client, Role.server].map fun end_ =>
      ((fresh talkOptions talkKeys).sends end_ (greetingMoves ++ partingMoves),
        (Connection.new end_ (talkOptions end_) (talkKeys end_)).courteously
          ((fresh talkOptions talkKeys).view end_ (greetingMoves ++ partingMoves)))) =
      [([Message.ofText "ab"], true), ([], true)] := by
  decide +kernel

/-- The two closes **cross**, and yet both ends part in order. -/
theorem parted_of_partingMoves : ∃ p₀ p : Pair,
    (fresh talkOptions talkKeys).run greetingMoves = some p₀ ∧ p₀.run partingMoves = some p ∧
      ∃ (closer : Role → TaskId) (status : Role → Close.Status), ∀ end_,
        Parted talkOptions talkKeys greetingMoves partingMoves p₀ p end_ (closer end_) (status end_)
          (status end_.opposite) := by
  obtain ⟨p₀, hbefore, hfacts⟩ := Option.bind_eq_some_iff.mp phases_of_partingMoves
  obtain ⟨p, hafter, hfacts⟩ := Option.map_eq_some_iff.mp hfacts
  have hrun := run_append_eq_some.mpr ⟨p₀, hbefore, hafter⟩
  have hend := quiet_of_partingMoves
  have hmoves := turns_of_partingMoves
  rw [hrun, Option.map_some] at hend
  simp only [List.map_cons, List.map_nil, Option.some.injEq, Prod.mk.injEq, List.cons.injEq,
    and_true] at hfacts hend hmoves
  obtain ⟨⟨hclient, hserver⟩, hfromClient, hfromServer⟩ := hfacts
  obtain ⟨hquiet, ⟨hclientGoes, hserverGoes⟩, ⟨hclientFlows, hserverFlows⟩, hclientRoom,
    hserverRoom⟩ := hend
  obtain ⟨⟨hsendsClient, hturnsClient⟩, hsendsServer, hturnsServer⟩ := hmoves
  have hclientTakes : (talkOptions .client).Takes p.server.sentFrames
      ((fresh talkOptions talkKeys).sends .server (greetingMoves ++ partingMoves)) := by
    rw [hfromServer, hsendsServer]
    exact ⟨by decide, by decide, nofun⟩
  have hserverTakes : (talkOptions .server).Takes p.client.sentFrames
      ((fresh talkOptions talkKeys).sends .client (greetingMoves ++ partingMoves)) := by
    rw [hfromClient, hsendsClient]
    refine ⟨by decide, by decide, ?_⟩
    intro m hm
    obtain rfl := List.mem_singleton.mp hm
    exact ⟨by decide, fun _ => by decide⟩
  have hcourteous : Courteous talkOptions talkKeys (greetingMoves ++ partingMoves) p :=
    ⟨hrun, fun | .client => hturnsClient | .server => hturnsServer, by decide +kernel,
      fun | .client => hclientTakes | .server => hserverTakes,
      fun | .client => hclientGoes | .server => hserverGoes⟩
  have hsendable : ∀ move ∈ greetingMoves ++ partingMoves, move.namesSendable = true := by decide
  exact ⟨p₀, p, hbefore, hafter, parted_of_quiet hbefore
    (fun | .client => hclient | .server => hserver) hafter hcourteous
    ⟨.server, 1, .normalClosure, "done", by simp [partingMoves]⟩
    (fun _ _ _ _ hmem => of_decide_eq_true (hsendable _ hmem)) hquiet
    (fun | .client => hclientFlows | .server => hserverFlows)
    (fun
      | .client => Nat.lt_of_sub_eq_succ hclientRoom
      | .server => Nat.lt_of_sub_eq_succ hserverRoom)⟩

/-! ### A close behind a forged head -/

/-- The moves in which a client closes, and a server meets **the rest of a request** in front of the
close frame. -/
def strayingMoves : List Move :=
  [.on .client (.collect 0), .on .server (.collect 0),
    .on .client (.start 1 (.close .normalClosure ""))] ++
    acts .client (.call 1) 6 ++ acts .server .reader 12 ++
    [.carry .server 48, .on .client (.read 48)] ++ acts .client .reader 7 ++ [.carryEnd .server]

theorem phases_of_strayingMoves :
    ((fresh talkOptions talkKeys).run forgingMoves).bind (fun p₀ =>
      (p₀.run strayingMoves).map fun p =>
        ([p₀.client.phase, p₀.server.phase], p.client.sentFrames, p.server.sentFrames,
          p.server.offered)) =
      some ([.opened, .opened], [Frame.close (some ⟨.normalClosure, ""⟩)],
        [Frame.close (some ⟨.protocolError, (Fault.violation (.reservedBits 2)).message⟩)],
        [.error (.codec (.violation (.reservedBits 2)))]) := by
  decide +kernel

theorem quiet_of_strayingMoves :
    ((fresh talkOptions talkKeys).run (forgingMoves ++ strayingMoves)).map (fun p =>
      (p.isQuiet, [p.client.cancelled, p.server.cancelled],
        [p.client.transport.stalled, p.server.transport.stalled],
        [p.client.capacity - p.client.events.length, p.server.capacity - p.server.events.length])) =
      some (true, [false, false], [false, false], [63, 63]) := by
  decide +kernel

theorem turns_of_strayingMoves :
    ([Role.client, Role.server].map fun end_ =>
      ((fresh talkOptions talkKeys).sends end_ (forgingMoves ++ strayingMoves),
        (Connection.new end_ (talkOptions end_) (talkKeys end_)).courteously
          ((fresh talkOptions talkKeys).view end_ (forgingMoves ++ strayingMoves)))) =
      [([], true), ([], true)] := by
  decide +kernel

/-- Without that condition on the request, two ends **do not part**: the server has been told of a
fault, and of no close frame. -/
theorem not_parted_of_quiet :
    ¬ ∀ (options : Role → Options) (keys : Role → Nat → Mask) (before after : List Move)
        (p₀ p : Pair), (fresh options keys).run before = some p₀ →
        (∀ end_, (p₀.get end_).phase = .opened) → p₀.run after = some p →
        (∀ end_, (Connection.new end_ (options end_) (keys end_)).courteously
          ((fresh options keys).view end_ (before ++ after)) = true) →
        (∀ end_ : Role, (options end_).Takes (p.get end_.opposite).sentFrames
          ((fresh options keys).sends end_.opposite (before ++ after))) →
        (∀ end_, (p.get end_).cancelled = false) →
        (∃ end_ id code reason, .on end_ (.start id (.close code reason)) ∈ after) →
        (∀ end_ id code reason, .on end_ (.start id (.close code reason)) ∈ before ++ after →
          code.toNumber.toNat ∉ Close.reservedNumbers) →
        p.isQuiet = true → (∀ end_, (p.get end_).transport.stalled = false) →
        (∀ end_, (p.get end_).events.length < (p.get end_).capacity) →
        ∃ (closer : Role → TaskId) (status : Role → Close.Status), ∀ end_,
          Parted options keys before after p₀ p end_ (closer end_) (status end_)
            (status end_.opposite) := by
  intro h
  obtain ⟨p₀, hbefore, hfacts⟩ := Option.bind_eq_some_iff.mp phases_of_strayingMoves
  obtain ⟨p, hafter, hfacts⟩ := Option.map_eq_some_iff.mp hfacts
  have hend := quiet_of_strayingMoves
  have hmoves := turns_of_strayingMoves
  rw [run_append_eq_some.mpr ⟨p₀, hbefore, hafter⟩, Option.map_some] at hend
  simp only [List.map_cons, List.map_nil, Option.some.injEq, Prod.mk.injEq, List.cons.injEq,
    and_true] at hfacts hend hmoves
  obtain ⟨⟨hclient, hserver⟩, hfromClient, hfromServer, hoffered⟩ := hfacts
  obtain ⟨hquiet, ⟨hclientGoes, hserverGoes⟩, ⟨hclientFlows, hserverFlows⟩, hclientRoom,
    hserverRoom⟩ := hend
  obtain ⟨⟨hsendsClient, hturnsClient⟩, hsendsServer, hturnsServer⟩ := hmoves
  have hclientTakes : (talkOptions .client).Takes p.server.sentFrames
      ((fresh talkOptions talkKeys).sends .server (forgingMoves ++ strayingMoves)) := by
    rw [hfromServer, hsendsServer]
    exact ⟨by decide, by decide +kernel, nofun⟩
  have hserverTakes : (talkOptions .server).Takes p.client.sentFrames
      ((fresh talkOptions talkKeys).sends .client (forgingMoves ++ strayingMoves)) := by
    rw [hfromClient, hsendsClient]
    exact ⟨by decide, by decide, nofun⟩
  have hsendable : ∀ move ∈ forgingMoves ++ strayingMoves, move.namesSendable = true := by decide
  obtain ⟨closer, status, hparted⟩ := h talkOptions talkKeys forgingMoves strayingMoves p₀ p hbefore
    (fun | .client => hclient | .server => hserver) hafter
    (fun | .client => hturnsClient | .server => hturnsServer)
    (fun | .client => hclientTakes | .server => hserverTakes)
    (fun | .client => hclientGoes | .server => hserverGoes)
    ⟨.client, 1, .normalClosure, "", by simp [strayingMoves]⟩
    (fun _ _ _ _ hmem => of_decide_eq_true (hsendable _ hmem)) hquiet
    (fun | .client => hclientFlows | .server => hserverFlows)
    (fun
      | .client => Nat.lt_of_sub_eq_succ hclientRoom
      | .server => Nat.lt_of_sub_eq_succ hserverRoom)
  obtain ⟨events, heard, htold, -⟩ := (hparted .server).told
  have hfault : .error (.codec (.violation (.reservedBits 2))) ∈ (p.get .server).offered.reverse :=
    List.mem_reverse.mpr (hoffered ▸ List.mem_singleton_self _)
  rw [htold] at hfault
  simp at hfault

end Pair

end WebSocket
