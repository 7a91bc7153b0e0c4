import WebSocket.Proofs.Close.Payload
import WebSocket.Proofs.Connection.Closing
import WebSocket.Proofs.Connection.Occasions
import WebSocket.Proofs.Connection.Sendable

/-!
# Which codes close frames carry

Three numbers describe how a connection ended and are never to be sent. A close frame comes from one
of three places: an operation that closes, with a code of the application; the reply to a close
frame of the peer, with the peer's code; and the report of a fault, with a code of its own. The
reply puts another code in the place of a reserved one, and no fault has a reserved code. An
operation that closes refuses the three reserved codes by their names. But a code that stands for
its number, `Close.Code.other`, may have a reserved number, and this one is not refused.

## Main results

* `Connection.asked_for_of_reserved_number`: a close frame with a reserved number was **asked for by
  the application**, with the code that stands for the number.
* `Connection.not_never_reserved`: such a frame can be written.
-/

namespace WebSocket

/-- The **number that a close frame carries**: its first two bytes, the higher one first. -/
def Frame.closeNumber? (f : Frame) : Option Nat :=
  if f.isClose then
    match f.payload with
    | high :: low :: _ => some (256 * high.toNat + low.toNat)
    | _ => none
  else none

/-- The numbers that are **never to be sent**. -/
def Close.reservedNumbers : List Nat := [1005, 1006, 1015]

/-- Whether a frame **carries** a given number. -/
def Frame.carries (n : Nat) (f : Frame) : Bool := f.closeNumber? == some n

variable {n : Nat}

/-- Only a close frame carries a number. -/
theorem Frame.isClose_of_carries {f : Frame} (h : f.carries n = true) : f.isClose = true := by
  unfold carries closeNumber? at h
  split at h
  · assumption
  · cases h

/-- Frames that are no close frames carry **no number**. -/
theorem Frame.any_carries_eq_false {frames : List Frame} (h : ∀ f ∈ frames, f.isClose = false) :
    frames.any (Frame.carries n) = false :=
  List.any_eq_false.mpr fun f hf hcarries =>
    Bool.false_ne_true ((h f hf).symm.trans (isClose_of_carries hcarries))

/-- A close frame with a status carries **the number of its code**. -/
theorem Frame.closeNumber?_close (s : Close.Status) :
    (Frame.close (some s)).closeNumber? = some s.code.toNumber.toNat := by
  obtain ⟨high, low, hbytes, hnumber⟩ := s.code.exists_bytes
  have hpayload : (Frame.close (some s)).payload =
      high :: low :: Utf8.truncate Close.maxReason (Utf8.encode s.reason) :=
    congrArg (· ++ Utf8.truncate Close.maxReason (Utf8.encode s.reason)) hbytes
  have hnumbered : (Frame.close (some s)).closeNumber? = some (256 * high.toNat + low.toNat) := by
    simp only [closeNumber?, hpayload]
    rfl
  rw [hnumbered, hnumber]

theorem Frame.carries_close (s : Close.Status) :
    (Frame.close (some s)).carries n = true ↔ s.code.toNumber.toNat = n := by
  rw [carries, closeNumber?_close, beq_iff_eq, Option.some.injEq]

/-- A code with a reserved number is reserved, or it **stands for its number**. -/
theorem Close.Code.reserved_or_other {code : Code} (h : code.toNumber.toNat ∈ reservedNumbers) :
    code.isReserved = true ∨ code = .other code.toNumber := by
  cases code with
  | other number => exact .inr rfl
  | _ => first
    | exact .inl rfl
    | exact absurd h (by decide)

/-- A reserved code **has a reserved number**. -/
theorem Close.Code.mem_reservedNumbers {code : Code} (h : code.isReserved = true) :
    code.toNumber.toNat ∈ reservedNumbers := by
  cases code with
  | noStatusReceived | abnormalClosure | tlsHandshake => decide
  | _ => cases h

/-! ### Numbers that nobody asked for -/

/-- The **reply** to a close frame carries no reserved number. -/
theorem Script.carries_reply {payload : Bytes} {reading : Close.Reading}
    (h : Close.parse payload = .ok reading) (hn : n ∈ Close.reservedNumbers) :
    (Frame.close (reading.status?.map fun s => ⟨replyCode s.code, ""⟩)).carries n = false := by
  have hcode : ∀ number reason,
      (Frame.close (some ⟨replyCode (Close.Code.ofNumber number), reason⟩)).carries n = false := by
    intro number reason
    refine Bool.eq_false_iff.mpr fun hcarries => ?_
    have hreply := Occasion.toNumber_replyCode number.toNat number.toNat_lt
    rw [UInt16.ofNat_toNat, (Frame.carries_close _).mp hcarries] at hreply
    split at hreply
    · exact absurd (hreply ▸ hn) (by decide)
    · rename_i hnot
      rw [← hreply] at hnot
      exact hnot (by simpa [Close.reservedNumbers] using hn)
  unfold Close.parse at h
  split at h
  · obtain rfl := Except.ok.inj h
    rfl
  · cases h
  · split at h
    · obtain rfl := Except.ok.inj h
      exact hcode _ _
    · obtain rfl := Except.ok.inj h
      exact hcode _ _

/-- The report of a **fault** carries no reserved number. -/
theorem Fault.carries_report {fault : Fault} {code : Close.Code} (h : fault.closeCode? = some code)
    (reason : String) (hn : n ∈ Close.reservedNumbers) :
    (Frame.close (some ⟨code, reason⟩)).carries n = false := by
  have hnot : code.toNumber.toNat ∉ Close.reservedNumbers := by
    cases fault with
    | violation v =>
        obtain rfl := Option.some.inj h
        cases v <;> exact of_decide_eq_false rfl
    | frameTooLarge => obtain rfl := Option.some.inj h; decide
    | messageTooLarge => obtain rfl := Option.some.inj h; decide
    | transport => cases h
  exact Bool.eq_false_iff.mpr fun hcarries => hnot ((Frame.carries_close _).mp hcarries ▸ hn)

/-! ### The close frames that a task is about to write -/

/-- Whether a script is about to write a close frame with a given **number**. -/
def Script.carries (n : Nat) (script : Script) : Bool :=
  script.any fun action => action.frames.any (Frame.carries n)

/-- An operation that is about to write a close frame with a reserved number closes the connection
with the code that **stands for this number**. -/
theorem Script.other_of_carries {size : Nat} {operation : Operation}
    (h : (ofOperation size operation).carries n = true) (hn : n ∈ Close.reservedNumbers) :
    ∃ reason, operation = .close (.other (UInt16.ofNat n)) reason := by
  have hsending : ∀ (m : Message) (size : Nat), (sending m size).carries n = false := by
    intro m size
    have hframes : (m.fragments size).any (Frame.carries n) = false :=
      Frame.any_carries_eq_false fun _ hf => Message.isClose_of_mem_fragments hf
    simp [Script.carries, sending, writing, Action.frames, hframes]
  cases operation with
  | send m => exact absurd h (by rw [ofOperation, hsending]; exact Bool.false_ne_true)
  | sendFragmented m n => exact absurd h (by rw [ofOperation, hsending]; exact Bool.false_ne_true)
  | ping payload =>
      simp only [ofOperation] at h
      split at h <;> cases h
  | close code reason =>
      cases hcode : code.isReserved with
      | true => simp [ofOperation, hcode, Script.carries, Action.frames] at h
      | false =>
          have hnumber : code.toNumber.toNat = n := by
            simpa [ofOperation, hcode, Script.carries, Action.frames, Frame.carries_close] using h
          obtain hreserved | hother := Close.Code.reserved_or_other (hnumber ▸ hn)
          · rw [hcode] at hreserved
            cases hreserved
          · refine ⟨reason, ?_⟩
            rw [← hnumber, UInt16.ofNat_toNat, ← hother]
  | _ => cases h

/-- What the reader does about what a frame completes writes **no reserved number**. -/
theorem Script.carries_ofAssembled (assembled : Except Fault (Option Assembled))
    (hn : n ∈ Close.reservedNumbers) : (ofAssembled assembled).carries n = false := by
  match assembled with
  | .error fault => rfl
  | .ok none => rfl
  | .ok (some (.message m)) => rfl
  | .ok (some (.control f)) =>
      simp only [ofAssembled, ofControl]
      cases f.opcode with
      | close =>
          simp only [ofClose]
          cases hparse : Close.parse f.payload with
          | error v => rfl
          | ok reading =>
              simp [Script.carries, Action.frames, finishing, carries_reply hparse hn]
      | _ => rfl

theorem Script.carries_recover (recovery : Recovery) (e : ConnectionError) {rest : Script}
    (h : (recover recovery e rest).carries n = true) : rest.carries n = true := by
  cases recovery with
  | ignore => exact h
  | _ => cases h

namespace Connection

variable {c c' c₁ : Connection} {task : TaskId} {action : Action} {rest script : Script}
  {move : Move} {moves past : List Move} {role : Role} {options : Options} {keys : Nat → Mask}

/-- A script that negotiates writes no close frame. -/
theorem Negotiating.not_carries (h : Negotiating script) : script.carries n = false := by
  cases h <;> rfl

/-- An action brings up **no reserved number** that its task was not about to write already. -/
theorem Effect.carries (heffect : Effect c task action rest c₁ script)
    (hn : n ∈ Close.reservedNumbers) (h : script.carries n = true) :
    Script.carries n (action :: rest) = true := by
  have htail : rest.carries n = true → Script.carries n (action :: rest) = true := fun hrest => by
    rw [Script.carries, List.any_cons, Bool.or_eq_true]
    exact .inr hrest
  have hnever : script.carries n = false → Script.carries n (action :: rest) = true := fun hnot =>
    absurd (hnot.symm.trans h) Bool.false_ne_true
  cases heffect with
  | lockInVain => exact htail (Script.carries_recover _ _ h)
  | feedInVain => exact htail (Script.carries_recover _ _ h)
  | failToMakeRoom => exact htail (Script.carries_recover _ _ h)
  | refuseFrame => exact htail (Script.carries_recover _ _ h)
  | flushInVain => exact htail (Script.carries_recover _ _ h)
  | failToFlush => exact htail (Script.carries_recover _ _ h)
  | feed =>
      simp only [Script.carries, List.any_cons, Action.frames, Bool.or_eq_true] at h ⊢
      exact h.imp_left .inr
  | answerPing => exact htail h
  | reportFault hcode =>
      refine htail ?_
      simpa [Script.carries, Action.frames, Fault.carries_report hcode _ hn] using h
  | @readFrame _ f =>
      refine htail ?_
      have hnot := Script.carries_ofAssembled (c.assembly.feed f).2 hn
      rw [Script.carries, List.any_append, Bool.or_eq_true] at h
      exact h.resolve_left fun hnew => Bool.false_ne_true (hnot.symm.trans hnew)
  | judgeResponse => exact hnever (Negotiating.judgeResponse _ _).not_carries
  | judgeRequest => exact hnever (Negotiating.judgeRequest _ _).not_carries
  | missRequest => exact hnever (Negotiating.turnDown _).not_carries
  | _ => first
    | exact h
    | exact htail h
    | exact hnever rfl

/-! ### Runs -/

/-- Whether the operation of a task was begun, behind some moves, in order to close the connection
with the code that **stands for a number**. -/
def ClosesWith (n : Nat) (past : List Move) : TaskId → Prop
  | .reader => False
  | .call id => ∃ reason, .start id (.close (.other (UInt16.ofNat n)) reason) ∈ past

theorem ClosesWith.append (h : ClosesWith n past task) (more : List Move) :
    ClosesWith n (past ++ more) task := by
  cases task with
  | reader => exact h
  | call id => exact h.imp fun _ hmem => List.mem_append_left more hmem

/-- Whoever **is about to write**, or has written, a close frame with a given number was begun to
close the connection with the code that stands for it. -/
structure Excused (n : Nat) (past : List Move) (c : Connection) : Prop where
  pending : ∀ task, (c.script task).carries n = true → ClosesWith n past task
  written : ∀ s ∈ c.sent, s.frame.carries n = true → ClosesWith n past s.task

/-- Every move keeps it so, if the number is reserved. -/
theorem Excused.transition (h : Excused n past c) (hn : n ∈ Close.reservedNumbers)
    (hmove : Transition c move c') : Excused n (past ++ [move]) c' := by
  obtain ⟨task, action, rest, c₁, script, rfl, hscript, heffect, rfl⟩ | hact := hmove.act_or
  · refine ⟨fun other hcarries => ?_, fun s hs hcarries => ?_⟩
    · refine (h.pending other ?_).append _
      obtain ⟨rfl, heq⟩ | ⟨-, heq⟩ | ⟨-, -, heq, -⟩ := heffect.script_after hscript other
      · rw [heq] at hcarries
        rw [hscript]
        exact heffect.carries hn hcarries
      · rwa [heq] at hcarries
      · rw [heq] at hcarries
        cases hcarries
    · rw [setScript_sent] at hs
      obtain hs | ⟨htask, hframe⟩ := heffect.sent_or hs
      · exact (h.written s hs hcarries).append _
      · refine (h.pending s.task ?_).append _
        rw [htask, hscript, Script.carries, List.any_cons, Bool.or_eq_true]
        exact .inl (List.any_eq_true.mpr ⟨s.frame, hframe, hcarries⟩)
  · refine ⟨fun other hcarries => ?_, fun s hs hcarries => ?_⟩
    · obtain heq | heq | ⟨id, operation, rfl, rfl, -, heq⟩ := hmove.script_of_ne_act hact other
      · rw [heq] at hcarries
        exact (h.pending other hcarries).append _
      · rw [heq] at hcarries
        cases hcarries
      · rw [heq] at hcarries
        obtain ⟨reason, rfl⟩ := Script.other_of_carries hcarries hn
        exact ⟨reason, List.mem_append_right past List.mem_cons_self⟩
    · rw [(hmove.sent_of_ne_act hact).2.2] at hs
      exact (h.written s hs hcarries).append _

theorem excused_of_run (hrun : (new role options keys).run moves = some c)
    (hn : n ∈ Close.reservedNumbers) : Excused n moves c := by
  refine run_induction (P := Excused n) ⟨fun task hcarries => ?_, fun _ hs => ?_⟩ ?_ hrun
  · cases task <;> cases hcarries
  · cases hs
  · exact fun _ ih hstep => ih.transition hn (transition_of_step hstep)

/-- **A close frame with a number that is never to be sent** was asked for by the application: the
operation that has written it was begun to close the connection with the code that stands for this
very number. So no such frame is written as long as the application uses the names of the codes that
have one, whatever the peer sends and whatever goes wrong. -/
theorem asked_for_of_reserved_number (hrun : (new role options keys).run moves = some c) {s : Sent}
    (hs : s ∈ c.sent) (hnumber : s.frame.closeNumber? = some n) (hn : n ∈ Close.reservedNumbers) :
    ∃ id reason, s.task = .call id ∧
      .start id (.close (.other (UInt16.ofNat n)) reason) ∈ moves := by
  have hcloses := (excused_of_run hrun hn).written s hs (beq_iff_eq.mpr hnumber)
  cases htask : s.task with
  | reader =>
      rw [htask] at hcloses
      exact hcloses.elim
  | call id =>
      rw [htask] at hcloses
      obtain ⟨reason, hmem⟩ := hcloses
      exact ⟨id, reason, rfl, hmem⟩

/-! ### A run with such a frame -/

/-- The moves in which the application of an open server closes it with the code that stands for the
number 1005. -/
def numberedMoves : List Move :=
  openingMoves ++
    .collect 0 :: .start 1 (.close (.other 1005) "") :: List.replicate 6 (.act (.call 1))

theorem sent_of_numberedMoves :
    ((new .server {} fun _ => Mask.zero).run numberedMoves).map
        (fun c => (c.answer? 1, c.sent, c.transport.outgoing.reverse.take 4)) =
      some (some .done, [⟨.call 1, Frame.close (some ⟨.other 1005, ""⟩)⟩],
        [0xed, 0x03, 0x02, 0x88]) := by
  decide +kernel

theorem mem_sent_of_numberedMoves :
    ∃ c : Connection, (new .server {} fun _ => Mask.zero).run numberedMoves = some c ∧
      ⟨.call 1, Frame.close (some ⟨.other 1005, ""⟩)⟩ ∈ c.sent := by
  obtain ⟨c, hrun, hfacts⟩ := Option.map_eq_some_iff.mp sent_of_numberedMoves
  have hsent : c.sent = [⟨.call 1, Frame.close (some ⟨.other 1005, ""⟩)⟩] :=
    congrArg (fun facts => facts.2.1) hfacts
  refine ⟨c, hrun, ?_⟩
  rw [hsent]
  exact List.mem_cons_self

/-- The frame in that run was **asked for**. -/
theorem asked_for_of_numberedMoves :
    ∃ c : Connection, (new .server {} fun _ => Mask.zero).run numberedMoves = some c ∧
      ∃ s ∈ c.sent, s.frame.closeNumber? = some 1005 ∧ 1005 ∈ Close.reservedNumbers ∧
        ∃ id reason, s.task = .call id ∧
          .start id (.close (.other (UInt16.ofNat 1005)) reason) ∈ numberedMoves := by
  obtain ⟨c, hrun, hmem⟩ := mem_sent_of_numberedMoves
  exact ⟨c, hrun, _, hmem, Frame.closeNumber?_close _, by decide,
    asked_for_of_reserved_number hrun hmem (Frame.closeNumber?_close _) (by decide)⟩

/-- So a connection **may write** a close frame with a number that is never to be sent. -/
theorem not_never_reserved :
    ¬ ∀ (role : Role) (options : Options) (keys : Nat → Mask) (moves : List Move) (c : Connection)
        (s : Sent), (new role options keys).run moves = some c → s ∈ c.sent →
      ∀ n ∈ Close.reservedNumbers, s.frame.closeNumber? ≠ some n := by
  intro hnever
  obtain ⟨c, hrun, hmem⟩ := mem_sent_of_numberedMoves
  exact hnever _ _ _ _ c _ hrun hmem 1005 (by decide) (Frame.closeNumber?_close _)

end Connection

end WebSocket
