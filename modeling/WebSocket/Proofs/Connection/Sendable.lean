import WebSocket.Proofs.Connection.Scripts
import WebSocket.Proofs.Frame.RoundTrip
import WebSocket.Proofs.Message.Fragments

/-!
# Frames that can be sent

A frame lies in the slot of the writer until somebody hands over the next one or has everything
written; only then it is encoded. So whoever comes next would fail with a frame that somebody else
left behind, if that frame could not be encoded. It always can: the fragments of a message that
memory holds, pings and pongs of the length that control frames have, and close frames are all that
is ever written.

## Main results

* `Connection.Reachable.sendable`: every frame that a task is about to write **can be sent**, and so
  can the frame in the slot.
* `Connection.Sendable.exists_emptySlot`: the slot can **always be emptied**.
-/

namespace WebSocket

/-- The payload of a close frame **fits** into a control frame. -/
theorem Frame.length_close_le (status : Option Close.Status) :
    ((status.map Close.Status.payload).getD []).length ≤ Frame.maxControlPayload := by
  cases status with
  | none => exact Nat.zero_le _
  | some s => exact s.length_payload_le

/-- Whether a frame **can be sent**, with any codec and any key. -/
def Frame.IsSendable (f : Frame) : Prop :=
  ∀ (codec : Codec) (key : Mask), ∃ written, codec.encode key f = .ok written

namespace Frame

theorem isSendable_close (status : Option Close.Status) : (Frame.close status).IsSendable :=
  fun codec key => codec.encode_control_isOk key rfl (Frame.length_close_le status)

theorem isSendable_ping {payload : Bytes} (h : payload.length ≤ Frame.maxControlPayload) :
    (Frame.ping payload).IsSendable :=
  fun codec key => codec.encode_control_isOk key rfl h

theorem isSendable_pong {payload : Bytes} (h : payload.length ≤ Frame.maxControlPayload) :
    (Frame.pong payload).IsSendable :=
  fun codec key => codec.encode_control_isOk key rfl h

/-- **Every fragment** of a message that memory holds can be sent. -/
theorem isSendable_of_mem_fragments {m : Message} (hlight : m.payload.length < 0x8000000000000000)
    {size : Nat} {f : Frame} (hf : f ∈ m.fragments size) : f.IsSendable := by
  obtain ⟨opcode, part, fin, rfl, hdata, hlength⟩ := Message.piece_of_mem_fragments hf
  refine fun codec key => codec.encode_plain_isOk key rfl rfl ?_ (Nat.lt_of_le_of_lt hlength hlight)
  simp only [Frame.piece, Frame.ofPayload, Frame.controlViolation?, hdata, Bool.false_eq_true,
    if_false]

end Frame

/-! ### Scripts -/

/-- The frames that an action **writes or is about to write**. -/
def Action.frames : Action → List Frame
  | .claimClose status _ => [Frame.close status]
  | .lockWriter frames _ | .feed frames _ => frames
  | _ => []

/-- Whether every frame that a script **is about to write** can be sent. -/
def Script.IsSendable (script : Script) : Prop :=
  ∀ action ∈ script, ∀ f ∈ action.frames, f.IsSendable

namespace Script

variable {script rest : Script} {action : Action}

theorem isSendable_nil : IsSendable [] := nofun

theorem isSendable_cons :
    IsSendable (action :: rest) ↔ (∀ f ∈ action.frames, f.IsSendable) ∧ rest.IsSendable :=
  List.forall_mem_cons

theorem IsSendable.append (h : script.IsSendable) (hrest : rest.IsSendable) :
    IsSendable (script ++ rest) := fun b hb => by
  obtain hb | hb := List.mem_append.mp hb
  · exact h b hb
  · exact hrest b hb

/-- A script that writes nothing. -/
theorem isSendable_of_frames (h : ∀ b ∈ script, b.frames = []) : script.IsSendable :=
  fun b hb f hf => by
    rw [h b hb] at hf
    cases hf

/-- A script that **begins with a look** at the connection and then writes frames. -/
theorem isSendable_behind {look : Action} {frames : List Frame} {recovery : Recovery}
    (hlook : look.frames = []) (hframes : ∀ f ∈ frames, f.IsSendable) (h : rest.IsSendable) :
    IsSendable (look :: .lockWriter frames recovery :: rest) := by
  refine isSendable_cons.mpr ⟨?_, isSendable_cons.mpr ⟨hframes, h⟩⟩
  rw [hlook]
  exact List.forall_mem_nil _

/-- An operation begins with **frames that can be sent**, if memory holds its message. -/
theorem isSendable_ofOperation (size : Nat) {operation : Operation}
    (hlight : operation.isLight = true) : (ofOperation size operation).IsSendable := by
  have hsending : ∀ {m : Message} (size : Nat), operation.message? = some m →
      (sending m size).IsSendable := by
    intro m size hm
    rw [Operation.isLight, hm, Option.all_some, decide_eq_true_eq] at hlight
    exact isSendable_behind rfl (fun _ hf => Frame.isSendable_of_mem_fragments hlight hf)
      (isSendable_of_frames (by simp [Action.frames]))
  cases operation with
  | send m => exact hsending _ rfl
  | sendFragmented m size => exact hsending _ rfl
  | ping payload =>
      simp only [ofOperation]
      split
      · exact isSendable_of_frames (by simp [Action.frames])
      · rename_i hlength
        refine isSendable_cons.mpr ⟨List.forall_mem_nil _, isSendable_behind rfl ?_
          (isSendable_of_frames (by simp [Action.frames]))⟩
        exact List.forall_mem_singleton.mpr (Frame.isSendable_ping (Nat.le_of_not_lt hlength))
  | close code reason =>
      simp only [ofOperation]
      split
      · exact isSendable_of_frames (by simp [Action.frames])
      · refine isSendable_cons.mpr ⟨List.forall_mem_nil _, isSendable_cons.mpr
          ⟨?_, isSendable_of_frames (by simp [Action.frames])⟩⟩
        exact List.forall_mem_singleton.mpr (Frame.isSendable_close _)
  | _ => exact isSendable_of_frames (by simp [ofOperation, finishing, Action.frames])

theorem IsSendable.recover (h : rest.IsSendable) (recovery : Recovery) (e : ConnectionError) :
    (Script.recover recovery e rest).IsSendable := by
  cases recovery with
  | ignore => exact h
  | _ => exact isSendable_of_frames (by simp [Script.recover, finishing, Action.frames])

/-- What the reader does about what a frame completes can be sent. -/
theorem isSendable_ofAssembled (assembled : Except Fault (Option Assembled)) :
    (ofAssembled assembled).IsSendable := by
  unfold ofAssembled
  split
  · exact isSendable_of_frames (by simp [ofFault, finishing, Action.frames])
  · exact isSendable_of_frames (by simp [Action.frames])
  · exact isSendable_of_frames (by simp [Action.frames])
  · rename_i f
    simp only [ofControl]
    cases f.opcode with
    | close =>
        simp only [ofClose]
        split
        · exact isSendable_of_frames (by simp [ofFault, finishing, Action.frames])
        · refine isSendable_cons.mpr ⟨List.forall_mem_nil _, isSendable_cons.mpr
            ⟨?_, isSendable_of_frames (by simp [finishing, Action.frames])⟩⟩
          exact List.forall_mem_singleton.mpr (Frame.isSendable_close _)
    | _ => exact isSendable_of_frames (by simp [Action.frames])

end Script

namespace Connection

variable {c c' c₁ : Connection} {task : TaskId} {action : Action} {rest script : Script}
  {move : Move} {w w' : Writer} {drawn : Nat}

theorem Negotiating.isSendable (h : Negotiating script) : script.IsSendable := by
  cases h <;> exact Script.isSendable_of_frames (by simp [Action.frames])

/-- Whatever a task does, what it is about to write **can be sent** if it could before. -/
theorem Effect.isSendable (heffect : Effect c task action rest c₁ script) (h : c.Scripted)
    (hscript : c.script task = action :: rest) (hsendable : Script.IsSendable (action :: rest)) :
    script.IsSendable := by
  obtain ⟨haction, hrest⟩ := Script.isSendable_cons.mp hsendable
  cases heffect with
  | claimClose =>
      exact Script.isSendable_cons.mpr
        ⟨List.forall_mem_singleton.mpr (Frame.isSendable_close _), hrest⟩
  | answerPing =>
      refine Script.isSendable_cons.mpr ⟨List.forall_mem_singleton.mpr ?_, hrest⟩
      cases task with
      | reader =>
          cases h.readerScript hscript with
          | answering hlength => exact Frame.isSendable_pong hlength
          | ponging _ hw => cases hw
          | closing hw => cases hw
      | call id => exact nomatch h.not_reacts hscript
  | reportFault =>
      refine Script.isSendable_cons.mpr ⟨nofun, Script.isSendable_cons.mpr ⟨?_, hrest⟩⟩
      exact List.forall_mem_singleton.mpr (Frame.isSendable_close _)
  | readFrame => exact (Script.isSendable_ofAssembled _).append hrest
  | readFault => exact (Script.isSendable_ofAssembled (.error _)).append hrest
  | readEnd => exact Script.isSendable_cons.mpr ⟨nofun, Script.isSendable_cons.mpr ⟨nofun, hrest⟩⟩
  | feed =>
      exact Script.isSendable_cons.mpr ⟨fun f hf => haction f (List.mem_cons_of_mem _ hf), hrest⟩
  | lockInVain | feedInVain | refuseFrame | flushInVain => exact hrest.recover _ _
  | failToMakeRoom | failToFlush => exact Script.isSendable_cons.mpr ⟨nofun, hrest.recover _ _⟩
  | judgeResponse => exact (Negotiating.judgeResponse _ _).isSendable
  | judgeRequest => exact (Negotiating.judgeRequest _ _).isSendable
  | missRequest => exact (Negotiating.turnDown _).isSendable
  | _ => first
    | exact hsendable
    | exact hrest
    | exact Script.isSendable_cons.mpr ⟨haction, hrest⟩
    | exact Script.isSendable_cons.mpr ⟨nofun, hrest⟩
    | exact Script.isSendable_of_frames (by simp [Script.finishing, Action.frames])

/-! ### The slot -/

/-- The slot **was free**, or its frame is encoded behind what the writer holds. -/
theorem emptySlot_eq_ok (h : c.emptySlot w = .ok (w', drawn)) :
    (w.slot = none ∧ w' = w ∧ drawn = c.drawn) ∨
      ∃ f written, w.slot = some f ∧ c.codec.encode (c.keys c.drawn) f = .ok written ∧
        w' = w.add written ∧
          drawn = if Codec.drawsKey c.role f then c.drawn + 1 else c.drawn := by
  unfold emptySlot at h
  split at h
  · rename_i hslot
    cases h
    exact .inl ⟨hslot, rfl, rfl⟩
  · rename_i f hslot
    split at h
    · cases h
    · rename_i written he
      cases h
      exact .inr ⟨f, written, hslot, he, rfl, rfl⟩

/-- Behind that the slot **is free**. -/
theorem slot_of_emptySlot (h : c.emptySlot w = .ok (w', drawn)) : w'.slot = none := by
  obtain ⟨hslot, rfl, -⟩ | ⟨f, written, -, -, rfl, -⟩ := emptySlot_eq_ok h
  · exact hslot
  · rfl

theorem emptied_of_ok (h : c.emptySlot w = .ok (w', drawn)) : c.emptied w = (w', drawn) := by
  rw [emptied, h]
  rfl

/-- A writer with a free slot is **as it was**. -/
theorem emptied_of_slot (h : w.slot = none) : c.emptied w = (w, c.drawn) := by
  refine emptied_of_ok ?_
  rw [emptySlot, h]

/-- The frame that came last is encoded **behind everything else**. -/
theorem emptied_put (w : Writer) {f : Frame} {written : Bytes}
    (h : c.codec.encode (c.keys c.drawn) f = .ok written) :
    c.emptied (w.put f) =
      (w.add written, if Codec.drawsKey c.role f then c.drawn + 1 else c.drawn) := by
  refine emptied_of_ok ?_
  simp only [emptySlot, Writer.put, h]
  rfl

/-- What is written first changes nothing about **what comes behind it**. -/
theorem emptied_written (c : Connection) (w : Writer) :
    (c.emptied w).1.bytes = w.bytes ++ (c.emptied w.written).1.bytes ∧
      (c.emptied w).2 = (c.emptied w.written).2 := by
  simp only [emptied, emptySlot, Writer.written]
  split
  · exact ⟨(List.append_nil _).symm, rfl⟩
  · split
    · exact ⟨(List.append_nil _).symm, rfl⟩
    · refine ⟨?_, rfl⟩
      simp [Except.toOption, Writer.bytes, Writer.add]

/-- Every frame that is written or about to be written **can be sent**: those that the tasks still
have, the one in the slot, and all that were handed to the writer. -/
structure Sendable (c : Connection) : Prop where
  scripts : ∀ task, (c.script task).IsSendable
  slot : ∀ {w f}, c.writer = some w → w.slot = some f → f.IsSendable
  sent : ∀ s ∈ c.sent, s.frame.IsSendable

/-- The slot can **always be emptied**. -/
theorem Sendable.exists_emptySlot (h : c.Sendable) (hw : c.writer = some w) :
    ∃ w' drawn, c.emptySlot w = .ok (w', drawn) := by
  unfold emptySlot
  cases hslot : w.slot with
  | none => exact ⟨_, _, rfl⟩
  | some f =>
      obtain ⟨written, he⟩ := h.slot hw hslot c.codec (c.keys c.drawn)
      simp only [he]
      exact ⟨_, _, rfl⟩

theorem Sendable.emptySlot_ne_error (h : c.Sendable) (hw : c.writer = some w) {fault : Fault} :
    c.emptySlot w ≠ .error fault := by
  obtain ⟨w', drawn, he⟩ := h.exists_emptySlot hw
  rw [he]
  exact nofun

/-- The frame in the slot **was there before**, or it is the first of those that the task hands
over. -/
theorem Effect.slot_eq (heffect : Effect c task action rest c₁ script) {f : Frame}
    (hw : c₁.writer = some w') (hslot : w'.slot = some f) :
    (∃ w, c.writer = some w ∧ w.slot = some f) ∨
      ∃ more recovery, action = .feed (f :: more) recovery := by
  cases heffect with
  | makeRoom hw' | flush hw' =>
      cases hw
      exact .inl ⟨_, hw', hslot⟩
  | refuseFrame =>
      cases hw
      cases hslot
  | fedAll _ _ he =>
      cases hw
      exact nomatch (slot_of_emptySlot he).symm.trans hslot
  | feed =>
      cases hw
      cases hslot
      exact .inr ⟨_, _, rfl⟩
  | establish =>
      cases hw
      cases hslot
  | failToMakeRoom | failToFlush | takeWriter => cases hw
  | _ => exact .inl ⟨_, hw, hslot⟩

/-- An action hands over **a frame of its own**, or none. -/
theorem Effect.sent_or (heffect : Effect c task action rest c₁ script) {s : Sent}
    (hs : s ∈ c₁.sent) : s ∈ c.sent ∨ s.task = task ∧ s.frame ∈ action.frames := by
  cases heffect with
  | feed =>
      obtain rfl | hs := List.mem_cons.mp hs
      · exact .inr ⟨rfl, List.mem_cons_self⟩
      · exact .inl hs
  | _ => exact .inl hs

/-- **Every move** keeps all frames such that they can be sent. -/
theorem Sendable.transition (h : c.Sendable) (hscripted : c.Scripted)
    (hmove : Transition c move c') : c'.Sendable := by
  obtain ⟨acting, action, rest, c₁, script, rfl, hscript, heffect, rfl⟩ | hact := hmove.act_or
  · have hsendable : Script.IsSendable (action :: rest) := hscript ▸ h.scripts acting
    refine ⟨fun task => ?_, fun hw hslot => ?_, fun s hs => ?_⟩
    · obtain ⟨rfl, heq⟩ | ⟨-, heq⟩ | ⟨-, -, heq, -⟩ := heffect.script_after hscript task
      · rw [heq]
        exact heffect.isSendable hscripted hscript hsendable
      · rw [heq]
        exact h.scripts task
      · rw [heq]
        exact Script.isSendable_of_frames (by simp [Action.frames])
    · rw [setScript_writer] at hw
      obtain ⟨w, hw, hslot⟩ | ⟨more, recovery, rfl⟩ := heffect.slot_eq hw hslot
      · exact h.slot hw hslot
      · exact hsendable _ (List.mem_cons_self ..) _ (List.mem_cons_self ..)
    · rw [setScript_sent] at hs
      obtain hs | ⟨-, hframe⟩ := heffect.sent_or hs
      · exact h.sent s hs
      · exact hsendable _ (List.mem_cons_self ..) _ hframe
  · have hkept : c'.writer = c.writer ∧ c'.sent = c.sent := by
      cases hmove with
      | act => exact absurd rfl (hact _)
      | _ => exact ⟨rfl, rfl⟩
    refine ⟨fun task => ?_, fun hw hslot => h.slot (hkept.1 ▸ hw) hslot, hkept.2 ▸ h.sent⟩
    obtain heq | heq | ⟨id, operation, rfl, -, -, heq⟩ := hmove.script_of_ne_act hact task
    · exact heq ▸ h.scripts task
    · exact heq ▸ Script.isSendable_nil
    · rw [heq]
      cases hmove with
      | start _ _ hlight => exact Script.isSendable_ofOperation _ hlight

/-- In a connection that a run leads to, **every frame can be sent**. -/
theorem Reachable.sendable (h : Reachable c) : c.Sendable := by
  refine h.invariant (fun role options keys => ⟨fun task => ?_, nofun, nofun⟩)
    fun hreach hsendable hmove => hsendable.transition hreach.scripted hmove
  cases task <;> exact Script.isSendable_nil

end Connection

end WebSocket
