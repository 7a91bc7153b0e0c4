import WebSocket.Proofs.Connection.Steady

/-!
# What goes out

Everything that a connection in use sends goes one way: a task takes the writer lock with some
frames, hands them over one by one, and has the writer write what it holds. `Connection.SendStep`
lists what one action does about this; whatever is said of the frames and of the bytes that go out
is proved by cases on it.

A frame is counted as sent when it comes into the slot of the writer, and it is encoded later. What
the writer holds is therefore told with the frame in its slot as it will be encoded
(`Connection.held`), and so are the masking keys that are drawn (`Connection.keysDrawn`). Then a
frame adds its bytes as soon as it is handed over, and whatever moves bytes on leaves the whole of
them alone.

## Main results

* `Connection.Effect.sendStep`: **whatever an action does** about what goes out is one of the listed
  steps.
-/

namespace WebSocket

/-- The frames that a task at work behind the lock still has to **hand over**. -/
def Script.feeding? : Script → Option (List Frame)
  | .feed frames _ :: _ => some frames
  | _ => none

theorem Script.feeding?_of_holdsLock {script : Script} (h : script.holdsLock = false) :
    script.feeding? = none := by
  match script with
  | [] => rfl
  | action :: rest => cases action <;> first | rfl | cases h

theorem Script.holdsLock_of_feeding? {script : Script} {more : List Frame}
    (h : script.feeding? = some more) : script.holdsLock = true := by
  by_contra hnot
  rw [Script.feeding?_of_holdsLock (Bool.eq_false_iff.mpr hnot)] at h
  cases h

/-- The actions that **hand nothing over** and write no head. -/
def Action.isSilent : Action → Bool
  | .lockWriter .. | .feed .. | .sendRequest _ | .sendAcceptance .. | .sendRejection _ => false
  | _ => true

namespace Transport

/-- What is written goes out **behind everything else**. -/
theorem outgoing_of_write {t t' : Transport} {b : Bytes} (h : t.write b = .done t') :
    t'.outgoing = t.outgoing ++ b := by
  unfold write at h
  split at h
  · rename_i hempty
    cases h
    rw [List.isEmpty_iff.mp hempty, List.append_nil]
  · split at h
    · cases h
    · split at h
      · cases h
      · cases h
        rfl

end Transport

namespace Connection

variable {c c' c₁ : Connection} {task : TaskId} {action : Action} {rest script : Script}
  {move : Move} {moves : List Move}

/-- The bytes that the **writer holds**, and behind them those of the frame in its slot. -/
def held (c : Connection) : Bytes := (c.writer.map fun w => (c.emptied w).1.bytes).getD []

/-- How many masking keys are drawn by then. -/
def keysDrawn (c : Connection) : Nat := (c.writer.map fun w => (c.emptied w).2).getD c.drawn

/-- The frames that were handed to the writer, **in order**. -/
def sentFrames (c : Connection) : List Frame := (c.sent.map Sent.frame).reverse

theorem held_of_writer {w : Writer} (h : c.writer = some w) :
    c.held = (c.emptied w).1.bytes ∧ c.keysDrawn = (c.emptied w).2 := by
  rw [held, keysDrawn, h]
  exact ⟨rfl, rfl⟩

/-- Without a writer the connection **holds nothing**. -/
theorem held_of_gone (h : c.writer = none) : c.held = [] ∧ c.keysDrawn = c.drawn := by
  rw [held, keysDrawn, h]
  exact ⟨rfl, rfl⟩

theorem sentFrames_cons {f : Frame} (h : c₁.sent = ⟨task, f⟩ :: c.sent) :
    c₁.sentFrames = c.sentFrames ++ [f] := by
  rw [sentFrames, h, List.map_cons, List.reverse_cons]
  rfl

theorem sentFrames_congr (h : c₁.sent = c.sent) : c₁.sentFrames = c.sentFrames := by
  rw [sentFrames, h]
  rfl

/-- Frames that were handed over come **in front of all later ones**. -/
theorem sentFrames_isPrefix (hreach : Reachable c) (hrun : c.run moves = some c') :
    c.sentFrames <+: c'.sentFrames := by
  refine run_induction (P := fun _ x => c.sentFrames <+: x.sentFrames) List.prefix_rfl ?_ hrun
  intro before c₁ move c₂ hbefore ih hstep
  refine ih.trans ?_
  obtain ⟨task, action, rest, c₃, script, rfl, hscript, heffect, rfl⟩ | hact :=
    (transition_of_step hstep).act_or
  · have hsame : (c₃.setScript task script).sent = c₃.sent := setScript_sent ..
    obtain hkept | ⟨f, hadded, -⟩ := heffect.sent (hreach.run hbefore) hscript
    · exact (sentFrames_congr (hsame.trans hkept)).symm ▸ List.prefix_rfl
    · rw [sentFrames_cons (hsame.trans hadded)]
      exact List.prefix_append _ _
  · have hkept := ((transition_of_step hstep).sent_of_ne_act hact).2.2
    exact (sentFrames_congr hkept).symm ▸ List.prefix_rfl

/-- The frames with which the next action of a task **takes the writer lock**. -/
def taking? (c : Connection) (task : TaskId) : Option (List Frame) :=
  match c.script task with
  | .lockWriter frames _ :: _ =>
    if (c.lock.acquire task).holder = some task then some frames else none
  | _ => none

/-- The head that the next action of a task **writes**, in a handshake. -/
def greeting? (c : Connection) (task : TaskId) : Option Bytes :=
  match c.script task with
  | .sendRequest request :: _ => some request.written
  | .sendAcceptance _ response :: _ => some response.written
  | .sendRejection failure :: _ => some (Handshake.Response.rejecting failure).written
  | _ => none

theorem taking?_of_isSilent (hscript : c.script task = action :: rest)
    (h : action.isSilent = true) :
    c.taking? task = none ∧ c.greeting? task = none ∧ (c.script task).feeding? = none := by
  rw [taking?, greeting?, hscript]
  cases action <;> first | exact ⟨rfl, rfl, rfl⟩ | cases h

/-- **What an action does about what goes out**, in a connection in use. -/
inductive SendStep (c : Connection) (task : TaskId) (script : Script) (c₁ : Connection) : Prop
  /-- Nothing is handed over, and what is to be handed over stays the same. -/
  | rests (htaking : c.taking? task = none) (hgreeting : c.greeting? task = none)
      (hfeeding : script.feeding? = (c.script task).feeding?) (hsent : c₁.sent = c.sent)
      (hdrawn : c₁.keysDrawn = c.keysDrawn) (hbytes : c₁.transport.outgoing ++ c₁.held =
        c.transport.outgoing ++ c.held)
  /-- A head is written, when no frame was sent yet. -/
  | greets {head : Bytes} (htaking : c.taking? task = none)
      (hgreeting : c.greeting? task = some head) (hbefore : (c.script task).feeding? = none)
      (hafter : script.feeding? = none) (hsent : c.sent = []) (hsent₁ : c₁.sent = c.sent)
      (hdrawn : c₁.keysDrawn = c.keysDrawn) (hheld : c.held = [])
      (hbytes : c₁.transport.outgoing ++ c₁.held = c.transport.outgoing ++ head)
  /-- The lock is taken. -/
  | takes {frames : List Frame} {recovery : Recovery} (hscript : c.script task =
        .lockWriter frames recovery :: script.tail) (htaking : c.taking? task = some frames)
      (hgreeting : c.greeting? task = none) (hafter : script.feeding? = some frames)
      (hsent : c₁.sent = c.sent) (hdrawn : c₁.keysDrawn = c.keysDrawn)
      (hbytes : c₁.transport.outgoing ++ c₁.held = c.transport.outgoing ++ c.held)
  /-- A frame is handed over. -/
  | feeds {f : Frame} {more : List Frame} {bytes : Bytes} (htaking : c.taking? task = none)
      (hgreeting : c.greeting? task = none) (hbefore : (c.script task).feeding? = some (f :: more))
      (hafter : script.feeding? = some more)
      (hencode : c.codec.encode (c.keys c.keysDrawn) f = .ok bytes)
      (hsent : c₁.sent = ⟨task, f⟩ :: c.sent)
      (hdrawn : c₁.keysDrawn = if Codec.drawsKey c.role f then c.keysDrawn + 1 else c.keysDrawn)
      (hbytes : c₁.transport.outgoing ++ c₁.held = c.transport.outgoing ++ c.held ++ bytes)
  /-- All frames were handed over. -/
  | finishes (htaking : c.taking? task = none) (hgreeting : c.greeting? task = none)
      (hbefore : (c.script task).feeding? = some []) (hafter : script.feeding? = none)
      (hsent : c₁.sent = c.sent) (hdrawn : c₁.keysDrawn = c.keysDrawn)
      (hbytes : c₁.transport.outgoing ++ c₁.held = c.transport.outgoing ++ c.held)

/-- An action that is silent, and moves bytes at most from the writer to the transport. -/
theorem SendStep.of_isSilent (hscript : c.script task = action :: rest)
    (hsilent : action.isSilent = true) (hafter : script.holdsLock = false)
    (hsent : c₁.sent = c.sent) (hdrawn : c₁.keysDrawn = c.keysDrawn)
    (hbytes : c₁.transport.outgoing ++ c₁.held = c.transport.outgoing ++ c.held) :
    SendStep c task script c₁ := by
  obtain ⟨htaking, hgreeting, hfeeding⟩ := taking?_of_isSilent hscript hsilent
  refine .rests htaking hgreeting ?_ hsent hdrawn hbytes
  rw [hfeeding, Script.feeding?_of_holdsLock hafter]

/-- Emptying the slot **adds nothing** to what is held. -/
theorem held_of_emptySlot {w w' : Writer} {drawn : Nat} (hw : c.writer = some w)
    (he : c.emptySlot w = .ok (w', drawn)) : c.held = w'.bytes ∧ c.keysDrawn = drawn := by
  obtain ⟨hheld, hkeys⟩ := held_of_writer hw
  rw [hheld, hkeys, emptied_of_ok he]
  exact ⟨rfl, rfl⟩

/-- What the writer hands on **is not lost**. -/
theorem held_of_write {w : Writer} {t : Transport} (hw : c.writer = some w)
    (ht : c.transport.write w.bytes = .done t) :
    t.outgoing ++ (c.emptied w.written).1.bytes = c.transport.outgoing ++ c.held ∧
      (c.emptied w.written).2 = c.keysDrawn := by
  obtain ⟨hbytes, hdrawn⟩ := emptied_written c w
  obtain ⟨hheld, hkeys⟩ := held_of_writer hw
  refine ⟨?_, hdrawn.symm.trans hkeys.symm⟩
  rw [Transport.outgoing_of_write ht, hheld, hbytes, List.append_assoc]

/-- Whoever is about to have everything written **has emptied the slot** just before. -/
theorem Effect.slot_of_flush (heffect : Effect c task action rest c₁ script) (h : c.Scripted)
    (hscript : c.script task = action :: rest) {recovery : Recovery} {more : Script}
    (hnew : script = .flush recovery :: more) {w : Writer} (hw : c₁.writer = some w) :
    w.slot = none := by
  cases heffect.comesTo hnew rfl with
  | next hrest =>
      have hnot := holdsLock_of_forall (h.tail_not_holdsLock hscript)
      rw [hrest] at hnot
      cases hnot
  | fedAll _ he hw₁ =>
      obtain rfl := Option.some.inj (hw₁.symm.trans hw)
      exact slot_of_emptySlot he

/-- While somebody is about to have everything written, **the slot is free**: nobody else works
behind the lock. -/
theorem Reachable.slot_of_flush (h : Reachable c) {recovery : Recovery} {w : Writer}
    (hscript : c.script task = .flush recovery :: rest) (hw : c.writer = some w) :
    w.slot = none := by
  refine h.invariant (P := fun x => ∀ {task recovery rest w},
    x.script task = .flush recovery :: rest → x.writer = some w → w.slot = none) ?_ ?_ hscript hw
  · intro role options keys task _ _ _ hscript
    cases task <;> cases hscript
  · intro c move c' hreach ih hmove task recovery rest w hscript hw
    obtain ⟨acting, action, tail, c₁, script, rfl, hacting, heffect, rfl⟩ | hact := hmove.act_or
    · rw [setScript_writer] at hw
      obtain ⟨rfl, heq⟩ | ⟨hne, heq⟩ | ⟨-, -, heq, -⟩ := heffect.script_after hacting task
      · exact heffect.slot_of_flush hreach.scripted hacting (heq.symm.trans hscript) hw
      · cases hslot : w.slot with
        | none => rfl
        | some f =>
            have hbefore := heq.symm.trans hscript
            obtain ⟨w₀, hw₀, hslot₀⟩ | ⟨frames, r, rfl⟩ := heffect.slot_eq hw hslot
            · exact nomatch (ih hbefore hw₀).symm.trans hslot₀
            · have hown : c.lock.holder = some task := hreach.locked.holds (by rw [hbefore]; rfl)
              have hother : c.lock.holder = some acting :=
                hreach.locked.holds (by rw [hacting]; rfl)
              exact absurd (Option.some.inj (hown.symm.trans hother)) hne
      · cases heq.symm.trans hscript
    · have hwriter : c'.writer = c.writer := by
        cases hmove with
        | act => exact absurd rfl (hact _)
        | _ => rfl
      obtain hbefore | hopening := hmove.opening_of_ne_act hact hscript
      · exact ih hbefore (hwriter ▸ hw)
      · cases hopening

/-- An action of the handshake greets the peer, or **sends nothing**. -/
theorem Effect.sendStep_of_negotiates (heffect : Effect c task action rest c₁ script)
    (hunbroken : c.transport.broken = false) (hreach : Reachable c)
    (hscript : c.script task = action :: rest) (hnegotiates : action.negotiates = true) :
    SendStep c task script c₁ := by
  have hstage := hreach.staged.negotiating hscript hnegotiates
  have hidle := hreach.staged.idle (by rw [hstage]; exact nofun)
  have hheld : c.held = [] := (held_of_gone hidle.writer).1
  obtain ⟨_, _, -, -, -, hnegotiating⟩ := hreach.scripted.negotiating hscript hnegotiates
  have hafter : script.holdsLock = false := by
    obtain hafter | ⟨a, rfl⟩ := hnegotiating.next heffect
    · cases hafter <;> rfl
    · rfl
  have hgreets : ∀ {head t}, c.transport.write head = .done t → c.greeting? task = some head →
      c.taking? task = none → (c.script task).feeding? = none → c₁.transport = t →
        c₁.sent = c.sent → c₁.drawn = c.drawn → c₁.writer = c.writer →
          SendStep c task script c₁ := by
    intro head t ht hgreeting htaking hbefore htransport hsent hdrawn hsame
    obtain ⟨hheld₁, hkeys₁⟩ := held_of_gone (hsame.trans hidle.writer)
    refine .greets htaking hgreeting hbefore (Script.feeding?_of_holdsLock hafter) hidle.sent hsent
      ?_ hheld ?_
    · rw [hkeys₁, hdrawn, (held_of_gone hidle.writer).2]
    · rw [htransport, Transport.outgoing_of_write ht, hheld₁, List.append_nil]
  cases heffect with
  | sendRequest ht =>
      exact hgreets ht (by rw [greeting?, hscript]) (by rw [taking?, hscript])
        (by rw [hscript]; rfl) rfl rfl rfl rfl
  | sendAcceptance ht =>
      exact hgreets ht (by rw [greeting?, hscript]) (by rw [taking?, hscript])
        (by rw [hscript]; rfl) rfl rfl rfl rfl
  | sendRejection ht =>
      exact hgreets ht (by rw [greeting?, hscript]) (by rw [taking?, hscript])
        (by rw [hscript]; rfl) rfl rfl rfl rfl
  | failToRequest ht => exact absurd ht (Transport.write_ne_broken hunbroken)
  | failToAccept ht => exact absurd ht (Transport.write_ne_broken hunbroken)
  | failToReject ht => exact absurd ht (Transport.write_ne_broken hunbroken)
  | judgeResponse => exact .of_isSilent hscript rfl hafter rfl rfl rfl
  | missResponse => exact .of_isSilent hscript rfl hafter rfl rfl rfl
  | judgeRequest => exact .of_isSilent hscript rfl hafter rfl rfl rfl
  | missRequest => exact .of_isSilent hscript rfl hafter rfl rfl rfl
  | failHandshake => exact .of_isSilent hscript rfl hafter rfl rfl rfl
  | establish =>
      refine .of_isSilent hscript rfl hafter rfl (held_of_gone hidle.writer).2.symm ?_
      rw [hheld]
      rfl
  | _ => cases hnegotiates

/-- **Whatever an action does** about what goes out is one of these steps, if the peer is there,
whoever writes has a writer, and the writer holds nothing any more when it is taken away. -/
theorem Effect.sendStep_of_writer (heffect : Effect c task action rest c₁ script)
    (hunbroken : c.transport.broken = false) (hreach : Reachable c)
    (hscript : c.script task = action :: rest)
    (hlocks : ∀ frames recovery, action = .lockWriter frames recovery → c.writer ≠ none)
    (hholds : action.holdsLock = true → c.writer ≠ none)
    (htaken : action = .takeWriter → (c.lock.acquire task).holder = some task → c.held = [])
    (hstowed : ∀ held, action = .shutDown held → held = []) : SendStep c task script c₁ := by
  have hrest := holdsLock_of_forall (hreach.scripted.tail_not_holdsLock hscript)
  by_cases hnegotiates : action.negotiates = true
  · exact heffect.sendStep_of_negotiates hunbroken hreach hscript hnegotiates
  · cases heffect with
    | queueUp hheld =>
        refine .rests ?_ (by rw [greeting?, hscript]) (by rw [hscript]) rfl rfl rfl
        simp only [taking?, hscript, if_neg hheld]
    | startWriting hheld =>
        refine .takes hscript ?_ (by rw [greeting?, hscript]) rfl rfl rfl rfl
        simp only [taking?, hscript, if_pos hheld]
    | lockInVain _ hw => exact absurd hw (hlocks _ _ rfl)
    | fedAll hw _ he =>
        obtain ⟨hheld, hkeys⟩ := held_of_emptySlot hw he
        refine .finishes (by rw [taking?, hscript]) (by rw [greeting?, hscript])
          (by rw [hscript]; rfl) rfl rfl ?_ ?_
        · rw [hkeys, (held_of_writer rfl).2, emptied_of_slot (slot_of_emptySlot he)]
        · rw [hheld, (held_of_writer rfl).1, emptied_of_slot (slot_of_emptySlot he)]
    | feedInVain hw => exact absurd hw (hholds rfl)
    | makeRoom hw _ ht =>
        obtain ⟨hbytes, hkeys⟩ := held_of_write hw ht
        exact .rests (by rw [taking?, hscript]) (by rw [greeting?, hscript])
          (by rw [hscript]) rfl hkeys hbytes
    | failToMakeRoom _ _ ht => exact absurd ht (Transport.write_ne_broken hunbroken)
    | refuseFrame hw _ he => exact absurd he (hreach.sendable.emptySlot_ne_error hw)
    | @feed f more _ _ _ w' drawn hw _ he =>
        obtain ⟨hheld, hkeys⟩ := held_of_emptySlot hw he
        have hsendable : f.IsSendable :=
          hreach.sendable.scripts task _ (hscript ▸ List.mem_cons_self ..) f (List.mem_cons_self ..)
        obtain ⟨written, hwritten⟩ := hsendable c.codec (c.keys drawn)
        have hput : emptied { c with writer := some (w'.put f), drawn := drawn } (w'.put f) = _ :=
          emptied_put w' hwritten
        refine .feeds (by rw [taking?, hscript]) (by rw [greeting?, hscript])
          (by rw [hscript]; rfl) rfl (hkeys ▸ hwritten) rfl ?_ ?_
        · rw [hkeys]
          exact congrArg Prod.snd hput
        · rw [hheld, List.append_assoc, ← Writer.bytes_add]
          exact congrArg (c.transport.outgoing ++ ·.1.bytes) hput
    | flushInVain hw => exact absurd hw (hholds rfl)
    | flush hw ht =>
        obtain ⟨hbytes, hkeys⟩ := held_of_write hw ht
        exact .of_isSilent hscript rfl hrest rfl hkeys hbytes
    | failToFlush _ ht => exact absurd ht (Transport.write_ne_broken hunbroken)
    | takeNothing => exact .of_isSilent hscript rfl hrest rfl rfl rfl
    | takeWriter hheld hw =>
        refine .of_isSilent hscript rfl rfl rfl (held_of_writer hw).2.symm ?_
        rw [htaken rfl hheld]
        rfl
    | shutBroken ht => exact absurd ht (Transport.write_ne_broken hunbroken)
    | shutDown ht =>
        refine .of_isSilent hscript rfl hrest rfl rfl ?_
        rw [Transport.outgoing_of_write ht, hstowed _ rfl, List.append_nil]
        rfl
    | readFrame => exact .of_isSilent hscript rfl (holdsLock_ofAssembled _ _) rfl rfl rfl
    | _ => first
        | exact .of_isSilent hscript rfl hrest rfl rfl rfl
        | exact .of_isSilent hscript rfl rfl rfl rfl rfl
        | exact absurd rfl hnegotiates

/-- In a connection in use there is a writer, and nobody takes it away. -/
theorem Effect.sendStep (heffect : Effect c task action rest c₁ script) (hsteady : c.Steady)
    (hreach : Reachable c) (hintact : c.stage = .running → c.Intact)
    (hscript : c.script task = action :: rest) : SendStep c task script c₁ := by
  have hwriter : action.needsStream = true → c.writer ≠ none := by
    intro hneeds
    have hrunning := hreach.staged.streaming hscript hneeds
    refine (hintact hrunning).writer ?_
    rw [hsteady.opened hreach hrunning]
    exact nofun
  obtain ⟨hnot, hnever⟩ := hsteady.not_releasing hreach hintact hscript
  refine heffect.sendStep_of_writer hsteady.unbroken hreach hscript ?_ (fun hholds => ?_)
    (fun htakes => absurd htakes hnot) fun held hshuts => absurd hshuts (hnever held)
  · rintro frames recovery rfl
    exact hwriter rfl
  · refine hwriter ?_
    cases action <;> first | rfl | cases hholds

/-- **Whatever anybody does** about what goes out is one of these steps. -/
def Sends (c : Connection) : Prop :=
  ∀ {task action rest c₁ script}, c.script task = action :: rest →
    Effect c task action rest c₁ script → SendStep c task script c₁

theorem Steady.sends (h : c.Steady) (hreach : Reachable c)
    (hintact : c.stage = .running → c.Intact) : c.Sends :=
  fun hscript heffect => heffect.sendStep h hreach hintact hscript

end Connection

end WebSocket
