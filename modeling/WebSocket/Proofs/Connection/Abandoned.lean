import WebSocket.Proofs.Connection.Hauls

/-!
# Messages given up halfway

The frames of a message are handed to the writer one by one. The writer keeps the last one in its
slot, and encodes it behind what it holds when the next one comes; when it holds enough and the
transport takes no bytes, the task waits between two frames, and there the application may give the
operation up. The lock is given back then, with the message unfinished, and nothing remembers how
far it had got. The peer still waits for a continuation when the next message comes, and takes its
first frame for an error.

Whether the data frames handed over so far are in order is asked of an assembly without a limit.
What the holder of the lock still has to hand over tells whether a message is unfinished
(`Connection.Due`), and so there are three phases in the life of a connection
(`Connection.Continuity`): all is in order; a message was given up halfway and no data frame has
followed; one has followed, and it was out of place.

## Main results

* `Connection.Effect.handing`: what an action does about the frames that are handed over.
* `Connection.continuity_of_run`: every connection is in **one of the three phases**.
* `Connection.strays_iff`: a data frame is out of place **exactly if** a message was given up
  halfway and a data frame was handed over behind it.
* `Connection.not_in_order`: and that happens, even if operations are given up only where they have
  to wait.
-/

namespace WebSocket

/-- Whether the next frame to be handed over **goes on with a message**. -/
def Script.isHalfway (script : Script) : Bool :=
  match script.feeding? with
  | some (f :: _) => f.opcode == .continuation
  | _ => false

theorem Script.feeding?_of_isHalfway {script : Script} (h : script.isHalfway = true) :
    ∃ f more, script.feeding? = some (f :: more) ∧ f.opcode = .continuation := by
  unfold Script.isHalfway at h
  split at h
  · rename_i f more hfeeding
    exact ⟨f, more, hfeeding, eq_of_beq h⟩
  · cases h

/-- **The frames of a haul**: one control frame, or a frame that opens a message and continuations
behind it. -/
theorem Haul.Proper.frames_eq {haul : Haul} (h : haul.Proper) :
    (∃ f, haul.frames = [f] ∧ f.isControl = true) ∨
      ∃ kind first parts, haul.frames =
        Frame.piece (MessageKind.opcode kind) first parts.isEmpty ::
          Message.continuations parts := by
  obtain hregular | ⟨status, rfl⟩ := h
  · cases hregular with
    | @message m size =>
        obtain ⟨first, parts, -, hframes, -⟩ := m.fragments_eq size
        exact .inr ⟨m.kind, first, parts, hframes⟩
    | ping => exact .inl ⟨_, rfl, rfl⟩
    | pong => exact .inl ⟨_, rfl, rfl⟩
  · exact .inl ⟨_, rfl, rfl⟩

namespace Connection

variable {c c' c₁ start : Connection} {task : TaskId} {action : Action} {rest script : Script}
  {move : Move} {moves before : List Move} {role : Role} {options : Options} {keys : Nat → Mask}
  {f : Frame} {more : List Frame}

/-! ### The data frames of a connection -/

/-- The **data frames** that were handed to the writer, in order. -/
def dataFrames (c : Connection) : List Frame := c.sentFrames.filter (!·.isControl)

/-- An assembly without a limit **behind these frames**. -/
def collected (c : Connection) : Assembly := (Assembly.fresh none).after c.dataFrames

/-- Whether such an assembly finds one of the data frames **out of place**. -/
def Strays (c : Connection) : Prop :=
  ∃ out ∈ (Assembly.fresh none).outputs c.dataFrames, Assembly.IsStray out

/-- Whether the data frames handed over end **within a message**. -/
def isUnfinished (c : Connection) : Bool := c.collected.inProgress

@[simp] theorem limit_collected (c : Connection) : c.collected.limit = none :=
  Assembly.limit_after ..

theorem dataFrames_congr (h : c'.sent = c.sent) : c'.dataFrames = c.dataFrames := by
  rw [dataFrames, dataFrames, sentFrames_congr h]

theorem strays_congr (h : c'.dataFrames = c.dataFrames) : c'.Strays ↔ c.Strays := by
  rw [Strays, Strays, h]

theorem isUnfinished_congr (h : c'.dataFrames = c.dataFrames) :
    c'.isUnfinished = c.isUnfinished := by
  rw [isUnfinished, isUnfinished, collected, collected, h]

theorem dataFrames_of_control (h : c'.sent = ⟨task, f⟩ :: c.sent) (hf : f.isControl = true) :
    c'.dataFrames = c.dataFrames := by
  rw [dataFrames, dataFrames, sentFrames_cons h, List.filter_append,
    List.filter_cons_of_neg (by simp [hf]), List.filter_nil, List.append_nil]

theorem dataFrames_of_data (h : c'.sent = ⟨task, f⟩ :: c.sent) (hf : f.isControl = false) :
    c'.dataFrames = c.dataFrames ++ [f] := by
  rw [dataFrames, dataFrames, sentFrames_cons h, List.filter_append,
    List.filter_cons_of_pos (by simp [hf]), List.filter_nil]

/-- One more data frame is out of place, or those before it were. -/
theorem strays_of_data (h : c'.dataFrames = c.dataFrames ++ [f]) :
    c'.Strays ↔ c.Strays ∨ Assembly.IsStray (c.collected.feed f).2 := by
  rw [Strays, Strays, h, Assembly.outputs_append, ← collected]
  simp only [Assembly.outputs, List.mem_append, List.mem_singleton, or_and_right, exists_or,
    exists_eq_left]

theorem isUnfinished_of_data (h : c'.dataFrames = c.dataFrames ++ [f]) :
    c'.isUnfinished = (c.collected.feed f).1.inProgress := by
  rw [isUnfinished, collected, h, Assembly.after_append]
  rfl

/-! ### What may come next -/

/-- The frames that the holder of the lock **may still have to hand over**, by whether a message is
unfinished: nothing or a whole haul if none is, and otherwise the continuations of the message. -/
inductive Due : Bool → List Frame → Prop
  | nothing : Due false []
  | whole {haul : Haul} (h : haul.Proper) : Due false haul.frames
  | remainder {part : Bytes} {parts : List Bytes} :
      Due true (Message.continuations (part :: parts))

/-- What is left behind one piece of a message. -/
theorem Due.of_continuations (parts : List Bytes) :
    Due (!parts.isEmpty) (Message.continuations parts) := by
  cases parts with
  | nil => exact .nothing
  | cons part parts => exact .remainder

/-- While no message is unfinished, the next frame is a control frame **or opens a message**. -/
theorem Due.opens_of_data (h : Due false (f :: more)) (hf : f.isControl = false) :
    f.opens?.isSome := by
  generalize hframes : f :: more = frames at h
  cases h with
  | nothing => cases hframes
  | whole hproper =>
      obtain ⟨g, hg, hcontrol⟩ | ⟨kind, first, parts, hg⟩ := hproper.frames_eq
      · obtain ⟨rfl, -⟩ := List.cons.inj (hframes.trans hg)
        exact nomatch hf.symm.trans hcontrol
      · obtain ⟨rfl, -⟩ := List.cons.inj (hframes.trans hg)
        cases kind <;> rfl

theorem Due.opcode_ne (h : Due false (f :: more)) : f.opcode ≠ .continuation := by
  intro hopcode
  have hopens := h.opens_of_data (by rw [Frame.isControl, hopcode]; rfl)
  rw [Frame.opens?, hopcode] at hopens
  cases hopens

/-- When a control frame has been handed over, **nothing else** is left. -/
theorem Due.next_of_control {unfinished : Bool} (h : Due unfinished (f :: more))
    (hf : f.isControl = true) : Due unfinished more := by
  generalize hframes : f :: more = frames at h
  cases h with
  | nothing => cases hframes
  | whole hproper =>
      obtain ⟨g, hg, -⟩ | ⟨kind, first, parts, hg⟩ := hproper.frames_eq
      · obtain ⟨-, rfl⟩ := List.cons.inj (hframes.trans hg)
        exact .nothing
      · obtain ⟨rfl, -⟩ := List.cons.inj (hframes.trans hg)
        cases kind <;> cases hf
  | remainder =>
      rw [Message.continuations_cons] at hframes
      obtain ⟨rfl, -⟩ := List.cons.inj hframes
      cases hf

/-- A data frame that may come next is **in its place**, and what is left behind it may come next
again. -/
theorem Due.next_of_data {a : Assembly} (ha : a.limit = none) (h : Due a.inProgress (f :: more))
    (hf : f.isControl = false) :
    ¬Assembly.IsStray (a.feed f).2 ∧ Due (a.feed f).1.inProgress more := by
  generalize hprogress : a.inProgress = unfinished at h
  generalize hframes : f :: more = frames at h
  cases h with
  | nothing => cases hframes
  | whole hproper =>
      have hopens := Due.opens_of_data (hframes ▸ Due.whole hproper) hf
      obtain ⟨htidy, hfin⟩ := Assembly.feed_in_place (f := f) ha (by rwa [hprogress])
      obtain ⟨g, hg, hcontrol⟩ | ⟨kind, first, parts, hg⟩ := hproper.frames_eq
      · obtain ⟨rfl, -⟩ := List.cons.inj (hframes.trans hg)
        exact nomatch hf.symm.trans hcontrol
      · obtain ⟨rfl, rfl⟩ := List.cons.inj (hframes.trans hg)
        refine ⟨htidy, ?_⟩
        rw [hfin]
        exact .of_continuations _
  | remainder =>
      rw [Message.continuations_cons] at hframes
      obtain ⟨rfl, rfl⟩ := List.cons.inj hframes
      obtain ⟨htidy, hfin⟩ := Assembly.feed_in_place (f := Frame.piece .continuation _ _) ha
        (by rw [hprogress]; rfl)
      refine ⟨htidy, ?_⟩
      rw [hfin]
      exact .of_continuations _

/-! ### What an action does about the frames -/

/-- **What an action does about the frames that are handed over**, whether the writer is still there
or not. -/
inductive Handing (c : Connection) (task : TaskId) (script : Script) (c₁ : Connection) : Prop
  /-- Nothing is handed over, and what is to be handed over stays the same. -/
  | rests (hfeeding : script.feeding? = (c.script task).feeding?) (hsent : c₁.sent = c.sent)
      (hwriter : c₁.writer ≠ none → c.writer ≠ none ∨ c.sent = [])
  /-- The lock is taken. -/
  | takes {frames : List Frame} (htaking : c.taking? task = some frames)
      (hafter : script.feeding? = some frames) (hsent : c₁.sent = c.sent)
      (hwriter : c.writer ≠ none)
  /-- A frame is handed over. -/
  | feeds {f : Frame} {more : List Frame}
      (hbefore : (c.script task).feeding? = some (f :: more)) (hafter : script.feeding? = some more)
      (hsent : c₁.sent = ⟨task, f⟩ :: c.sent)
  /-- All frames were handed over. -/
  | finishes (hbefore : (c.script task).feeding? = some []) (hafter : script.feeding? = none)
      (hsent : c₁.sent = c.sent)
  /-- There is no writer any more. -/
  | fails (hafter : script.feeding? = none) (hsent : c₁.sent = c.sent) (hwriter : c₁.writer = none)

/-- An action of a handshake **hands nothing over**, and there is a writer behind it only if no
frame was sent yet. -/
theorem Effect.handing_of_negotiates (heffect : Effect c task action rest c₁ script)
    (hreach : Reachable c) (hscript : c.script task = action :: rest)
    (hnegotiates : action.negotiates = true) : Handing c task script c₁ := by
  have hstage := hreach.staged.negotiating hscript hnegotiates
  have hidle := hreach.staged.idle (by rw [hstage]; exact nofun)
  obtain ⟨_, _, -, -, -, hnegotiating⟩ := hreach.scripted.negotiating hscript hnegotiates
  have hafter : script.holdsLock = false := by
    obtain hafter | ⟨a, rfl⟩ := hnegotiating.next heffect
    · cases hafter <;> rfl
    · rfl
  have hbefore : (c.script task).feeding? = none := by
    rw [hscript]
    cases hnegotiating <;> rfl
  have hsent : c₁.sent = c.sent := by
    cases heffect <;> first | rfl | cases hnegotiates
  exact .rests ((Script.feeding?_of_holdsLock hafter).trans hbefore.symm) hsent
    fun _ => .inr hidle.sent

/-- **Whatever an action does** about the frames is one of these. -/
theorem Effect.handing (heffect : Effect c task action rest c₁ script) (hreach : Reachable c)
    (hscript : c.script task = action :: rest) : Handing c task script c₁ := by
  have hrest := holdsLock_of_forall (hreach.scripted.tail_not_holdsLock hscript)
  have hrests : ∀ {script : Script}, script.holdsLock = false → (c.script task).feeding? = none →
      script.feeding? = (c.script task).feeding? := fun hafter hbefore =>
    (Script.feeding?_of_holdsLock hafter).trans hbefore.symm
  by_cases hnegotiates : action.negotiates = true
  · exact heffect.handing_of_negotiates hreach hscript hnegotiates
  · cases heffect with
    | queueUp => exact .rests (by rw [hscript]) rfl .inl
    | startWriting hheld hw =>
        refine .takes ?_ rfl rfl (by rw [hw]; exact nofun)
        simp only [taking?, hscript, if_pos hheld]
    | lockInVain _ hw =>
        exact .fails (Script.feeding?_of_holdsLock (holdsLock_recover hrest _ _)) rfl hw
    | fedAll => exact .finishes (by rw [hscript]; rfl) rfl rfl
    | feedInVain hw =>
        exact .fails (Script.feeding?_of_holdsLock (holdsLock_recover hrest _ _)) rfl hw
    | makeRoom hw => exact .rests (by rw [hscript]) rfl fun _ => .inl (by rw [hw]; exact nofun)
    | failToMakeRoom => exact .fails rfl rfl rfl
    | refuseFrame hw _ he => exact absurd he (hreach.sendable.emptySlot_ne_error hw)
    | feed => exact .feeds (by rw [hscript]; rfl) rfl rfl
    | flushInVain hw =>
        exact .fails (Script.feeding?_of_holdsLock (holdsLock_recover hrest _ _)) rfl hw
    | flush hw =>
        exact .rests (hrests hrest (by rw [hscript]; rfl)) rfl
          fun _ => .inl (by rw [hw]; exact nofun)
    | failToFlush => exact .fails rfl rfl rfl
    | takeWriter => exact .fails rfl rfl rfl
    | readFrame =>
        exact .rests (hrests (holdsLock_ofAssembled _ _) (by rw [hscript]; rfl)) rfl .inl
    | _ => first
        | exact .rests (hrests hrest (by rw [hscript]; rfl)) rfl .inl
        | exact .rests (hrests rfl (by rw [hscript]; rfl)) rfl .inl
        | exact absurd rfl hnegotiates

/-! ### Who stands halfway -/

/-- The reader hands over control frames, so it **never stands halfway**. -/
theorem ReaderScript.isHalfway_eq_false (h : ReaderScript script) : script.isHalfway = false := by
  have hwrites : ∀ {f : Frame} {recovery : Recovery} {action : Action} {rest : Script},
      f.isControl = true → Writes [f] recovery action →
        Script.isHalfway (action :: rest) = false := by
    intro f recovery action rest hf hw
    cases hw with
    | lock => rfl
    | flush => rfl
    | feed hmore =>
        obtain heq | hnil := List.suffix_cons_iff.mp hmore
        · subst heq
          refine Bool.eq_false_iff.mpr fun hhalfway => ?_
          obtain ⟨g, more, hg, hopcode⟩ := Script.feeding?_of_isHalfway hhalfway
          obtain ⟨rfl, -⟩ := List.cons.inj (Option.some.inj hg)
          rw [Frame.isControl, hopcode] at hf
          cases hf
        · rw [List.suffix_nil.mp hnil]
          rfl
  cases h with
  | ponging _ hw => exact hwrites rfl hw
  | closing hw => exact hwrites rfl hw
  | _ => rfl

/-- Who has continuations to hand over **stands halfway**. -/
theorem Due.isHalfway (h : Due true more) (hfeeding : script.feeding? = some more) :
    script.isHalfway = true := by
  cases h with
  | remainder =>
      rw [Message.continuations_cons] at hfeeding
      rw [Script.isHalfway, hfeeding]
      rfl

/-- Who stands halfway does so **within the unfinished message**. -/
theorem isUnfinished_of_isHalfway (hdue : ∀ {task more}, (c.script task).feeding? = some more →
    Due c.isUnfinished more) (hhalfway : (c.script task).isHalfway = true) :
    c.isUnfinished = true := by
  obtain ⟨f, more, hfeeding, hopcode⟩ := Script.feeding?_of_isHalfway hhalfway
  have hnext := hdue hfeeding
  cases hunfinished : c.isUnfinished with
  | true => rfl
  | false =>
      rw [hunfinished] at hnext
      exact absurd hopcode hnext.opcode_ne

/-- A move that is no action lets nobody **begin to hand frames over**. -/
theorem Transition.feeding?_of_feeding? (hmove : Transition c move c')
    (hact : ∀ task, move ≠ .act task) (h : (c'.script task).feeding? = some more) :
    (c.script task).feeding? = some more := by
  rwa [← hmove.script_of_holdsLock hact (Script.holdsLock_of_feeding? h)]

/-- The connections in which an operation was given up **halfway**, in a run. -/
def Abandons (start : Connection) (moves : List Move) (c : Connection) : Prop :=
  ∃ before id behind, moves = before ++ .giveUp id :: behind ∧ start.run before = some c ∧
    (c.script (.call id)).isHalfway = true

theorem abandons_concat : Abandons start (before ++ [move]) c ↔ Abandons start before c ∨
    ∃ id, move = .giveUp id ∧ start.run before = some c ∧
      (c.script (.call id)).isHalfway = true := by
  constructor
  · rintro ⟨front, id, behind, heq, hrun, hhalfway⟩
    obtain rfl | ⟨behind, last, rfl⟩ := behind.eq_nil_or_concat
    · obtain ⟨rfl, hmove⟩ := List.append_inj' heq rfl
      exact .inr ⟨id, List.singleton_inj.mp hmove, hrun, hhalfway⟩
    · rw [List.concat_eq_append, ← List.cons_append, ← List.append_assoc] at heq
      obtain ⟨rfl, -⟩ := List.append_inj' heq rfl
      exact .inl ⟨front, id, behind, rfl, hrun, hhalfway⟩
  · rintro (⟨front, id, behind, rfl, hrun, hhalfway⟩ | ⟨id, rfl, hrun, hhalfway⟩)
    · exact ⟨front, id, behind ++ [move], by rw [List.append_assoc, List.cons_append], hrun,
        hhalfway⟩
    · exact ⟨before, id, [], rfl, hrun, hhalfway⟩

/-! ### While all is in order -/

/-- All data frames are in their place, and whoever hands frames over has those that **may come
next**. Without anybody who does, no message is unfinished, or the writer is gone. -/
structure InOrder (c : Connection) : Prop where
  tidy : ¬c.Strays
  due : ∀ {task more}, (c.script task).feeding? = some more → Due c.isUnfinished more
  finished : (∀ task, (c.script task).feeding? = none) → c.writer ≠ none → c.isUnfinished = false

/-- A message was given up halfway, and **no data frame has followed**. -/
structure Stranded (c : Connection) : Prop where
  tidy : ¬c.Strays
  unfinished : c.isUnfinished = true
  due : ∀ {task more}, (c.script task).feeding? = some more → Due false more

/-- What a task has to hand over after an action is **its own**, or that of another task. -/
theorem feeding?_cases (hself : c'.script task = script) (hother : ∀ other, other ≠ task →
      (c'.script other).feeding? = (c.script other).feeding?) {t : TaskId}
    (h : (c'.script t).feeding? = some more) :
    (t = task ∧ script.feeding? = some more) ∨ (t ≠ task ∧ (c.script t).feeding? = some more) := by
  by_cases ht : t = task
  · subst ht
    exact .inl ⟨rfl, hself ▸ h⟩
  · exact .inr ⟨ht, hother t ht ▸ h⟩

/-- When a task stops, all stays in order if the writer is gone or **no message is unfinished**. -/
theorem InOrder.of_stop (h : c.InOrder) (hself : c'.script task = script)
    (hother : ∀ other, other ≠ task → (c'.script other).feeding? = (c.script other).feeding?)
    (hsent : c'.sent = c.sent) (hafter : script.feeding? = none)
    (hdone : c'.writer = none ∨ c.isUnfinished = false) : c'.InOrder := by
  have hdata := dataFrames_congr hsent
  have hunfinished := isUnfinished_congr hdata
  refine ⟨fun hstrays => h.tidy ((strays_congr hdata).mp hstrays), ?_, fun _ hwriter => ?_⟩
  · intro t more hfeeding
    obtain ⟨-, hown⟩ | ⟨-, hkept⟩ := feeding?_cases hself hother hfeeding
    · exact nomatch hafter.symm.trans hown
    · exact hunfinished ▸ h.due hkept
  · exact hunfinished.trans (hdone.resolve_left hwriter)

/-- **An action** keeps all in order. Whoever takes the lock is supposed to take it with a haul. -/
theorem InOrder.handing (h : c.InOrder) (hlocked : c.Locked) (hself : c'.script task = script)
    (hother : ∀ other, other ≠ task → (c'.script other).feeding? = (c.script other).feeding?)
    (hsent : c'.sent = c₁.sent) (hwriter : c'.writer = c₁.writer)
    (htaken : ∀ frames, c.taking? task = some frames → Due false frames)
    (hhanding : Handing c task script c₁) : c'.InOrder := by
  cases hhanding with
  | rests hfeeding hsame hkept =>
      have hdata := dataFrames_congr (hsent.trans hsame)
      have hunfinished := isUnfinished_congr hdata
      refine ⟨fun hstrays => h.tidy ((strays_congr hdata).mp hstrays), ?_, ?_⟩
      · intro t more hbusy
        obtain ⟨rfl, hown⟩ | ⟨-, hkept⟩ := feeding?_cases hself hother hbusy
        · exact hunfinished ▸ h.due (hfeeding ▸ hown)
        · exact hunfinished ▸ h.due hkept
      · intro hidle hw
        rw [hunfinished]
        obtain hbefore | hnothing := hkept (hwriter ▸ hw)
        · refine h.finished (fun t => ?_) hbefore
          by_cases ht : t = task
          · rw [ht, ← hfeeding, ← hself]
            exact hidle task
          · rw [← hother t ht]
            exact hidle t
        · rw [isUnfinished, collected, dataFrames, sentFrames, hnothing]
          rfl
  | @takes frames htaking hafter hsame hw =>
      have hdata := dataFrames_congr (hsent.trans hsame)
      have hfree := hlocked.not_feeding htaking
      have hunfinished := (isUnfinished_congr hdata).trans (h.finished hfree hw)
      refine ⟨fun hstrays => h.tidy ((strays_congr hdata).mp hstrays), ?_, fun _ _ => hunfinished⟩
      intro t more hbusy
      obtain ⟨-, hown⟩ | ⟨-, hkept⟩ := feeding?_cases hself hother hbusy
      · rw [hunfinished, ← Option.some.inj (hafter.symm.trans hown)]
        exact htaken frames htaking
      · cases (hfree t).symm.trans hkept
  | @feeds f more hbefore hafter hadded =>
      have hdue := h.due hbefore
      have hbusy : ¬∀ t, (c'.script t).feeding? = none := fun hidle => by
        have hnone := hidle task
        rw [hself, hafter] at hnone
        cases hnone
      have hnext : ∀ {t rest}, (c'.script t).feeding? = some rest → rest = more := by
        intro t rest hfeeding
        obtain ⟨-, hown⟩ | ⟨ht, hkept⟩ := feeding?_cases hself hother hfeeding
        · exact (Option.some.inj (hafter.symm.trans hown)).symm
        · cases (hlocked.feeding_unique hbefore ht).symm.trans hkept
      cases hf : f.isControl with
      | true =>
          have hdata := dataFrames_of_control (hsent.trans hadded) hf
          refine ⟨fun hstrays => h.tidy ((strays_congr hdata).mp hstrays), ?_,
            fun hidle => absurd hidle hbusy⟩
          intro t rest hfeeding
          rw [hnext hfeeding, isUnfinished_congr hdata]
          exact hdue.next_of_control hf
      | false =>
          have hdata := dataFrames_of_data (hsent.trans hadded) hf
          obtain ⟨htidy, hleft⟩ := hdue.next_of_data c.limit_collected hf
          refine ⟨fun hstrays => ?_, ?_, fun hidle => absurd hidle hbusy⟩
          · obtain hstrays | hstray := (strays_of_data hdata).mp hstrays
            · exact h.tidy hstrays
            · exact htidy hstray
          · intro t rest hfeeding
            rw [hnext hfeeding, isUnfinished_of_data hdata]
            exact hleft
  | finishes hbefore hafter hsame =>
      refine h.of_stop hself hother (hsent.trans hsame) hafter (.inr ?_)
      have hdue := h.due hbefore
      generalize hnil : ([] : List Frame) = frames at hdue
      cases hunfinished : c.isUnfinished with
      | false => rfl
      | true =>
          rw [hunfinished] at hdue
          cases hdue with
          | remainder => rw [Message.continuations_cons] at hnil; cases hnil
  | fails hafter hsame hw =>
      exact h.of_stop hself hother (hsent.trans hsame) hafter (.inl (hwriter.trans hw))

/-- A move that is no action and gives nobody up halfway **keeps all in order**. -/
theorem InOrder.of_ne_act (h : c.InOrder) (hscripted : c.Scripted) (hmove : Transition c move c')
    (hact : ∀ task, move ≠ .act task)
    (hgives : ∀ id, move = .giveUp id → (c.script (.call id)).isHalfway = false) : c'.InOrder := by
  have hdata := dataFrames_congr (hmove.sent_of_ne_act hact).2.2
  have hunfinished := isUnfinished_congr hdata
  have hwriter : c'.writer = c.writer := by
    cases hmove with
    | act => exact absurd rfl (hact _)
    | _ => rfl
  refine ⟨fun hstrays => h.tidy ((strays_congr hdata).mp hstrays), ?_, ?_⟩
  · intro t more hfeeding
    exact hunfinished ▸ h.due (hmove.feeding?_of_feeding? hact hfeeding)
  · -- Whoever handed over continuations has gone; it was neither given up nor the reader.
    intro hidle hw
    rw [hunfinished]
    refine Bool.eq_false_iff.mpr fun htrue => ?_
    rw [hwriter] at hw
    have hbusy : ¬∀ t, (c.script t).feeding? = none := fun hnone => by
      rw [h.finished hnone hw] at htrue
      cases htrue
    obtain ⟨t, ht⟩ := not_forall.mp hbusy
    obtain ⟨more, hfeeding⟩ := Option.ne_none_iff_exists'.mp ht
    have hhalfway := (htrue ▸ h.due hfeeding).isHalfway hfeeding
    have hne : c.script t ≠ [] := fun hnil => by
      rw [hnil] at hfeeding
      cases hfeeding
    obtain hkept | ⟨_, _, -, -, hanswer⟩ | ⟨id, rfl, hmoved, -⟩ | ⟨rfl, -⟩ :=
      hmove.kept_of_ne_act hact hne
    · rw [← hkept, hidle t] at hfeeding
      cases hfeeding
    · rw [hanswer] at hfeeding
      cases hfeeding
    · exact nomatch hhalfway.symm.trans (hgives id hmoved)
    · exact nomatch hhalfway.symm.trans hscripted.reader.isHalfway_eq_false

/-- When somebody is given up halfway, **the message stays unfinished**. -/
theorem InOrder.strand {id : Nat} (h : c.InOrder) (hlocked : c.Locked)
    (hmove : Transition c (.giveUp id) c') (hhalfway : (c.script (.call id)).isHalfway = true) :
    c'.Stranded := by
  have hact : ∀ task, Move.giveUp id ≠ .act task := fun _ => nofun
  have hdata := dataFrames_congr (hmove.sent_of_ne_act hact).2.2
  refine ⟨fun hstrays => h.tidy ((strays_congr hdata).mp hstrays),
    (isUnfinished_congr hdata).trans (isUnfinished_of_isHalfway h.due hhalfway), ?_⟩
  intro t more hfeeding
  obtain ⟨_, _, hbusy, -⟩ := Script.feeding?_of_isHalfway hhalfway
  by_cases ht : t = .call id
  · subst ht
    cases hmove with
    | giveUp =>
        rw [script_of_filter rfl id, if_pos rfl] at hfeeding
        cases hfeeding
  · have hkept := hmove.feeding?_of_feeding? hact hfeeding
    rw [hlocked.feeding_unique hbusy ht] at hkept
    cases hkept

/-! ### Behind an unfinished message -/

/-- What hands over no data frame **keeps the message unfinished**. -/
theorem Stranded.keep (h : c.Stranded) (hdata : c'.dataFrames = c.dataFrames)
    (hdue : ∀ {task more}, (c'.script task).feeding? = some more → Due false more) : c'.Stranded :=
  ⟨fun hstrays => h.tidy ((strays_congr hdata).mp hstrays),
    (isUnfinished_congr hdata).trans h.unfinished, hdue⟩

/-- **The next data frame** behind an unfinished message is out of place. -/
theorem Stranded.handing (h : c.Stranded) (hself : c'.script task = script)
    (hother : ∀ other, other ≠ task → (c'.script other).feeding? = (c.script other).feeding?)
    (hsent : c'.sent = c₁.sent) (htaken : ∀ frames, c.taking? task = some frames → Due false frames)
    (hhanding : Handing c task script c₁) :
    (c'.Stranded ∧ c'.dataFrames = c.dataFrames) ∨
      ∃ f, c'.Strays ∧ c'.dataFrames = c.dataFrames ++ [f] := by
  have hdue : (∀ more, script.feeding? = some more → Due false more) →
      ∀ {t more}, (c'.script t).feeding? = some more → Due false more := by
    intro hown t more hfeeding
    obtain ⟨-, hbusy⟩ | ⟨-, hkept⟩ := feeding?_cases hself hother hfeeding
    · exact hown more hbusy
    · exact h.due hkept
  have hstops : script.feeding? = none → ∀ more, script.feeding? = some more → Due false more :=
    fun hnone _ hsome => nomatch hnone.symm.trans hsome
  cases hhanding with
  | rests hfeeding hsame =>
      have hdata := dataFrames_congr (hsent.trans hsame)
      exact .inl ⟨h.keep hdata (hdue fun more hown => h.due (hfeeding ▸ hown)), hdata⟩
  | @takes frames htaking hafter hsame =>
      have hdata := dataFrames_congr (hsent.trans hsame)
      refine .inl ⟨h.keep hdata (hdue fun more hown => ?_), hdata⟩
      rw [← Option.some.inj (hafter.symm.trans hown)]
      exact htaken frames htaking
  | @feeds f more hbefore hafter hadded =>
      cases hf : f.isControl with
      | true =>
          have hdata := dataFrames_of_control (hsent.trans hadded) hf
          refine .inl ⟨h.keep hdata (hdue fun rest hown => ?_), hdata⟩
          rw [← Option.some.inj (hafter.symm.trans hown)]
          exact (h.due hbefore).next_of_control hf
      | false =>
          have hdata := dataFrames_of_data (hsent.trans hadded) hf
          refine .inr ⟨f, (strays_of_data hdata).mpr (.inr ?_), hdata⟩
          exact Assembly.isStray_of_reopens h.unfinished ((h.due hbefore).opens_of_data hf)
  | finishes _ hafter hsame =>
      have hdata := dataFrames_congr (hsent.trans hsame)
      exact .inl ⟨h.keep hdata (hdue (hstops hafter)), hdata⟩
  | fails hafter hsame =>
      have hdata := dataFrames_congr (hsent.trans hsame)
      exact .inl ⟨h.keep hdata (hdue (hstops hafter)), hdata⟩

/-! ### Runs -/

/-- How it stands with the data frames **in a run**: all is in order and nobody was given up
halfway; somebody was, and no data frame has followed; or one has followed, out of place. -/
inductive Continuity (start : Connection) (moves : List Move) (c : Connection) : Prop
  | inOrder (h : c.InOrder) (hnone : ∀ b, ¬Abandons start moves b)
  | stranded (h : c.Stranded) (hsome : ∃ b, Abandons start moves b)
      (hsame : ∀ b, Abandons start moves b → b.dataFrames = c.dataFrames)
  | broken (h : c.Strays) {b : Connection} (hb : Abandons start moves b)
      (hless : b.dataFrames.length < c.dataFrames.length)

/-- Data frames that were handed over come **in front of all later ones**. -/
theorem dataFrames_isPrefix (hreach : Reachable c) (hrun : c.run moves = some c') :
    c.dataFrames <+: c'.dataFrames :=
  (sentFrames_isPrefix hreach hrun).filter _

/-- A frame out of place **stays out of place**. -/
theorem Strays.mono (h : c.Strays) (hsofar : c.dataFrames <+: c'.dataFrames) : c'.Strays := by
  obtain ⟨later, hlater⟩ := hsofar
  obtain ⟨out, hout, hstray⟩ := h
  refine ⟨out, ?_, hstray⟩
  rw [← hlater, Assembly.outputs_append]
  exact List.mem_append_left _ hout

/-- **Every move** leads on within a phase, or from one to the next. -/
theorem Continuity.step (h : Continuity (new role options keys) before c)
    (hrun : (new role options keys).run before = some c) (hstep : c.step move = some c') :
    Continuity (new role options keys) (before ++ [move]) c' := by
  have hreach := (reachable_new role options keys).run hrun
  have hmove := transition_of_step hstep
  have hlast : c.run [move] = some c' := run_cons_eq_some.mpr ⟨c', hstep, rfl⟩
  have hsofar := dataFrames_isPrefix hreach hlast
  have htaken : ∀ task frames, c.taking? task = some frames → Due false frames :=
    fun task frames htaking => .whole ((tied_of_run hrun).proper hreach htaking)
  cases h with
  | broken hstrays hb hless =>
      exact .broken (hstrays.mono hsofar) (abandons_concat.mpr (.inl hb))
        (Nat.lt_of_lt_of_le hless hsofar.length_le)
  | stranded h hsome hsame =>
      -- nobody else stands halfway, so no other operation is given up there
      have hold : ∀ b, Abandons (new role options keys) (before ++ [move]) b →
          Abandons (new role options keys) before b := by
        intro b hb
        obtain hb | ⟨id, -, hrun', hhalfway⟩ := abandons_concat.mp hb
        · exact hb
        · obtain rfl : c = b := Option.some.inj (hrun.symm.trans hrun')
          obtain ⟨f, more, hfeeding, hopcode⟩ := Script.feeding?_of_isHalfway hhalfway
          exact absurd hopcode (h.due hfeeding).opcode_ne
      obtain ⟨b, hb⟩ := hsome
      have hb' : Abandons (new role options keys) (before ++ [move]) b :=
        abandons_concat.mpr (.inl hb)
      have hkept : c'.Stranded → c'.dataFrames = c.dataFrames →
          Continuity (new role options keys) (before ++ [move]) c' := fun hstranded hdata =>
        .stranded hstranded ⟨b, hb'⟩ fun b' hb' => (hsame b' (hold b' hb')).trans hdata.symm
      obtain ⟨task, _, _, c₁, script, rfl, hscript, heffect, rfl⟩ | hact := hmove.act_or
      · obtain ⟨hstranded, hdata⟩ | ⟨f, hstrays, hdata⟩ :=
          h.handing (heffect.script_self hscript)
            (fun other hne => heffect.feeding?_of_ne hreach.staged hscript hne) (setScript_sent ..)
            (htaken task) (heffect.handing hreach hscript)
        · exact hkept hstranded hdata
        · refine .broken hstrays hb' ?_
          rw [hsame b hb, hdata, List.length_append]
          exact Nat.lt_succ_self _
      · have hdata := dataFrames_congr (hmove.sent_of_ne_act hact).2.2
        exact hkept (h.keep hdata fun hfeeding =>
          h.due (hmove.feeding?_of_feeding? hact hfeeding)) hdata
  | inOrder h hnone =>
      have hnew : ∀ b, Abandons (new role options keys) (before ++ [move]) b →
          c = b ∧ ∃ id, move = .giveUp id ∧ (c.script (.call id)).isHalfway = true := by
        intro b hb
        obtain hb | ⟨id, hgives, hrun', hhalfway⟩ := abandons_concat.mp hb
        · exact absurd hb (hnone b)
        · obtain rfl : c = b := Option.some.inj (hrun.symm.trans hrun')
          exact ⟨rfl, id, hgives, hhalfway⟩
      obtain ⟨task, _, _, c₁, script, rfl, hscript, heffect, rfl⟩ | hact := hmove.act_or
      · refine .inOrder ?_ fun b hb => ?_
        · exact h.handing hreach.locked (heffect.script_self hscript)
            (fun other hne => heffect.feeding?_of_ne hreach.staged hscript hne)
            (setScript_sent ..) (setScript_writer ..) (htaken task)
            (heffect.handing hreach hscript)
        · obtain ⟨-, id, hgives, -⟩ := hnew b hb
          cases hgives
      · by_cases hgives : ∃ id, move = .giveUp id ∧ (c.script (.call id)).isHalfway = true
        · obtain ⟨id, rfl, hhalfway⟩ := hgives
          have hdata := dataFrames_congr (hmove.sent_of_ne_act hact).2.2
          refine .stranded (h.strand hreach.locked hmove hhalfway)
            ⟨c, abandons_concat.mpr (.inr ⟨id, rfl, hrun, hhalfway⟩)⟩ fun b hb => ?_
          obtain ⟨rfl, -⟩ := hnew b hb
          exact hdata.symm
        · refine .inOrder (h.of_ne_act hreach.scripted hmove hact fun id hid => ?_) fun b hb => ?_
          · exact Bool.eq_false_iff.mpr fun hhalfway => hgives ⟨id, hid, hhalfway⟩
          · exact hgives (hnew b hb).2

/-- **In every run** it stands in one of these ways. -/
theorem continuity_of_run (hrun : (new role options keys).run moves = some c) :
    Continuity (new role options keys) moves c := by
  refine run_induction (P := Continuity (new role options keys)) (.inOrder ?_ ?_)
    (fun hbefore ih hstep => ih.step hbefore hstep) hrun
  · refine ⟨?_, ?_, fun _ _ => rfl⟩
    · rintro ⟨out, hout, -⟩
      cases hout
    · intro task more hfeeding
      cases task <;> cases hfeeding
  · rintro b ⟨front, id, behind, heq, -⟩
    exact absurd heq (by simp)

/-- **A data frame is out of place exactly if** an operation was given up halfway, with some frames
of its message handed over and others not, and a data frame was handed over behind it. -/
theorem strays_iff (hrun : (new role options keys).run moves = some c) :
    (∃ out ∈ (Assembly.fresh none).outputs c.dataFrames, Assembly.IsStray out) ↔
      ∃ b, Abandons (new role options keys) moves b ∧ b.dataFrames ≠ c.dataFrames := by
  cases continuity_of_run hrun with
  | inOrder h hnone => exact iff_of_false h.tidy fun ⟨b, hb, _⟩ => hnone b hb
  | stranded h _ hsame => exact iff_of_false h.tidy fun ⟨b, hb, hne⟩ => hne (hsame b hb)
  | broken h hb hless =>
      refine iff_of_true h ⟨_, hb, fun heq => ?_⟩
      rw [heq] at hless
      exact Nat.lt_irrefl _ hless

/-- Whether an operation is given up only where it **has to wait**. -/
def isPatient (c : Connection) : Move → Bool
  | .giveUp id => (c.act (.call id)).isNone
  | _ => true

/-- A message of three frames, if each is as long as what the writer holds at most. -/
def longMessage : Message := Message.ofBytes (List.replicate (2 * Writer.capacity + 1) 0)

/-- A run in which a message is **given up halfway**. The transport takes no bytes: the writer holds
the first frame, the second one is in its slot, and the third one has to wait. Then the transport
takes bytes again, and another message is sent. -/
def abandoningMoves : List Move :=
  openingMoves ++
    [.collect 0, .stall true, .start 1 (.sendFragmented longMessage Writer.capacity)] ++
    List.replicate 4 (.act (.call 1)) ++
    [.giveUp 1, .stall false, .start 2 (.send (Message.ofBytes [1]))] ++
    List.replicate 7 (.act (.call 2))

/-- What an assembly says of the data frames of that run: the second message begins **out of
place**. -/
theorem outputs_of_abandoningMoves :
    ((new .server {} fun _ => Mask.zero).run abandoningMoves).map
        (fun c => ((Assembly.fresh none).outputs c.dataFrames, c.answer? 2, c.held,
          (new .server {} fun _ => Mask.zero).always isPatient abandoningMoves)) =
      some ([.ok none, .ok none, .error (.violation .unexpectedDataFrame)], some .done, [],
        true) := by
  decide +kernel

/-- So the data frames of a connection are **not in order** in every run, not even if operations are
given up only where they have to wait. -/
theorem not_in_order :
    ¬ ∀ (role : Role) (options : Options) (keys : Nat → Mask) (moves : List Move) (c : Connection),
      (new role options keys).run moves = some c →
        (new role options keys).always isPatient moves = true →
          ∀ out ∈ (Assembly.fresh none).outputs c.dataFrames, ¬Assembly.IsStray out := by
  intro h
  obtain ⟨c, hrun, hfacts⟩ := Option.map_eq_some_iff.mp outputs_of_abandoningMoves
  simp only [Prod.mk.injEq] at hfacts
  obtain ⟨houtputs, -, -, hpatient⟩ := hfacts
  have htidy := h .server {} (fun _ => Mask.zero) abandoningMoves c hrun hpatient
  rw [houtputs] at htidy
  exact htidy _ (by simp) (.inl rfl)

/-- In that run somebody **was given up halfway**. -/
theorem strays_iff_of_abandoningMoves :
    ∃ c, (new .server {} fun _ => Mask.zero).run abandoningMoves = some c ∧
      ∃ b, Abandons (new .server {} fun _ => Mask.zero) abandoningMoves b ∧
        b.dataFrames ≠ c.dataFrames := by
  obtain ⟨c, hrun, hfacts⟩ := Option.map_eq_some_iff.mp outputs_of_abandoningMoves
  simp only [Prod.mk.injEq] at hfacts
  refine ⟨c, hrun, (strays_iff hrun).mp ?_⟩
  rw [hfacts.1]
  exact ⟨_, by simp, .inl rfl⟩

end Connection

end WebSocket
