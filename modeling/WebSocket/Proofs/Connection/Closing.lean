import WebSocket.Proofs.Connection.Locking

/-!
# After the close frame

Whoever wants to write a data frame, a ping or a pong looks at the phase first, and writes later,
behind the writer lock. Between the look and the lock other tasks may act. A task **straddles** the
end when it has looked while the connection was open but does not stand at the lock yet when the
phase moves on. Such a task may get the lock behind the one that writes the close frame.

Nobody else can: who looks later is refused, and who stands at the lock already is served before
the task that writes the close frame, since that one comes to the lock only after the phase has
moved on. So the frames behind a close frame are exactly those of tasks that straddle the end.

## Main results

* `Connection.straddler_of_sent_after_close`: behind a close frame **only straddling tasks** write,
  and none of them writes a second close frame.
* `Connection.not_close_frame_last`: a run in which a frame follows the close frame.
-/

namespace WebSocket

/-! ### The frames that a task will write -/

/-- Whether a frame is a close frame. -/
def Frame.isClose (f : Frame) : Bool := f.opcode == .close

/-- The frames that a task **will write without a further look** at the phase. -/
def Script.cargo : Script → List Frame
  | .enlist _ :: rest => Script.cargo rest
  | .lockWriter frames _ :: _ | .feed frames _ :: _ => frames
  | _ => []

/-- Whether a task will write the **close frame**. -/
def Script.isClosing (script : Script) : Bool := script.cargo.any Frame.isClose

/-- Whether the end of the connection has begun. -/
def Phase.isEnding : Phase → Bool
  | .connecting | .opened => false
  | .closing | .closed => true

namespace Message

/-- No frame of a message is a close frame. -/
theorem isClose_of_mem_fragments {m : Message} {size : Nat} {f : Frame}
    (h : f ∈ m.fragments size) : f.isClose = false := by
  have hopcode : (m.kind.opcode == Opcode.close) = false := by cases m.kind <;> rfl
  unfold fragments at h
  dsimp only at h
  split at h
  · obtain rfl := List.mem_singleton.mp h
    exact hopcode
  · obtain ⟨i, hi, rfl⟩ := List.mem_mapIdx.mp h
    simp only [Frame.isClose, Frame.ofPayload]
    split
    · exact hopcode
    · rfl

end Message

namespace Connection

variable {c c' c₁ : Connection} {task : TaskId} {action : Action} {rest script : Script}
  {move : Move}

/-- What is left of the frames while they are written. -/
theorem Writes.cargo {frames : List Frame} {recovery : Recovery}
    (h : Writes frames recovery action) (rest : Script) :
    Script.cargo (action :: rest) <:+ frames := by
  cases h with
  | lock => exact List.suffix_refl frames
  | feed hmore => exact hmore
  | flush => exact List.nil_suffix

/-- While other frames are written, no close frame is. -/
theorem Writes.isClosing_eq_false {frames : List Frame} {recovery : Recovery}
    (h : Writes frames recovery action) (hframes : ∀ f ∈ frames, f.isClose = false)
    (rest : Script) : Script.isClosing (action :: rest) = false := by
  rw [Script.isClosing, List.any_eq_false]
  intro f hf
  rw [hframes f ((h.cargo rest).subset hf)]
  exact nofun

/-- While one frame is written, nothing else is left or nothing at all. -/
theorem Writes.cargo_single {f : Frame} {recovery : Recovery} (h : Writes [f] recovery action)
    {rest : Script} (hclosing : Script.isClosing (action :: rest) = true) :
    Script.cargo (action :: rest) = [f] := by
  obtain heq | hnil := List.suffix_cons_iff.mp (h.cargo rest)
  · exact heq
  · rw [Script.isClosing, List.suffix_nil.mp hnil] at hclosing
    cases hclosing

theorem ReaderScript.cargo_of_isClosing (h : ReaderScript script)
    (hclosing : script.isClosing = true) : ∃ f, script.cargo = [f] := by
  cases h with
  | ponging _ hw =>
      rw [hw.isClosing_eq_false (by simp [Frame.pong, Frame.ofPayload, Frame.isClose])] at hclosing
      cases hclosing
  | closing hw => exact ⟨_, hw.cargo_single hclosing⟩
  | _ => cases hclosing

theorem CallScript.cargo_of_isClosing {claim : Claim} (h : CallScript claim script)
    (hclosing : script.isClosing = true) : ∃ f, script.cargo = [f] := by
  cases h with
  | ordinary hordinary =>
      cases hordinary with
      | sending hw =>
          rw [hw.isClosing_eq_false fun f => Message.isClose_of_mem_fragments] at hclosing
          cases hclosing
      | pinging _ hw =>
          rw [hw.isClosing_eq_false (by simp [Frame.ping, Frame.ofPayload, Frame.isClose])]
            at hclosing
          cases hclosing
      | closing _ hw => exact ⟨_, hw.cargo_single hclosing⟩
      | _ => cases hclosing
  | negotiating hnegotiating => cases hnegotiating <;> cases hclosing
  | _ => cases hclosing

/-- A task that will write a close frame writes **nothing else**. -/
theorem Scripted.cargo_of_isClosing (h : c.Scripted) (hclosing : (c.script task).isClosing = true) :
    ∃ f, (c.script task).cargo = [f] := by
  cases hscript : c.script task with
  | nil => rw [hscript] at hclosing; cases hclosing
  | cons action rest =>
      rw [hscript] at hclosing
      cases task with
      | reader => exact (h.readerScript hscript).cargo_of_isClosing hclosing
      | call id =>
          obtain ⟨_, _, -, -, hcall⟩ := h.callScript hscript
          exact hcall.cargo_of_isClosing hclosing

/-- When the close frame is handed over, its task has nothing else to write. -/
theorem Scripted.sent_close (h : c.Scripted) {f : Frame} {more : List Frame}
    (hcargo : (c.script task).cargo = f :: more) (hclose : f.isClose = true) :
    (c.script task).isClosing = true ∧ more = [] := by
  have hclosing : (c.script task).isClosing = true := by
    rw [Script.isClosing, hcargo, List.any_cons, hclose, Bool.true_or]
  obtain ⟨g, hg⟩ := h.cargo_of_isClosing hclosing
  rw [hcargo] at hg
  exact ⟨hclosing, (List.cons.inj hg).2⟩

/-- The frames of a task come up **behind a look at the phase**, and are not close frames. Behind
anything else nothing is left to be written. -/
theorem Scripted.cargo_tail (h : c.Scripted) (hscript : c.script task = action :: rest) :
    Script.cargo rest = [] ∨ (action = .ensureOpen ∧ Script.isClosing rest = false) ∨
      ∃ payload, action = .enlist payload := by
  cases task with
  | reader => cases h.readerScript hscript <;> exact Or.inl rfl
  | call id =>
      obtain ⟨_, claim, -, -, hcall⟩ := h.callScript hscript
      cases hcall with
      | ordinary hordinary =>
          cases hordinary with
          | send =>
              refine Or.inr (Or.inl ⟨rfl, ?_⟩)
              exact Writes.isClosing_eq_false .lock (fun f => Message.isClose_of_mem_fragments) _
          | ping => exact Or.inr (Or.inl ⟨rfl, rfl⟩)
          | enlisting => exact Or.inr (Or.inr ⟨_, rfl⟩)
          | _ => exact Or.inl rfl
      | negotiating hnegotiating => cases hnegotiating <;> exact Or.inl rfl
      | _ => exact Or.inl rfl

/-- A close frame is claimed only **behind a step towards the end**. -/
theorem Scripted.claims_tail (h : c.Scripted) (hscript : c.script task = action :: rest)
    {status : Option Close.Status} {recovery : Recovery} {rest' : Script}
    (hrest : rest = .claimClose status recovery :: rest') :
    action = .beginClosing ∨ action = .followClosing := by
  subst hrest
  cases task with
  | reader => cases h.readerScript hscript; exact Or.inr rfl
  | call id =>
      obtain ⟨_, claim, -, -, hcall⟩ := h.callScript hscript
      cases hcall with
      | ordinary hordinary => cases hordinary; exact Or.inl rfl
      | negotiating hnegotiating => cases hnegotiating

/-- A task claims the close frame next only when it **has moved the phase on**, or has seen it
moved. -/
theorem Effect.claims (heffect : Effect c task action rest c₁ script) (h : c.Scripted)
    (hscript : c.script task = action :: rest) {status : Option Close.Status}
    {recovery : Recovery} {rest' : Script} (hnew : script = .claimClose status recovery :: rest') :
    action = .beginClosing ∧ c.phase = .opened ∨ action = .followClosing := by
  cases heffect.comesTo hnew rfl with
  | next hrest =>
      obtain rfl | rfl := h.claims_tail hscript hrest
      · cases heffect with
        | beginClosing hopen => exact .inl ⟨rfl, hopen⟩
        | failClosing => cases hnew
      · exact .inr rfl

/-! ### What an action does to the frames of its task -/

/-- What an action does to **the frames still to be written** by its task, to the ledger of frames
and to the mark for the close frame. -/
inductive CargoChange (c : Connection) (task : TaskId) (before after : List Frame)
    (c₁ : Connection) : Prop
  | kept (hcargo : after = before) (hlock : c₁.lock = c.lock ∨ c₁.lock = c.lock.acquire task)
      (hsent : c₁.sent = c.sent) (hclaim : c₁.closeSent = c.closeSent)
  | dropped (hcargo : after = []) (hsent : c₁.sent = c.sent)
      (hclaim : c₁.closeSent = c.closeSent)
  | checked (hopen : c.phase = .opened) (hphase : c₁.phase = .opened) (hcargo : before = [])
      (hother : after.any Frame.isClose = false) (hsent : c₁.sent = c.sent)
      (hclaim : c₁.closeSent = c.closeSent)
  | claimed {status : Option Close.Status} {recovery : Recovery} {rest : Script}
      (hscript : c.script task = .claimClose status recovery :: rest) (hclaim : c.closeSent = false)
      (hclaim' : c₁.closeSent = true) (hcargo : after = [Frame.close status])
      (hsent : c₁.sent = c.sent)
  | fed {f : Frame} (hcargo : before = f :: after) (hholds : (c.script task).holdsLock = true)
      (hlock : c₁.lock = c.lock) (hsent : c₁.sent = ⟨task, f⟩ :: c.sent)
      (hclaim : c₁.closeSent = c.closeSent)

theorem cargo_recover (hrest : Script.cargo rest = []) (recovery : Recovery)
    (e : ConnectionError) : Script.cargo (Script.recover recovery e rest) = [] := by
  cases recovery with
  | ignore => exact hrest
  | _ => rfl

theorem cargo_ofAssembled (assembled : Except Fault (Option Assembled)) (more : Script) :
    Script.cargo (Script.ofAssembled assembled ++ more) = [] := by
  obtain ⟨action, rest, heq, hreacts⟩ := ofAssembled_head assembled more
  rw [heq]
  cases action <;> first | rfl | cases hreacts

/-- **What an action does** to the frames of its task. -/
theorem Effect.cargoChange (heffect : Effect c task action rest c₁ script) (h : c.Scripted)
    (hscript : c.script task = action :: rest) :
    CargoChange c task (Script.cargo (action :: rest)) (Script.cargo script) c₁ := by
  by_cases hnegotiates : action.negotiates = true
  · obtain ⟨_, _, -, -, -, hnegotiating⟩ := h.negotiating hscript hnegotiates
    refine .dropped ?_ ?_ ?_
    · obtain hafter | ⟨a, rfl⟩ := hnegotiating.next heffect
      · cases hafter <;> rfl
      · rfl
    · cases heffect <;> first | rfl | cases hnegotiates
    · cases heffect <;> first | rfl | cases hnegotiates
  have hrest : action ≠ .ensureOpen → (∀ payload, action ≠ .enlist payload) →
      Script.cargo rest = [] := by
    intro hopen henlist
    obtain hnil | ⟨heq, -⟩ | ⟨payload, heq⟩ := h.cargo_tail hscript
    · exact hnil
    · exact absurd heq hopen
    · exact absurd heq (henlist payload)
  cases heffect with
  | passOpen hopen =>
      refine .checked hopen hopen rfl ?_ rfl rfl
      obtain hnil | ⟨-, hother⟩ | ⟨payload, heq⟩ := h.cargo_tail hscript
      · rw [hnil]; rfl
      · exact hother
      · cases heq
  | answerPing hopen => exact .checked hopen hopen rfl rfl rfl rfl
  | claimClose hclaim => exact .claimed hscript hclaim rfl rfl rfl
  | enlist => exact .kept rfl (Or.inl rfl) rfl rfl
  | enlistReader => exact .kept rfl (Or.inl rfl) rfl rfl
  | queueUp => exact .kept rfl (Or.inr rfl) rfl rfl
  | startWriting => exact .kept rfl (Or.inr rfl) rfl rfl
  | makeRoom => exact .kept rfl (Or.inl rfl) rfl rfl
  | feed => exact .fed rfl (by rw [hscript]; rfl) rfl rfl rfl
  | readFrame => exact .dropped (cargo_ofAssembled _ _) rfl rfl
  | lockInVain => exact .dropped (cargo_recover (hrest nofun nofun) _ _) rfl rfl
  | feedInVain => exact .dropped (cargo_recover (hrest nofun nofun) _ _) rfl rfl
  | refuseFrame => exact .dropped (cargo_recover (hrest nofun nofun) _ _) rfl rfl
  | flushInVain => exact .dropped (cargo_recover (hrest nofun nofun) _ _) rfl rfl
  | _ => first
      | exact .dropped rfl rfl rfl
      | exact .dropped (hrest nofun nofun) rfl rfl
      | exact absurd rfl hnegotiates

/-! ### What holds of the close frame in every connection -/

/-- A task stands at the lock with **no close frame in front** of it. -/
def InFront (c : Connection) (task : TaskId) : Prop :=
  ∃ front back, c.lock.queue = front ++ task :: back ∧ ∀ u ∈ front, (c.script u).isClosing = false

/-- A task **straddles** the end that is about to begin: it will write frames without a further look
at the phase, but it does not stand at the lock yet. -/
def Straddles (c : Connection) (task : TaskId) : Prop :=
  (c.script task).cargo ≠ [] ∧ task ∉ c.lock.queue

/-- What holds of the **close frame**, given the tasks that may write behind it. -/
structure Orderly (late : TaskId → Prop) (c : Connection) : Prop where
  claims : ∀ {task status recovery rest}, c.script task = .claimClose status recovery :: rest →
    c.phase.isEnding = true
  calm : c.phase.isEnding = false → c.closeSent = false
  unclaimed : c.closeSent = false →
    (∀ task, (c.script task).isClosing = false) ∧ ∀ s ∈ c.sent, s.frame.isClose = false
  single : ∀ {task other}, (c.script task).isClosing = true → (c.script other).isClosing = true →
    task = other
  pending : ∀ {task}, (c.script task).isClosing = true → ∀ s ∈ c.sent, s.frame.isClose = false
  armed : c.phase.isEnding = true → ∀ {task}, (c.script task).cargo ≠ [] →
    (c.script task).isClosing = false → late task ∨ c.InFront task
  behind : (∃ s ∈ c.sent, s.frame.isClose = true) → ∀ {task}, (c.script task).cargo ≠ [] →
    late task
  ledger : ∀ {later s earlier}, c.sent = later ++ s :: earlier → s.frame.isClose = true →
    ∀ x ∈ later, x.frame.isClose = false ∧ late x.task

/-- What holds with some late tasks holds **with more** of them. -/
theorem Orderly.mono {late late' : TaskId → Prop} (h : c.Orderly late)
    (hmono : ∀ t, late t → late' t) : c.Orderly late' where
  claims := h.claims
  calm := h.calm
  unclaimed := h.unclaimed
  single := h.single
  pending := h.pending
  armed := fun hending _ hcargo hother => (h.armed hending hcargo hother).imp_left (hmono _)
  behind := fun hclose _ hcargo => hmono _ (h.behind hclose hcargo)
  ledger := fun hsent hclose x hx => (h.ledger hsent hclose x hx).imp_right (hmono _)

/-- The end of a connection **goes on** once it has begun. -/
theorem Effect.isEnding (heffect : Effect c task action rest c₁ script)
    (h : c.phase.isEnding = true) : c₁.phase.isEnding = true := by
  cases heffect with
  | establish =>
      show Phase.isEnding (if c.phase = .connecting then .opened else c.phase) = true
      split
      · rename_i hphase
        rw [hphase] at h
        cases h
      · exact h
  | _ => first | rfl | exact h

theorem Script.cargo_ne_nil_of_isClosing {script : Script} (h : script.isClosing = true) :
    script.cargo ≠ [] := by
  intro hnil
  rw [Script.isClosing, hnil] at h
  cases h

/-- Frames are still to be written only in a connection whose stream of frames has begun. -/
theorem Staged.running_of_cargo (hstaged : c.Staged) (hcargo : (c.script task).cargo ≠ []) :
    c.stage = .running := by
  cases hscript : c.script task with
  | nil => rw [hscript] at hcargo; exact absurd rfl hcargo
  | cons action rest =>
      refine hstaged.streaming hscript ?_
      rw [hscript] at hcargo
      cases action <;> first | rfl | exact absurd rfl hcargo

/-- After an action, a task other than its own has at most the frames that it had. -/
theorem Effect.cargo_other (heffect : Effect c task action rest c₁ script)
    (hscript : c.script task = action :: rest) {other : TaskId} (hne : other ≠ task) :
    ((c₁.setScript task script).script other).cargo = (c.script other).cargo ∨
      ((c₁.setScript task script).script other).cargo = [] := by
  obtain ⟨heq, -⟩ | ⟨-, heq⟩ | ⟨-, -, heq, -⟩ := heffect.script_after hscript other
  · exact absurd heq hne
  · exact Or.inl (by rw [heq])
  · exact Or.inr (by rw [heq]; rfl)

/-- Whoever will write the close frame after an action has claimed it **just now**, or would have
written it before. -/
theorem Effect.isClosing (heffect : Effect c task action rest c₁ script) (h : c.Scripted)
    (hscript : c.script task = action :: rest) {other : TaskId}
    (hclosing : ((c₁.setScript task script).script other).isClosing = true) :
    (c.script other).isClosing = true ∨ (other = task ∧ c.closeSent = false ∧
      c₁.closeSent = true ∧ action.asksLock = false ∧ action.holdsLock = false) := by
  by_cases hne : other = task
  · subst hne
    rw [heffect.script_self hscript] at hclosing
    rw [hscript]
    cases heffect.cargoChange h hscript with
    | kept hcargo =>
        rw [Script.isClosing, hcargo] at hclosing
        exact Or.inl hclosing
    | dropped hcargo => exact absurd hcargo (Script.cargo_ne_nil_of_isClosing hclosing)
    | checked _ _ _ hother =>
        rw [Script.isClosing, hother] at hclosing
        cases hclosing
    | claimed hclaims hclaim hclaim' =>
        rw [hscript] at hclaims
        cases hclaims
        exact Or.inr ⟨rfl, hclaim, hclaim', rfl, rfl⟩
    | fed hcargo =>
        rw [Script.isClosing] at hclosing
        refine Or.inl ?_
        rw [Script.isClosing, hcargo, List.any_cons, hclosing, Bool.or_true]
  · left
    obtain heq | hnil := heffect.cargo_other hscript hne
    · rwa [Script.isClosing, heq] at hclosing
    · exact absurd hnil (Script.cargo_ne_nil_of_isClosing hclosing)

section Action

variable {late late' : TaskId → Prop} (hreach : Reachable c)
  (hscript : c.script task = action :: rest) (heffect : Effect c task action rest c₁ script)

include hreach hscript heffect

/-- Nobody who stands at the lock **begins to write the close frame** by an action. -/
theorem Effect.isClosing_of_mem {u : TaskId} (hmem : u ∈ c.lock.queue)
    (h : (c.script u).isClosing = false) :
    ((c₁.setScript task script).script u).isClosing = false := by
  refine Bool.eq_false_iff.mpr fun hclosing => ?_
  obtain hbefore | ⟨rfl, -, -, hasks, hholds⟩ := heffect.isClosing hreach.scripted hscript hclosing
  · rw [h] at hbefore
    cases hbefore
  · exact hreach.locked.not_mem hscript hasks hholds hmem

/-- A task with other frames than the close frame **had them before**, unless it has just looked at
the phase. -/
theorem Effect.armed {other : TaskId}
    (hcargo : ((c₁.setScript task script).script other).cargo ≠ [])
    (hother : ((c₁.setScript task script).script other).isClosing = false) :
    (c.phase = .opened ∧ c₁.phase = .opened) ∨
      ((c.script other).cargo ≠ [] ∧ (c.script other).isClosing = false) := by
  by_cases hne : other = task
  · subst hne
    rw [heffect.script_self hscript] at hcargo hother
    rw [hscript]
    cases heffect.cargoChange hreach.scripted hscript with
    | kept heq =>
        rw [heq] at hcargo
        rw [Script.isClosing, heq] at hother
        exact Or.inr ⟨hcargo, hother⟩
    | dropped hnil => exact absurd hnil hcargo
    | checked hopen hphase => exact Or.inl ⟨hopen, hphase⟩
    | claimed _ _ _ heq =>
        rw [Script.isClosing, heq] at hother
        cases hother
    | @fed f heq =>
        refine Or.inr ⟨heq ▸ List.cons_ne_nil _ _, ?_⟩
        refine Bool.eq_false_iff.mpr fun hclosing => ?_
        obtain ⟨g, hg⟩ := hreach.scripted.cargo_of_isClosing (hscript ▸ hclosing)
        rw [hscript, heq] at hg
        exact hcargo (List.cons.inj hg).2
  · obtain heq | hnil := heffect.cargo_other hscript hne
    · rw [heq] at hcargo
      rw [Script.isClosing, heq] at hother
      exact Or.inr ⟨hcargo, hother⟩
    · exact absurd hnil hcargo

/-- Whoever has frames to write **keeps its place** at the lock until they are written: nobody gets
in front of it. -/
theorem Effect.place {other : TaskId} {front back : List TaskId}
    (hqueue : c.lock.queue = front ++ other :: back) (hbefore : (c.script other).cargo ≠ [])
    (hcargo : ((c₁.setScript task script).script other).cargo ≠ []) :
    ∃ front' back', (c₁.setScript task script).lock.queue = front' ++ other :: back' ∧
      ∀ u ∈ front', u ∈ front := by
  have hlocked := hreach.locked
  by_cases hne : other = task
  · subst hne
    have hmem : other ∈ c.lock.queue := by
      rw [hqueue]
      exact List.mem_append_right _ (List.mem_cons_self ..)
    refine ⟨front, back, ?_, fun _ hu => hu⟩
    rw [setScript_lock, ← hqueue]
    rw [heffect.script_self hscript] at hcargo
    rw [hscript] at hbefore
    cases heffect.cargoChange hreach.scripted hscript with
    | kept _ hlock =>
        obtain hlock | hlock := hlock
        · rw [hlock]
        · rw [hlock, Lock.acquire_of_mem hlocked.sound hmem]
    | dropped hnil => exact absurd hnil hcargo
    | checked _ _ hnil => exact absurd hnil hbefore
    | claimed hclaims =>
        rw [hscript] at hclaims
        cases hclaims
        exact absurd rfl hbefore
    | fed _ _ hlock => rw [hlock]
  · have hholds : action.holdsLock = true → c.lock.holder = some task := fun h =>
      hlocked.holds (by rw [hscript]; exact h)
    rw [setScript_lock]
    exact (heffect.lockChange hreach.scripted hscript).front hlocked.sound hholds hne hqueue

/-- Whoever stands **in front of the close frame** stays there until its frames are written. -/
theorem Effect.inFront {other : TaskId} (hfront : c.InFront other)
    (hbefore : (c.script other).cargo ≠ [])
    (hcargo : ((c₁.setScript task script).script other).cargo ≠ []) :
    (c₁.setScript task script).InFront other := by
  obtain ⟨front, back, hqueue, hclear⟩ := hfront
  obtain ⟨front', back', hqueue', hsub⟩ :=
    heffect.place hreach hscript hqueue hbefore hcargo
  refine ⟨front', back', hqueue', fun u hu => ?_⟩
  refine heffect.isClosing_of_mem hreach hscript ?_ (hclear u (hsub u hu))
  rw [hqueue]
  exact List.mem_append_left _ (hsub u hu)

/-- An action hands at most **one frame** to the writer: the first that its task still has. -/
theorem Effect.sent : c₁.sent = c.sent ∨ ∃ f, c₁.sent = ⟨task, f⟩ :: c.sent ∧
    (c.script task).cargo = f :: ((c₁.setScript task script).script task).cargo ∧
      c.lock.holder = some task := by
  rw [heffect.script_self hscript, hscript]
  cases heffect.cargoChange hreach.scripted hscript with
  | fed hcargo hholds _ hsent => exact Or.inr ⟨_, hsent, hcargo, hreach.locked.holds hholds⟩
  | kept _ _ hsent => exact Or.inl hsent
  | dropped _ hsent => exact Or.inl hsent
  | checked _ _ _ _ hsent => exact Or.inl hsent
  | claimed _ _ _ _ hsent => exact Or.inl hsent

/-- Whoever claims the close frame next **has moved the phase on**, or somebody else has. -/
theorem Orderly.claims_effect (hord : c.Orderly late) {other : TaskId}
    {status : Option Close.Status} {recovery : Recovery} {rest' : Script}
    (hclaims : (c₁.setScript task script).script other = .claimClose status recovery :: rest') :
    c₁.phase.isEnding = true := by
  obtain ⟨rfl, heq⟩ | ⟨-, heq⟩ | ⟨-, -, heq, -⟩ := heffect.script_after hscript other
  · rw [heq] at hclaims
    obtain ⟨rfl, hopen⟩ | rfl := heffect.claims hreach.scripted hscript hclaims
    · cases heffect with
      | beginClosing => rfl
      | failClosing hphase => exact absurd hopen hphase
    · cases heffect with
      | followClosing => rfl
      | pastClosing hphase =>
          have hbegun := hreach.staged.begun (hreach.staged.streaming hscript rfl)
          cases hc : c.phase with
          | connecting => exact absurd hc hbegun
          | opened => exact absurd hc hphase
          | closing => rfl
          | closed => rfl
  · rw [heq] at hclaims
    exact heffect.isEnding (hord.claims hclaims)
  · rw [heq] at hclaims
    cases hclaims

/-- The mark for the close frame is set only **at the end**, and it stays. -/
theorem Orderly.closeSent_effect (hord : c.Orderly late) :
    (c₁.closeSent = false → c.closeSent = false) ∧
      (c₁.phase.isEnding = false → c₁.closeSent = false) := by
  have hcalm : c₁.phase.isEnding = false → c.phase.isEnding = false := fun h =>
    Bool.eq_false_iff.mpr fun h' => nomatch h.symm.trans (heffect.isEnding h')
  have hsame : c₁.closeSent = c.closeSent → (c₁.closeSent = false → c.closeSent = false) ∧
      (c₁.phase.isEnding = false → c₁.closeSent = false) := by
    intro heq
    rw [heq]
    exact ⟨id, fun h => hord.calm (hcalm h)⟩
  cases heffect.cargoChange hreach.scripted hscript with
  | kept _ _ _ h => exact hsame h
  | dropped _ _ h => exact hsame h
  | checked _ _ _ _ _ h => exact hsame h
  | fed _ _ _ _ h => exact hsame h
  | claimed hclaims _ htrue =>
      refine ⟨fun h => absurd (htrue.symm.trans h) nofun, fun h => ?_⟩
      exact nomatch (hord.claims hclaims).symm.trans (hcalm h)

/-- The one task that writes the close frame is **alone** with it. -/
theorem Orderly.single_effect (hord : c.Orderly late) {t u : TaskId}
    (ht : ((c₁.setScript task script).script t).isClosing = true)
    (hu : ((c₁.setScript task script).script u).isClosing = true) : t = u := by
  obtain ht' | ⟨htask, hunclaimed, -⟩ := heffect.isClosing hreach.scripted hscript ht
  · obtain hu' | ⟨-, hunclaimed, -⟩ := heffect.isClosing hreach.scripted hscript hu
    · exact hord.single ht' hu'
    · exact nomatch ht'.symm.trans ((hord.unclaimed hunclaimed).1 t)
  · obtain hu' | ⟨hutask, -⟩ := heffect.isClosing hreach.scripted hscript hu
    · exact nomatch hu'.symm.trans ((hord.unclaimed hunclaimed).1 u)
    · exact htask.trans hutask.symm

/-- While a task still has to write the close frame, **none was written**. -/
theorem Orderly.pending_effect (hord : c.Orderly late) {t : TaskId}
    (ht : ((c₁.setScript task script).script t).isClosing = true) :
    ∀ s ∈ c₁.sent, s.frame.isClose = false := by
  have hold : ∀ s ∈ c.sent, s.frame.isClose = false := by
    obtain hbefore | ⟨-, hunclaimed, -⟩ := heffect.isClosing hreach.scripted hscript ht
    · exact hord.pending hbefore
    · exact (hord.unclaimed hunclaimed).2
  obtain heq | ⟨f, heq, hcargo, -⟩ := heffect.sent hreach hscript
  · rwa [heq]
  · rw [heq]
    refine List.forall_mem_cons.mpr ⟨Bool.eq_false_iff.mpr fun hclose => ?_, hold⟩
    obtain ⟨hclosing, hnil⟩ := hreach.scripted.sent_close hcargo hclose
    obtain hbefore | ⟨-, hunclaimed, -⟩ := heffect.isClosing hreach.scripted hscript ht
    · obtain rfl := hord.single hbefore hclosing
      exact Script.cargo_ne_nil_of_isClosing ht hnil
    · exact nomatch hclosing.symm.trans ((hord.unclaimed hunclaimed).1 task)

/-- Who still has other frames to write at the end is **late**, or is served before the close
frame. -/
theorem Orderly.armed_effect (hord : c.Orderly late) (hmono : ∀ t, late t → late' t)
    (hleave : c.phase = .opened → c₁.phase.isEnding = true → ∀ t, c.Straddles t → late' t)
    (hending : c₁.phase.isEnding = true) {t : TaskId}
    (hcargo : ((c₁.setScript task script).script t).cargo ≠ [])
    (hother : ((c₁.setScript task script).script t).isClosing = false) :
    late' t ∨ (c₁.setScript task script).InFront t := by
  obtain ⟨-, hopen⟩ | ⟨hbefore, hbefore'⟩ := heffect.armed hreach hscript hcargo hother
  · rw [hopen] at hending
    cases hending
  · cases hphase : c.phase with
    | connecting =>
        have hrunning := hreach.staged.running_of_cargo hbefore
        exact absurd hphase (hreach.staged.begun hrunning)
    | opened =>
        by_cases hmem : t ∈ c.lock.queue
        · obtain ⟨front, back, hqueue⟩ := List.append_of_mem hmem
          have hcalm := hord.calm (by rw [hphase]; rfl)
          have hfront : c.InFront t := ⟨front, back, hqueue, fun u _ => (hord.unclaimed hcalm).1 u⟩
          exact Or.inr (heffect.inFront hreach hscript hfront hbefore hcargo)
        · exact Or.inl (hleave hphase hending t ⟨hbefore, hmem⟩)
    | closing | closed =>
        obtain hlate | hfront := hord.armed (by rw [hphase]; rfl) hbefore hbefore'
        · exact Or.inl (hmono t hlate)
        · exact Or.inr (heffect.inFront hreach hscript hfront hbefore hcargo)

/-- Behind the close frame **only late tasks** still have frames to write. -/
theorem Orderly.behind_effect (hord : c.Orderly late) (hmono : ∀ t, late t → late' t)
    (hclose : ∃ s ∈ c₁.sent, s.frame.isClose = true) {t : TaskId}
    (hcargo : ((c₁.setScript task script).script t).cargo ≠ []) : late' t := by
  have hother : ((c₁.setScript task script).script t).isClosing = false := by
    refine Bool.eq_false_iff.mpr fun hclosing => ?_
    obtain ⟨s, hs, hs'⟩ := hclose
    exact nomatch hs'.symm.trans (hord.pending_effect hreach hscript heffect hclosing s hs)
  have hbefore := heffect.armed hreach hscript hcargo hother
  by_cases hold : ∃ s ∈ c.sent, s.frame.isClose = true
  · obtain ⟨hopen, -⟩ | ⟨hbefore, -⟩ := hbefore
    · obtain ⟨s, hs, hs'⟩ := hold
      have hcalm := hord.calm (by rw [hopen]; rfl)
      exact nomatch hs'.symm.trans ((hord.unclaimed hcalm).2 s hs)
    · exact hmono t (hord.behind hold hbefore)
  · -- the close frame was written just now, by the task that holds the lock
    obtain heq | ⟨f, heq, hfed, hheld⟩ := heffect.sent hreach hscript
    · rw [heq] at hclose
      exact absurd hclose hold
    · have hf : f.isClose = true := by
        obtain ⟨s, hs, hs'⟩ := hclose
        rw [heq] at hs
        obtain rfl | hs := List.mem_cons.mp hs
        · exact hs'
        · exact absurd ⟨s, hs, hs'⟩ hold
      obtain ⟨hclosing, hnil⟩ := hreach.scripted.sent_close hfed hf
      have hending : c.phase.isEnding = true := by
        by_contra hcalm
        have hcalm := hord.calm (Bool.eq_false_iff.mpr hcalm)
        exact nomatch hclosing.symm.trans ((hord.unclaimed hcalm).1 task)
      obtain ⟨hopen, -⟩ | ⟨hbefore, hbefore'⟩ := hbefore
      · rw [hopen] at hending
        cases hending
      · obtain hlate | ⟨front, back, hqueue, hclear⟩ := hord.armed hending hbefore hbefore'
        · exact hmono t hlate
        · rw [Lock.queue_of_held hheld] at hqueue
          cases front with
          | nil =>
              obtain rfl : task = t := (List.cons.inj hqueue).1
              exact absurd hnil hcargo
          | cons first front =>
              obtain rfl : task = first := (List.cons.inj hqueue).1
              exact nomatch hclosing.symm.trans (hclear task (List.mem_cons_self ..))

/-- Every frame behind the close frame is **a late task's**. -/
theorem Orderly.ledger_effect (hord : c.Orderly late) (hmono : ∀ t, late t → late' t)
    {later earlier : List Sent} {s : Sent} (hsent : c₁.sent = later ++ s :: earlier)
    (hclose : s.frame.isClose = true) :
    ∀ x ∈ later, x.frame.isClose = false ∧ late' x.task := by
  have hold : ∀ {later'}, c.sent = later' ++ s :: earlier →
      ∀ x ∈ later', x.frame.isClose = false ∧ late' x.task := by
    intro later' heq x hx
    obtain ⟨hother, hlate⟩ := hord.ledger heq hclose x hx
    exact ⟨hother, hmono _ hlate⟩
  obtain heq | ⟨f, heq, hfed, -⟩ := heffect.sent hreach hscript
  · rw [heq] at hsent
    exact hold hsent
  · rw [heq] at hsent
    cases later with
    | nil => exact fun x hx => nomatch hx
    | cons x later =>
        obtain ⟨rfl, hrest⟩ := List.cons.inj hsent
        have hmem : s ∈ c.sent := by
          rw [hrest]
          exact List.mem_append_right _ (List.mem_cons_self ..)
        refine List.forall_mem_cons.mpr ⟨⟨?_, ?_⟩, hold hrest⟩
        · refine Bool.eq_false_iff.mpr fun hf => ?_
          have hclosing := (hreach.scripted.sent_close hfed hf).1
          exact nomatch hclose.symm.trans (hord.pending hclosing s hmem)
        · exact hmono _ (hord.behind ⟨s, hmem, hclose⟩ (by rw [hfed]; exact List.cons_ne_nil _ _))

/-- An action keeps **the order around the close frame**. -/
theorem Orderly.effect (hord : c.Orderly late) (hmono : ∀ t, late t → late' t)
    (hleave : c.phase = .opened → c₁.phase.isEnding = true → ∀ t, c.Straddles t → late' t) :
    (c₁.setScript task script).Orderly late' where
  claims := fun hclaims => by
    rw [setScript_phase]
    exact hord.claims_effect hreach hscript heffect hclaims
  calm := by
    rw [setScript_phase, setScript_closeSent]
    exact (hord.closeSent_effect hreach hscript heffect).2
  unclaimed := fun hunclaimed => by
    rw [setScript_closeSent] at hunclaimed
    have hbefore := hord.unclaimed ((hord.closeSent_effect hreach hscript heffect).1 hunclaimed)
    refine ⟨fun other => Bool.eq_false_iff.mpr fun hclosing => ?_, ?_⟩
    · obtain h | ⟨-, -, h, -⟩ := heffect.isClosing hreach.scripted hscript hclosing
      · exact nomatch h.symm.trans (hbefore.1 other)
      · exact nomatch h.symm.trans hunclaimed
    · rw [setScript_sent]
      obtain heq | ⟨f, heq, hfed, -⟩ := heffect.sent hreach hscript
      · rw [heq]
        exact hbefore.2
      · rw [heq]
        refine List.forall_mem_cons.mpr ⟨Bool.eq_false_iff.mpr fun hf => ?_, hbefore.2⟩
        have hclosing := (hreach.scripted.sent_close hfed hf).1
        exact nomatch hclosing.symm.trans (hbefore.1 task)
  single := hord.single_effect hreach hscript heffect
  pending := fun hclosing => by
    rw [setScript_sent]
    exact hord.pending_effect hreach hscript heffect hclosing
  armed := fun hending => by
    rw [setScript_phase] at hending
    exact hord.armed_effect hreach hscript heffect hmono hleave hending
  behind := fun hclose => by
    rw [setScript_sent] at hclose
    exact hord.behind_effect hreach hscript heffect hmono hclose
  ledger := fun hsent => by
    rw [setScript_sent] at hsent
    exact hord.ledger_effect hreach hscript heffect hmono hsent

end Action

/-! ### Runs -/

/-- A move that is no action writes nothing and does not move the phase on. -/
theorem Transition.sent_of_ne_act (hmove : Transition c move c') (hact : ∀ task, move ≠ .act task) :
    c'.phase = c.phase ∧ c'.closeSent = c.closeSent ∧ c'.sent = c.sent := by
  cases hmove with
  | act => exact absurd rfl (hact _)
  | _ => exact ⟨rfl, rfl, rfl⟩

/-- A move that is no action gives nobody frames to write. -/
theorem Transition.cargo_of_ne_act (hmove : Transition c move c') (hact : ∀ task, move ≠ .act task)
    (task : TaskId) : c'.script task = c.script task ∨
      (c'.script task).cargo = [] ∧
        ∀ status recovery rest, c'.script task ≠ .claimClose status recovery :: rest := by
  obtain heq | heq | ⟨_, operation, -, -, -, heq⟩ := hmove.script_of_ne_act hact task
  · exact Or.inl heq
  · rw [heq]
    exact Or.inr ⟨rfl, fun _ _ _ => nofun⟩
  · obtain ⟨first, more, hfirst, hopening⟩ :=
      ofOperation_opening c.options.fragmentSize operation
    rw [heq, hfirst]
    refine Or.inr ⟨?_, ?_⟩
    · cases first <;> first | rfl | cases hopening
    · rintro status recovery rest h
      cases h
      cases hopening

/-- When tasks go away, those that stay **keep their places**. -/
theorem Transition.place_of_ne_act (hmove : Transition c move c') (hact : ∀ task, move ≠ .act task)
    (hlocked : c.Locked) {front back : List TaskId} (hqueue : c.lock.queue = front ++ task :: back)
    (hcargo : (c'.script task).cargo ≠ []) :
    ∃ front' back', c'.lock.queue = front' ++ task :: back' ∧ ∀ u ∈ front', u ∈ front := by
  obtain heq | ⟨gone, hgone, heq⟩ := hmove.lock_of_ne_act hact
  · exact ⟨front, back, by rw [heq, hqueue], fun _ hu => hu⟩
  · have hne : gone ≠ task := by
      rintro rfl
      rw [hgone] at hcargo
      exact hcargo rfl
    by_cases hmem : gone ∈ front
    · refine ⟨front.erase gone, back, ?_, fun _ hu => List.mem_of_mem_erase hu⟩
      rw [heq, Lock.queue_leave hlocked.sound, hqueue, List.erase_append_left _ hmem]
    · refine ⟨front, back.erase gone, ?_, fun _ hu => hu⟩
      rw [heq, Lock.queue_leave hlocked.sound, hqueue, List.erase_append_right _ hmem,
        List.erase_cons_tail (by simpa using hne.symm)]

/-- So do those that stand in front of the close frame. -/
theorem InFront.of_ne_act (hmove : Transition c move c') (hact : ∀ task, move ≠ .act task)
    (hlocked : c.Locked) (hfront : c.InFront task) (hcargo : (c'.script task).cargo ≠ []) :
    c'.InFront task := by
  obtain ⟨front, back, hqueue, hclear⟩ := hfront
  obtain ⟨front', back', hqueue', hsub⟩ := hmove.place_of_ne_act hact hlocked hqueue hcargo
  refine ⟨front', back', hqueue', fun u hu => ?_⟩
  obtain heq | ⟨hnil, -⟩ := hmove.cargo_of_ne_act hact u
  · rw [heq]
    exact hclear u (hsub u hu)
  · rw [Script.isClosing, hnil]
    rfl

/-- A move that is no action keeps **the order around the close frame**. -/
theorem Orderly.of_ne_act {late late' : TaskId → Prop} (hord : c.Orderly late)
    (hmove : Transition c move c') (hact : ∀ task, move ≠ .act task) (hlocked : c.Locked)
    (hmono : ∀ t, late t → late' t) : c'.Orderly late' := by
  obtain ⟨hphase, hclaim, hsent⟩ := hmove.sent_of_ne_act hact
  have hclosing : ∀ {t}, (c'.script t).isClosing = true → (c.script t).isClosing = true := by
    intro t ht
    obtain heq | ⟨hnil, -⟩ := hmove.cargo_of_ne_act hact t
    · rwa [heq] at ht
    · exact absurd hnil (Script.cargo_ne_nil_of_isClosing ht)
  have hsame : ∀ {t}, (c'.script t).cargo ≠ [] → c'.script t = c.script t := fun {t} ht =>
    (hmove.cargo_of_ne_act hact t).resolve_right fun h => ht h.1
  refine ⟨?_, ?_, ?_, ?_, ?_, ?_, ?_, ?_⟩
  · intro t status recovery rest hscript
    rw [hphase]
    obtain heq | ⟨-, hnot⟩ := hmove.cargo_of_ne_act hact t
    · exact hord.claims (heq ▸ hscript)
    · exact absurd hscript (hnot _ _ _)
  · rw [hphase, hclaim]
    exact hord.calm
  · rw [hclaim, hsent]
    intro hunclaimed
    obtain ⟨hnone, hledger⟩ := hord.unclaimed hunclaimed
    refine ⟨fun t => Bool.eq_false_iff.mpr fun ht => ?_, hledger⟩
    exact nomatch (hclosing ht).symm.trans (hnone t)
  · exact fun ht hu => hord.single (hclosing ht) (hclosing hu)
  · rw [hsent]
    exact fun ht => hord.pending (hclosing ht)
  · rw [hphase]
    intro hending t hcargo hother
    have hcargo' := hcargo
    have hother' := hother
    rw [hsame hcargo] at hcargo' hother'
    obtain hlate | hfront := hord.armed hending hcargo' hother'
    · exact Or.inl (hmono t hlate)
    · exact Or.inr (hfront.of_ne_act hmove hact hlocked hcargo)
  · rw [hsent]
    intro hclose t hcargo
    have hcargo' := hcargo
    rw [hsame hcargo] at hcargo'
    exact hmono t (hord.behind hclose hcargo')
  · rw [hsent]
    intro later s earlier heq hclose x hx
    obtain ⟨hother, hlate⟩ := hord.ledger heq hclose x hx
    exact ⟨hother, hmono _ hlate⟩

/-- The tasks that **straddled the end** of a connection in a run: those that straddled it when the
phase moved on from `opened`. -/
def Straddler (start : Connection) (moves : List Move) (task : TaskId) : Prop :=
  ∃ before move after c₁ c₂, moves = before ++ move :: after ∧ start.run before = some c₁ ∧
    c₁.step move = some c₂ ∧ c₁.phase = .opened ∧ c₂.phase.isEnding = true ∧ c₁.Straddles task

theorem Straddler.append {start : Connection} {moves : List Move} {task : TaskId}
    (h : Straddler start moves task) (more : List Move) : Straddler start (moves ++ more) task := by
  obtain ⟨before, move, after, c₁, c₂, rfl, hrest⟩ := h
  exact ⟨before, move, after ++ more, c₁, c₂, by rw [List.append_assoc, List.cons_append], hrest⟩

/-- Before anything has happened, there is **no close frame** that could come too early. -/
theorem orderly_new (role : Role) (options : Options) (keys : Nat → Mask) (late : TaskId → Prop) :
    (new role options keys).Orderly late := by
  refine ⟨?_, fun _ => rfl, ?_, ?_, ?_, nofun, ?_, ?_⟩
  · intro task status recovery rest hscript
    cases task <;> cases hscript
  · exact fun _ => ⟨fun task => by cases task <;> rfl, fun s hs => nomatch hs⟩
  · intro task other htask
    cases task <;> cases htask
  · intro task htask
    cases task <;> cases htask
  · rintro ⟨s, hs, -⟩
    cases hs
  · intro later s earlier hsent
    exact absurd hsent (by simp [new])

/-- **In every run** the order around the close frame is kept, with those as late tasks that
straddled the end. -/
theorem orderly_of_run {role : Role} {options : Options} {keys : Nat → Mask} {moves : List Move}
    (hrun : (new role options keys).run moves = some c) :
    c.Orderly (Straddler (new role options keys) moves) := by
  refine run_induction (P := fun moves x => x.Orderly (Straddler (new role options keys) moves))
    (orderly_new role options keys _) ?_ hrun
  intro before c₁ move c₂ hbefore hord hstep
  have hreach : Reachable c₁ := ⟨role, options, keys, before, hbefore⟩
  have hmono : ∀ t, Straddler (new role options keys) before t →
      Straddler (new role options keys) (before ++ [move]) t := fun t ht => ht.append [move]
  have hleave : c₁.phase = .opened → c₂.phase.isEnding = true → ∀ t, c₁.Straddles t →
      Straddler (new role options keys) (before ++ [move]) t := fun hopen hending t ht =>
    ⟨before, move, [], c₁, c₂, rfl, hbefore, hstep, hopen, hending, ht⟩
  have hmove := transition_of_step hstep
  -- those who straddle the end are told apart in the one move that leaves the phase `opened`
  obtain ⟨task, _, _, _, _, rfl, hscript, heffect, rfl⟩ | hact := hmove.act_or
  · rw [setScript_phase] at hleave
    exact hord.effect hreach hscript heffect hmono hleave
  · exact hord.of_ne_act hmove hact hreach.locked hmono

/-- **Behind a close frame** only those tasks write that straddled the end of the connection, and
none of them writes a close frame. -/
theorem straddler_of_sent_after_close {role : Role} {options : Options} {keys : Nat → Mask}
    {moves : List Move} (hrun : (new role options keys).run moves = some c) {later : List Sent}
    {s : Sent} {earlier : List Sent} (hsent : c.sent = later ++ s :: earlier)
    (hclose : s.frame.isClose = true) :
    ∀ x ∈ later, x.frame.isClose = false ∧ Straddler (new role options keys) moves x.task :=
  (orderly_of_run hrun).ledger hsent hclose

/-- A run in which a task sends a message and **straddles the end**: it looks at the phase, then
another task closes the connection, and then the message is written. -/
def straddlingMoves : List Move :=
  openingMoves ++
    [.collect 0, .start 1 (.send (Message.ofBytes [1])), .act (.call 1),
      .start 2 (.close .normalClosure ""), .act (.call 2), .act (.call 2), .act (.call 2),
      .act (.call 2), .act (.call 2), .act (.call 2), .act (.call 1), .act (.call 1)]

/-- In that run **a frame follows the close frame**. -/
theorem sent_of_straddlingMoves :
    ((new .server {} fun _ => Mask.zero).run straddlingMoves).map Connection.sent =
      some [⟨.call 1, Frame.binary [1]⟩, ⟨.call 2, Frame.close (some ⟨.normalClosure, ""⟩)⟩] := by
  decide +kernel

/-- So the close frame is **not the last frame** of every run. -/
theorem not_close_frame_last :
    ¬ ∀ (role : Role) (options : Options) (keys : Nat → Mask) (moves : List Move) (c : Connection)
        (later : List Sent) (s : Sent) (earlier : List Sent),
      (new role options keys).run moves = some c → c.sent = later ++ s :: earlier →
        s.frame.isClose = true → later = [] := by
  intro h
  obtain ⟨c, hrun, hsent⟩ := Option.map_eq_some_iff.mp sent_of_straddlingMoves
  have hlast := h .server {} (fun _ => Mask.zero) straddlingMoves c [_] _ [] hrun hsent rfl
  cases hlast

/-- The task that sends the message in that run did straddle the end. -/
theorem straddler_of_straddlingMoves :
    ∃ c : Connection, (new .server {} fun _ => Mask.zero).run straddlingMoves = some c ∧
      (∀ x ∈ [(⟨.call 1, Frame.binary [1]⟩ : Sent)], x.frame.isClose = false ∧
        Straddler (new .server {} fun _ => Mask.zero) straddlingMoves x.task) := by
  obtain ⟨c, hrun, hsent⟩ := Option.map_eq_some_iff.mp sent_of_straddlingMoves
  have hsplit : c.sent = [⟨.call 1, Frame.binary [1]⟩] ++
      ⟨.call 2, Frame.close (some ⟨.normalClosure, ""⟩)⟩ :: [] := hsent
  exact ⟨c, hrun, straddler_of_sent_after_close hrun hsplit rfl⟩

end Connection

end WebSocket
