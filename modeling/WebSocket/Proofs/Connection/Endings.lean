import WebSocket.Proofs.Connection.Finality
import WebSocket.Proofs.Connection.Health

/-!
# How a connection comes to its end

Whoever takes the writer away, the reader or somebody who tears the connection down, has closed the
connection before. So a reader that has ended has closed it, or was told to stop by somebody who
closes it next (`Connection.WoundUp`).

The event of the peer's close frame, its **farewell**, is offered once at most and behind everything
else: the reader winds up then (`Connection.Concluding`). So among items that were offered one
behind the other there is no doubt about which status the peer has sent.

## Main results

* `Connection.Reachable.woundUp`: **who has closed** a connection that has come to its end.
* `Connection.Reachable.concluding`: behind the farewell **nothing is offered**.
* `farewellStatus_eq_some_iff`: the status of the last farewell is that of **any farewell**, if
  there is one at most.
-/

namespace WebSocket

/-- The actions that take an event **out of the queue**. -/
def Action.takesEvent : Action → Bool
  | .takeEvent | .takeEventOrEnd | .drainEvents .. => true
  | _ => false

/-! ### Farewells -/

/-- Whether an item is the peer's **farewell**, the event of its close frame. -/
def isFarewell : Except ConnectionError Event → Bool
  | .ok (.close _) => true
  | _ => false

/-- The status of a farewell, or **another one** if an item is none. -/
def farewellOr (status : Option Close.Status) : Except ConnectionError Event → Option Close.Status
  | .ok (.close s) => s
  | _ => status

/-- The status that **the last farewell** among some items carries. -/
def farewellStatus (items : List (Except ConnectionError Event)) : Option Close.Status :=
  items.foldl farewellOr none

theorem farewellStatus_concat (items : List (Except ConnectionError Event))
    (item : Except ConnectionError Event) :
    farewellStatus (items ++ [item]) = farewellOr (farewellStatus items) item := by
  simp only [farewellStatus, List.foldl_append, List.foldl_cons, List.foldl_nil]

theorem farewellOr_of_not {item : Except ConnectionError Event} (h : isFarewell item ≠ true)
    (status : Option Close.Status) : farewellOr status item = status := by
  match item with
  | .ok (.message _) | .ok (.ping _) | .ok (.pong _) | .error _ => rfl
  | .ok (.close _) => exact absurd rfl h

/-- Where there is one farewell at most, the status is **that of any farewell** that carries one. -/
theorem farewellStatus_eq_some_iff {items : List (Except ConnectionError Event)}
    (h : items.countP isFarewell ≤ 1) {s : Close.Status} :
    farewellStatus items = some s ↔ .ok (.close (some s)) ∈ items := by
  induction items using List.reverseRecOn with
  | nil => simp [farewellStatus]
  | append_singleton front item ih =>
      rw [List.countP_append, List.countP_singleton] at h
      rw [farewellStatus_concat, List.mem_append, List.mem_singleton]
      by_cases hitem : isFarewell item = true
      · rw [if_pos hitem] at h
        have hnone : .ok (.close (some s)) ∉ front := fun hmem =>
          absurd (List.countP_pos_iff.mpr ⟨_, hmem, rfl⟩ : 0 < front.countP isFarewell) (by omega)
        match item, hitem with
        | .ok (.close status), _ => simp [farewellOr, hnone, eq_comm]
      · rw [if_neg hitem] at h
        have hnot : .ok (.close (some s)) ≠ item := by
          rintro rfl
          exact hitem rfl
        rw [farewellOr_of_not hitem, ih h, or_iff_left hnot]

namespace Connection

variable {c c' c₁ : Connection} {task : TaskId} {action : Action} {rest script : Script}
  {move : Move}

/-! ### Who has closed the connection -/

/-- A task gets to the writer in order to take it away only **behind the mark** that the connection
is closed. -/
theorem Scripted.markClosed_of_isOver (h : c.Scripted) (hscript : c.script task = action :: rest)
    {next : Action} {more : Script} (hrest : rest = next :: more)
    (hover : Script.isOver (next :: more) = true) : action = .markClosed := by
  subst hrest
  cases task with
  | reader => cases h.readerScript hscript <;> first | rfl | cases hover
  | call id =>
      obtain ⟨_, _, -, -, hcall⟩ := h.callScript hscript
      cases hcall with
      | ordinary hordinary => cases hordinary <;> first | rfl | cases hover
      | negotiating hnegotiating => cases hnegotiating

/-- Whoever is about to take the writer away, or has it, **was so before** or has just closed the
connection. -/
theorem Effect.isOver_before (heffect : Effect c task action rest c₁ script) (h : c.Scripted)
    (hscript : c.script task = action :: rest) {next : Action} {more : Script}
    (hnew : script = next :: more) (hover : Script.isOver (next :: more) = true) :
    Script.isOver (action :: rest) = true ∨ action = .markClosed := by
  have hplaced : isPlaced next = true := by
    cases next <;> first | rfl | cases hover
  cases heffect.comesTo hnew hplaced with
  | next hrest => exact .inr (h.markClosed_of_isOver hscript hrest hover)
  | fedAll => cases hover
  | waits | takes => exact .inl rfl

/-- The reader **ends** only behind the writer. -/
theorem ReaderScript.isOver_of_end (h : ReaderScript (action :: rest))
    (heffect : Effect c .reader action rest c₁ []) : Script.isOver (action :: rest) = true := by
  generalize hnil : ([] : Script) = script at heffect
  cases h with
  | releasing => rfl
  | shutting => rfl
  | reading =>
      cases heffect with
      | readEnd => cases hnil
      | readFault => cases hnil
      | readFrame =>
          obtain ⟨_, _, heq, -⟩ := ofAssembled_head (c.assembly.feed _).2 []
          exact nomatch hnil.trans heq
  | ponging _ hw =>
      obtain ⟨_, _, heq⟩ | heq | ⟨_, heq⟩ | ⟨_, heq⟩ := hw.next heffect <;>
        exact nomatch hnil.trans heq
  | closing hw =>
      obtain ⟨_, _, heq⟩ | heq | ⟨_, heq⟩ | ⟨_, heq⟩ := hw.next heffect <;>
        exact nomatch hnil.trans heq
  | _ => cases heffect <;> cases hnil

/-- **Who has closed** a connection at its end: whoever takes the writer away has done so before; a
reader that has ended has done so, or was told to stop; and whoever tells it to stop does so next.
-/
structure WoundUp (c : Connection) : Prop where
  parted : ∀ {task action rest}, c.script task = action :: rest →
    Script.isOver (action :: rest) = true → c.phase = .closed
  ended : c.stage = .running → c.reader = [] → c.phase = .closed ∨ c.cancelled = true
  told : c.cancelled = true → c.phase = .closed ∨
    ∃ id rest, c.script (.call id) = .markClosed :: .takeWriter :: rest

/-- Only tearing the connection down **tells the reader to stop**. -/
theorem Effect.cancelled_or (heffect : Effect c task action rest c₁ script) :
    c₁.cancelled = c.cancelled ∨
      action = .cancelReader ∧ script = rest ∧ (c.cancelled = true → c₁.cancelled = true) := by
  cases heffect with
  | cancelReader => exact .inr ⟨rfl, rfl, fun h => by simp [h]⟩
  | _ => exact .inl rfl

/-- Behind the word to the reader the connection **is closed next**. -/
theorem Scripted.closes_behind_cancelReader (h : c.Scripted)
    (hscript : c.script task = .cancelReader :: rest) :
    ∃ id more, task = .call id ∧ rest = .markClosed :: .takeWriter :: more := by
  cases task with
  | reader =>
      cases h.readerScript hscript with
      | ponging _ hw => cases hw
      | closing hw => cases hw
  | call id =>
      obtain ⟨_, _, -, -, hcall⟩ := h.callScript hscript
      cases hcall with
      | ordinary hordinary =>
          cases hordinary with
          | sending hw => cases hw
          | pinging _ hw => cases hw
          | closing _ hw => cases hw
          | abort => exact ⟨id, _, rfl, rfl⟩
      | negotiating hnegotiating => cases hnegotiating

/-- The stream of frames had begun before, unless **its reader starts now**. -/
theorem Effect.running_before (heffect : Effect c task action rest c₁ script)
    (hstage : c₁.stage = .running) : c.stage = .running ∨ c₁.reader = [.readFrame] := by
  cases heffect with
  | establish => exact .inr rfl
  | beginConnecting | failToBuild | beginAccepting | failHandshake => cases hstage
  | _ => exact .inl hstage

/-- One action keeps the agreement. -/
theorem WoundUp.act (h : c.WoundUp) (hreach : Reachable c)
    (hscript : c.script task = action :: rest) (heffect : Effect c task action rest c₁ script) :
    (c₁.setScript task script).WoundUp := by
  have hafter := heffect.script_after hscript
  refine ⟨fun {other next more} hother hover => ?_, fun hstage hreader => ?_, fun htold => ?_⟩
  · rw [setScript_phase]
    obtain ⟨rfl, heq⟩ | ⟨-, heq⟩ | ⟨-, -, heq, -⟩ := hafter other
    · obtain hbefore | rfl :=
        heffect.isOver_before hreach.scripted hscript (heq.symm.trans hother) hover
      · exact heffect.closed (h.parted hscript hbefore)
      · cases heffect
        rfl
    · exact heffect.closed (h.parted (heq.symm.trans hother) hover)
    · cases heq.symm.trans hother
      cases hover
  · rw [setScript_phase, setScript_cancelled]
    rw [setScript_stage] at hstage
    cases task with
    | reader =>
        obtain rfl : script = [] := hreader
        exact .inl (heffect.closed (h.parted hscript
          ((hreach.scripted.readerScript hscript).isOver_of_end heffect)))
    | call id =>
        rw [setScript_reader_of_call] at hreader
        have hrunning : c.stage = .running :=
          (heffect.running_before hstage).resolve_right fun heq => nomatch heq.symm.trans hreader
        have hended : c.reader = [] := by
          obtain heq | ⟨_, _, -, heq⟩ := heffect.reader_eq
          · exact heq.symm.trans hreader
          · exact nomatch heq.symm.trans hreader
        refine (h.ended hrunning hended).imp heffect.closed fun hcancelled => ?_
        obtain heq | ⟨-, -, hmono⟩ := heffect.cancelled_or
        · exact heq.trans hcancelled
        · exact hmono hcancelled
  · rw [setScript_phase]
    rw [setScript_cancelled] at htold
    obtain heq | ⟨rfl, rfl, -⟩ := heffect.cancelled_or
    · obtain hclosed | ⟨id, more, hmarks⟩ := h.told (heq.symm.trans htold)
      · exact .inl (heffect.closed hclosed)
      · obtain ⟨rfl, -⟩ | ⟨-, hsame⟩ | ⟨hreader, -⟩ := hafter (.call id)
        · cases hscript.symm.trans hmarks
          cases heffect
          exact .inl rfl
        · exact .inr ⟨id, more, hsame.trans hmarks⟩
        · cases hreader
    · obtain ⟨id, more, rfl, rfl⟩ := hreach.scripted.closes_behind_cancelReader hscript
      exact .inr ⟨id, more, heffect.script_self hscript⟩

/-- **Every move** keeps the agreement. -/
theorem WoundUp.transition (h : c.WoundUp) (hreach : Reachable c) (hmove : Transition c move c') :
    c'.WoundUp := by
  obtain ⟨task, action, rest, c₁, script, rfl, hscript, heffect, rfl⟩ | hact := hmove.act_or
  · exact h.act hreach hscript heffect
  have hphase : c'.phase = c.phase := (hmove.sent_of_ne_act hact).1
  have htold : c'.cancelled = c.cancelled := by
    cases hmove with
    | act => exact absurd rfl (hact _)
    | _ => rfl
  refine ⟨fun {task next more} hscript hover => ?_, fun hstage hreader => ?_, fun hcancelled => ?_⟩
  · rw [hphase]
    obtain hbefore | hopening := hmove.opening_of_ne_act hact hscript
    · exact h.parted hbefore hover
    · cases next <;> first | (cases hopening; done) | cases hover
  · rw [hphase, htold]
    cases hmove with
    | act => exact absurd rfl (hact _)
    | stopReader hcancelled => exact .inr hcancelled
    | giveUp =>
        refine h.ended ?_ hreader
        dsimp only at hstage
        split at hstage
        · cases hstage
        · exact hstage
    | _ => exact h.ended hstage hreader
  · rw [hphase]
    rw [htold] at hcancelled
    refine (h.told hcancelled).imp_right ?_
    rintro ⟨id, more, hmarks⟩
    refine ⟨id, more, ?_⟩
    -- nobody waits in front of the mark, so nobody is given up there
    obtain hkept | ⟨_, _, -, -, hanswer⟩ | ⟨j, hj, -, hwaits⟩ | ⟨hreader, -⟩ :=
      hmove.kept_of_ne_act hact (by rw [hmarks]; exact nofun : c.script (.call id) ≠ [])
    · exact hkept.trans hmarks
    · exact nomatch hmarks.symm.trans hanswer
    · cases hj
      rw [isSuspended, hmarks] at hwaits
      cases hwaits
    · cases hreader

/-- In every connection it is known **who has closed it** when it has come to its end. -/
theorem Reachable.woundUp (h : Reachable c) : c.WoundUp := by
  refine h.invariant (fun role options keys => ?_) fun hreach h hmove => h.transition hreach hmove
  refine ⟨fun {task action rest} hscript => ?_, nofun, nofun⟩
  cases task <;> cases hscript

/-! ### The last word of the reader -/

/-- **The farewell is the last word** of the reader, and it is said once at most. What waits to be
received was offered last. -/
structure Concluding (c : Connection) : Prop where
  queued : c.events <:+ c.offered.reverse
  single : c.offered.countP isFarewell ≤ 1
  last : 0 < c.offered.countP isFarewell → c.reader.windsUp = true

/-- What an action does to **the queue** of events and to the ledger behind it: an item goes in, or
one comes out, or neither. -/
inductive QueueChange (c : Connection) (action : Action) (script rest : Script)
    (c₁ : Connection) : Prop
  | rests (hoffered : c₁.offered = c.offered) (hevents : c₁.events = c.events)
  | takes {item : Except ConnectionError Event} (htakes : action.takesEvent = true)
      (hoffered : c₁.offered = c.offered) (hevents : c.events = item :: c₁.events)
  | offers {item : Except ConnectionError Event} (hoffers : action = .offer item)
      (hscript : script = rest) (hoffered : c₁.offered = item :: c.offered)
      (hevents : c₁.events = c.events ++ [item])

theorem Effect.queueChange (heffect : Effect c task action rest c₁ script) :
    QueueChange c action script rest c₁ := by
  cases heffect with
  | offer => exact .offers rfl rfl rfl rfl
  | takeItem _ h => exact .takes rfl rfl h
  | takeNext _ h => exact .takes rfl rfl h
  | discard h => exact .takes rfl rfl h
  | _ => exact .rests rfl rfl

/-- Behind its farewell the reader **winds up**. -/
theorem Scripted.windsUp_of_farewell (h : c.Scripted) {item : Except ConnectionError Event}
    (hscript : c.script .reader = .offer item :: rest) (hfarewell : isFarewell item = true) :
    rest.windsUp = true := by
  cases h.readerScript hscript with
  | @offering e hgoesOn =>
      match e, hfarewell with
      | .close status, _ => exact absurd rfl (hgoesOn status)
  | ponging _ hw => cases hw
  | closing hw => cases hw
  | offeringLast => rfl

/-- **Every move** leaves the last word to the farewell. -/
theorem Concluding.transition (h : c.Concluding) (hreach : Reachable c)
    (hmove : Transition c move c') : c'.Concluding := by
  have hpast : 0 < c.offered.countP isFarewell → c.IsPast := by
    intro hsaid
    refine .inl ?_
    by_contra hstage
    rw [(hreach.staged.idle hstage).offered] at hsaid
    cases hsaid
  have hlast : 0 < c.offered.countP isFarewell → c'.reader.windsUp = true := fun hsaid =>
    (windsUp_transition (h.last hsaid) (hpast hsaid) hreach hmove).1
  obtain ⟨task, action, rest, c₁, script, rfl, hscript, heffect, rfl⟩ | hact := hmove.act_or
  · have hoffered := c₁.setScript_offered task script
    have hevents := c₁.setScript_events task script
    cases heffect.queueChange with
    | rests hsame hqueue =>
        rw [hsame] at hoffered
        refine ⟨?_, hoffered ▸ h.single, fun hsaid => hlast (hoffered ▸ hsaid)⟩
        rw [hevents, hoffered, hqueue]
        exact h.queued
    | @takes item _ hsame hqueue =>
        rw [hsame] at hoffered
        refine ⟨?_, hoffered ▸ h.single, fun hsaid => hlast (hoffered ▸ hsaid)⟩
        rw [hevents, hoffered]
        exact (hqueue ▸ List.suffix_cons item _ : c₁.events <:+ c.events).trans h.queued
    | @offers item haction hrest hnew hqueue =>
        subst haction hrest
        rw [hnew] at hoffered
        obtain rfl := hreach.scripted.reader_of_offer hscript
        have hreader : c.reader = .offer item :: script := hscript
        have hnone : c.offered.countP isFarewell = 0 := by
          refine Nat.eq_zero_of_not_pos fun hsaid => ?_
          have hwinds := h.last hsaid
          rw [hreader] at hwinds
          cases hwinds
        refine ⟨?_, ?_, fun hsaid => ?_⟩
        · obtain ⟨taken, heq⟩ := h.queued
          exact ⟨taken, by rw [hevents, hqueue, hoffered, List.reverse_cons, ← heq,
            List.append_assoc]⟩
        · rw [hoffered, List.countP_cons, hnone]
          split <;> omega
        · rw [hoffered, List.countP_cons, hnone] at hsaid
          have hfarewell : isFarewell item = true := by
            by_contra hnot
            rw [if_neg hnot] at hsaid
            cases hsaid
          exact hreach.scripted.windsUp_of_farewell hscript hfarewell
  · have hsame : c'.offered = c.offered ∧ c'.events = c.events := by
      cases hmove with
      | act => exact absurd rfl (hact _)
      | _ => exact ⟨rfl, rfl⟩
    refine ⟨?_, hsame.1 ▸ h.single, fun hsaid => hlast (hsame.1 ▸ hsaid)⟩
    rw [hsame.1, hsame.2]
    exact h.queued

/-- In every connection **nothing is offered behind the farewell**. -/
theorem Reachable.concluding (h : Reachable c) : c.Concluding := by
  refine h.invariant (fun role options keys => ?_) fun hreach h hmove => h.transition hreach hmove
  exact ⟨List.suffix_refl _, Nat.zero_le _, fun h => nomatch h⟩

end Connection

end WebSocket
