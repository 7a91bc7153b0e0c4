import WebSocket.Proofs.Connection.Greetings
import WebSocket.Proofs.Handshake.Agreement

/-!
# One end of a handshake

A handshake takes one end through five stages: the operation begins, one head is written, one is
waited for, the stream of frames is started, and the operation has ended. A client writes before it
waits, and a server waits before it writes; everything else is the same at both ends, so what an
end does is told by its `Part`: the script at each stage, the two heads, and the stages at which
they go out and come in.

A part is **sound** if an end that has come to a stage goes on as the part tells: its next action
leads to the next stage and writes and uses up what the part tells, unless it has to wait for the
transport or for the head from the peer (`Part.Sound`).

## Main results

* `Connection.sound_client`, `Connection.sound_server`: the parts of the two ends **are sound**.
-/

namespace WebSocket

namespace Connection

open Handshake

/-! ### Stages -/

/-- **What one end does** in a handshake. -/
structure Part where
  /-- What the operation still has to do at each stage; at stage 0 it has not begun. -/
  script : Nat → Script
  /-- The head that is written. -/
  head : Bytes
  /-- The stage at which it is written. -/
  headAt : Nat
  /-- The head that is waited for. -/
  reply : Bytes
  /-- The stage at which it is waited for. -/
  replyAt : Nat
  /-- The subprotocol that the end takes. -/
  protocol : Option Bytes

namespace Part

/-- What has been **written** when a stage is reached. -/
def spoken (part : Part) (k : Nat) : Bytes := if k ≤ part.headAt then [] else part.head

/-- What has been **used up** when a stage is reached. -/
def heard (part : Part) (k : Nat) : Bytes := if k ≤ part.replyAt then [] else part.reply

end Part

/-- A connection **at a stage** of its handshake. -/
structure At (part : Part) (k : Nat) (c : Connection) : Prop where
  within : k ≤ 5
  calls : ∃ id, c.calls = if k = 0 then [] else [⟨id, .whole, part.script k⟩]
  reader : c.reader = if k = 5 then [.readFrame] else []
  stage : c.stage = if k ≤ 1 then .handshake else if k = 5 then .running else .negotiating
  phase : c.phase = if k = 5 then .opened else .connecting
  protocol : k = 5 → c.protocol = part.protocol
  uncancelled : c.cancelled = false
  unbroken : c.transport.broken = false
  endless : c.transport.ending = none
  unshut : c.transport.shut = false

/-- What an end has **written and used up** on its way from one stage to the next. -/
structure Advance (part : Part) (k : Nat) (c c' : Connection) : Prop where
  next : At part (k + 1) c'
  options : c'.options = c.options
  incoming : c'.transport.incoming = c.transport.incoming
  writes : ∃ said, c'.transport.outgoing = c.transport.outgoing ++ said ∧
    part.spoken (k + 1) = part.spoken k ++ said
  uses : part.heard k ++ c.buffer = part.heard (k + 1) ++ c'.buffer

/-- A part that is played **as it is told**: at a stage the operation goes on to the next one, or it
has to wait for the transport or for the head from the peer. -/
def Part.Sound (part : Part) (options : Options) : Prop :=
  ∀ {k : Nat} {c : Connection} {id : Nat}, At part k c → c.options = options → 0 < k → k < 5 →
    c.calls = [⟨id, .whole, part.script k⟩] → part.heard k ++ c.buffer <+: part.reply →
    (∃ c', c.act (.call id) = some c' ∧ Advance part k c c') ∨
      (c.act (.call id) = none ∧
        (c.transport.stalled = true ∨ ¬part.heard (k + 1) <+: part.heard k ++ c.buffer))

variable {part : Part} {k : Nat} {c c' c₁ : Connection} {task : TaskId} {id : Nat}
  {action : Action} {script : Script}

/-! ### Actions -/

/-- The only operation takes **its only action**. -/
theorem act_only {claim : Claim} (hcalls : c.calls = [⟨id, claim, [action]⟩]) :
    c.act (.call id) = (c.perform (.call id) action []).map fun result =>
      result.1.setScript (.call id) result.2 := by
  have hscript : c.script (.call id) = [action] := by simp [script_call, call?, hcalls]
  rw [act, hscript]
  dsimp only
  cases c.perform (.call id) action [] <;> rfl

/-- The end comes to the next stage with **the script of that stage**. -/
theorem calls_setScript (hcalls : c₁.calls = [⟨id, .whole, script⟩]) (next : Script) :
    (c₁.setScript (.call id) next).calls = [⟨id, .whole, next⟩] := by
  simp [setScript, hcalls]

namespace At

/-- The operation takes **the transport**. -/
theorem take (h : At part 1 c) (hcalls : c.calls = [⟨id, .whole, part.script 1⟩])
    (hhead : 2 ≤ part.headAt) (hreply : 2 ≤ part.replyAt) :
    Advance part 1 c
      (({ c with stage := .negotiating } : Connection).setScript (.call id) (part.script 2)) where
  next :=
    { within := by omega
      calls := ⟨id, calls_setScript hcalls _⟩
      reader := h.reader
      stage := rfl
      phase := h.phase
      protocol := nofun
      uncancelled := h.uncancelled
      unbroken := h.unbroken
      endless := h.endless
      unshut := h.unshut }
  options := rfl
  incoming := rfl
  writes := ⟨[], (List.append_nil _).symm, by
    rw [Part.spoken, Part.spoken, if_pos (by omega), if_pos (by omega), List.append_nil]⟩
  uses := by
    rw [Part.heard, Part.heard, if_pos (by omega), if_pos (by omega)]
    rfl

/-- The operation **writes its head**. -/
theorem write (h : At part k c) (hcalls : c.calls = [⟨id, .whole, part.script k⟩]) (hk : 1 < k)
    (hlast : k < 4) (hhead : part.headAt = k) (hreply : part.replyAt ≠ k) :
    Advance part k c
      (({ c with
          transport := { c.transport with
            outgoing := c.transport.outgoing ++ part.head } } : Connection).setScript (.call id)
        (part.script (k + 1))) where
  next :=
    { within := by omega
      calls := ⟨id, calls_setScript hcalls _⟩
      reader := by
        rw [if_neg (by omega)]
        exact h.reader.trans (if_neg (by omega))
      stage := by
        rw [if_neg (by omega), if_neg (by omega)]
        exact h.stage.trans ((if_neg (by omega)).trans (if_neg (by omega)))
      phase := by
        rw [if_neg (by omega)]
        exact h.phase.trans (if_neg (by omega))
      protocol := fun hend => absurd hend (by omega)
      uncancelled := h.uncancelled
      unbroken := h.unbroken
      endless := h.endless
      unshut := h.unshut }
  options := rfl
  incoming := rfl
  writes := ⟨part.head, rfl, by
    rw [Part.spoken, Part.spoken, if_neg (by omega), if_pos (by omega), List.nil_append]⟩
  uses := by
    have hsame : part.heard (k + 1) = part.heard k := by
      unfold Part.heard
      by_cases hle : k ≤ part.replyAt
      · rw [if_pos hle, if_pos (by omega)]
      · rw [if_neg hle, if_neg (by omega)]
    rw [hsame]
    rfl

/-- The operation **uses up the head** that has come. -/
theorem hear (h : At part k c) (hcalls : c.calls = [⟨id, .whole, part.script k⟩]) (hk : 1 < k)
    (hlast : k < 4) (hreply : part.replyAt = k) (hhead : part.headAt ≠ k)
    (hcome : c.buffer = part.reply) :
    Advance part k c
      (({ c with buffer := [] } : Connection).setScript (.call id) (part.script (k + 1))) where
  next :=
    { within := by omega
      calls := ⟨id, calls_setScript hcalls _⟩
      reader := by
        rw [if_neg (by omega)]
        exact h.reader.trans (if_neg (by omega))
      stage := by
        rw [if_neg (by omega), if_neg (by omega)]
        exact h.stage.trans ((if_neg (by omega)).trans (if_neg (by omega)))
      phase := by
        rw [if_neg (by omega)]
        exact h.phase.trans (if_neg (by omega))
      protocol := fun hend => absurd hend (by omega)
      uncancelled := h.uncancelled
      unbroken := h.unbroken
      endless := h.endless
      unshut := h.unshut }
  options := rfl
  incoming := rfl
  writes := ⟨[], (List.append_nil _).symm, by
    unfold Part.spoken
    by_cases hle : k ≤ part.headAt
    · rw [if_pos hle, if_pos (by omega), List.append_nil]
    · rw [if_neg hle, if_neg (by omega), List.append_nil]⟩
  uses := by
    rw [Part.heard, Part.heard, if_pos (by omega), if_neg (by omega), hcome, List.nil_append]
    exact (List.append_nil _).symm

/-- **The stream of frames** is started. -/
theorem establish (h : At part 4 c) (hcalls : c.calls = [⟨id, .whole, part.script 4⟩])
    (hhead : part.headAt < 4) (hreply : part.replyAt < 4) :
    Advance part 4 c
      (({ c with
          writer := some {}
          phase := if c.phase = .connecting then .opened else c.phase
          stage := .running
          protocol := part.protocol
          reader := [.readFrame] } : Connection).setScript (.call id) (part.script 5)) where
  next :=
    { within := by omega
      calls := ⟨id, calls_setScript hcalls _⟩
      reader := rfl
      stage := rfl
      phase := if_pos h.phase
      protocol := fun _ => rfl
      uncancelled := h.uncancelled
      unbroken := h.unbroken
      endless := h.endless
      unshut := h.unshut }
  options := rfl
  incoming := rfl
  writes := ⟨[], (List.append_nil _).symm, by
    rw [Part.spoken, Part.spoken, if_neg (by omega), if_neg (by omega), List.append_nil]⟩
  uses := by
    rw [Part.heard, Part.heard, if_neg (by omega), if_neg (by omega)]
    rfl

end At

/-! ### Heads -/

/-- A head is written **as soon as the transport takes it**. -/
theorem writeHead_eq {head : Bytes} {lost go : Script} (hhead : head ≠ [])
    (hbroken : c.transport.broken = false) :
    c.writeHead head lost go =
      if c.transport.stalled then none
      else some
        ({ c with
            transport := { c.transport with outgoing := c.transport.outgoing ++ head } }, go) := by
  rw [writeHead, Transport.write, if_neg (by simpa using hhead), if_neg (by simp [hbroken])]
  by_cases hstalled : c.transport.stalled = true
  · rw [if_pos hstalled, if_pos hstalled]
  · rw [if_neg hstalled, if_neg hstalled]

/-- A head is used up **as soon as all of it has come**. -/
theorem withHead_eq {head : Bytes} {fail : Failure → Script} {go : Bytes → Script}
    (hhead : IsHead head) (hlimit : head.length ≤ c.options.maxHandshakeSize)
    (hfront : c.buffer <+: head) (hending : c.transport.ending = none) :
    c.withHead fail go =
      if c.buffer = head then some ({ c with buffer := [] }, go head) else none := by
  rw [withHead, headProgress_of_isPrefix hhead hlimit hfront]
  by_cases heq : c.buffer = head
  · rw [if_pos heq, if_pos heq]
  · rw [if_neg heq, if_neg heq, hending]
    cases c.transport.incoming.isEmpty <;> rfl

/-! ### The two parts -/

section Parts

variable {offered supported : List String} {host path : String} {nonce : Bytes} {options : Options}

/-- The request as **the server** has read it. -/
def received (offered : List String) (host path : String) (nonce : Bytes) : Request :=
  { offering offered host path nonce with headers := lines (receivedLines offered host nonce) }

/-- The part of **a client**: it writes a request and waits for the response. -/
def clientPart (offered supported : List String) (host path : String) (nonce : Bytes) : Part where
  script
    | 0 | 1 => [.beginConnecting host path [] nonce]
    | 2 => [.sendRequest (offering offered host path nonce)]
    | 3 => [.awaitResponse (offering offered host path nonce)]
    | 4 => [.establish (agreed? offered supported) (.connected (agreeing offered supported nonce))]
    | _ => [.answer (.connected (agreeing offered supported nonce))]
  head := (offering offered host path nonce).written
  headAt := 2
  reply := (agreeing offered supported nonce).written
  replyAt := 3
  protocol := agreed? offered supported

/-- The part of **a server**: it waits for a request and writes the response. -/
def serverPart (offered supported : List String) (host path : String) (nonce : Bytes) : Part where
  script
    | 0 | 1 => [.beginAccepting]
    | 2 => [.awaitRequest]
    | 3 => [.sendAcceptance (received offered host path nonce) (agreeing offered supported nonce)]
    | 4 => [.establish (agreed? offered supported) (.accepted (received offered host path nonce))]
    | _ => [.answer (.accepted (received offered host path nonce))]
  head := (agreeing offered supported nonce).written
  headAt := 3
  reply := (offering offered host path nonce).written
  replyAt := 2
  protocol := agreed? offered supported

theorem written_offering_ne_nil : (offering offered host path nonce).written ≠ [] := by
  rw [Request.written]
  simp

theorem written_agreeing_ne_nil : (agreeing offered supported nonce).written ≠ [] := by
  rw [Response.written]
  simp

/-- The request **ends with its last byte**. -/
theorem isHead_offering (h : Presentable offered host path nonce) :
    IsHead (offering offered host path nonce).written := by
  have hpath : Http.OneLine (Utf8.encode path) := .of_all (by decide) h.path
  have hprotocols : ({ protocols := offered } : Options).protocols = offered := rfl
  exact (inLines_clientRequest (clientRequest_eq h hprotocols) hpath).isHead

/-- And so does the response. -/
theorem isHead_agreeing (h : Presentable offered host path nonce) :
    IsHead (agreeing offered supported nonce).written :=
  isHead_acceptHead (acceptHead_written h)

/-- **The part of the client is sound.** -/
theorem sound_client (h : Presentable offered host path nonce)
    (hoptions : options.protocols = offered)
    (hsize : (agreeing offered supported nonce).written.length ≤ options.maxHandshakeSize) :
    (clientPart offered supported host path nonce).Sound options := by
  intro k c id hat hown hk hlast hcalls hfront
  obtain rfl | rfl | rfl | rfl : k = 1 ∨ k = 2 ∨ k = 3 ∨ k = 4 := by omega
  · have hstage : c.stage = .handshake := hat.stage
    have htake : c.act (.call id) = some (({ c with stage := .negotiating } : Connection).setScript
        (.call id) [.sendRequest (offering offered host path nonce)]) := by
      rw [act_only hcalls, perform, takeTransport, if_pos hstage, hown, clientRequest_eq h hoptions]
      rfl
    exact Or.inl ⟨_, htake, hat.take hcalls (Nat.le_refl 2) (show 2 ≤ 3 by decide)⟩
  · have hwrite := act_only hcalls
    rw [perform, writeHead_eq written_offering_ne_nil hat.unbroken] at hwrite
    by_cases hstalled : c.transport.stalled = true
    · rw [if_pos hstalled] at hwrite
      exact Or.inr ⟨hwrite, Or.inl hstalled⟩
    · rw [if_neg hstalled] at hwrite
      exact Or.inl ⟨_, hwrite, hat.write hcalls (by decide) (by decide) rfl (show 3 ≠ 2 by decide)⟩
  · have hhear := act_only hcalls
    rw [perform, withHead_eq (isHead_agreeing h) (hown ▸ hsize) hfront hat.endless] at hhear
    by_cases hcome : c.buffer = (agreeing offered supported nonce).written
    · rw [if_pos hcome, judge_written] at hhear
      exact Or.inl ⟨_, hhear,
        hat.hear hcalls (by decide) (by decide) rfl (show 2 ≠ 3 by decide) hcome⟩
    · rw [if_neg hcome] at hhear
      exact Or.inr ⟨hhear, Or.inr fun hneeds => hcome (hfront.eq_of_length_le hneeds.length_le)⟩
  · have hestablish := act_only hcalls
    exact Or.inl ⟨_, hestablish,
      hat.establish hcalls (show 2 < 4 by decide) (show 3 < 4 by decide)⟩

/-- **The part of the server is sound.** -/
theorem sound_server (h : Presentable offered host path nonce)
    (hoptions : options.protocols = supported)
    (hsize : (offering offered host path nonce).written.length ≤ options.maxHandshakeSize) :
    (serverPart offered supported host path nonce).Sound options := by
  intro k c id hat hown hk hlast hcalls hfront
  obtain rfl | rfl | rfl | rfl : k = 1 ∨ k = 2 ∨ k = 3 ∨ k = 4 := by omega
  · have hstage : c.stage = .handshake := hat.stage
    have htake : c.act (.call id) = some (({ c with stage := .negotiating } : Connection).setScript
        (.call id) [.awaitRequest]) := by
      rw [act_only hcalls, perform, takeTransport, if_pos hstage]
      rfl
    exact Or.inl ⟨_, htake, hat.take hcalls (show 2 ≤ 3 by decide) (Nat.le_refl 2)⟩
  · have hhear := act_only hcalls
    rw [perform, withHead_eq (isHead_offering h) (hown ▸ hsize) hfront hat.endless] at hhear
    by_cases hcome : c.buffer = (offering offered host path nonce).written
    · have hjudge : judgeRequest c.options.protocols (offering offered host path nonce).written =
          [.sendAcceptance (received offered host path nonce)
            (agreeing offered supported nonce)] := by
        rw [judgeRequest, hown, hoptions, acceptHead_written h]
        rfl
      rw [if_pos hcome, hjudge] at hhear
      exact Or.inl ⟨_, hhear,
        hat.hear hcalls (by decide) (by decide) rfl (show 3 ≠ 2 by decide) hcome⟩
    · rw [if_neg hcome] at hhear
      exact Or.inr ⟨hhear, Or.inr fun hneeds => hcome (hfront.eq_of_length_le hneeds.length_le)⟩
  · have hwrite := act_only hcalls
    rw [perform, writeHead_eq written_agreeing_ne_nil hat.unbroken, protocol?_agreeing] at hwrite
    by_cases hstalled : c.transport.stalled = true
    · rw [if_pos hstalled] at hwrite
      exact Or.inr ⟨hwrite, Or.inl hstalled⟩
    · rw [if_neg hstalled] at hwrite
      exact Or.inl ⟨_, hwrite, hat.write hcalls (by decide) (by decide) rfl (show 2 ≠ 3 by decide)⟩
  · have hestablish := act_only hcalls
    exact Or.inl ⟨_, hestablish,
      hat.establish hcalls (show 3 < 4 by decide) (show 2 < 4 by decide)⟩

end Parts

/-! ### Moves during a handshake -/

/-- The moves of an end that **does nothing but its handshake**. -/
def Part.allows (part : Part) : Move → Prop
  | .start _ operation =>
    operation.claim = .whole ∧ ∀ size, Script.ofOperation size operation = part.script 1
  | .act _ | .read _ | .stall _ | .tick _ => True
  | _ => False

/-- Moves that **bring a handshake on**: time may pass, and the transport may stall and recover, any
number of times. -/
def Move.bringsOn : Move → Bool
  | .stall _ | .tick _ => false
  | _ => true

/-- How much is **left to do** for an end at a stage. A byte that is still to be written counts
twice, since it is carried to the other end and read there. -/
def left (part : Part) (k : Nat) (c : Connection) : Nat :=
  5 - k + 2 * (part.head.length - (part.spoken k).length) + 2 * c.transport.outgoing.length +
    c.transport.incoming.length

/-- What a move of an end during its handshake **comes to**. -/
structure Progress (part : Part) (k k' : Nat) (c c' : Connection) (move : Move) : Prop where
  next : At part k' c'
  options : c'.options = c.options
  inflow : part.heard k' ++ (c'.buffer ++ c'.transport.incoming) =
    part.heard k ++ (c.buffer ++ c.transport.incoming)
  outflow : ∃ said, c'.transport.outgoing = c.transport.outgoing ++ said ∧
    part.spoken k' = part.spoken k ++ said
  cheaper : left part k' c' + move.bringsOn.toNat ≤ left part k c

/-- A part whose stages are **in order**: both heads come between the beginning and the end, and at
the end there is nothing left but the answer. -/
structure Part.Orderly (part : Part) : Prop where
  headAt : 1 < part.headAt ∧ part.headAt < 5
  replyAt : 1 < part.replyAt ∧ part.replyAt < 5
  answer : ∃ a, part.script 5 = [.answer a]

theorem Part.spoken_isPrefix (part : Part) (k : Nat) : part.spoken k <+: part.head := by
  unfold spoken
  split
  · exact List.nil_prefix
  · exact List.prefix_refl _

namespace At

/-- An end that has opened **reads nothing** as long as nothing comes. -/
theorem act_reader (h : At part k c) (horderly : part.Orderly)
    (hfront : part.heard k ++ c.buffer <+: part.reply) : c.act .reader = none := by
  by_cases hk : k = 5
  · have hreader : c.script .reader = [.readFrame] := h.reader.trans (if_pos hk)
    have hheard : part.heard k = part.reply := if_neg (by have := horderly.replyAt; omega)
    have hempty : c.buffer = [] := by
      rw [hheard] at hfront
      have hlength := hfront.length_le
      rw [List.length_append] at hlength
      exact List.eq_nil_of_length_eq_zero (by omega)
    have hnothing : c.codec.decode [] = .incomplete := rfl
    have hwait : c.readNext [] = none := by
      rw [readNext, hempty, hnothing]
      exact if_neg (by simp [Transport.isExhausted, h.endless])
    rw [act, hreader]
    simp only [perform, hwait]
  · have hreader : c.script .reader = [] := h.reader.trans (if_neg hk)
    rw [act, hreader]

/-- Whoever acts during a handshake is **its operation**, on its way from one stage to the next. -/
theorem acts (h : At part k c) (horderly : part.Orderly)
    (hfront : part.heard k ++ c.buffer <+: part.reply) (hact : c.act task = some c') :
    ∃ id, task = .call id ∧ 0 < k ∧ k < 5 ∧ c.calls = [⟨id, .whole, part.script k⟩] := by
  cases task with
  | reader =>
      rw [h.act_reader horderly hfront] at hact
      cases hact
  | call own =>
      obtain ⟨id, hcalls⟩ := h.calls
      have hwithin := h.within
      by_cases hzero : k = 0
      · rw [if_pos hzero] at hcalls
        have hscript : c.script (.call own) = [] := by simp [script_call, call?, hcalls]
        rw [act, hscript] at hact
        cases hact
      rw [if_neg hzero] at hcalls
      by_cases hown : id = own
      · subst hown
        refine ⟨id, rfl, by omega, ?_, hcalls⟩
        by_contra hlast
        obtain rfl : k = 5 := by omega
        obtain ⟨a, hanswer⟩ := horderly.answer
        rw [hanswer] at hcalls
        rw [act_only hcalls] at hact
        cases hact
      · have hscript : c.script (.call own) = [] := by simp [script_call, call?, hcalls, hown]
        rw [act, hscript] at hact
        cases hact

/-- An end that **begins its operation** is at its first stage. -/
theorem starts (h : At part k c) (horderly : part.Orderly) {id : Nat} {operation : Operation}
    (hallows : part.allows (.start id operation)) (hstep : c.step (.start id operation) = some c') :
    ∃ k', Progress part k k' c c' (.start id operation) := by
  obtain ⟨hclaim, hscript⟩ := hallows
  cases transition_of_step hstep with
  | start _ hmay =>
      obtain ⟨other, hcalls⟩ := h.calls
      by_cases hzero : k = 0
      · subst hzero
        refine ⟨1, ?_⟩
        have hhead := horderly.headAt
        have hreply := horderly.replyAt
        have hspoken : part.spoken 1 = part.spoken 0 := by
          rw [Part.spoken, Part.spoken, if_pos (by omega), if_pos (by omega)]
        have hheard : part.heard 1 = part.heard 0 := by
          rw [Part.heard, Part.heard, if_pos (by omega), if_pos (by omega)]
        exact
          { next :=
              { within := by decide
                calls := ⟨id, by
                  rw [if_pos rfl] at hcalls
                  simp [hcalls, hclaim, hscript]⟩
                reader := h.reader
                stage := h.stage
                phase := h.phase
                protocol := nofun
                uncancelled := h.uncancelled
                unbroken := h.unbroken
                endless := h.endless
                unshut := h.unshut }
            options := rfl
            inflow := by rw [hheard]
            outflow := by
              rw [hspoken]
              exact ⟨[], (List.append_nil _).symm, (List.append_nil _).symm⟩
            cheaper := by
              simp only [left, hspoken, Move.bringsOn, Bool.toNat_true]
              omega }
      · -- the operation in progress needs the connection for itself
        rw [if_neg hzero] at hcalls
        rw [mayStart, hcalls, hclaim] at hmay
        cases hmay

/-- **A move of an end during its handshake** leads to a stage of the handshake. -/
theorem step (h : At part k c) (horderly : part.Orderly) {options : Options}
    (hsound : part.Sound options) (hown : c.options = options)
    (hfront : part.heard k ++ c.buffer <+: part.reply) {move : Move}
    (hallows : part.allows move) (hstep : c.step move = some c') :
    ∃ k', Progress part k k' c c' move := by
  have hnothing : ∃ said, c.transport.outgoing = c.transport.outgoing ++ said ∧
      part.spoken k = part.spoken k ++ said :=
    ⟨[], (List.append_nil _).symm, (List.append_nil _).symm⟩
  cases move with
  | start id operation => exact h.starts horderly hallows hstep
  | act task =>
      obtain ⟨id, rfl, hk, hlast, hcalls⟩ := h.acts horderly hfront hstep
      obtain ⟨c₁, hact, hadvance⟩ | ⟨hnone, -⟩ := hsound h hown hk hlast hcalls hfront
      · obtain rfl : c₁ = c' := Option.some.inj (hact.symm.trans hstep)
        obtain ⟨said, hout, hsaid⟩ := hadvance.writes
        have hbound := (part.spoken_isPrefix (k + 1)).length_le
        exact ⟨k + 1,
          { next := hadvance.next
            options := hadvance.options
            inflow := by
              rw [hadvance.incoming, ← List.append_assoc, ← hadvance.uses, List.append_assoc]
            outflow := hadvance.writes
            cheaper := by
              rw [hsaid, List.length_append] at hbound
              simp only [left, hsaid, hout, hadvance.incoming, Move.bringsOn, Bool.toNat_true,
                List.length_append]
              omega }⟩
      · rw [show c.act (.call id) = some c' from hstep] at hnone
        cases hnone
  | read count =>
      cases transition_of_step hstep with
      | read hpos hle =>
          exact ⟨k,
            { next := { h with }
              options := rfl
              inflow := by simp
              outflow := hnothing
              cheaper := by
                simp only [left, Move.bringsOn, Bool.toNat_true, List.length_drop]
                omega }⟩
  | stall stalled =>
      cases transition_of_step hstep with
      | stall => exact ⟨k, { h with }, rfl, rfl, hnothing, Nat.le_refl _⟩
  | tick milliseconds =>
      cases transition_of_step hstep with
      | tick => exact ⟨k, { h with }, rfl, rfl, hnothing, Nat.le_refl _⟩
  | _ => exact hallows.elim

/-- An end **is held on to** throughout its handshake. -/
theorem not_released (h : At part k c) : c.released = false := by
  have hstage := h.stage
  unfold released
  split at hstage
  · rw [hstage]
  · split at hstage
    · rename_i hlast
      rw [hstage, readerEnded, h.reader, if_pos hlast]
      rfl
    · rw [hstage]

end At

end Connection

end WebSocket
