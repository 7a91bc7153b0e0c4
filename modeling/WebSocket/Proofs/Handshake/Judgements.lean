import WebSocket.Connection.Step
import WebSocket.Proofs.Handshake.Extent

/-!
# What is judged of a head

A client opens on a response that agrees with its request; a server accepts a request that is valid,
and tells the peer of every failure but one: that a head is incomplete. A head that was collected is
judged so only if it is empty lines. What a stream comes to, a head or the failure to get one, is
told by its bytes and by its end, and stays so whatever comes later.

## Main results

* `Handshake.Response.validate_iff`: a client accepts a response **exactly if it agrees** with the
  request.
* `Handshake.judgement_acceptHead`: what a server makes of a head, **one case for each reason**.
* `Handshake.fetched?_append`: what a stream has come to does not change.
-/

namespace WebSocket

namespace Handshake

open Http

section Except

variable {ε α β : Type} {x : Except ε α} {f : α → Except ε β} {a : α} {b : β} {e e' : ε}

theorem bind_eq_ok : x >>= f = .ok b ↔ ∃ a, x = .ok a ∧ f a = .ok b := by
  cases x with
  | error e => simp [bind, Except.bind]
  | ok a => simp [bind, Except.bind]

theorem bind_eq_error :
    x >>= f = .error e ↔ x = .error e ∨ ∃ a, x = .ok a ∧ f a = .error e := by
  cases x with
  | error e => simp [bind, Except.bind]
  | ok a => simp [bind, Except.bind]

theorem throw_bind : (throw e : Except ε α) >>= f = .error e := rfl

theorem ite_error_eq_ok {p : Prop} [Decidable p] :
    (if p then .error e else x) = .ok a ↔ ¬p ∧ x = .ok a := by
  by_cases hp : p <;> simp [hp]

theorem ite_error_eq_error {p : Prop} [Decidable p] :
    (if p then .error e' else x) = .error e ↔ (p ∧ e' = e) ∨ (¬p ∧ x = .error e) := by
  by_cases hp : p <;> simp [hp]

end Except

/-- A header that **is there and is ASCII text**. -/
def Shows (h : Headers) (kind : HeaderKind) (value : Bytes) : Prop :=
  h.get? kind.name = some value ∧ value.all isVisible = true

theorem required_eq_ok {h : Headers} {kind : HeaderKind} {value : Bytes} :
    required h kind = .ok value ↔ Shows h kind value := by
  unfold required Shows
  cases h.get? kind.name with
  | none => simp
  | some found =>
      by_cases hvisible : found.all isVisible = true
      · simp only [hvisible, if_true, Except.ok.injEq, Option.some.injEq]
        exact ⟨fun heq => ⟨heq, heq ▸ hvisible⟩, fun hboth => hboth.1⟩
      · simp only [hvisible, if_false, reduceCtorEq, Option.some.injEq, false_iff, not_and]
        rintro rfl
        exact hvisible

theorem headerText?_eq_some {h : Headers} {kind : HeaderKind} {value : Bytes} :
    headerText? h kind = some value ↔ Shows h kind value := by
  unfold headerText? Shows
  cases h.get? kind.name with
  | none => simp
  | some found =>
      by_cases hvisible : found.all isVisible = true
      · simp only [hvisible, if_true, Option.some.injEq]
        exact ⟨fun heq => ⟨heq, heq ▸ hvisible⟩, fun hboth => hboth.1⟩
      · simp only [hvisible, if_false, reduceCtorEq, Option.some.injEq, false_iff, not_and]
        rintro rfl
        exact hvisible

namespace Response

/-- A response that **agrees with the request** it answers. A subprotocol counts only if it is ASCII
text; any other bytes in its place go unnoticed. -/
structure Agrees (request : Request) (r : Response) : Prop where
  status : r.status = 101
  upgrade : ∃ value, Shows r.headers .upgrade value ∧
    Bytes.eqIgnoringCase (Bytes.trim value) (Bytes.ascii "websocket") = true
  connection : ∃ value, Shows r.headers .connection value ∧
    ∃ entry ∈ Bytes.splitOn comma value,
      Bytes.eqIgnoringCase (Bytes.trim entry) (Bytes.ascii "upgrade") = true
  accept : ∃ value key, Shows r.headers .secWebSocketAccept value ∧ request.key? = some key ∧
    Bytes.trim value = acceptValue key
  protocol : ∀ value, Shows r.headers .secWebSocketProtocol value → value ∈ request.protocols

/-- The last thing that is looked at is **the subprotocol**. -/
theorem judge_protocol {request : Request} {r : Response} :
    (match r.protocol? with
      | none => pure ()
      | some selected =>
        if request.protocols.contains selected = false then
          throw (Failure.headerMismatch HeaderKind.secWebSocketProtocol)
        else pure () : Except Failure Unit) = .ok () ↔
      ∀ value, Shows r.headers .secWebSocketProtocol value → value ∈ request.protocols := by
  simp only [← headerText?_eq_some]
  unfold Response.protocol?
  cases headerText? r.headers .secWebSocketProtocol with
  | none => simp [pure, Except.pure]
  | some selected =>
      by_cases hoffered : selected ∈ request.protocols
      · simp [hoffered, pure, Except.pure]
      · simp [hoffered, throw, throwThe, MonadExceptOf.throw]

/-- **When a response is accepted**, said of its status and of its headers. -/
theorem validate_iff {request : Request} {r : Response} :
    r.validate request = .ok () ↔ Agrees request r := by
  unfold Response.validate
  simp only [throw_bind, bind_eq_ok, ite_error_eq_ok, required_eq_ok, Bool.not_eq_true', hasToken,
    Bool.not_eq_false, List.any_eq_true, not_not]
  constructor
  · rintro ⟨hstatus, upgrade, hupgrade, connection, hconnection, accept, haccept, hsame, hentry, h⟩
    cases hkey : request.key? with
    | none => rw [hkey] at h; cases h
    | some key =>
        rw [hkey] at h
        obtain ⟨haccepts, hprotocol⟩ := ite_error_eq_ok.mp h
        exact ⟨hstatus, ⟨upgrade, hupgrade, hsame⟩, ⟨connection, hconnection, hentry⟩,
          ⟨accept, key, haccept, hkey, not_not.mp haccepts⟩, judge_protocol.mp hprotocol⟩
  · rintro ⟨hstatus, ⟨upgrade, hupgrade, hsame⟩, ⟨connection, hconnection, hentry⟩,
      ⟨accept, key, haccept, hkey, haccepts⟩, hprotocol⟩
    refine ⟨hstatus, upgrade, hupgrade, connection, hconnection, accept, haccept, hsame, hentry, ?_⟩
    rw [hkey]
    exact ite_error_eq_ok.mpr ⟨not_not.mpr haccepts, judge_protocol.mpr hprotocol⟩

end Response

/-! ### Requests -/

section Tells

variable {α β : Type} {x : Except Failure α} {f : α → Except Failure β} {failure : Failure}

/-- A judgement of which **every failure is told** to the peer. -/
def Tells (x : Except Failure α) : Prop := ∀ failure, x = .error failure → failure.isAnswered = true

theorem Tells.bind (hx : Tells x) (hf : ∀ a, Tells (f a)) : Tells (x >>= f) := by
  intro failure h
  obtain h | ⟨a, -, h⟩ := bind_eq_error.mp h
  · exact hx failure h
  · exact hf a failure h

theorem Tells.ite {p : Prop} [Decidable p] (hfailure : failure.isAnswered = true) (hx : Tells x) :
    Tells (if p then .error failure else x) := by
  intro other h
  obtain ⟨-, rfl⟩ | ⟨-, h⟩ := ite_error_eq_error.mp h
  · exact hfailure
  · exact hx other h

theorem tells_required (h : Headers) (kind : HeaderKind) : Tells (required h kind) := by
  intro failure hrequired
  unfold required at hrequired
  split at hrequired
  · cases hrequired; rfl
  · split at hrequired
    · cases hrequired
    · cases hrequired; rfl

end Tells

namespace Request

/-- Whatever is wrong with a request, **the client is told**. -/
theorem tells_validate (r : Request) : Tells r.validate := by
  unfold Request.validate
  simp only [throw_bind]
  refine .ite rfl (.ite rfl (.bind (tells_required _ _) fun _ => .bind (tells_required _ _) fun _ =>
    .bind (tells_required _ _) fun _ => .bind (tells_required _ _) fun _ =>
    .bind (tells_required _ _) fun _ => .ite rfl (.ite rfl (.ite rfl (.ite rfl ?_)))))
  exact nofun

/-- A request that is accepted **has a key**. -/
theorem key?_of_validate {r : Request} (h : r.validate = .ok ()) : ∃ key, r.key? = some key := by
  unfold Request.validate at h
  simp only [throw_bind, bind_eq_ok, ite_error_eq_ok] at h
  obtain ⟨-, -, _, -, _, -, _, -, key, hkey, -⟩ := h
  exact ⟨key, headerText?_eq_some.mpr (required_eq_ok.mp hkey)⟩

end Request

/-- The response to a request that is accepted: it **proves that the key was read**. -/
structure Proves (request : Request) (response : Response) : Prop where
  status : response.status = 101
  accept : ∃ key, request.key? = some key ∧
    response.headers.get? HeaderKind.secWebSocketAccept.name = some (acceptValue (Bytes.trim key))
  isHead : IsHead response.written

/-- To a request that is accepted **there is a response**. -/
theorem Response.accepting_of_validate {r : Request} (h : r.validate = .ok ())
    (supported : List String) : ∃ response, accepting r supported = .ok response ∧
      Proves r response := by
  obtain ⟨key, hkey⟩ := Request.key?_of_validate h
  have haccepting : accepting r supported = .ok (make 101 "Switching Protocols"
      ([(.upgrade, Bytes.ascii "websocket"), (.connection, Bytes.ascii "Upgrade"),
        (.secWebSocketAccept, acceptValue (Bytes.trim key))] ++
        (selectProtocol r supported).toList.map fun p => (.secWebSocketProtocol, p))) := by
    rw [accepting, hkey]
  refine ⟨_, haccepting, rfl, ⟨key, hkey, ?_⟩, isHead_accepting haccepting⟩
  cases selectProtocol r supported <;> rfl

theorem Malformed.isAnswered {failure : Failure} (h : Malformed failure) :
    failure.isAnswered = true := by
  obtain ⟨text, rfl | rfl⟩ := h <;> rfl

/-- **What a server makes of a head** that it has collected. -/
inductive Judgement (head : Bytes) : Except Failure (Request × Response) → Prop
  /-- The request is accepted. -/
  | accepted {request : Request} {response : Response} (hparse : Request.parse head = .ok request)
      (hvalid : request.validate = .ok ()) (hproves : Proves request response) :
      Judgement head (.ok (request, response))
  /-- The head is no request. -/
  | malformed {failure : Failure} (hparse : Request.parse head = .error failure)
      (hfailure : Malformed failure) : Judgement head (.error failure)
  /-- The request is turned down. -/
  | refused {request : Request} {failure : Failure} (hparse : Request.parse head = .ok request)
      (hvalid : request.validate = .error failure) : Judgement head (.error failure)
  /-- The head is empty lines only, and reading it has come to no end. -/
  | empty (hlines : EmptyLines head) : Judgement head (.error .incomplete)

theorem judgement_acceptHead {limit : Nat} {stream head rest : Bytes}
    (h : headProgress limit stream = .done head rest) (protocols : List String) :
    Judgement head (Connection.acceptHead protocols head) := by
  obtain ⟨hextent, -⟩ := extent_of_headProgress h
  unfold Connection.acceptHead
  cases hparse : Request.parse head with
  | error failure =>
      by_cases hfailure : failure = .incomplete
      · subst hfailure
        exact .empty (hextent.waits.mp hparse)
      · exact .malformed hparse (hextent.malformed _ hparse hfailure)
  | ok request =>
      simp only [bind, Except.bind]
      cases hvalid : request.validate with
      | error failure => exact .refused hparse hvalid
      | ok valid =>
          obtain ⟨response, haccepting, hproves⟩ := Response.accepting_of_validate hvalid protocols
          simp only [haccepting]
          exact .accepted hparse hvalid hproves

/-! ### Streams -/

/-- A head that is too long **stays too long** when more bytes come. -/
theorem headProgress_append_tooLarge {limit : Nat} {b : Bytes}
    (h : headProgress limit b = .tooLarge) (c : Bytes) :
    headProgress limit (b ++ c) = .tooLarge := by
  unfold headProgress at h ⊢
  split at h
  · rename_i e hend
    split at h
    · rename_i hlarge
      rw [show headEnd? (b ++ c) = some e from headEndFrom_append hend c]
      exact if_pos hlarge
    · cases h
  · rename_i hnone
    split at h
    · rename_i hlong
      split
      · rename_i e hend
        refine if_pos ?_
        by_contra hle
        -- an end within the bytes that had come would have been found there
        have hwhole : Whole ((b ++ c).take e) := whole_of_headEndFrom hend
        rw [List.take_append_of_le_length (by omega)] at hwhole
        obtain ⟨e', hfound⟩ := headEndFrom_of_whole hwhole 0
        have hsame := headEndFrom_append hfound (b.drop e)
        rw [List.take_append_drop] at hsame
        rw [headEnd?, hsame] at hnone
        cases hnone
      · exact if_pos (by rw [List.length_append]; omega)
    · cases h

/-- The end of a head is **in the bytes** that have come, or it is not. -/
theorem headEnd?_eq_none {b : Bytes} : headEnd? b = none ↔ ¬ newline ++ newline <:+: b := by
  constructor
  · rintro hnone ⟨front, back, rfl⟩
    obtain ⟨e, hend⟩ := headEndFrom_of_whole (b := front ++ (newline ++ newline)) ⟨front, rfl⟩ 0
    rw [headEnd?, headEndFrom_append hend] at hnone
    cases hnone
  · intro hnot
    cases hend : headEnd? b with
    | none => rfl
    | some e =>
        have hwhole : Whole (b.take e) := whole_of_headEndFrom hend
        exact absurd (hwhole.isInfix.trans (List.take_prefix e b).isInfix) hnot

/-- A stream that **holds a head**, or too many bytes for one. -/
def Delivers (limit : Nat) (stream : Bytes) : Prop :=
  newline ++ newline <:+: stream ∨ limit < stream.length

theorem headProgress_eq_wait {limit : Nat} {stream : Bytes} :
    headProgress limit stream = .wait ↔ ¬Delivers limit stream := by
  unfold Delivers
  rw [not_or, ← headEnd?_eq_none]
  unfold headProgress
  cases headEnd? stream with
  | none => by_cases hlong : limit < stream.length <;> simp [hlong]
  | some e => by_cases hlarge : limit < e <;> simp [hlarge]

/-- What a handshake fails with when the peer's stream **ends too early**. -/
def failureOf : Ending → Failure
  | .ended => .incomplete
  | .failed reason => .transport reason

/-- What a stream of bytes **comes to** as a head: the head, or the failure to get one; nothing
while the stream has not ended and may still become a head. -/
def fetched? (limit : Nat) (stream : Bytes) (ending : Option Ending) :
    Option (Except Failure Bytes) :=
  match headProgress limit stream with
  | .tooLarge => some (.error (.tooLarge limit))
  | .done head _ => some (.ok head)
  | .wait => ending.map fun e => .error (failureOf e)

/-- **What a stream can come to**: a head, too many bytes, or its end. -/
theorem fetched?_cases {limit : Nat} {stream : Bytes} {ending : Option Ending}
    {outcome : Except Failure Bytes} (h : fetched? limit stream ending = some outcome) :
    (∃ head rest, headProgress limit stream = .done head rest ∧ outcome = .ok head) ∨
      (headProgress limit stream = .tooLarge ∧ outcome = .error (.tooLarge limit)) ∨
        (headProgress limit stream = .wait ∧
          ∃ e, ending = some e ∧ outcome = .error (failureOf e)) := by
  unfold fetched? at h
  cases hprogress : headProgress limit stream with
  | tooLarge =>
      rw [hprogress] at h
      exact .inr (.inl ⟨rfl, (Option.some.inj h).symm⟩)
  | done head rest =>
      rw [hprogress] at h
      exact .inl ⟨head, rest, rfl, (Option.some.inj h).symm⟩
  | wait =>
      rw [hprogress] at h
      obtain ⟨e, he, rfl⟩ := Option.map_eq_some_iff.mp h
      exact .inr (.inr ⟨rfl, e, he, rfl⟩)

/-- A stream **comes to nothing** only while it has not ended and may still become a head. -/
theorem fetched?_eq_none {limit : Nat} {stream : Bytes} {ending : Option Ending} :
    fetched? limit stream ending = none ↔ ¬Delivers limit stream ∧ ending = none := by
  unfold fetched?
  rw [← headProgress_eq_wait]
  cases headProgress limit stream <;> simp

/-- What a stream has come to **does not change** by what comes later; nothing comes behind its
end. -/
theorem fetched?_append {limit : Nat} {stream more : Bytes} {ending ending' : Option Ending}
    {outcome : Except Failure Bytes} (h : fetched? limit stream ending = some outcome)
    (hending : ending ≠ none → more = [] ∧ ending' = ending) :
    fetched? limit (stream ++ more) ending' = some outcome := by
  unfold fetched? at h ⊢
  cases hprogress : headProgress limit stream with
  | tooLarge => rw [hprogress] at h; rw [headProgress_append_tooLarge hprogress]; exact h
  | done head rest => rw [hprogress] at h; rw [headProgress_append hprogress]; exact h
  | wait =>
      rw [hprogress] at h
      obtain ⟨e, he, -⟩ := Option.map_eq_some_iff.mp h
      obtain ⟨rfl, rfl⟩ := hending (by rw [he]; exact Option.some_ne_none e)
      rw [List.append_nil, hprogress]
      exact h

end Handshake

end WebSocket
