import WebSocket.Proofs.Connection.Departures
import WebSocket.Proofs.Connection.Finality
import WebSocket.Proofs.Handshake.Judgements

/-!
# What is written in a handshake

A connection that opens has written one head before: a client its request, a server the response
that accepts one. Nothing else was written. Nobody looks at the path when a request is built, so a
path that holds the end of a head makes two heads of one request
(`Operation.greetsOnce` rules that out). A path that stays in one line does not
(`Operation.greetsOnce_connect`).

## Main results

* `Connection.isHead_greetings`: what an open connection has written in its handshake is **one
  head**.
-/

namespace WebSocket

/-- The request of a client is written in lines, if **its path** is. -/
theorem inLines_clientRequest {options : Options} {host path : String}
    {headers : List (String × String)} {nonce : Bytes} {request : Handshake.Request}
    (h : Connection.clientRequest options host path headers nonce = .ok request)
    (hpath : Http.OneLine (Utf8.encode path)) : request.InLines := by
  unfold Connection.clientRequest at h
  cases hbuild : Handshake.Request.build host path nonce with
  | error failure =>
      rw [hbuild] at h
      cases h
  | ok built =>
      rw [hbuild] at h
      exact .setHeaders h (Handshake.Request.inLines_build hbuild hpath)

/-- The operations that write **no more than one head**: the request of a client ends where its
first empty line does. -/
def Operation.greetsOnce (options : Options) : Operation → Bool
  | .connect host path headers nonce =>
    match Connection.clientRequest options host path headers nonce with
    | .error _ => true
    | .ok request => decide (Handshake.IsHead request.written)
  | _ => true

/-- A request for a path that **stays in one line** is one head. -/
theorem Operation.greetsOnce_connect {options : Options} {host path : String}
    {headers : List (String × String)} {nonce : Bytes}
    (hpath : Http.OneLine (Utf8.encode path)) :
    (Operation.connect host path headers nonce).greetsOnce options = true := by
  rw [greetsOnce]
  split
  · rfl
  · rename_i hrequest
    exact decide_eq_true (inLines_clientRequest hrequest hpath).isHead

/-- The request with which such an operation begins a handshake is one head. -/
theorem Operation.isHead_of_greetsOnce {options : Options} (operation : Operation)
    (h : operation.greetsOnce options = true) {size : Nat} {host path : String}
    {headers : List (String × String)} {nonce : Bytes} {rest : Script}
    (hscript : Script.ofOperation size operation = .beginConnecting host path headers nonce :: rest)
    {request : Handshake.Request}
    (hrequest : Connection.clientRequest options host path headers nonce = .ok request) :
    Handshake.IsHead request.written := by
  cases operation with
  | connect =>
      cases hscript
      rw [greetsOnce, hrequest] at h
      exact of_decide_eq_true h
  | ping payload =>
      simp only [Script.ofOperation] at hscript
      split at hscript <;> cases hscript
  | close code reason =>
      simp only [Script.ofOperation] at hscript
      split at hscript <;> cases hscript
  | _ => cases hscript

/-- What is true of the head that a connection writes, in front of **an action of its handshake**:
the head is whole and still to be written, or it was written. -/
def Action.Greets (greeted : Bytes) : Action → Prop
  | .sendRequest request => greeted = [] ∧ Handshake.IsHead request.written
  | .awaitRequest => greeted = []
  | .sendAcceptance _ response => greeted = [] ∧ Handshake.IsHead response.written
  | .awaitResponse _ | .establish .. => Handshake.IsHead greeted
  | _ => True

/-- The head that an action **writes**, if it writes one. -/
def Action.head? : Action → Option Bytes
  | .sendRequest request => some request.written
  | .sendAcceptance _ response => some response.written
  | .sendRejection failure => some (Handshake.Response.rejecting failure).written
  | _ => none

theorem Action.head?_of_not_negotiates {action : Action} (h : action.negotiates = false) :
    action.head? = none := by
  cases action <;> first | rfl | cases h

theorem Action.greets_of_not_negotiates {action : Action} (h : action.negotiates = false)
    (greeted : Bytes) : action.Greets greeted := by
  cases action <;> first | exact trivial | cases h

namespace Connection

variable {c c' c₁ : Connection} {task : TaskId} {action : Action} {rest script : Script}
  {move : Move} {moves : List Move} {role : Role} {options : Options} {keys : Nat → Mask}
  {greeted : Bytes}

/-- The moves that begin **no other operations** than those that write no more than one head. -/
def Move.greetsOnce (options : Options) : Move → Bool
  | .start _ operation => operation.greetsOnce options
  | _ => true

/-! ### The steps of a handshake -/

/-- A task writes the head of **the action in front of it**. -/
theorem greeting?_eq (hscript : c.script task = action :: rest) :
    c.greeting? task = action.head? := by
  unfold greeting?
  rw [hscript]
  cases action <;> rfl

/-- A client that begins its handshake is about to send **the request for its path**. -/
theorem clientRequest_of_act {host path : String} {headers : List (String × String)}
    {nonce : Bytes} {request : Handshake.Request} {rest' : Script} (hact : c.act task = some c')
    (hscript : c.script task = .beginConnecting host path headers nonce :: rest)
    (hafter : c'.script task = .sendRequest request :: rest') :
    clientRequest c.options host path headers nonce = .ok request := by
  obtain ⟨c₁, script, hperform, -, hself⟩ := perform_of_step hact hscript
  rw [hself] at hafter
  subst hafter
  simp only [perform, takeTransport, ending] at hperform
  by_cases hstage : c.stage = .handshake
  · simp only [if_pos hstage, Option.some.injEq, Prod.mk.injEq] at hperform
    obtain ⟨-, hscript'⟩ := hperform
    cases hrequest : clientRequest c.options host path headers nonce with
    | error failure => rw [hrequest] at hscript'; cases hscript'
    | ok built => rw [hrequest] at hscript'; cases hscript'; rfl
  · simp only [if_neg hstage, Option.some.injEq, Prod.mk.injEq] at hperform
    cases hperform.2

/-- A server that accepts a request has **a head to write**. -/
theorem isHead_acceptHead {protocols : List String} {head : Bytes} {request : Handshake.Request}
    {response : Handshake.Response} (h : acceptHead protocols head = .ok (request, response)) :
    Handshake.IsHead response.written := by
  simp only [acceptHead, Handshake.bind_eq_ok] at h
  obtain ⟨parsed, -, valid, -, accepted, haccept, hpure⟩ := h
  cases hpure
  exact Handshake.Response.isHead_accepting haccept

theorem greets_turnDown {failure : Handshake.Failure} {next : Action} {rest' : Script}
    (h : turnDown failure = next :: rest') : next.Greets greeted := by
  unfold turnDown at h
  split at h <;> cases h <;> exact trivial

/-- **A handshake gets on**: its head is written once, and stays written. -/
theorem Negotiating.greets (h : Negotiating (action :: rest))
    (heffect : Effect c task action rest c₁ script) (hscript : c.script task = action :: rest)
    (hbefore : action.Greets greeted) {next : Action} {rest' : Script}
    (hnew : script = next :: rest') : next.Greets (greeted ++ (c.greeting? task).getD []) := by
  rw [greeting?_eq hscript]
  cases h with
  | sendRequest =>
      obtain ⟨rfl, hhead⟩ := hbefore
      cases heffect with
      | sendRequest => cases hnew; exact hhead
      | failToRequest => cases hnew; exact trivial
  | @awaitResponse request =>
      rw [show (Action.awaitResponse request).head? = none from rfl, Option.getD_none,
        List.append_nil]
      cases heffect with
      | judgeResponse =>
          unfold Connection.judgeResponse at hnew
          split at hnew
          · cases hnew; exact trivial
          · split at hnew
            · cases hnew; exact trivial
            · cases hnew; exact hbefore
      | missResponse => cases hnew; exact trivial
  | awaitRequest =>
      rw [show Action.awaitRequest.head? = none from rfl, Option.getD_none, List.append_nil]
      cases heffect with
      | judgeRequest =>
          unfold Connection.judgeRequest at hnew
          split at hnew
          · exact greets_turnDown hnew
          · rename_i haccept
            cases hnew
            exact ⟨hbefore, isHead_acceptHead haccept⟩
      | missRequest => exact greets_turnDown hnew
  | sendAcceptance =>
      obtain ⟨rfl, hhead⟩ := hbefore
      cases heffect with
      | sendAcceptance => cases hnew; exact hhead
      | failToAccept => cases hnew; exact trivial
  | sendRejection =>
      cases heffect with
      | sendRejection => cases hnew; exact trivial
      | failToReject => cases hnew; exact trivial
  | failHandshake =>
      cases heffect with
      | failHandshake => cases hnew; exact trivial
  | establish =>
      cases heffect with
      | establish => cases hnew; exact trivial

/-- No action leads up **to the beginning** of a client's handshake. -/
theorem Scripted.not_connecting (h : c.Scripted) (hscript : c.script task = action :: rest)
    (heffect : Effect c task action rest c₁ script) {host path : String}
    {headers : List (String × String)} {nonce : Bytes} {more : Script} :
    script ≠ .beginConnecting host path headers nonce :: more := by
  rintro rfl
  cases task with
  | reader =>
      have hreader := (h.readerScript hscript).next heffect
      cases hreader with
      | ponging _ hwrites => cases hwrites
      | closing hwrites => cases hwrites
  | call id =>
      obtain ⟨_, claim, -, -, hcall⟩ := h.callScript hscript
      cases hcall with
      | ordinary hordinary =>
          cases hordinary.next heffect with
          | sending hwrites => cases hwrites
          | pinging _ hwrites => cases hwrites
          | closing _ hwrites => cases hwrites
      | connect => cases heffect
      | accept => cases heffect
      | negotiating hnegotiating =>
          obtain hafter | ⟨a, ha⟩ := hnegotiating.next heffect
          · cases hafter
          · cases ha

/-! ### The ledger of heads -/

/-- **What was written in the handshake so far**: nothing in front of it, one head behind it. -/
structure Greeting (options : Options) (greeted : Bytes) (c : Connection) : Prop where
  settings : c.options = options
  untouched : c.stage = .handshake → greeted = []
  requests : ∀ {task host path headers nonce rest request},
    c.script task = .beginConnecting host path headers nonce :: rest →
      clientRequest options host path headers nonce = .ok request →
        Handshake.IsHead request.written
  negotiating : ∀ {task action rest}, c.script task = action :: rest → action.Greets greeted
  running : c.stage = .running → Handshake.IsHead greeted

/-- A handshake **begins** with nothing written, and with a whole head to write if it is a
client's. -/
theorem Greeting.begins (h : Greeting options greeted c) (hscripted : c.Scripted)
    (hscript : c.script task = action :: rest) (heffect : Effect c task action rest c₁ script)
    (hact : c.act task = some (c₁.setScript task script)) (hnot : action.negotiates = false)
    {next : Action} {rest' : Script} (hnew : script = next :: rest')
    (hnext : next.negotiates = true) : next.Greets greeted := by
  have hself := heffect.script_self hscript
  obtain ⟨hstage, -, -⟩ := hscripted.begins hscript heffect hnot hnew hnext
  have hempty := h.untouched hstage
  cases task with
  | reader =>
      have hreader := (hscripted.readerScript hscript).next heffect
      rw [hreader.not_negotiates next (hnew ▸ List.mem_cons_self ..)] at hnext
      cases hnext
  | call id =>
      obtain ⟨_, claim, -, -, hcall⟩ := hscripted.callScript hscript
      cases hcall with
      | ordinary hordinary =>
          have hafter := hordinary.next heffect
          rw [hafter.not_negotiates next (hnew ▸ List.mem_cons_self ..)] at hnext
          cases hnext
      | connect =>
          cases heffect with
          | beginConnecting =>
              cases hnew
              have hrequest := clientRequest_of_act hact hscript hself
              exact ⟨hempty, h.requests hscript (h.settings ▸ hrequest)⟩
          | failToBuild => cases hnew; exact trivial
          | connectAgain => cases hnew; cases hnext
      | accept =>
          cases heffect with
          | beginAccepting => cases hnew; exact hempty
          | acceptAgain => cases hnew; cases hnext
      | negotiating hnegotiating =>
          rw [hnegotiating.negotiates] at hnot
          cases hnot

/-- Outside its handshake a task **writes no head**. -/
theorem greeted_eq (hscript : c.script task = action :: rest) (hnot : action.negotiates = false) :
    greeted ++ (c.greeting? task).getD [] = greeted := by
  rw [greeting?_eq hscript, Action.head?_of_not_negotiates hnot]
  exact List.append_nil greeted

/-- The **next action** of a task knows of the head that was written. -/
theorem Greeting.next (h : Greeting options greeted c) (hscripted : c.Scripted)
    (hscript : c.script task = action :: rest) (heffect : Effect c task action rest c₁ script)
    (hact : c.act task = some (c₁.setScript task script)) {next : Action} {rest' : Script}
    (hnew : script = next :: rest') (hnext : next.negotiates = true) :
    next.Greets (greeted ++ (c.greeting? task).getD []) := by
  by_cases hnegotiates : action.negotiates = true
  · obtain ⟨_, _, -, -, -, hnegotiating⟩ := hscripted.negotiating hscript hnegotiates
    exact hnegotiating.greets heffect hscript (h.negotiating hscript) hnew
  · have hnot := Bool.eq_false_iff.mpr hnegotiates
    rw [greeted_eq hscript hnot]
    exact h.begins hscripted hscript heffect hact hnot hnew hnext

/-- **An action** keeps the ledger, with the head that it writes. -/
theorem Greeting.effect (h : Greeting options greeted c) (hreach : Reachable c)
    (hscript : c.script task = action :: rest) (heffect : Effect c task action rest c₁ script)
    (hact : c.act task = some (c₁.setScript task script)) :
    Greeting options (greeted ++ (c.greeting? task).getD []) (c₁.setScript task script) := by
  have hscripted := hreach.scripted
  have hidle : c.stage ≠ .negotiating → greeted ++ (c.greeting? task).getD [] = greeted := by
    intro hstage
    refine greeted_eq hscript (Bool.eq_false_iff.mpr fun hnegotiates => ?_)
    exact hstage (hreach.staged.negotiating hscript hnegotiates)
  refine ⟨?_, ?_, ?_, ?_, ?_⟩
  · rw [setScript_options, heffect.settings.2]
    exact h.settings
  · intro hstage'
    rw [setScript_stage] at hstage'
    have hstage : c.stage = .handshake := by
      cases heffect with
      | beginConnecting | failToBuild | beginAccepting | failHandshake | establish => cases hstage'
      | _ => exact hstage'
    rw [hidle (by rw [hstage]; exact nofun)]
    exact h.untouched hstage
  · intro other host path headers nonce more request hscript'
    obtain ⟨-, hafter⟩ | ⟨-, hafter⟩ | ⟨-, -, hafter, -⟩ := heffect.script_after hscript other
    · rw [hafter] at hscript'
      exact absurd hscript' (hscripted.not_connecting hscript heffect)
    · rw [hafter] at hscript'
      exact h.requests hscript'
    · rw [hafter] at hscript'
      cases hscript'
  · intro other next more hscript'
    by_cases hnext : next.negotiates = true
    swap
    · exact Action.greets_of_not_negotiates (Bool.eq_false_iff.mpr hnext) _
    obtain ⟨-, hafter⟩ | ⟨hne, hafter⟩ | ⟨-, -, hafter, -⟩ := heffect.script_after hscript other
    · rw [hafter] at hscript'
      exact h.next hscripted hscript heffect hact hscript' hnext
    · rw [hafter] at hscript'
      rw [greeted_eq hscript (Bool.eq_false_iff.mpr fun hnegotiates =>
        hne (hscripted.eq_of_negotiates hscript hnegotiates hscript' hnext))]
      exact h.negotiating hscript'
    · rw [hafter] at hscript'
      cases hscript'
      cases hnext
  · intro hstage'
    rw [setScript_stage] at hstage'
    by_cases hrunning : c.stage = .running
    · rw [hidle (by rw [hrunning]; exact nofun)]
      exact h.running hrunning
    · have hhead := h.negotiating hscript
      rw [greeting?_eq hscript]
      cases heffect with
      | establish =>
          have hsame : greeted ++ (none : Option Bytes).getD [] = greeted := List.append_nil greeted
          exact hsame.symm ▸ hhead
      | beginConnecting | failToBuild | beginAccepting | failHandshake => cases hstage'
      | _ => exact absurd hstage' hrunning

/-- **Every move** keeps the ledger, with the head that it writes. -/
theorem Greeting.step (h : Greeting options greeted c) (hreach : Reachable c)
    (honce : move.greetsOnce options = true) (hstep : c.step move = some c') :
    Greeting options (greeted ++ (c.greets? move).getD []) c' := by
  obtain ⟨task, action, rest, c₁, script, rfl, hscript, heffect, rfl⟩ | hact :=
    (transition_of_step hstep).act_or
  · exact h.effect hreach hscript heffect hstep
  · have hmove := transition_of_step hstep
    have hnone : c.greets? move = none := by
      cases move with
      | act task => exact absurd rfl (hact task)
      | _ => rfl
    have hstage : c'.stage = .handshake ∨ c'.stage = .running → c.stage = c'.stage := by
      intro hstage'
      cases hmove with
      | act => exact absurd rfl (hact _)
      | giveUp =>
          dsimp only at hstage' ⊢
          split at hstage'
          · obtain hstage' | hstage' := hstage' <;> cases hstage'
          · rename_i hnot
            exact (if_neg hnot).symm
      | _ => rfl
    rw [hnone, Option.getD_none, List.append_nil]
    refine ⟨?_, fun hstage' => ?_, ?_, ?_, fun hstage' => ?_⟩
    · cases hmove with
      | act => exact absurd rfl (hact _)
      | _ => exact h.settings
    · exact h.untouched ((hstage (Or.inl hstage')).trans hstage')
    · intro task host path headers nonce rest request hscript
      obtain heq | heq | ⟨_, operation, rfl, -, -, heq⟩ := hmove.script_of_ne_act hact task
      · rw [heq] at hscript
        exact h.requests hscript
      · rw [heq] at hscript
        cases hscript
      · rw [heq] at hscript
        exact operation.isHead_of_greetsOnce honce hscript
    · intro task next more hscript
      obtain hbefore | hopening := hmove.opening_of_ne_act hact hscript
      · exact h.negotiating hbefore
      · exact Action.greets_of_not_negotiates (Action.plain_of_isOpening hopening).1 _
    · exact h.running ((hstage (Or.inr hstage')).trans hstage')

/-- Along every run the ledger is kept, if no client has more than one head to write. -/
theorem greeting_of_run (hrun : (new role options keys).run moves = some c)
    (honce : ∀ move ∈ moves, move.greetsOnce options = true) :
    Greeting options ((new role options keys).greetings moves) c := by
  refine run_induction (P := fun moves x => (∀ move ∈ moves, move.greetsOnce options = true) →
    Greeting options ((new role options keys).greetings moves) x) ?_ ?_ hrun honce
  · refine fun _ => ⟨rfl, fun _ => rfl, ?_, ?_, nofun⟩
    · intro task host path headers nonce rest request hscript
      cases task <;> cases hscript
    · intro task action rest hscript
      cases task <;> cases hscript
  · intro before c₁ move c₂ hbefore ih hstep honce
    obtain ⟨hfirst, hlast⟩ := List.forall_mem_append.mp honce
    rw [greetings, trace_append hbefore, trace_singleton hstep, List.flatten_append]
    have hkept := (ih hfirst).step ((reachable_new role options keys).run hbefore)
      (hlast move (List.mem_singleton_self move)) hstep
    cases hgreets : c₁.greets? move with
    | none =>
        rw [hgreets] at hkept
        simpa [greetings] using hkept
    | some head =>
        rw [hgreets] at hkept
        simpa [greetings] using hkept

/-- **What an open connection has written in its handshake is one head.** -/
theorem isHead_greetings (hrun : (new role options keys).run moves = some c)
    (honce : ∀ move ∈ moves, move.greetsOnce options = true) (hopen : c.phase = .opened) :
    Handshake.IsHead ((new role options keys).greetings moves) := by
  have hreach := (reachable_new role options keys).run hrun
  exact (greeting_of_run hrun honce).running (hreach.staged.opened (Or.inl hopen))

end Connection

end WebSocket
