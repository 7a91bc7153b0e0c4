import WebSocket.Proofs.Handshake.Rereading

/-!
# Requests that are changed, and their answers

A request that was read or built may be changed before it is used: headers are set and headers are
removed, in any order. Whatever was done to it, a request that is valid is answered, and the answer
is read back as it was written, with the subprotocol that the server has chosen.

The client that sent the request judges the answer by the key that the request carries. A server
trims the key before it looks at it, and so it is answered trimmed; the client does not trim it. So
the two agree exactly when the blanks around a key make no difference to its accept value, and no
header that is read or built has such blanks: only setting the key can put them there.

## Main results

* `Handshake.Request.PlainKey.changes`: a key has **no blanks around it** unless it was set so.
* `Handshake.answers_of_changes`: what a valid request is **answered**, and what becomes of the
  answer.
* `Handshake.not_accepted_of_changes`: a key between blanks is answered, and the answer **turned
  down**.
-/

namespace WebSocket

namespace Handshake

open Http

/-! ### Changes -/

/-- A **change to the headers** of a request. -/
inductive Change where
  | set (name value : String)
  | remove (name : String)
  deriving DecidableEq, Repr

namespace Request

/-- A request after a change; a header that cannot be set **leaves it as it is**. -/
def changed (r : Request) : Change → Request
  | .set name value =>
    match r.setHeader name value with
    | .ok r' => r'
    | .error _ => r
  | .remove name => { r with headers := r.headers.remove (Bytes.lower (Utf8.encode name)) }

/-- A request after several changes. -/
def changes (r : Request) (l : List Change) : Request := l.foldl changed r

/-- A request **as it is first had**: read from a head, or built for a host and a path. -/
inductive Fresh : Request → Prop
  | read {head : Bytes} {r : Request} (h : parse head = .ok r) : Fresh r
  | built {host path : String} {nonce : Bytes} {r : Request} (h : build host path nonce = .ok r) :
      Fresh r

/-- A request whose key, if there is one, has **no blanks around it**. -/
def PlainKey (r : Request) : Prop :=
  ∀ f ∈ r.headers.fields, f.name = HeaderKind.secWebSocketKey.name → Bytes.trim f.value = f.value

/-- A change that **puts blanks around the key**. -/
def PadsKey : Change → Prop
  | .set name value => Bytes.lower (Utf8.encode name) = HeaderKind.secWebSocketKey.name ∧
      Bytes.trim (Utf8.encode value) ≠ Utf8.encode value
  | .remove _ => False

instance : DecidablePred PadsKey
  | .set _ _ => inferInstanceAs (Decidable (_ ∧ _))
  | .remove _ => inferInstanceAs (Decidable False)

end Request

/-- Removing a header **leaves only header lines that were there**. -/
theorem mem_fields_remove {h : Headers} {name : Bytes} {f : Field}
    (hf : f ∈ (h.remove name).fields) : f ∈ h.fields := by
  unfold Headers.remove at hf
  split at hf
  · exact hf
  · split at hf
    · exact hf
    · rename_i last hlast
      have hmem := (List.dropLast_sublist _).subset hf
      obtain hold | hnew := List.mem_or_eq_of_mem_set hmem
      · exact hold
      · exact hnew ▸ List.mem_of_getLast? hlast

namespace Request

/-- What a change does **to the header lines**: each one was there, or it is the one that is set. -/
theorem mem_fields_changed {r : Request} {c : Change} {f : Field}
    (hf : f ∈ (r.changed c).headers.fields) :
    f ∈ r.headers.fields ∨ ∃ name value, c = .set name value ∧
      f = ⟨Bytes.lower (Utf8.encode name), Utf8.encode value⟩ := by
  cases c with
  | set name value =>
      cases hset : Handshake.setHeader r.headers name value with
      | error failure =>
          simp only [changed, setHeader, hset] at hf
          exact .inl hf
      | ok headers =>
          simp only [changed, setHeader, hset] at hf
          obtain ⟨-, -, rfl⟩ := setHeader_eq_ok.mp hset
          obtain rfl | hf := Headers.mem_insertField hf
          · exact .inr ⟨name, value, rfl, rfl⟩
          · exact .inl hf
  | remove name => exact .inl (mem_fields_remove hf)

/-- A change that puts no blanks around the key **leaves it plain**. -/
theorem PlainKey.changed {r : Request} (h : r.PlainKey) {c : Change} (hc : ¬PadsKey c) :
    (r.changed c).PlainKey := by
  intro f hf hname
  obtain hf | ⟨name, value, rfl, rfl⟩ := mem_fields_changed hf
  · exact h f hf hname
  · by_contra hpads
    exact hc ⟨hname, hpads⟩

theorem PlainKey.changes {r : Request} (h : r.PlainKey) {l : List Change}
    (hl : ∀ c ∈ l, ¬PadsKey c) : (r.changes l).PlainKey := by
  induction l generalizing r with
  | nil => exact h
  | cons c l ih =>
      obtain ⟨hfirst, hmore⟩ := List.forall_mem_cons.mp hl
      exact ih (h.changed hfirst) hmore

/-- A host that **cannot stand in a header line** is refused. -/
theorem isValue_of_build {host path : String} {nonce : Bytes} {r : Request}
    (h : build host path nonce = .ok r) : Headers.isValue (Utf8.encode host) = true := by
  simp only [build, setHeaders, List.foldlM_cons] at h
  obtain ⟨first, hfirst, -⟩ := bind_eq_ok.mp h
  unfold setHeader at hfirst
  split at hfirst
  · rename_i headers hset
    exact (setHeader_eq_ok.mp hset).2.1
  · cases hfirst

/-- A request that was just read or built **carries its key plain**. -/
theorem Fresh.plainKey {r : Request} (h : Fresh r) : r.PlainKey := by
  cases h with
  | read hparse => exact fun f hf _ => (legible_of_parse hparse).headers.trimmed f hf
  | @built host path nonce r hbuild =>
      rw [build_lines (isValue_of_build hbuild)] at hbuild
      obtain rfl := Except.ok.inj hbuild
      intro f hf hname
      obtain ⟨line, hline, rfl⟩ := List.mem_map.mp hf
      obtain ⟨source, hsource, rfl⟩ := List.mem_map.mp hline
      have hkind := HeaderKind.name_injective hname
      simp only [fixedLines, List.mem_cons, List.not_mem_nil, or_false] at hsource
      obtain rfl | rfl | rfl | rfl | rfl := hsource
      · cases hkind
      · cases hkind
      · cases hkind
      · simp only [encode_key, trim_key]
      · cases hkind

/-- A plain key is **trimmed as it is**. -/
theorem PlainKey.trim_eq {r : Request} (h : r.PlainKey) {key : Bytes} (hkey : r.key? = some key) :
    Bytes.trim key = key := by
  obtain ⟨f, hfind, rfl⟩ := Option.map_eq_some_iff.mp (headerText?_eq_some.mp hkey).1
  have hname : f.name = HeaderKind.secWebSocketKey.name := by
    simpa using List.find?_some hfind
  exact h f (List.mem_of_find?_eq_some hfind) hname

end Request

/-! ### Answers -/

/-- A subprotocol that a server chooses is **one that was offered**, ASCII text without blanks
around it. -/
theorem of_selectProtocol {r : Request} {supported : List String} :
    ∀ p ∈ Response.selectProtocol r supported,
      p ∈ r.protocols ∧ p.all isVisible = true ∧ Bytes.trim p = p := by
  intro p hp
  have hoffered : p ∈ r.protocols := List.mem_of_find?_eq_some hp
  refine ⟨hoffered, ?_⟩
  unfold Request.protocols at hoffered
  split at hoffered
  · cases hoffered
  · rename_i offer hoffer
    exact plain_of_mem_entries (headerText?_eq_some.mp hoffer).2 hoffered

/-- What a valid request with a key is **answered**, and what becomes of the answer. -/
structure Answers (r : Request) (supported : List String) (key : Bytes) (response : Response) :
    Prop where
  carried : r.key? = some key
  accepted : Response.accepting r supported = .ok response
  /-- The answer is read as it was written, to the last header line. -/
  read : Response.parse response.written = .ok response
  /-- Its subprotocol is the one that the server has chosen. -/
  protocol : response.protocol? = Response.selectProtocol r supported
  /-- The client turns it down exactly if blanks around the key make a difference. -/
  judged : response.validate r =
    if acceptValue (Bytes.trim key) = acceptValue key then .ok () else .error .acceptMismatch

/-- **A valid request is answered**, whatever was done to it since it was read or built; and the
client accepts the answer, unless the key was set with blanks around it. -/
theorem answers_of_changes {start : Request} (hstart : Request.Fresh start) (l : List Change)
    (hvalid : (start.changes l).validate = .ok ()) (supported : List String) :
    ∃ key response, Answers (start.changes l) supported key response ∧
      ((∀ c ∈ l, ¬Request.PadsKey c) → response.validate (start.changes l) = .ok ()) := by
  obtain ⟨key, hkey⟩ := Request.key?_of_validate hvalid
  have hplain : ∀ p ∈ Response.selectProtocol (start.changes l) supported,
      p.all isVisible = true ∧ Bytes.trim p = p := fun p hp => (of_selectProtocol p hp).2
  have hjudged : (answering (Bytes.trim key) (Response.selectProtocol (start.changes l)
      supported)).validate (start.changes l) =
      if acceptValue (Bytes.trim key) = acceptValue key then .ok () else .error .acceptMismatch :=
    validate_answering hkey hplain fun p hp => (of_selectProtocol p hp).1
  refine ⟨key, _, ⟨hkey, accepting_eq hkey supported, parse_answering hplain,
    protocol?_answering hplain, hjudged⟩, fun hl => ?_⟩
  have htrim := (hstart.plainKey.changes hl).trim_eq hkey
  rw [hjudged, htrim, if_pos rfl]

/-- A request with **an offer between blanks**; one header is removed, and one cannot be set. -/
def offerChanges : List Change :=
  [.set "Sec-WebSocket-Protocol" " superchat , chat", .set "Or\nigin" "", .remove "HOST",
    .set "host" "g"]

/-- The offer is answered with the subprotocol that both know. -/
theorem answers_of_offerChanges :
    ∃ key response, Answers ((plainRequest "/" []).changes offerChanges) ["chat"] key response ∧
      response.protocol? = some (Bytes.ascii "chat") ∧
      response.validate ((plainRequest "/" []).changes offerChanges) = .ok () := by
  have hvalid : ((plainRequest "/" []).changes offerChanges).validate = .ok () := by decide +kernel
  have hpads : ∀ c ∈ offerChanges, ¬Request.PadsKey c := by decide +kernel
  have hchosen : Response.selectProtocol ((plainRequest "/" []).changes offerChanges) ["chat"] =
      some (Bytes.ascii "chat") := by decide +kernel
  obtain ⟨key, response, hanswers, haccepts⟩ :=
    answers_of_changes (.built (build_plainRequest "/")) offerChanges hvalid ["chat"]
  exact ⟨key, response, hanswers, hanswers.protocol.trans hchosen, haccepts hpads⟩

/-- A change that sets the key **between blanks**. -/
def padding : List Change := [.set "Sec-WebSocket-Key" " AAAAAAAAAAAAAAAAAAAAAA== "]

/-- With such a key a request is valid and answered, and the answer is **turned down**. -/
theorem not_accepted_of_changes :
    ¬∀ (start : Request) (l : List Change) (supported : List String), Request.Fresh start →
      (start.changes l).validate = .ok () →
      ∃ response again, Response.accepting (start.changes l) supported = .ok response ∧
        response.validate (start.changes l) = .ok () ∧
        Response.parse response.written = .ok again ∧
        again.validate (start.changes l) = .ok () ∧ again.protocol? = response.protocol? := by
  intro hclaim
  have hvalid : ((plainRequest "/" []).changes padding).validate = .ok () := by decide +kernel
  obtain ⟨response, -, haccepting, hjudged, -⟩ :=
    hclaim _ padding [] (.built (build_plainRequest "/")) hvalid
  have hturned : (Response.accepting ((plainRequest "/" []).changes padding) []).bind
      (fun response => response.validate ((plainRequest "/" []).changes padding)) =
      .error .acceptMismatch := by decide +kernel
  rw [haccepting] at hturned
  cases hjudged.symm.trans hturned

end Handshake

end WebSocket
