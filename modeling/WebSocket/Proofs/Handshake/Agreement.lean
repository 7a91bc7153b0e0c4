import WebSocket.Connection.Step
import WebSocket.Proofs.Handshake.Reading
import WebSocket.Proofs.Handshake.Written

/-!
# Two ends agree

A client and a server write and read their heads independently of each other. For every host, path,
key and offer that can be written at all, the server accepts what the client writes, the client
accepts what the server answers, and both take the same subprotocol: the first entry of the offer
that the server supports (`Handshake.agreed?`).

Every head of a handshake is a start line and a list of header lines of known kinds
(`Handshake.lines`), so what is read of it is computed from that list, with the blanks around the
values left out.

## Main results

* `Handshake.acceptHead_written`: the server **accepts the request** of a client.
* `Handshake.judge_written`: the client accepts what the server **answers**.
-/

namespace WebSocket

namespace Handshake

open Http

/-! ### Header lines of known kinds -/

/-- The header lines of **given kinds**, each with its value. -/
def lines (l : List (HeaderKind × Bytes)) : Headers :=
  ⟨l.map fun line => ⟨line.1.name, line.2⟩⟩

theorem HeaderKind.name_injective : Function.Injective HeaderKind.name := by
  intro kind other h
  cases kind <;> cases other <;> first | rfl | exact absurd h (by decide)

/-- A header line of a known kind can be read **as it is written**. -/
theorem readable_line (kind : HeaderKind) {value : Bytes} (h : Headers.isValue value = true) :
    Headers.Readable ⟨kind.name, value⟩ := by
  have hname : Headers.isName (Headers.writtenName kind.name) = true ∧
      Bytes.lower (Headers.writtenName kind.name) = kind.name := by
    cases kind <;> decide
  exact ⟨hname.1, hname.2, h⟩

theorem lower_encode_text (kind : HeaderKind) :
    Headers.isName (Utf8.encode kind.text) = true ∧
      Bytes.lower (Utf8.encode kind.text) = kind.name := by
  cases kind <;> decide

/-- What is looked up by its name is found **by its kind**. -/
theorem get?_lines (l : List (HeaderKind × Bytes)) (kind : HeaderKind) :
    (lines l).get? kind.name = l.lookup kind := by
  induction l with
  | nil => rfl
  | cons line l ih =>
      rw [List.lookup_cons, ← ih]
      simp only [lines, Headers.get?, List.map_cons, List.find?_cons]
      by_cases h : kind = line.1
      · subst h
        simp
      · have hname : (line.1.name == kind.name) = false :=
          beq_eq_false_iff_ne.mpr fun heq => h (HeaderKind.name_injective heq).symm
        have hkind : (kind == line.1) = false := beq_eq_false_iff_ne.mpr h
        simp [hname, hkind]

theorem received_lines (l : List (HeaderKind × Bytes)) :
    (lines l).received = lines (l.map fun line => (line.1, Bytes.trim line.2)) := by
  simp [lines, Headers.received]

/-- Header lines of different kinds can be written **for the other end**. -/
theorem sendable_lines {l : List (HeaderKind × Bytes)} (hkinds : (l.map Prod.fst).Nodup)
    (hvalues : ∀ line ∈ l, Headers.isValue line.2 = true) (hfew : l.length ≤ maxFields) :
    Sendable (lines l) := by
  refine ⟨fun f hf => ?_, ?_, ?_⟩
  · obtain ⟨line, hline, rfl⟩ := List.mem_map.mp hf
    exact readable_line line.1 (hvalues line hline)
  · have hnames := hkinds.map HeaderKind.name_injective
    simpa [lines, Function.comp_def] using hnames
  · simpa [lines] using hfew

/-- A header line of a new kind stands **behind all the others**. -/
theorem insert_lines {l : List (HeaderKind × Bytes)} {kind : HeaderKind}
    (h : kind ∉ l.map Prod.fst) (value : Bytes) :
    (lines l).insert kind.name value = lines (l ++ [(kind, value)]) := by
  have hnew : kind.name ∉ (lines l).fields.map Field.name := by
    intro hmem
    simp only [lines, List.map_map, List.mem_map, Function.comp_apply] at hmem
    obtain ⟨line, hline, heq⟩ := hmem
    exact h (List.mem_map.mpr ⟨line, hline, HeaderKind.name_injective heq⟩)
  rw [Headers.insert, Headers.insertField_of_notMem hnew]
  simp [lines]

/-- A response is made **of its lines**. -/
theorem Response.make_lines {l : List (HeaderKind × Bytes)} (hkinds : (l.map Prod.fst).Nodup)
    (status : Nat) (reason : String) :
    make status reason l = ⟨status, Bytes.ascii reason, lines l⟩ := by
  suffices hall : ∀ before : List (HeaderKind × Bytes),
      (before.map Prod.fst ++ l.map Prod.fst).Nodup →
      l.foldl (fun h line => h.insert line.1.name line.2) (lines before) = lines (before ++ l) from
    congrArg (Response.mk status (Bytes.ascii reason)) (hall [] hkinds)
  clear hkinds
  induction l with
  | nil => simp
  | cons line l ih =>
      intro before hkinds
      have hnew : line.1 ∉ before.map Prod.fst := fun hmem =>
        List.disjoint_of_nodup_append hkinds hmem (List.mem_cons_self ..)
      rw [List.foldl_cons, insert_lines hnew, ih _ (by simpa using hkinds)]
      simp

/-- Headers that are set are the **lines of the request**. -/
theorem Request.setHeaders_lines {method target : Bytes} {version : Version}
    (before : List (HeaderKind × Bytes)) {l : List (HeaderKind × String)}
    (hkinds : (before.map Prod.fst ++ l.map Prod.fst).Nodup)
    (hvalues : ∀ line ∈ l, Headers.isValue (Utf8.encode line.2) = true) :
    setHeaders ⟨method, target, version, lines before⟩ (l.map fun line => (line.1.text, line.2)) =
      .ok ⟨method, target, version,
        lines (before ++ l.map fun line => (line.1, Utf8.encode line.2))⟩ := by
  induction l generalizing before with
  | nil => simp [setHeaders, pure, Except.pure]
  | cons line l ih =>
      obtain ⟨hfirst, hmore⟩ := List.forall_mem_cons.mp hvalues
      have hnew : line.1 ∉ before.map Prod.fst := fun hmem =>
        List.disjoint_of_nodup_append hkinds hmem (List.mem_cons_self ..)
      obtain ⟨hname, hlower⟩ := lower_encode_text line.1
      have hset : Handshake.setHeader (lines before) line.1.text line.2 =
          .ok (lines (before ++ [(line.1, Utf8.encode line.2)])) := by
        simp only [Handshake.setHeader, hname, hfirst, hlower, if_true, insert_lines hnew]
      have hlater := ih (before ++ [(line.1, Utf8.encode line.2)])
        (by simpa using hkinds) hmore
      rw [setHeaders, List.map_cons, List.foldlM_cons]
      simp only [setHeader, hset, bind, Except.bind]
      refine hlater.trans ?_
      simp

/-! ### Looking at header lines -/

theorem required_lines {l : List (HeaderKind × Bytes)} {kind : HeaderKind} {value : Bytes}
    (hvalue : l.lookup kind = some value) (hvisible : value.all isVisible = true) :
    required (lines l) kind = .ok value := by
  rw [required, get?_lines, hvalue]
  exact if_pos hvisible

theorem headerText?_lines {l : List (HeaderKind × Bytes)} {kind : HeaderKind} {value : Bytes}
    (hvalue : l.lookup kind = some value) :
    headerText? (lines l) kind = if value.all isVisible then some value else none := by
  rw [headerText?, get?_lines, hvalue]

theorem headerText?_lines_none {l : List (HeaderKind × Bytes)} {kind : HeaderKind}
    (h : l.lookup kind = none) : headerText? (lines l) kind = none := by
  rw [headerText?, get?_lines, h]

/-! ### Offers -/

/-- The **entries of an offer**: what stands between the commas, without blanks and without entries
that are empty. -/
def entries (offer : Bytes) : List Bytes :=
  ((Bytes.splitOn comma offer).map Bytes.trim).filter fun entry => !entry.isEmpty

/-- The subprotocols that a client **offers**. They travel in one value, so an entry that holds a
comma counts as several; an offer that is not ASCII text counts as none. -/
def offers (offered : List String) : List Bytes :=
  let offer := Utf8.encode (", ".intercalate offered)
  if offer.all isVisible then entries offer else []

/-- The subprotocol that two ends **come to**: the first one offered that is supported. -/
def agreed? (offered supported : List String) : Option Bytes :=
  (offers offered).find? fun entry => supported.any fun s => Utf8.encode s == entry

theorem entries_trim (offer : Bytes) : entries (Bytes.trim offer) = entries offer := by
  rw [entries, Bytes.map_trim_splitOn_trim (by decide), entries]

theorem isVisible_of_isBlank (byte : UInt8) (h : Bytes.isBlank byte = true) :
    isVisible byte = true := by
  simp only [Bytes.isBlank, Bool.or_eq_true, beq_iff_eq] at h
  obtain rfl | rfl := h <;> rfl

/-- An entry is **trimmed, and not empty**. -/
theorem trim_of_mem_entries {offer entry : Bytes} (h : entry ∈ entries offer) :
    Bytes.trim entry = entry := by
  obtain ⟨part, -, rfl⟩ := List.mem_map.mp (List.mem_filter.mp h).1
  exact Bytes.trim_trim part

/-- An entry of a list that is ASCII text is **ASCII text without blanks around it**. -/
theorem plain_of_mem_entries {offer entry : Bytes} (hvisible : offer.all isVisible = true)
    (h : entry ∈ entries offer) : entry.all isVisible = true ∧ Bytes.trim entry = entry := by
  refine ⟨List.all_eq_true.mpr fun byte hbyte => ?_, trim_of_mem_entries h⟩
  obtain ⟨part, hpart, rfl⟩ := List.mem_map.mp (List.mem_filter.mp h).1
  exact List.all_eq_true.mp hvisible byte (mem_of_mem_splitOn hpart (mem_of_mem_trim hbyte))

/-! ### The two heads -/

/-- The lines that every request has. -/
def fixedLines (host : String) (nonce : Bytes) : List (HeaderKind × String) :=
  [(.host, host), (.upgrade, "websocket"), (.connection, "Upgrade"),
    (.secWebSocketKey, Bytes.asciiText (Base64.encode nonce)), (.secWebSocketVersion, "13")]

/-- The line that offers subprotocols; without subprotocols there is none. -/
def offerLines (offered : List String) : List (HeaderKind × String) :=
  if offered.isEmpty then [] else [(.secWebSocketProtocol, ", ".intercalate offered)]

/-- The lines of a client's request. -/
def requestLines (offered : List String) (host : String) (nonce : Bytes) :
    List (HeaderKind × String) :=
  fixedLines host nonce ++ offerLines offered

/-- The **request of a client** that offers some subprotocols. -/
def offering (offered : List String) (host path : String) (nonce : Bytes) : Request :=
  ⟨Bytes.ascii "GET", Utf8.encode (if path.isEmpty then "/" else path), .http11,
    lines ((requestLines offered host nonce).map fun line => (line.1, Utf8.encode line.2))⟩

/-- The lines of the response to a key; without a subprotocol that both know there is no line for
one. -/
def responseLines (key : Bytes) (chosen : Option Bytes) : List (HeaderKind × Bytes) :=
  [(.upgrade, Bytes.ascii "websocket"), (.connection, Bytes.ascii "Upgrade"),
    (.secWebSocketAccept, acceptValue key)] ++
      chosen.toList.map fun p => (.secWebSocketProtocol, p)

/-- The response to a key, **with the subprotocol chosen**. -/
def answering (key : Bytes) (chosen : Option Bytes) : Response :=
  ⟨101, Bytes.ascii "Switching Protocols", lines (responseLines key chosen)⟩

/-- The **response of a server** to such a request. -/
def agreeing (offered supported : List String) (nonce : Bytes) : Response :=
  ⟨101, Bytes.ascii "Switching Protocols",
    lines (responseLines (Base64.encode nonce) (agreed? offered supported))⟩

/-- What a client is given to **open a connection with**: a host of ASCII text, a path that a
request may ask for, a key of 16 bytes, and an offer that can stand in a header line. -/
structure Presentable (offered : List String) (host path : String) (nonce : Bytes) : Prop where
  host : (Utf8.encode host).all isVisible = true
  path : (Utf8.encode path).all isTarget = true
  nonce : nonce.length = 16
  offer : Headers.isValue (Utf8.encode (", ".intercalate offered)) = true

section Heads

variable {offered supported : List String} {host path : String} {nonce : Bytes}

theorem nodup_requestLines (offered : List String) (host : String) (nonce : Bytes) :
    ((requestLines offered host nonce).map Prod.fst).Nodup := by
  unfold requestLines fixedLines offerLines
  split <;> simp

theorem key_visible : (Base64.encode nonce).all isVisible = true :=
  List.all_eq_true.mpr fun _ hbyte => (Base64.plain_of_mem_encode hbyte).2.1

theorem encode_key : Utf8.encode (Bytes.asciiText (Base64.encode nonce)) = Base64.encode nonce :=
  Utf8.encode_asciiText fun _ hbyte => (Base64.plain_of_mem_encode hbyte).2.2

theorem trim_key : Bytes.trim (Base64.encode nonce) = Base64.encode nonce :=
  Bytes.trim_eq_self fun _ hbyte => (Base64.plain_of_mem_encode hbyte).1

theorem isValue_of_visible {value : Bytes} (h : value.all isVisible = true) :
    Headers.isValue value = true :=
  List.all_eq_true.mpr fun byte hbyte => isText_of_isVisible (List.all_eq_true.mp h byte hbyte)

/-- The lines that every request has **can stand in a head** if the host can. -/
theorem isValue_fixedLines (hhost : Headers.isValue (Utf8.encode host) = true) :
    ∀ line ∈ fixedLines host nonce, Headers.isValue (Utf8.encode line.2) = true := by
  intro line hline
  simp only [fixedLines, List.mem_cons, List.not_mem_nil, or_false] at hline
  obtain rfl | rfl | rfl | rfl | rfl := hline
  · exact hhost
  · decide
  · decide
  · rw [encode_key]
    exact isValue_of_visible key_visible
  · decide

/-- **Every line of a request** can stand in a head. -/
theorem isValue_requestLines (h : Presentable offered host path nonce) :
    ∀ line ∈ requestLines offered host nonce, Headers.isValue (Utf8.encode line.2) = true := by
  intro line hline
  obtain hfixed | hoffer := List.mem_append.mp hline
  · exact isValue_fixedLines (isValue_of_visible h.host) line hfixed
  · unfold offerLines at hoffer
    split at hoffer
    · cases hoffer
    · obtain rfl := List.mem_singleton.mp hoffer
      exact h.offer

/-- A request is built **of its lines**. -/
theorem Request.build_lines (hhost : Headers.isValue (Utf8.encode host) = true) (path : String)
    (nonce : Bytes) :
    Request.build host path nonce = .ok ⟨Bytes.ascii "GET",
      Utf8.encode (if path.isEmpty then "/" else path), .http11,
      lines ((fixedLines host nonce).map fun line => (line.1, Utf8.encode line.2))⟩ := by
  have hkinds : ([] ++ (fixedLines host nonce).map Prod.fst).Nodup := by simp [fixedLines]
  exact Request.setHeaders_lines [] hkinds (isValue_fixedLines hhost)

/-- **A client builds the request** that it means to. -/
theorem clientRequest_eq (h : Presentable offered host path nonce) {options : Options}
    (hoptions : options.protocols = offered) :
    Connection.clientRequest options host path [] nonce =
      .ok (offering offered host path nonce) := by
  subst hoptions
  have hkinds := nodup_requestLines options.protocols host nonce
  have hvalues := isValue_requestLines h
  rw [requestLines, List.map_append] at hkinds
  rw [requestLines, List.forall_mem_append] at hvalues
  have hbuild := Request.build_lines (isValue_of_visible h.host) path nonce
  have hlist : (if options.protocols.isEmpty then [] else
      [(HeaderKind.secWebSocketProtocol.text, ", ".intercalate options.protocols)]) ++ [] =
      (offerLines options.protocols).map fun line => (line.1.text, line.2) := by
    unfold offerLines
    split <;> rfl
  simp only [Connection.clientRequest, hbuild, bind, Except.bind]
  rw [hlist, Request.setHeaders_lines _ (by simpa [Function.comp_def] using hkinds) hvalues.2,
    offering, requestLines, List.map_append]

/-! ### What the server reads -/

/-- What a server reads of a request: its lines, **without the blanks** around their values. -/
def receivedLines (offered : List String) (host : String) (nonce : Bytes) :
    List (HeaderKind × Bytes) :=
  (requestLines offered host nonce).map fun line => (line.1, Bytes.trim (Utf8.encode line.2))

/-- **A server reads the request** that the client has written. -/
theorem parse_offering (h : Presentable offered host path nonce) :
    Request.parse (offering offered host path nonce).written =
      .ok { offering offered host path nonce with
        headers := lines (receivedLines offered host nonce) } := by
  have htarget : (Utf8.encode (if path.isEmpty then "/" else path)).all isTarget = true := by
    split
    · decide
    · exact h.path
  have hne : Utf8.encode (if path.isEmpty then "/" else path) ≠ [] := by
    split
    · decide
    · rename_i hpath
      exact Utf8.encode_ne_nil (Bool.eq_false_iff.mpr hpath)
  have hsendable : Sendable (offering offered host path nonce).headers := by
    refine sendable_lines ?_ ?_ ?_
    · simpa [Function.comp_def] using nodup_requestLines offered host nonce
    · intro line hline
      obtain ⟨source, hsource, rfl⟩ := List.mem_map.mp hline
      exact isValue_requestLines h source hsource
    · unfold requestLines fixedLines offerLines
      split <;> simp [maxFields]
  have hreceived : (offering offered host path nonce).headers.received =
      lines (receivedLines offered host nonce) := by
    rw [offering, received_lines, List.map_map]
    rfl
  have hmethod : (Bytes.ascii "GET").all isToken = true ∧ Bytes.ascii "GET" ≠ [] := by decide
  rw [Request.parse_written hmethod.1 hmethod.2 htarget hne (Utf8.isValid_encode _) rfl hsendable,
    hreceived]

/-- What **stands in a request** under the kinds that do not depend on the offer. -/
theorem lookup_receivedLines (offered : List String) (host : String) (nonce : Bytes) :
    (receivedLines offered host nonce).lookup .host = some (Bytes.trim (Utf8.encode host)) ∧
      (receivedLines offered host nonce).lookup .upgrade = some (Bytes.ascii "websocket") ∧
      (receivedLines offered host nonce).lookup .connection = some (Bytes.ascii "Upgrade") ∧
      (receivedLines offered host nonce).lookup .secWebSocketKey = some (Base64.encode nonce) ∧
      (receivedLines offered host nonce).lookup .secWebSocketVersion = some (Bytes.ascii "13") := by
  have hkey : Bytes.trim (Utf8.encode (Bytes.asciiText (Base64.encode nonce))) =
      Base64.encode nonce := by rw [encode_key, trim_key]
  exact ⟨rfl, congrArg some (by decide), congrArg some (by decide), congrArg some hkey,
    congrArg some (by decide)⟩

/-- The key **comes back** as the bytes that it was made of. -/
theorem isKey_encode (h : nonce.length = 16) : Request.isKey (Base64.encode nonce) = true := by
  rw [Request.isKey, Base64.decode_encode]
  simpa using h

/-- **The server finds nothing wrong** with the request. -/
theorem validate_received (h : Presentable offered host path nonce) :
    Request.validate { offering offered host path nonce with
      headers := lines (receivedLines offered host nonce) } = .ok () := by
  obtain ⟨hhost, hupgrade, hconnection, hkey, hversion⟩ :=
    lookup_receivedLines offered host nonce
  have hvisible : (Bytes.trim (Utf8.encode host)).all isVisible = true := by
    rw [Bytes.all_trim isVisible_of_isBlank]
    exact h.host
  have hfixed : Bytes.eqIgnoringCase (Bytes.trim (Bytes.ascii "websocket"))
      (Bytes.ascii "websocket") = true ∧
      hasToken (Bytes.ascii "Upgrade") (Bytes.ascii "upgrade") = true ∧
      Bytes.trim (Bytes.ascii "13") = Bytes.ascii "13" := by decide
  simp only [Request.validate, offering, required_lines hhost hvisible,
    required_lines hupgrade (by decide), required_lines hconnection (by decide),
    required_lines hkey key_visible, required_lines hversion (by decide), hfixed, trim_key,
    isKey_encode h.nonce, bind, Except.bind, pure, Except.pure, throw, throwThe,
    MonadExceptOf.throw, ne_eq, not_true_eq_false, if_false, Bool.not_true, Bool.false_eq_true,
    reduceCtorEq]

/-- The **subprotocols of a request**, whether the blanks around its values are still there or
not. -/
theorem protocols_eq {r : Request} (value : String → Bytes)
    (hlines : r.headers = lines ((requestLines offered host nonce).map fun line =>
      (line.1, value line.2)))
    (hvalue : ∀ text, (value text).all isVisible = (Utf8.encode text).all isVisible ∧
      entries (value text) = entries (Utf8.encode text)) : r.protocols = offers offered := by
  have hlookup : ((requestLines offered host nonce).map fun line =>
      (line.1, value line.2)).lookup .secWebSocketProtocol =
      if offered.isEmpty then none else some (value (", ".intercalate offered)) := by
    unfold requestLines fixedLines offerLines
    split <;> rfl
  unfold Request.protocols
  rw [hlines]
  split at hlookup
  · rename_i hempty
    rw [headerText?_lines_none hlookup, List.isEmpty_iff.mp hempty]
    decide
  · obtain ⟨hvisible, hentries⟩ := hvalue (", ".intercalate offered)
    rw [headerText?_lines hlookup, hvisible, offers]
    by_cases hall : (Utf8.encode (", ".intercalate offered)).all isVisible = true
    · simp only [hall, if_true]
      exact hentries
    · simp only [hall]
      rfl

/-- The **client** looks at its own offer. -/
theorem protocols_offering : (offering offered host path nonce).protocols = offers offered :=
  protocols_eq Utf8.encode rfl fun _ => ⟨rfl, rfl⟩

/-- The **server** looks at the same one. -/
theorem protocols_received {r : Request}
    (hlines : r.headers = lines (receivedLines offered host nonce)) :
    r.protocols = offers offered :=
  protocols_eq (fun text => Bytes.trim (Utf8.encode text)) hlines fun text =>
    ⟨Bytes.all_trim isVisible_of_isBlank _, entries_trim (Utf8.encode text)⟩

theorem key?_received {r : Request}
    (hlines : r.headers = lines (receivedLines offered host nonce)) :
    r.key? = some (Base64.encode nonce) := by
  rw [Request.key?, hlines, headerText?_lines (lookup_receivedLines offered host nonce).2.2.2.1]
  exact if_pos key_visible

theorem nodup_responseLines {key : Bytes} {chosen : Option Bytes} :
    ((responseLines key chosen).map Prod.fst).Nodup := by
  cases chosen <;> simp [responseLines]

/-- A server **answers the trimmed key**. -/
theorem accepting_eq {request : Request} {key : Bytes} (hkey : request.key? = some key)
    (supported : List String) : Response.accepting request supported =
      .ok (answering (Bytes.trim key) (Response.selectProtocol request supported)) := by
  rw [Response.accepting, hkey]
  exact congrArg Except.ok (Response.make_lines nodup_responseLines _ _)

/-- **The server accepts the request**, and answers with the subprotocol that both come to. -/
theorem acceptHead_written (h : Presentable offered host path nonce) :
    Connection.acceptHead supported (offering offered host path nonce).written =
      .ok ({ offering offered host path nonce with
        headers := lines (receivedLines offered host nonce) },
        agreeing offered supported nonce) := by
  have haccept : Response.accepting { offering offered host path nonce with
      headers := lines (receivedLines offered host nonce) } supported =
      .ok (agreeing offered supported nonce) := by
    rw [accepting_eq (key?_received rfl), trim_key, Response.selectProtocol,
      protocols_received rfl]
    rfl
  simp only [Connection.acceptHead, parse_offering h, validate_received h, haccept, bind,
    Except.bind, pure, Except.pure]

/-! ### What the client reads -/

/-- Every line of a response is **ASCII text without blanks around it**, if the subprotocol is. -/
theorem plain_of_mem_responseLines {key : Bytes} {chosen : Option Bytes}
    (hchosen : ∀ p ∈ chosen, p.all isVisible = true ∧ Bytes.trim p = p)
    {line : HeaderKind × Bytes} (h : line ∈ responseLines key chosen) :
    line.2.all isVisible = true ∧ Bytes.trim line.2 = line.2 := by
  obtain hfixed | hprotocol := List.mem_append.mp h
  · simp only [List.mem_cons, List.not_mem_nil, or_false] at hfixed
    obtain rfl | rfl | rfl := hfixed
    · decide
    · decide
    · exact ⟨key_visible, trim_key⟩
  · obtain ⟨p, hp, rfl⟩ := List.mem_map.mp hprotocol
    exact hchosen p (Option.mem_toList.mp hp)

/-- A response is read **as it was written**, and nothing of it is lost. -/
theorem parse_answering {key : Bytes} {chosen : Option Bytes}
    (hchosen : ∀ p ∈ chosen, p.all isVisible = true ∧ Bytes.trim p = p) :
    Response.parse (answering key chosen).written = .ok (answering key chosen) := by
  have hsendable : Sendable (answering key chosen).headers := by
    refine sendable_lines nodup_responseLines ?_ ?_
    · exact fun line hline => isValue_of_visible (plain_of_mem_responseLines hchosen hline).1
    · cases chosen <;> simp [responseLines, maxFields]
  have hsame : (answering key chosen).headers.received = (answering key chosen).headers := by
    rw [answering, received_lines]
    refine congrArg lines ((List.map_congr_left fun line hline => ?_).trans (List.map_id _))
    exact Prod.ext rfl (plain_of_mem_responseLines hchosen hline).2
  have hreason : (Bytes.ascii "Switching Protocols").all isVisible = true := by decide
  have hstatus : (answering key chosen).status = 101 := rfl
  rw [Response.parse_written (by omega) (by omega) hreason hsendable, hsame]

theorem protocol?_answering {key : Bytes} {chosen : Option Bytes}
    (hchosen : ∀ p ∈ chosen, p.all isVisible = true ∧ Bytes.trim p = p) :
    (answering key chosen).protocol? = chosen := by
  rw [Response.protocol?, answering]
  cases chosen with
  | none => exact headerText?_lines_none rfl
  | some p =>
      have hline : (responseLines key (some p)).lookup .secWebSocketProtocol = some p := rfl
      rw [headerText?_lines hline]
      exact if_pos (hchosen p rfl).1

/-- What a client makes of a response **turns on its key** alone, if the subprotocol was offered. -/
theorem validate_answering {request : Request} {key own : Bytes} {chosen : Option Bytes}
    (hkey : request.key? = some own)
    (hchosen : ∀ p ∈ chosen, p.all isVisible = true ∧ Bytes.trim p = p)
    (hoffered : ∀ p ∈ chosen, p ∈ request.protocols) :
    (answering key chosen).validate request =
      if acceptValue key = acceptValue own then .ok () else .error .acceptMismatch := by
  have hfixed : Bytes.eqIgnoringCase (Bytes.trim (Bytes.ascii "websocket"))
      (Bytes.ascii "websocket") = true ∧
      hasToken (Bytes.ascii "Upgrade") (Bytes.ascii "upgrade") = true := by decide
  have hupgrade : required (answering key chosen).headers .upgrade =
      .ok (Bytes.ascii "websocket") := required_lines rfl (by decide)
  have hconnection : required (answering key chosen).headers .connection =
      .ok (Bytes.ascii "Upgrade") := required_lines rfl (by decide)
  have haccept : required (answering key chosen).headers .secWebSocketAccept =
      .ok (acceptValue key) := required_lines rfl key_visible
  have htrim : Bytes.trim (acceptValue key) = acceptValue key := trim_key
  have hstatus : (answering key chosen).status = 101 := rfl
  simp only [Response.validate, hstatus, hupgrade, hconnection, haccept, hkey, htrim,
    protocol?_answering hchosen, hfixed, bind, Except.bind, pure, Except.pure, throw, throwThe,
    MonadExceptOf.throw, ne_eq, not_true_eq_false, if_false, Bool.not_true, Bool.false_eq_true,
    ite_not]
  split
  · cases chosen with
    | none => rfl
    | some p => simp [hoffered p rfl]
  · rfl

/-- What both ends come to is **one of the subprotocols offered**. -/
theorem mem_offers_of_agreed {p : Bytes} (h : agreed? offered supported = some p) :
    p ∈ offers offered :=
  List.mem_of_find?_eq_some h

/-- A subprotocol that was offered is **ASCII text without blanks around it**. -/
theorem plain_of_mem_offers {p : Bytes} (h : p ∈ offers offered) :
    p.all isVisible = true ∧ Bytes.trim p = p := by
  unfold offers at h
  dsimp only at h
  split at h
  · rename_i hvisible
    exact plain_of_mem_entries hvisible h
  · cases h

/-- What both ends come to is **ASCII text without blanks around it**. -/
theorem plain_of_agreed :
    ∀ p ∈ agreed? offered supported, p.all isVisible = true ∧ Bytes.trim p = p :=
  fun _ hp => plain_of_mem_offers (mem_offers_of_agreed hp)

/-- **A client reads the response** that the server has written, and nothing of it is lost. -/
theorem parse_agreeing : Response.parse (agreeing offered supported nonce).written =
    .ok (agreeing offered supported nonce) :=
  parse_answering plain_of_agreed

/-- The subprotocol of a response is **what both ends come to**. -/
theorem protocol?_agreeing :
    (agreeing offered supported nonce).protocol? = agreed? offered supported :=
  protocol?_answering plain_of_agreed

theorem key?_offering :
    (offering offered host path nonce).key? = some (Base64.encode nonce) := by
  have hline : ((requestLines offered host nonce).map fun line =>
      (line.1, Utf8.encode line.2)).lookup .secWebSocketKey = some (Base64.encode nonce) :=
    congrArg some encode_key
  rw [Request.key?, offering, headerText?_lines hline]
  exact if_pos key_visible

/-- **The client finds nothing wrong** with the response. -/
theorem validate_agreeing :
    (agreeing offered supported nonce).validate (offering offered host path nonce) = .ok () := by
  have hoffered : ∀ p ∈ agreed? offered supported,
      p ∈ (offering offered host path nonce).protocols := fun p hp =>
    protocols_offering ▸ mem_offers_of_agreed hp
  exact (validate_answering key?_offering plain_of_agreed hoffered).trans (if_pos rfl)

/-- **The client accepts the answer**, and takes the subprotocol that both come to. -/
theorem judge_written :
    Connection.judgeResponse (offering offered host path nonce)
        (agreeing offered supported nonce).written =
      [.establish (agreed? offered supported) (.connected (agreeing offered supported nonce))] := by
  simp only [Connection.judgeResponse, parse_agreeing, validate_agreeing, protocol?_agreeing]

end Heads

end Handshake

end WebSocket
