import WebSocket.Proofs.Handshake.Judgements
import WebSocket.Proofs.Handshake.Requests

/-!
# Heads are read again as they were read

A head may be written in many ways: names in any case, lines that end with a line feed alone, blanks
around values, a header line that comes twice, a reason that is not ASCII text. A reader keeps none
of this. What it gives is *settled*: names are in lower case and come once, values have no blanks
around them, the reason is ASCII text. A settled head is written in one way and read back as it is,
so writing and reading a second time changes nothing.

The two halves are proved apart. Each reader gives only what is settled, from the parts of a line up
to the head, and what is settled is read as it was written (`Handshake.Request.parse_written` and
`Handshake.Response.parse_written`).

## Main results

* `Handshake.settled_of_collectFields`: header lines that are read are **settled**.
* `Handshake.Request.Legible.parse_written`, `Handshake.Response.Legible.parse_written`: what is
  settled **stays as it is**.
* `Handshake.reread_head`: a head that is read, written and read again is the same head.
-/

namespace WebSocket

namespace Handshake

open Http

variable {b rest : Bytes}

/-! ### The parts of a line -/

theorem of_parseMethod {method : Bytes} (h : parseMethod b = .found method rest) :
    method.all isToken = true ∧ method ≠ [] :=
  of_parseUntil isToken (· ≠ []) h

/-- A value that is read can stand in its line, **without blanks around it**. -/
theorem of_parseValue {value : Bytes} (h : parseValue b = .found value rest) :
    Headers.isValue value = true ∧ Bytes.trim value = value := by
  obtain ⟨_, _, -, hfound⟩ := andThen_eq_found h
  obtain ⟨rfl, -⟩ := Scan.found.inj hfound
  refine ⟨?_, Bytes.trim_trim _⟩
  rw [Headers.isValue, Bytes.all_trim fun byte hbyte =>
    isText_of_isVisible (isVisible_of_isBlank byte hbyte)]
  exact List.all_takeWhile

/-- Three digits are a number **below a thousand**. -/
theorem of_parseStatus {status : Nat} (h : parseStatus b = .found status rest) :
    status < 1000 := by
  unfold parseStatus at h
  dsimp only at h
  split at h
  · rename_i hdigits
    split at h
    · cases h
    · rename_i digits behind hsplit
      obtain ⟨hlength, rfl⟩ := (Bytes.split?_eq_some ..).mp hsplit
      obtain ⟨x, y, z, rfl⟩ := List.length_eq_three.mp hlength
      obtain ⟨rfl, -⟩ := Scan.found.inj h
      have hdigit : ∀ {d : UInt8}, isDigit d = true → d.toNat - 0x30 ≤ 9 := by
        intro d hd
        simp only [isDigit, Bool.and_eq_true, decide_eq_true_eq, UInt8.le_iff_toNat_le,
          UInt8.reduceToNat] at hd
        omega
      simp only [List.cons_append, List.take_succ_cons, List.take_zero, List.all_cons,
        List.all_nil, Bool.and_true, Bool.and_eq_true] at hdigits
      have hx := hdigit hdigits.1
      have hy := hdigit hdigits.2.1
      have hz := hdigit hdigits.2.2
      simp only [List.foldl_cons, List.foldl_nil]
      omega
  · cases h

theorem of_parseReason {reason : Bytes} (h : parseReason b = .found reason rest) :
    reason.all isVisible = true := by
  obtain ⟨_, _, -, hfound⟩ := andThen_eq_found h
  obtain ⟨rfl, -⟩ := Scan.found.inj hfound
  split
  · assumption
  · rfl

/-- A reason that is read is ASCII text; **without one** it is empty. -/
theorem of_parseAfterStatus {reason : Bytes} (h : parseAfterStatus b = .found reason rest) :
    reason.all isVisible = true := by
  unfold parseAfterStatus at h
  split at h
  · cases h
  · split at h
    · exact of_parseReason h
    · obtain ⟨_, _, -, hfound⟩ := andThen_eq_found h
      obtain ⟨rfl, -⟩ := Scan.found.inj hfound
      rfl

/-! ### Header lines -/

/-- Header lines are read into the slots that there are, each value **trimmed and in one line**. -/
theorem of_parseFields {slots : Nat} {fields : List Field}
    (h : parseFields slots b = .found fields rest) :
    fields.length ≤ slots ∧
      ∀ f ∈ fields, Headers.isValue f.value = true ∧ Bytes.trim f.value = f.value := by
  induction slots, b using parseFields.induct generalizing fields rest with
  | case1 => rw [parseFields] at h; cases h
  | case2 slots byte b hend =>
      rw [parseFields, if_pos hend] at h
      obtain ⟨_, _, -, hfound⟩ := andThen_eq_found h
      obtain ⟨rfl, -⟩ := Scan.found.inj hfound
      exact ⟨Nat.zero_le _, List.forall_mem_nil _⟩
  | case3 slots byte b hline ih =>
      rw [parseFields, if_neg hline] at h
      obtain ⟨name, _, -, h⟩ := andThen_eq_found h
      obtain ⟨value, behind, hvalue, h⟩ := andThen_eq_found h
      cases slots with
      | zero => cases h
      | succ slots =>
          obtain ⟨more, _, hmore, h⟩ := andThen_eq_found h
          obtain ⟨rfl, -⟩ := Scan.found.inj h
          obtain ⟨hlength, hall⟩ := ih behind hmore
          exact ⟨Nat.succ_le_succ hlength, List.forall_mem_cons.mpr ⟨of_parseValue hvalue, hall⟩⟩

theorem length_insertField_le (field : Field) (fields : List Field) :
    (Headers.insertField field fields).length ≤ fields.length + 1 := by
  induction fields with
  | nil => exact Nat.le_refl 1
  | cons f fields ih =>
      rw [Headers.insertField]
      split
      · exact Nat.le_succ _
      · exact Nat.succ_le_succ ih

/-- Header lines that **writing and reading leave as they are**. -/
structure Settled (h : Headers) : Prop extends Sendable h where
  trimmed : ∀ f ∈ h.fields, Bytes.trim f.value = f.value

theorem Settled.received_eq {h : Headers} (hh : Settled h) : h.received = h := by
  have hsame : h.fields.map (fun f => (⟨f.name, Bytes.trim f.value⟩ : Field)) = h.fields.map id :=
    List.map_congr_left fun f hf => congrArg (Http.Field.mk f.name) (hh.trimmed f hf)
  rw [Headers.received, hsame, List.map_id]

/-- Header lines that are collected are **well set**, and every value is one that was read. -/
theorem of_collectFields {fields : List Field} {headers : Headers}
    (h : collectFields fields = .ok headers)
    (hfields : ∀ f ∈ fields, Headers.isValue f.value = true ∧ Bytes.trim f.value = f.value) :
    WellSet headers ∧ (∀ f ∈ headers.fields, Bytes.trim f.value = f.value) ∧
      headers.fields.length ≤ fields.length := by
  have hstart : WellSet Headers.empty := wellSet_empty
  have htrim : ∀ f ∈ Headers.empty.fields, Bytes.trim f.value = f.value := nofun
  rw [← Nat.zero_add fields.length, show 0 = Headers.empty.fields.length from rfl]
  unfold collectFields at h
  generalize Headers.empty = start at h hstart htrim ⊢
  induction fields generalizing start with
  | nil =>
      obtain rfl := Except.ok.inj h
      exact ⟨hstart, htrim, Nat.le_refl _⟩
  | cons field fields ih =>
      obtain ⟨⟨hvalue, htrimmed⟩, hmore⟩ := List.forall_mem_cons.mp hfields
      rw [List.foldlM_cons] at h
      obtain ⟨next, hnext, hrest⟩ := bind_eq_ok.mp h
      split at hnext
      · rename_i hname
        obtain rfl := Except.ok.inj hnext
        obtain ⟨hwell, htrims, hlength⟩ := ih hmore _ hrest (hstart.insert hname hvalue)
          fun f hf => (Headers.mem_insertField hf).elim (fun heq => heq ▸ htrimmed) (htrim f)
        have hle := length_insertField_le ⟨Bytes.lower field.name, field.value⟩ start.fields
        refine ⟨hwell, htrims, hlength.trans ?_⟩
        simp only [Headers.insert, List.length_cons]
        omega
      · cases hnext

/-- Header lines that are read are **settled**. -/
theorem settled_of_collectFields {fields : List Field} {headers : Headers}
    (hfields : parseFields maxFields b = .found fields rest)
    (hheaders : collectFields fields = .ok headers) : Settled headers := by
  obtain ⟨hfew, hvalues⟩ := of_parseFields hfields
  obtain ⟨hwell, htrimmed, hlength⟩ := of_collectFields hheaders hvalues
  exact ⟨⟨hwell.readable, hwell.names, hlength.trans hfew⟩, htrimmed⟩

/-! ### Heads -/

/-- A request that **writing and reading leave as it is**, but for its version. -/
structure Request.Legible (r : Request) : Prop where
  method : r.method.all isToken = true ∧ r.method ≠ []
  target : r.target.all isTarget = true ∧ r.target ≠ [] ∧ Utf8.isValid r.target = true
  headers : Settled r.headers

/-- A response that **writing and reading leave as it is**. -/
structure Response.Legible (r : Response) : Prop where
  status : 100 ≤ r.status ∧ r.status < 1000
  reason : r.reason.all isVisible = true
  headers : Settled r.headers

/-- A request that is read is **legible**. -/
theorem Request.legible_of_parse {head : Bytes} {r : Request} (h : parse head = .ok r) :
    r.Legible := by
  unfold parse at h
  split at h
  · cases h
  · cases h
  · rename_i parts left hscan
    split at h
    · rename_i headers hheaders
      obtain rfl := Except.ok.inj h
      obtain ⟨_, _, -, hscan⟩ := andThen_eq_found hscan
      obtain ⟨method, _, hmethod, hscan⟩ := andThen_eq_found hscan
      obtain ⟨target, _, htarget, hscan⟩ := andThen_eq_found hscan
      obtain ⟨version, _, -, hscan⟩ := andThen_eq_found hscan
      obtain ⟨_, _, -, hscan⟩ := andThen_eq_found hscan
      obtain ⟨fields, _, hfields, hscan⟩ := andThen_eq_found hscan
      obtain ⟨rfl, -⟩ := Scan.found.inj hscan
      exact ⟨of_parseMethod hmethod, of_parseTarget htarget,
        settled_of_collectFields hfields hheaders⟩
    · cases h

/-- So is a response. -/
theorem Response.legible_of_parse {head : Bytes} {r : Response} (h : parse head = .ok r) :
    r.Legible := by
  unfold parse at h
  split at h
  · cases h
  · cases h
  · rename_i parts left hscan
    split at h
    · cases h
    · rename_i hlow
      split at h
      · rename_i headers hheaders
        obtain rfl := Except.ok.inj h
        obtain ⟨_, _, -, hscan⟩ := andThen_eq_found hscan
        obtain ⟨version, _, -, hscan⟩ := andThen_eq_found hscan
        split at hscan
        · cases hscan
        · split at hscan
          · cases hscan
          · obtain ⟨status, _, hstatus, hscan⟩ := andThen_eq_found hscan
            obtain ⟨reason, _, hreason, hscan⟩ := andThen_eq_found hscan
            obtain ⟨fields, _, hfields, hscan⟩ := andThen_eq_found hscan
            obtain ⟨rfl, -⟩ := Scan.found.inj hscan
            exact ⟨⟨Nat.le_of_not_lt hlow, of_parseStatus hstatus⟩, of_parseAfterStatus hreason,
              settled_of_collectFields hfields hheaders⟩
      · cases h

theorem Request.Legible.parse_written {r : Request} (h : r.Legible) :
    Request.parse r.written = .ok { r with version := .http11 } := by
  obtain ⟨hmethod, hstart⟩ := h.method
  obtain ⟨htarget, hne, hvalid⟩ := h.target
  -- what is written of a request does not tell its version
  have hread := Request.parse_written (r := { r with version := .http11 }) hmethod hstart htarget
    hne hvalid rfl h.headers.toSendable
  rw [h.headers.received_eq] at hread
  exact hread

theorem Response.Legible.parse_written {r : Response} (h : r.Legible) :
    Response.parse r.written = .ok r := by
  rw [Response.parse_written h.status.1 h.status.2 h.reason h.headers.toSendable,
    h.headers.received_eq]

/-- What **reading a head again** comes to, once it has been read and written. -/
structure Reread (head : Bytes) : Prop where
  /-- A request keeps its method, its target and its header lines; its version is the newer one. -/
  request : ∀ r, Request.parse head = .ok r →
    Request.parse r.written = .ok { r with version := .http11 }
  /-- A response keeps its status, its reason and its header lines. -/
  response : ∀ r, Response.parse head = .ok r → Response.parse r.written = .ok r
  /-- What is written of a request is written of it again. -/
  requestAgain : ∀ text, (Request.parse head).map Request.written = .ok text →
    (Request.parse text).map Request.written = .ok text
  /-- What is written of a response is written of it again. -/
  responseAgain : ∀ text, (Response.parse head).map Response.written = .ok text →
    (Response.parse text).map Response.written = .ok text

/-- **A head is read again as it was read**, whatever the head is. -/
theorem reread_head (head : Bytes) : Reread head := by
  have hrequest : ∀ r, Request.parse head = .ok r →
      Request.parse r.written = .ok { r with version := .http11 } := fun r hr =>
    (Request.legible_of_parse hr).parse_written
  have hresponse : ∀ r, Response.parse head = .ok r → Response.parse r.written = .ok r :=
    fun r hr => (Response.legible_of_parse hr).parse_written
  refine ⟨hrequest, hresponse, fun text htext => ?_, fun text htext => ?_⟩
  · cases hread : Request.parse head with
    | error failure => rw [hread] at htext; cases htext
    | ok r =>
        rw [hread] at htext
        obtain rfl := Except.ok.inj htext
        rw [hrequest r hread]
        rfl
  · cases hread : Response.parse head with
    | error failure => rw [hread] at htext; cases htext
    | ok r =>
        rw [hread] at htext
        obtain rfl := Except.ok.inj htext
        rw [hresponse r hread]
        rfl

/-- A request in unusual letters, with empty lines in front, bare line feeds, a name of empty parts,
an empty value, blanks around a value that is not ASCII text, and one name twice. -/
def unusualRequest : Bytes :=
  Bytes.ascii "\n\r\nget /chat?q HTTP/1.0\nhOST: a\r\nX--websocket-:\nORIGIN:\t" ++ 0xE9 ::
    Bytes.ascii " b \r\nHost:  c\n\n"

/-- A response whose reason begins and ends with a blank. -/
def unusualResponse : Bytes :=
  Bytes.ascii "HTTP/1.0 299  Odd \t\nserver:\r\nSERVER: \t" ++ 0xFF :: Bytes.ascii "\n\r\n"

/-- What is made of the two heads, **the first time and again**. -/
theorem reread_unusual :
    let request : Request := ⟨Bytes.ascii "get", Bytes.ascii "/chat?q", .http10,
      ⟨[⟨Bytes.ascii "host", Bytes.ascii "c"⟩, ⟨Bytes.ascii "x--websocket-", []⟩,
        ⟨Bytes.ascii "origin", 0xE9 :: Bytes.ascii " b"⟩]⟩⟩
    let response : Response := ⟨299, Bytes.ascii " Odd \t", ⟨[⟨Bytes.ascii "server", [0xFF]⟩]⟩⟩
    Request.parse unusualRequest = .ok request ∧
      Request.parse request.written = .ok { request with version := .http11 } ∧
      Response.parse unusualResponse = .ok response ∧
      Response.parse response.written = .ok response := by
  intro request response
  have hrequest : Request.parse unusualRequest = .ok request := by decide +kernel
  have hresponse : Response.parse unusualResponse = .ok response := by decide +kernel
  exact ⟨hrequest, (reread_head unusualRequest).request _ hrequest, hresponse,
    (reread_head unusualResponse).response _ hresponse⟩

end Handshake

end WebSocket
