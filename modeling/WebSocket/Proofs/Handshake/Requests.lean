import WebSocket.Proofs.Handshake.Agreement

/-!
# Requests keep their lines

A request is built for a host and a path, and more headers are set by their names and values, all of
them texts that a caller chooses. A header is checked when it is set: its name is a token and its
value holds no control character, so neither can end its line. Names are kept in lower case and
written with upper-case letters, which the reader turns back. So the header lines of a request are
read as they were set, whatever the texts are.

The path is put into the start line as it is. The request is read back exactly when the path is made
of the characters of a request target; with any other path the start line is another one, or none.

## Main results

* `Http.Headers.readable_of_isName`: a header line **that can be set** can be read as it is written.
* `Handshake.WellSet.setHeaders`: headers that are set stay readable, one line a name.
* `Handshake.parse_of_setHeaders`: a request is **read as it was set** exactly when its path is a
  request target.
-/

namespace WebSocket

namespace Bytes

theorem lowerByte_lowerByte : ∀ byte, lowerByte (lowerByte byte) = lowerByte byte :=
  forall_byte (by decide +kernel)

theorem lowerByte_upperByte : ∀ byte, lowerByte (upperByte byte) = lowerByte byte :=
  forall_byte (by decide +kernel)

theorem lower_lower (b : Bytes) : lower (lower b) = lower b := by
  simp [lower, lowerByte_lowerByte]

theorem splitOn_eq (separator : UInt8) (b : Bytes) :
    splitOn separator b = List.splitOn separator b := by
  induction b with
  | nil => simp [splitOn]
  | cons byte b ih =>
      obtain ⟨part, parts, hsplit⟩ := splitOn_eq_cons separator b
      rw [splitOn, hsplit, List.splitOn, List.splitOnP_cons_eq_if_modifyHead, ← List.splitOn, ← ih,
        hsplit]
      rfl

/-- The parts of a byte string, **put together again**. -/
theorem intercalate_splitOn (separator : UInt8) (b : Bytes) :
    [separator].intercalate (splitOn separator b) = b := by
  rw [splitOn_eq, List.intercalate_splitOn]

end Bytes

namespace Http

/-! ### Names -/

theorem isToken_lowerByte : ∀ byte, isToken (Bytes.lowerByte byte) = isToken byte :=
  Bytes.forall_byte (by decide +kernel)

theorem all_isToken_lower (b : Bytes) : (Bytes.lower b).all isToken = b.all isToken := by
  simp [Bytes.lower, Function.comp_def, isToken_lowerByte]

namespace Headers

theorem lower_writtenPart (part : Bytes) : Bytes.lower (writtenPart part) = Bytes.lower part := by
  unfold writtenPart
  split
  · rename_i hpart
    rw [hpart]
    decide
  · split
    · rfl
    · simp [Bytes.lower, Bytes.lowerByte_upperByte]

theorem lower_intercalate (separator : Bytes) (parts : List Bytes) :
    Bytes.lower (separator.intercalate (parts.map writtenPart)) =
      Bytes.lower (separator.intercalate parts) := by
  match parts with
  | [] => rfl
  | [part] => simpa using lower_writtenPart part
  | part :: next :: parts =>
      have hrest := lower_intercalate separator (next :: parts)
      have hfirst := lower_writtenPart part
      simp only [Bytes.lower, List.map_cons, List.intercalate_cons_cons, List.map_append] at *
      rw [hfirst, hrest]

/-- Writing a name changes **the case of its letters** only. -/
theorem lower_writtenName (name : Bytes) : Bytes.lower (writtenName name) = Bytes.lower name := by
  rw [writtenName, lower_intercalate, Bytes.intercalate_splitOn]

/-- A name is told by **its length and its bytes**, and both stay when the case changes. -/
theorem isName_of_lower_eq {name other : Bytes} (h : Bytes.lower other = Bytes.lower name) :
    isName other = isName name := by
  have hlength : other.length = name.length := by
    simpa [Bytes.lower] using congrArg List.length h
  have htokens : other.all isToken = name.all isToken := by
    rw [← all_isToken_lower, h, all_isToken_lower]
  have hempty : other.isEmpty = name.isEmpty := by
    rw [Bool.eq_iff_iff, List.isEmpty_iff_length_eq_zero, hlength, List.isEmpty_iff_length_eq_zero]
  rw [isName, isName, hempty, hlength, htokens]

/-- A header line **that can be set** can be read as it is written. -/
theorem readable_of_isName {name value : Bytes} (hname : isName name = true)
    (hvalue : isValue value = true) : Readable ⟨Bytes.lower name, value⟩ := by
  have hlower : Bytes.lower (writtenName (Bytes.lower name)) = Bytes.lower name := by
    rw [lower_writtenName, Bytes.lower_lower]
  exact ⟨(isName_of_lower_eq hlower).trans hname, hlower, hvalue⟩

/-- Setting a header puts its name **behind the others**, unless it is there. -/
theorem names_insertField (field : Field) (fields : List Field) :
    (insertField field fields).map Field.name =
      if field.name ∈ fields.map Field.name then fields.map Field.name
      else fields.map Field.name ++ [field.name] := by
  induction fields with
  | nil => simp [insertField]
  | cons f fields ih =>
      rw [insertField]
      by_cases hname : f.name = field.name
      · simp [hname]
      · rw [if_neg (by simpa using hname), List.map_cons, ih]
        simp only [List.map_cons, List.mem_cons, Ne.symm hname, false_or]
        split <;> rfl

theorem nodup_insertField {field : Field} {fields : List Field}
    (h : (fields.map Field.name).Nodup) : ((insertField field fields).map Field.name).Nodup := by
  rw [names_insertField]
  split
  · exact h
  · rename_i hnew
    exact h.append (List.nodup_singleton _) fun name hname hmem => by
      rw [List.mem_singleton.mp hmem] at hname
      exact hnew hname

end Headers

end Http

namespace Handshake

open Http

/-- Header lines **as they are set**: each can be read, and no name comes twice. -/
structure WellSet (h : Headers) : Prop where
  readable : ∀ f ∈ h.fields, Headers.Readable f
  names : (h.fields.map Field.name).Nodup

theorem wellSet_empty : WellSet Headers.empty := ⟨nofun, List.nodup_nil⟩

theorem WellSet.insert {h : Headers} {name value : Bytes} (hh : WellSet h)
    (hname : Headers.isName name = true) (hvalue : Headers.isValue value = true) :
    WellSet (h.insert (Bytes.lower name) value) := by
  refine ⟨fun f hf => ?_, Headers.nodup_insertField hh.names⟩
  obtain rfl | hf := Headers.mem_insertField hf
  · exact Headers.readable_of_isName hname hvalue
  · exact hh.readable f hf

/-- Setting one header **keeps the lines well set**. -/
theorem WellSet.setHeader {h h' : Headers} {name value : String}
    (hset : Handshake.setHeader h name value = .ok h') (hh : WellSet h) : WellSet h' := by
  obtain ⟨hname, hvalue, rfl⟩ := setHeader_eq_ok.mp hset
  exact hh.insert hname hvalue

/-- A request that **was built, with more headers set**: its start line is as it was built. -/
theorem Request.wellSet_of_build {host path : String} {nonce : Bytes}
    {headers : List (String × String)} {built r : Request}
    (hbuild : build host path nonce = .ok built) (hset : built.setHeaders headers = .ok r) :
    WellSet r.headers ∧ r.method = Bytes.ascii "GET" ∧
      r.target = Utf8.encode (if path.isEmpty then "/" else path) ∧ r.version = .http11 := by
  obtain ⟨hbuilt, hmethod, htarget, hversion⟩ :=
    setHeaders_induction WellSet.setHeader hbuild wellSet_empty
  obtain ⟨hheaders, hmethod', htarget', hversion'⟩ :=
    setHeaders_induction WellSet.setHeader hset hbuilt
  exact ⟨hheaders, hmethod'.trans hmethod, htarget'.trans htarget, hversion'.trans hversion⟩

/-! ### Start lines -/

theorem andThen_eq_found {ε α β : Type} {s : Scan ε α} {next : α → Bytes → Scan ε β} {value : β}
    {rest : Bytes} (h : s.andThen next = .found value rest) :
    ∃ first behind, s = .found first behind ∧ next first behind = .found value rest := by
  cases s with
  | incomplete => cases h
  | found first behind => exact ⟨first, behind, rfl, h⟩
  | fault e => cases h

/-- A part that is read is of its class, and **the reader agrees to it**. -/
theorem of_parseUntil (member : UInt8 → Bool) (accept : Bytes → Prop) [DecidablePred accept]
    {wanted : UInt8} {b part rest : Bytes} {flaw : Flaw}
    (h : ((parseUntil member b).andThen fun (part, mark) rest =>
      if mark = wanted ∧ accept part then .found part rest else .fault flaw) = .found part rest) :
    part.all member = true ∧ accept part := by
  obtain ⟨⟨front, mark⟩, behind, hfront, hfound⟩ := andThen_eq_found h
  dsimp only at hfound
  split at hfound
  · rename_i haccept
    obtain ⟨rfl, -⟩ := Scan.found.inj hfound
    refine ⟨?_, haccept.2⟩
    unfold parseUntil at hfront
    split at hfront
    · cases hfront
    · obtain ⟨heq, -⟩ := Scan.found.inj hfront
      rw [← (Prod.mk.inj heq).1]
      exact List.all_takeWhile
  · cases hfound

/-- A target that is read is made of **the characters of a target**. -/
theorem of_parseTarget {b target rest : Bytes} (h : parseTarget b = .found target rest) :
    target.all isTarget = true ∧ target ≠ [] ∧ Utf8.isValid target = true :=
  of_parseUntil isTarget (fun target => target ≠ [] ∧ Utf8.isValid target = true) h

theorem all_isTarget_of_parseRequestHead {b left : Bytes} {parts : RequestHead}
    (h : parseRequestHead b = .found parts left) : parts.target.all isTarget = true := by
  obtain ⟨_, _, -, h⟩ := andThen_eq_found h
  obtain ⟨method, _, -, h⟩ := andThen_eq_found h
  obtain ⟨target, _, htarget, h⟩ := andThen_eq_found h
  obtain ⟨version, _, -, h⟩ := andThen_eq_found h
  obtain ⟨_, _, -, h⟩ := andThen_eq_found h
  obtain ⟨fields, _, -, h⟩ := andThen_eq_found h
  obtain ⟨rfl, -⟩ := Scan.found.inj h
  exact (of_parseTarget htarget).1

theorem Request.all_isTarget_of_parse {b : Bytes} {r : Request} (h : Request.parse b = .ok r) :
    r.target.all isTarget = true := by
  unfold Request.parse at h
  split at h
  · cases h
  · cases h
  · rename_i parts left hscan
    split at h
    · obtain rfl := Except.ok.inj h
      exact all_isTarget_of_parseRequestHead hscan
    · cases h

/-- Header lines **as they are seen** by a reader: names as they are written, values without the
blanks around them. -/
def seenLines (h : Headers) : List Field :=
  h.fields.map fun f => ⟨Headers.writtenName f.name, Bytes.trim f.value⟩

/-- What a reader makes of **a request for a path**. -/
structure ReadAsSet (path : String) (r : Request) : Prop where
  method : r.method = Bytes.ascii "GET"
  version : r.version = .http11
  target : r.target = Utf8.encode (if path.isEmpty then "/" else path)
  /-- The header lines are read to the last byte, and none is added, dropped or changed. -/
  fields : parseFields maxFields r.headers.written = .found (seenLines r.headers) []
  /-- With a path of a request target, so is the start line. -/
  head : (Utf8.encode path).all isTarget = true →
    parseRequestHead r.written = .found ⟨r.method, r.target, .http11, seenLines r.headers⟩ []
  /-- Without one the reader never comes to the same request. -/
  request : (Utf8.encode path).all isTarget = true ↔
    Request.parse r.written = .ok { r with headers := r.headers.received }

/-- **A request is read as it was set.** Header lines are read as they were set, whatever host,
path, names and values are. The whole request is read back, up to the blanks around its values,
exactly when the path is made of the characters of a request target, and then to its last byte. -/
theorem parse_of_setHeaders {host path : String} {nonce : Bytes} {headers : List (String × String)}
    {built r : Request} (hbuild : Request.build host path nonce = .ok built)
    (hset : built.setHeaders headers = .ok r) (hfew : r.headers.fields.length ≤ maxFields) :
    ReadAsSet path r := by
  obtain ⟨hheaders, hmethod, htarget, hversion⟩ := Request.wellSet_of_build hbuild hset
  have hsendable : Sendable r.headers := ⟨hheaders.readable, hheaders.names, hfew⟩
  have htoken : r.method.all isToken = true := by rw [hmethod]; decide
  have hstart : r.method ≠ [] := by rw [hmethod]; decide
  have hvalid : Utf8.isValid r.target = true := by rw [htarget]; exact Utf8.isValid_encode _
  have hne : r.target ≠ [] := by
    rw [htarget]
    split
    · decide
    · rename_i hpath
      exact Utf8.encode_ne_nil (Bool.eq_false_iff.mpr hpath)
  have hpath : (Utf8.encode path).all isTarget = true ↔ r.target.all isTarget = true := by
    rw [htarget]
    split
    · rename_i hempty
      rw [String.isEmpty_iff.mp hempty]
      decide
    · exact Iff.rfl
  refine ⟨hmethod, hversion, htarget, parseFields_written hheaders.readable hfew, fun h => ?_,
    fun h => ?_, fun h => ?_⟩
  · exact Request.parseRequestHead_written htoken hstart (hpath.mp h) hne hvalid hsendable
  · exact Request.parse_written htoken hstart (hpath.mp h) hne hvalid hversion hsendable
  · have hread := Request.all_isTarget_of_parse h
    exact hpath.mpr hread

/-- The request for the host `h` and a path, with a key of sixteen zeros and some lines more. -/
def plainRequest (path : String) (more : List (HeaderKind × String)) : Request :=
  ⟨Bytes.ascii "GET", Utf8.encode (if path.isEmpty then "/" else path), .http11,
    lines ((fixedLines "h" (List.replicate 16 0) ++ more).map fun line =>
      (line.1, Utf8.encode line.2))⟩

theorem build_plainRequest (path : String) :
    Request.build "h" path (List.replicate 16 0) = .ok (plainRequest path []) :=
  Request.build_lines (by decide) path _

/-- An origin between blanks, with a tab in it, is set and read. -/
theorem parse_of_setHeaders_of_origin :
    let r := plainRequest "/chat" [(.origin, " a\tb ")]
    Request.build "h" "/chat" (List.replicate 16 0) = .ok (plainRequest "/chat" []) ∧
      (plainRequest "/chat" []).setHeaders [("Origin", " a\tb ")] = .ok r ∧
      r.headers.fields.length ≤ maxFields ∧ ReadAsSet "/chat" r := by
  have hset : (plainRequest "/chat" []).setHeaders [("Origin", " a\tb ")] =
      .ok (plainRequest "/chat" [(.origin, " a\tb ")]) :=
    Request.setHeaders_lines (l := [(.origin, " a\tb ")]) _ (by decide) (by decide)
  have hfew : (plainRequest "/chat" [(.origin, " a\tb ")]).headers.fields.length ≤ maxFields := by
    decide
  exact ⟨build_plainRequest _, hset, hfew, parse_of_setHeaders (build_plainRequest _) hset hfew⟩

/-- A path that **ends the start line** and goes on with a header line of its own. -/
def forgingPath : String := "/ HTTP/1.1\r\nX-Forged: 1\r\nX-Rest:"

/-- With such a path a request is built and **not read back**. -/
theorem not_parse_of_setHeaders :
    ¬∀ (host path : String) (nonce : Bytes) (headers : List (String × String)) (built r : Request),
      nonce.length = 16 → Request.build host path nonce = .ok built →
      built.setHeaders headers = .ok r → r.headers.fields.length ≤ maxFields →
      Request.parse r.written = .ok { r with headers := r.headers.received } := by
  intro hclaim
  have hread := hclaim "h" forgingPath (List.replicate 16 0) [] (plainRequest forgingPath []) _
    (by decide) (build_plainRequest _) rfl (by decide)
  have htarget := Request.all_isTarget_of_parse hread
  exact absurd htarget (by decide +kernel)

/-- The reader finds the forged line. -/
example : (Request.parse (plainRequest forgingPath []).written).toOption.bind
    (fun r => r.headers.get? (Bytes.ascii "x-forged")) = some (Bytes.ascii "1") := by
  decide +kernel

end Handshake

end WebSocket
