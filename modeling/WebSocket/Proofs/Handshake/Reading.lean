import WebSocket.Handshake.Response
import WebSocket.Proofs.Handshake.Values
import Mathlib.Data.List.Nodup

/-!
# Heads are read as they were written

A head that one end writes is read by the other. What is read is what was written, except that the
blanks around the values of header lines are gone: `Http.Headers.received` is the header lines as
they arrive. The parts of a start line are told apart by the first byte that cannot belong to them,
and so are the parts of a header line; what stands behind a part is what stood behind it when it was
written.

## Main results

* `Http.parseFields_written`: header lines are **read as they were written**.
* `Handshake.Request.parse_written`: so is a request.
* `Handshake.Response.parse_written`: so is a response.
-/

namespace WebSocket

namespace Http

/-! ### Start lines -/

/-- Reading a part ends **at the first byte that does not belong to it**. -/
theorem parseUntil_append {member : UInt8 → Bool} {part rest : Bytes} {next : UInt8}
    (hpart : part.all member = true) (hnext : member next = false) :
    parseUntil member (part ++ next :: rest) = .found (part, next) rest := by
  have hall := List.all_eq_true.mp hpart
  rw [parseUntil, List.dropWhile_append_of_pos hall, List.takeWhile_append_of_pos hall,
    List.dropWhile_cons_of_neg (by simp [hnext]), List.takeWhile_cons_of_neg (by simp [hnext]),
    List.append_nil]

theorem parseMethod_append {method : Bytes} (hmethod : method.all isToken = true)
    (hne : method ≠ []) (rest : Bytes) :
    parseMethod (method ++ space :: rest) = .found method rest := by
  rw [parseMethod, parseUntil_append hmethod (by decide)]
  exact if_pos ⟨rfl, hne⟩

theorem parseTarget_append {target : Bytes} (htarget : target.all isTarget = true)
    (hne : target ≠ []) (hvalid : Utf8.isValid target = true) (rest : Bytes) :
    parseTarget (target ++ space :: rest) = .found target rest := by
  rw [parseTarget, parseUntil_append htarget (by decide)]
  exact if_pos ⟨rfl, hne, hvalid⟩

theorem parseVersion_append (rest : Bytes) :
    parseVersion (Bytes.ascii Version.http11.text ++ rest) = .found .http11 rest := by
  have hsplit : Bytes.split? 8 (Bytes.ascii Version.http11.text ++ rest) =
      some (Bytes.ascii Version.http11.text, rest) :=
    (Bytes.split?_eq_some ..).mpr ⟨by decide, rfl⟩
  rw [parseVersion, hsplit]
  rfl

/-- A digit **is read as the number that it was written for**. -/
theorem digit_written {d : Nat} (h : d < 10) :
    isDigit (UInt8.ofNat (Nat.digitChar d).toNat) = true ∧
      (UInt8.ofNat (Nat.digitChar d).toNat).toNat - 0x30 = d := by
  have hall : ∀ k : Fin 10, isDigit (UInt8.ofNat (Nat.digitChar k).toNat) = true ∧
      (UInt8.ofNat (Nat.digitChar k).toNat).toNat - 0x30 = k := by decide
  exact hall ⟨d, h⟩

/-- A status from 100 to 999 is written in **three digits**. -/
theorem toDigits_status {status : Nat} (hlow : 100 ≤ status) (hhigh : status < 1000) :
    Nat.toDigits 10 status = [Nat.digitChar (status / 100), Nat.digitChar (status / 10 % 10),
      Nat.digitChar (status % 10)] := by
  have hhundreds : status / 10 / 10 = status / 100 := Nat.div_div_eq_div_mul ..
  rw [Nat.toDigits_of_base_le (by decide) (by omega),
    Nat.toDigits_of_base_le (by decide) (by omega), Nat.toDigits_of_lt_base (by omega), hhundreds]
  rfl

theorem parseStatus_append {status : Nat} (hlow : 100 ≤ status) (hhigh : status < 1000)
    (rest : Bytes) : parseStatus (Bytes.ascii (toString status) ++ rest) = .found status rest := by
  obtain ⟨hhundreds, hhundreds'⟩ := digit_written (show status / 100 < 10 by omega)
  obtain ⟨htens, htens'⟩ := digit_written (show status / 10 % 10 < 10 by omega)
  obtain ⟨hones, hones'⟩ := digit_written (show status % 10 < 10 by omega)
  have hvalue : 10 * (10 * (10 * 0 + status / 100) + status / 10 % 10) + status % 10 = status := by
    omega
  rw [Bytes.ascii, Nat.toString_eq_repr, Nat.repr, String.toList_ofList,
    toDigits_status hlow hhigh]
  simp only [parseStatus, Bytes.split?, List.map_cons, List.map_nil, List.cons_append,
    List.nil_append, List.take_succ_cons, List.take_zero, List.drop_succ_cons, List.drop_zero,
    List.length_cons, List.length_nil, List.all_cons, List.all_nil, List.foldl_cons, List.foldl_nil,
    hhundreds, htens, hones, hhundreds', htens', hones', hvalue, Bool.and_self, if_true]

theorem parseLineEnd_append (flaw : Flaw) (rest : Bytes) :
    parseLineEnd flaw (newline ++ rest) = .found () rest := rfl

/-- A start line that begins with a character **has no empty line in front of it**. -/
theorem skipEmptyLines_cons {byte : UInt8} (hfeed : byte ≠ lineFeed)
    (hreturn : byte ≠ carriageReturn) (rest : Bytes) :
    skipEmptyLines (byte :: rest) = .found () (byte :: rest) := by
  rw [skipEmptyLines.eq_def]
  exact (if_neg hfeed).trans (if_neg hreturn)

/-- Reading a class of bytes ends **at the end of its line**. -/
theorem takeWhile_line {member : UInt8 → Bool} (hmember : member carriageReturn = false)
    {part : Bytes} (hpart : part.all member = true) (rest : Bytes) :
    (part ++ (newline ++ rest)).takeWhile member = part ∧
      (part ++ (newline ++ rest)).dropWhile member = newline ++ rest := by
  have hall := List.all_eq_true.mp hpart
  rw [List.takeWhile_append_of_pos hall, List.dropWhile_append_of_pos hall, newline,
    List.cons_append, List.takeWhile_cons_of_neg (by simp [hmember]),
    List.dropWhile_cons_of_neg (by simp [hmember]), List.append_nil]
  exact ⟨rfl, rfl⟩

/-- Whatever can be read as ASCII can stand **in a line**. -/
theorem isText_of_isVisible {byte : UInt8} (h : isVisible byte = true) : isText byte = true := by
  simp only [isVisible, isText, Bool.or_eq_true, Bool.and_eq_true, decide_eq_true_eq, ne_eq] at h ⊢
  refine h.imp_right fun ⟨hlow, hhigh⟩ => ⟨hlow, ?_⟩
  rintro rfl
  exact absurd hhigh (by decide)

theorem parseAfterStatus_append {reason : Bytes} (hreason : reason.all isVisible = true)
    (rest : Bytes) :
    parseAfterStatus (space :: (reason ++ (newline ++ rest))) = .found reason rest := by
  have htext : reason.all isText = true := List.all_eq_true.mpr fun byte hbyte =>
    isText_of_isVisible (List.all_eq_true.mp hreason byte hbyte)
  obtain ⟨htake, hdrop⟩ := takeWhile_line (by decide) htext rest
  rw [parseAfterStatus, if_pos rfl, parseReason, htake, hdrop, parseLineEnd_append, if_pos hreason]
  rfl

/-! ### Header lines -/

namespace Headers

/-- A header line that can be **read as it is written**: the name keeps its letters, and the value
stays in its line. -/
structure Readable (f : Field) : Prop where
  name : isName (writtenName f.name) = true
  lower : Bytes.lower (writtenName f.name) = f.name
  value : isValue f.value = true

/-- Header lines **as they arrive**: without the blanks around their values. -/
def received (h : Headers) : Headers := ⟨h.fields.map fun f => ⟨f.name, Bytes.trim f.value⟩⟩

/-- A new header line stands **behind all the others**. -/
theorem insertField_of_notMem {field : Field} {fields : List Field}
    (h : field.name ∉ fields.map Field.name) : insertField field fields = fields ++ [field] := by
  induction fields with
  | nil => rfl
  | cons f fields ih =>
      obtain ⟨hne, hmore⟩ := not_or.mp (mt List.mem_cons.mpr h)
      have hother : (f.name == field.name) = false := beq_eq_false_iff_ne.mpr (Ne.symm hne)
      rw [insertField, hother, if_neg Bool.false_ne_true, ih hmore, List.cons_append]

end Headers

theorem parseName_append {name : Bytes} (hname : Headers.isName name = true) (rest : Bytes) :
    parseName (name ++ colon :: rest) = .found name rest := by
  simp only [Headers.isName, Bool.and_eq_true] at hname
  rw [parseName, parseUntil_append hname.2 (by decide)]
  exact if_pos ⟨rfl, by simpa using hname.1.1⟩

/-- A value is read **without the blanks around it**, one of which is written in front. -/
theorem parseValue_append {value : Bytes} (hvalue : Headers.isValue value = true) (rest : Bytes) :
    parseValue (space :: (value ++ (newline ++ rest))) = .found (Bytes.trim value) rest := by
  have hline : (space :: value).all isText = true := by
    rw [List.all_cons]
    exact hvalue
  obtain ⟨htake, hdrop⟩ := takeWhile_line (by decide) hline rest
  have hblank : Bytes.Blank [space] := List.forall_mem_singleton.mpr rfl
  have htrim : Bytes.trim (space :: value) = Bytes.trim value := Bytes.trim_append_left hblank value
  rw [parseValue, ← List.cons_append, htake, hdrop, parseLineEnd_append, htrim]
  rfl

/-- **Header lines are read as they were written**, up to the empty line behind them. -/
theorem parseFields_written {fields : List Field} (h : ∀ f ∈ fields, Headers.Readable f)
    {slots : Nat} (hslots : fields.length ≤ slots) :
    parseFields slots (Headers.written ⟨fields⟩) = .found
      (fields.map fun f => ⟨Headers.writtenName f.name, Bytes.trim f.value⟩) [] := by
  induction fields generalizing slots with
  | nil => cases slots <;> rfl
  | cons f fields ih =>
      obtain ⟨hfirst, hmore⟩ := List.forall_mem_cons.mp h
      obtain ⟨slots, rfl⟩ :=
        Nat.exists_eq_add_of_le' (Nat.lt_of_lt_of_le (Nat.zero_lt_succ _) hslots)
      have hwritten : Headers.written ⟨f :: fields⟩ = Headers.writtenName f.name ++
          colon :: space :: (f.value ++ (newline ++ Headers.written ⟨fields⟩)) := by
        simp [Headers.written, Headers.writtenField]
      have hname := hfirst.name
      simp only [Headers.isName, Bool.and_eq_true] at hname
      obtain ⟨byte, name, hcons⟩ := List.exists_cons_of_ne_nil
        (show Headers.writtenName f.name ≠ [] by simpa using hname.1.1)
      have htoken : isToken byte = true := by
        rw [hcons] at hname
        exact List.all_eq_true.mp hname.2 byte (List.mem_cons_self ..)
      -- a line that begins with a character of a name is not the empty one
      have hstart : ¬(byte = carriageReturn ∨ byte = lineFeed) := by
        rintro (rfl | rfl) <;> cases htoken
      have hrest := ih hmore (show fields.length ≤ slots by simpa using hslots)
      have hline := parseName_append hfirst.name
        (space :: (f.value ++ (newline ++ Headers.written ⟨fields⟩)))
      rw [hwritten]
      rw [hcons, List.cons_append] at hline ⊢
      rw [parseFields, if_neg hstart, hline]
      simp only [Scan.andThen, parseValue_append hfirst.value, hrest, Scan.map, List.map_cons,
        hcons]

end Http

namespace Handshake

open Http

/-- Header lines that are read are **collected under the names that they were set under**. -/
theorem collectFields_written {fields : List Field} (h : ∀ f ∈ fields, Headers.Readable f)
    (hnames : (fields.map Field.name).Nodup) :
    collectFields (fields.map fun f => ⟨Headers.writtenName f.name, Bytes.trim f.value⟩) =
      .ok (Headers.received ⟨fields⟩) := by
  suffices hall : ∀ before : List Field, (before.map Field.name ++ fields.map Field.name).Nodup →
      (fields.map fun f => (⟨Headers.writtenName f.name, Bytes.trim f.value⟩ : Field)).foldlM
        (fun (headers : Headers) field =>
          if Headers.isName field.name then
            Except.ok (headers.insert (Bytes.lower field.name) field.value)
          else Except.error (Failure.malformedHeader (Bytes.asciiText field.name))) ⟨before⟩ =
      Except.ok ⟨before ++ (Headers.received ⟨fields⟩).fields⟩ from
    hall [] hnames
  clear hnames
  induction fields with
  | nil =>
      intro before _
      simp [Headers.received, pure, Except.pure]
  | cons f fields ih =>
      intro before hnames
      obtain ⟨hfirst, hmore⟩ := List.forall_mem_cons.mp h
      have hnew : f.name ∉ before.map Field.name := fun hmem =>
        List.disjoint_of_nodup_append hnames hmem (List.mem_cons_self ..)
      have hinsert : (⟨before⟩ : Headers).insert f.name (Bytes.trim f.value) =
          ⟨before ++ [⟨f.name, Bytes.trim f.value⟩]⟩ :=
        congrArg Headers.mk (Headers.insertField_of_notMem hnew)
      have hlater := ih hmore (before ++ [⟨f.name, Bytes.trim f.value⟩])
        (by simpa using hnames)
      rw [List.map_cons, List.foldlM_cons, hfirst.name, if_pos rfl, hfirst.lower, hinsert]
      refine hlater.trans ?_
      simp [Headers.received]

/-- Header lines that can be written **for the other end**: each can be read, no name comes twice,
and there are not too many. -/
structure Sendable (h : Headers) : Prop where
  readable : ∀ f ∈ h.fields, Headers.Readable f
  names : (h.fields.map Field.name).Nodup
  few : h.fields.length ≤ maxFields

/-- The head of a request is read **to its end**, each line as it was written. -/
theorem Request.parseRequestHead_written {r : Request} (hmethod : r.method.all isToken = true)
    (hstart : r.method ≠ []) (htarget : r.target.all isTarget = true) (hne : r.target ≠ [])
    (hvalid : Utf8.isValid r.target = true) (hheaders : Sendable r.headers) :
    parseRequestHead r.written = .found ⟨r.method, r.target, .http11,
      r.headers.fields.map fun f => ⟨Headers.writtenName f.name, Bytes.trim f.value⟩⟩ [] := by
  obtain ⟨byte, method, hcons⟩ := List.exists_cons_of_ne_nil hstart
  have htoken : isToken byte = true := by
    rw [hcons] at hmethod
    exact List.all_eq_true.mp hmethod byte (List.mem_cons_self ..)
  have hskip : skipEmptyLines r.written = .found () r.written := by
    rw [written, hcons, List.cons_append]
    refine skipEmptyLines_cons ?_ ?_ _ <;> rintro rfl <;> cases htoken
  rw [parseRequestHead, hskip]
  simp only [Scan.andThen, Scan.map, written, parseMethod_append hmethod hstart,
    parseTarget_append htarget hne hvalid, parseVersion_append, parseLineEnd_append]
  rw [show r.headers.written = Headers.written ⟨r.headers.fields⟩ from rfl,
    parseFields_written hheaders.readable hheaders.few]

/-- **A request is read as it was written.** -/
theorem Request.parse_written {r : Request} (hmethod : r.method.all isToken = true)
    (hstart : r.method ≠ []) (htarget : r.target.all isTarget = true) (hne : r.target ≠ [])
    (hvalid : Utf8.isValid r.target = true) (hversion : r.version = .http11)
    (hheaders : Sendable r.headers) :
    parse r.written = .ok { r with headers := r.headers.received } := by
  rw [parse, parseRequestHead_written hmethod hstart htarget hne hvalid hheaders]
  simp only [collectFields_written hheaders.readable hheaders.names]
  rw [hversion]

/-- **A response is read as it was written**, with any status of three digits. -/
theorem Response.parse_written {r : Response} (hlow : 100 ≤ r.status) (hhigh : r.status < 1000)
    (hreason : r.reason.all isVisible = true) (hheaders : Sendable r.headers) :
    parse r.written = .ok { r with headers := r.headers.received } := by
  have hskip : skipEmptyLines r.written = .found () r.written := by
    have hstart : Bytes.ascii Version.http11.text = 0x48 :: Bytes.ascii "TTP/1.1" := by decide
    rw [written, hstart, List.cons_append]
    exact skipEmptyLines_cons (by decide) (by decide) _
  have hhead : parseResponseHead r.written = .found ⟨.http11, r.status, r.reason,
      r.headers.fields.map fun f => ⟨Headers.writtenName f.name, Bytes.trim f.value⟩⟩ [] := by
    rw [parseResponseHead, hskip]
    simp only [Scan.andThen, Scan.map, written, parseVersion_append,
      parseStatus_append hlow hhigh, parseAfterStatus_append hreason, ne_eq, not_true_eq_false,
      if_false]
    rw [show r.headers.written = Headers.written ⟨r.headers.fields⟩ from rfl,
      parseFields_written hheaders.readable hheaders.few]
  rw [parse, hhead]
  simp only [Nat.not_lt.mpr hlow, if_false,
    collectFields_written hheaders.readable hheaders.names]

end Handshake

end WebSocket
