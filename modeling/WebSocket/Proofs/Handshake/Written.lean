import WebSocket.Handshake.Response
import WebSocket.Proofs.Handshake.Head

/-!
# Heads as they are written

A head is written line by line, with an empty line at the end. No line holds a carriage return of
its own: header lines are checked when they are set, and everything else is fixed, except for the
target of a request. So what is written is one head up to its last byte, as long as the target
stays in one line.

## Main results

* `Handshake.Request.InLines.isHead`: a request is written as **one head**.
* `Handshake.Response.isHead_accepting`: so is a response that accepts one.
-/

namespace WebSocket

namespace Http

/-- A byte string that **stays in one line**. -/
def OneLine (b : Bytes) : Prop := carriageReturn ∉ b

instance (b : Bytes) : Decidable (OneLine b) := inferInstanceAs (Decidable (_ ∉ _))

theorem OneLine.append {b c : Bytes} (hb : OneLine b) (hc : OneLine c) : OneLine (b ++ c) :=
  fun hmem => (List.mem_append.mp hmem).elim hb hc

theorem OneLine.cons {byte : UInt8} {b : Bytes} (hbyte : byte ≠ carriageReturn) (hb : OneLine b) :
    OneLine (byte :: b) :=
  fun hmem => (List.mem_cons.mp hmem).elim (fun heq => hbyte heq.symm) hb

/-- A class of bytes that leaves carriage returns out keeps in one line. -/
theorem OneLine.of_all {member : UInt8 → Bool} (hmember : member carriageReturn = false) {b : Bytes}
    (h : b.all member = true) : OneLine b := by
  intro hmem
  rw [List.all_eq_true.mp h _ hmem] at hmember
  cases hmember

theorem OneLine.mono {b c : Bytes} (hc : OneLine c) (h : ∀ byte ∈ b, byte ∈ c) : OneLine b :=
  fun hmem => hc (h _ hmem)

/-- Changing the case of letters makes no carriage return. -/
theorem OneLine.lower {b : Bytes} (h : OneLine b) : OneLine (Bytes.lower b) := by
  intro hmem
  obtain ⟨byte, hbyte, heq⟩ := List.mem_map.mp hmem
  have hsame : byte = carriageReturn := by
    unfold Bytes.lowerByte at heq
    split at heq
    · rename_i hcase
      simp only [carriageReturn, UInt8.le_iff_toNat_le, ← UInt8.toNat_inj, UInt8.toNat_add,
        UInt8.reduceToNat] at heq hcase
      omega
    · exact heq
  exact h (hsame ▸ hbyte)

theorem upperByte_ne {byte : UInt8} (h : byte ≠ carriageReturn) :
    Bytes.upperByte byte ≠ carriageReturn := by
  unfold Bytes.upperByte
  split
  · rename_i hcase
    intro heq
    have hle : (0x20 : UInt8) ≤ byte := by
      simp only [UInt8.le_iff_toNat_le, UInt8.reduceToNat] at hcase ⊢
      omega
    rw [← UInt8.toNat_inj, UInt8.toNat_sub_of_le _ _ hle] at heq
    simp only [carriageReturn, UInt8.le_iff_toNat_le, UInt8.reduceToNat] at heq hcase
    omega
  · exact h

/-- The parts of a byte string are made of its bytes. -/
theorem mem_of_mem_splitOn {separator : UInt8} {b part : Bytes}
    (hpart : part ∈ Bytes.splitOn separator b) {byte : UInt8} (hbyte : byte ∈ part) : byte ∈ b := by
  induction b generalizing part with
  | nil =>
      obtain rfl := List.mem_singleton.mp hpart
      cases hbyte
  | cons first b ih =>
      rw [Bytes.splitOn] at hpart
      split at hpart
      · obtain rfl := List.mem_singleton.mp hpart
        cases hbyte
      · rename_i front parts hsplit
        have hlater : ∀ {other : Bytes}, other ∈ front :: parts → byte ∈ other →
            byte ∈ first :: b := fun hother hin =>
          List.mem_cons_of_mem _ (ih (hsplit ▸ hother) hin)
        split at hpart
        · obtain rfl | hpart := List.mem_cons.mp hpart
          · cases hbyte
          · exact hlater hpart hbyte
        · obtain rfl | hpart := List.mem_cons.mp hpart
          · obtain rfl | hbyte := List.mem_cons.mp hbyte
            · exact List.mem_cons_self ..
            · exact hlater (List.mem_cons_self ..) hbyte
          · exact hlater (List.mem_cons_of_mem _ hpart) hbyte

theorem mem_of_mem_trim {b : Bytes} {byte : UInt8} (h : byte ∈ Bytes.trim b) : byte ∈ b := by
  have hfront := (List.dropWhile_sublist _).subset (List.mem_reverse.mp h)
  exact (List.dropWhile_sublist _).subset (List.mem_reverse.mp hfront)

/-- Parts that stay in one line stay in one line **together**. -/
theorem OneLine.intercalate {separator : Bytes} (hseparator : OneLine separator)
    {parts : List Bytes} (h : ∀ part ∈ parts, OneLine part) :
    OneLine (separator.intercalate parts) := by
  match parts with
  | [] => exact nofun
  | [part] => simpa using h part (List.mem_singleton_self part)
  | part :: next :: parts =>
      rw [List.intercalate_cons_cons]
      have hrest : OneLine (separator.intercalate (next :: parts)) :=
        hseparator.intercalate fun other hother => h other (List.mem_cons_of_mem _ hother)
      exact ((h part (List.mem_cons_self ..)).append hseparator).append hrest

/-- A name as it is written stays in one line. -/
theorem OneLine.writtenName {name : Bytes} (h : OneLine name) :
    OneLine (Headers.writtenName name) := by
  refine .intercalate (by decide) fun part hpart => ?_
  obtain ⟨source, hsource, rfl⟩ := List.mem_map.mp hpart
  have hline : OneLine source := h.mono fun _ => mem_of_mem_splitOn hsource
  unfold Headers.writtenPart
  split
  · decide
  · split
    · exact hline
    · rename_i first more _
      have hfirst : first ≠ carriageReturn := fun heq => hline (heq ▸ List.mem_cons_self ..)
      exact .cons (upperByte_ne hfirst) fun hmem => hline (List.mem_cons_of_mem _ hmem)

namespace Headers

/-- Header lines of which **each stays in one line**. -/
def OneLine (h : Headers) : Prop := ∀ f ∈ h.fields, Http.OneLine f.name ∧ Http.OneLine f.value

/-- A header that is set is the only new one. -/
theorem mem_insertField {field f : Field} {fields : List Field}
    (h : f ∈ insertField field fields) : f = field ∨ f ∈ fields := by
  induction fields with
  | nil => exact Or.inl (List.mem_singleton.mp h)
  | cons first fields ih =>
      rw [insertField] at h
      split at h
      · obtain rfl | h := List.mem_cons.mp h
        · exact Or.inl rfl
        · exact Or.inr (List.mem_cons_of_mem _ h)
      · obtain rfl | h := List.mem_cons.mp h
        · exact Or.inr (List.mem_cons_self ..)
        · exact (ih h).imp_right (List.mem_cons_of_mem _)

theorem OneLine.insert {h : Headers} (hh : h.OneLine) {name value : Bytes}
    (hname : Http.OneLine name) (hvalue : Http.OneLine value) : (h.insert name value).OneLine := by
  intro f hf
  obtain rfl | hf := mem_insertField hf
  · exact ⟨hname, hvalue⟩
  · exact hh f hf

/-- A value that is looked up is **one of the values**. -/
theorem OneLine.get? {h : Headers} (hh : h.OneLine) {name value : Bytes}
    (hvalue : h.get? name = some value) : Http.OneLine value := by
  obtain ⟨f, hfind, rfl⟩ := Option.map_eq_some_iff.mp hvalue
  exact (hh f (List.mem_of_find?_eq_some hfind)).2

end Headers

end Http

namespace Handshake

open Http

/-! ### Lines -/

/-- A byte string that is **one head**: the first empty line in it is its end. -/
def IsHead (b : Bytes) : Prop := headEnd? b = some b.length

instance (b : Bytes) : Decidable (IsHead b) :=
  inferInstanceAs (Decidable (headEnd? b = some b.length))

/-- What is read behind a head is **what stands behind it**. -/
theorem rest_of_isHead {b c head rest : Bytes} {limit : Nat} (h : IsHead b)
    (hdone : headProgress limit (b ++ c) = .done head rest) : rest = c := by
  have hend : headEnd? (b ++ c) = some b.length := headEndFrom_append h c
  unfold headProgress at hdone
  rw [hend] at hdone
  dsimp only at hdone
  split at hdone
  · cases hdone
  · rw [List.drop_left] at hdone
    exact (HeadProgress.done.inj hdone).2.symm

/-- A head that comes in pieces is **whole only when all of it has come**. -/
theorem headProgress_of_isPrefix {b head : Bytes} {limit : Nat} (h : IsHead head)
    (hlimit : head.length ≤ limit) (hfront : b <+: head) :
    headProgress limit b = if b = head then .done head [] else .wait := by
  by_cases heq : b = head
  · rw [if_pos heq, heq, headProgress, show headEnd? head = some head.length from h]
    dsimp only
    rw [if_neg (by omega), List.take_length, List.drop_length]
  · have hlength : b.length < head.length := by
      have hle := hfront.length_le
      have hne : b.length ≠ head.length := fun hsame => heq (hfront.eq_of_length hsame)
      omega
    have hnone : headEnd? b = none := by
      cases hend : headEnd? b with
      | none => rfl
      | some e =>
          -- an end that is found stays where it is, and the head ends with its last byte
          obtain ⟨more, rfl⟩ := hfront
          have hsame := (headEndFrom_append hend more).symm.trans h
          have hbound := (headEndFrom_bounds hend).2
          have heq : e = (b ++ more).length := Option.some.inj hsame
          omega
    rw [if_neg heq, headProgress, hnone]
    exact if_neg (by omega)

/-- A head does not end **inside a line**. -/
theorem headEndFrom_oneLine {line : Bytes} (h : OneLine line) (start : Nat) (more : Bytes) :
    headEndFrom start (line ++ more) = headEndFrom (start + line.length) more := by
  induction line generalizing start with
  | nil => rfl
  | cons byte line ih =>
      have hbyte : carriageReturn ≠ byte := fun heq => h (heq ▸ List.mem_cons_self ..)
      have hnot : (newline ++ newline).isPrefixOf (byte :: (line ++ more)) = false := by
        simp [newline, List.isPrefixOf, hbyte]
      rw [List.cons_append, headEndFrom, hnot, if_neg Bool.false_ne_true,
        ih fun hmem => h (List.mem_cons_of_mem _ hmem), List.length_cons]
      congr 1
      omega

/-- Nor does it end **at the end of a line**, if another line follows. -/
theorem headEndFrom_newline {byte : UInt8} (h : carriageReturn ≠ byte) (start : Nat)
    (more : Bytes) :
    headEndFrom start (newline ++ byte :: more) = headEndFrom (start + 2) (byte :: more) := by
  have hfeed : carriageReturn ≠ lineFeed := by decide
  simp [headEndFrom, newline, List.isPrefixOf, h, hfeed]

/-- **Lines with an empty line behind them** are one head. -/
theorem headEndFrom_lines {line : Bytes} {lines : List Bytes}
    (h : ∀ l ∈ line :: lines, OneLine l ∧ l ≠ []) (start : Nat) :
    headEndFrom start ((line :: lines).flatMap (· ++ newline) ++ newline) =
      some (start + ((line :: lines).flatMap (· ++ newline) ++ newline).length) := by
  induction lines generalizing line start with
  | nil =>
      have hline := (h line (List.mem_singleton_self line)).1
      simp only [List.flatMap_singleton, List.append_assoc]
      rw [headEndFrom_oneLine hline]
      simp [headEndFrom, newline, List.isPrefixOf, Nat.add_assoc]
  | cons next lines ih =>
      obtain ⟨hline, -⟩ := h line (List.mem_cons_self ..)
      have hrest : ∀ l ∈ next :: lines, OneLine l ∧ l ≠ [] := fun l hl =>
        h l (List.mem_cons_of_mem _ hl)
      obtain ⟨hnext, hne⟩ := hrest next (List.mem_cons_self ..)
      have hlater := ih hrest (start + line.length + 2)
      obtain ⟨byte, tail, rfl⟩ := List.exists_cons_of_ne_nil hne
      have hbyte : carriageReturn ≠ byte := fun heq => hnext (heq ▸ List.mem_cons_self ..)
      rw [List.flatMap_cons, List.append_assoc, List.append_assoc, headEndFrom_oneLine hline]
      simp only [List.flatMap_cons, List.cons_append] at hlater ⊢
      rw [headEndFrom_newline hbyte, hlater]
      simp only [List.length_append, List.length_cons]
      have htwo : newline.length = 2 := rfl
      congr 1
      omega

/-- **A start line and header lines** that each stay in one line are one head. -/
theorem isHead_of_lines {start : Bytes} (hstart : OneLine start) (hne : start ≠ [])
    {headers : Headers} (hheaders : headers.OneLine) :
    IsHead (start ++ (newline ++ headers.written)) := by
  have hlines : start ++ (newline ++ headers.written) =
      (start :: headers.fields.map fun f =>
        Headers.writtenName f.name ++ colon :: space :: f.value).flatMap (· ++ newline) ++
          newline := by
    simp only [List.flatMap_cons, List.flatMap_map, Headers.written, List.append_assoc,
      List.cons_append]
    rfl
  rw [IsHead, headEnd?, hlines, headEndFrom_lines, Nat.zero_add]
  intro line hline
  obtain rfl | hline := List.mem_cons.mp hline
  · exact ⟨hstart, hne⟩
  · obtain ⟨f, hf, rfl⟩ := List.mem_map.mp hline
    obtain ⟨hname, hvalue⟩ := hheaders f hf
    exact ⟨hname.writtenName.append (.cons (by decide) (.cons (by decide) hvalue)), by simp⟩

/-! ### Requests -/

/-- A header is set if its name is a token and its value **stays in its line**. -/
theorem setHeader_eq_ok {headers headers' : Headers} {name value : String} :
    setHeader headers name value = .ok headers' ↔ Headers.isName (Utf8.encode name) = true ∧
      Headers.isValue (Utf8.encode value) = true ∧
        headers.insert (Bytes.lower (Utf8.encode name)) (Utf8.encode value) = headers' := by
  unfold setHeader
  by_cases hname : Headers.isName (Utf8.encode name) = true
  · by_cases hvalue : Headers.isValue (Utf8.encode value) = true <;> simp [hname, hvalue]
  · simp [hname]

theorem oneLine_setHeader {headers headers' : Headers} {name value : String}
    (hset : setHeader headers name value = .ok headers') (h : headers.OneLine) :
    headers'.OneLine := by
  obtain ⟨hname, hvalue, rfl⟩ := setHeader_eq_ok.mp hset
  simp only [Headers.isName, Bool.and_eq_true] at hname
  exact h.insert (OneLine.of_all (by decide) hname.2).lower (.of_all (by decide) hvalue)

namespace Request

/-- A request that is written in lines: its header lines are in one line each, and so is its start
line. -/
structure InLines (r : Request) : Prop where
  method : OneLine r.method
  target : OneLine r.target
  headers : r.headers.OneLine

/-- What setting **one header** keeps, setting several keeps; the start line stays as it is. -/
theorem setHeaders_induction {P : Headers → Prop}
    (hstep : ∀ {h h' name value}, Handshake.setHeader h name value = .ok h' → P h → P h')
    {r r' : Request} {headers : List (String × String)} (hset : r.setHeaders headers = .ok r')
    (h : P r.headers) :
    P r'.headers ∧ r'.method = r.method ∧ r'.target = r.target ∧ r'.version = r.version := by
  induction headers generalizing r with
  | nil =>
      obtain rfl := Except.ok.inj hset
      exact ⟨h, rfl, rfl, rfl⟩
  | cons header headers ih =>
      obtain ⟨name, value⟩ := header
      rw [Request.setHeaders, List.foldlM_cons] at hset
      dsimp only at hset
      cases hfirst : r.setHeader name value with
      | error failure =>
          rw [hfirst] at hset
          cases hset
      | ok r₁ =>
          rw [hfirst] at hset
          simp only [setHeader] at hfirst
          split at hfirst
          · rename_i headers₁ hset₁
            obtain rfl := Except.ok.inj hfirst
            exact ih (r := { r with headers := headers₁ }) hset (hstep hset₁ h)
          · cases hfirst

theorem InLines.setHeaders {r r' : Request} {headers : List (String × String)}
    (hset : r.setHeaders headers = .ok r') (h : r.InLines) : r'.InLines := by
  obtain ⟨hheaders, hmethod, htarget, -⟩ := setHeaders_induction oneLine_setHeader hset h.headers
  exact ⟨hmethod ▸ h.method, htarget ▸ h.target, hheaders⟩

/-- A request that is written in lines is written as **one head**. -/
theorem InLines.isHead {r : Request} (h : r.InLines) : IsHead r.written := by
  have hwritten : r.written = (r.method ++ space :: (r.target ++ space ::
      Bytes.ascii Version.http11.text)) ++ (newline ++ r.headers.written) := by
    simp [written]
  rw [hwritten]
  have hversion : OneLine (Bytes.ascii Version.http11.text) := by decide
  refine isHead_of_lines ?_ (by simp) h.headers
  exact h.method.append (.cons (by decide) (h.target.append (.cons (by decide) hversion)))

/-- A request that was built is written in lines, if its **path stays in one line**. -/
theorem inLines_build {host path : String} {nonce : Bytes} {r : Request}
    (hbuild : build host path nonce = .ok r) (hpath : OneLine (Utf8.encode path)) : r.InLines := by
  have hmethod : OneLine (Bytes.ascii "GET") := by decide
  refine InLines.setHeaders hbuild ⟨hmethod, ?_, nofun⟩
  show OneLine (Utf8.encode (if path.isEmpty then "/" else path))
  split
  · decide
  · exact hpath

end Request

/-! ### Responses -/

/-- Text that is read from a header stays in one line. -/
theorem oneLine_headerText? {headers : Headers} {kind : HeaderKind} {value : Bytes}
    (h : headerText? headers kind = some value) : OneLine value := by
  unfold headerText? at h
  split at h
  · split at h
    · rename_i hvisible
      obtain rfl := Option.some.inj h
      exact .of_all (by decide) hvisible
    · cases h
  · cases h

/-- A subprotocol that was offered stays in one line. -/
theorem Request.oneLine_protocols {r : Request} {p : Bytes} (h : p ∈ r.protocols) : OneLine p := by
  unfold Request.protocols at h
  split at h
  · cases h
  · rename_i list hlist
    obtain ⟨part, hpart, rfl⟩ := List.mem_map.mp (List.mem_filter.mp h).1
    exact (oneLine_headerText? hlist).mono fun _ hbyte =>
      mem_of_mem_splitOn hpart (mem_of_mem_trim hbyte)

theorem digit_ne_carriageReturn (n : Nat) : Base64.digit n ≠ carriageReturn := by
  by_cases hn : n < 62
  · have hall : ∀ k : Fin 62, Base64.digit k ≠ carriageReturn := by decide
    exact hall ⟨n, hn⟩
  · have hrest : Base64.digit n = 0x2B ∨ Base64.digit n = 0x2F := by
      unfold Base64.digit
      rw [if_neg (by omega), if_neg (by omega), if_neg hn]
      split
      · exact Or.inl rfl
      · exact Or.inr rfl
    obtain heq | heq := hrest <;> rw [heq] <;> decide

/-- What is written in digits stays in one line. -/
theorem oneLine_base64 (b : Bytes) : OneLine (Base64.encode b) := by
  have hfilling : OneLine [Base64.filling] := by decide
  have hfillings : OneLine [Base64.filling, Base64.filling] := by decide
  have hdigits := digit_ne_carriageReturn
  induction b using Base64.encode.induct with
  | case1 => exact nofun
  | case2 => exact .cons (hdigits _) (.cons (hdigits _) hfillings)
  | case3 => exact .cons (hdigits _) (.cons (hdigits _) (.cons (hdigits _) hfilling))
  | case4 a b c rest ih =>
      exact .cons (hdigits _) (.cons (hdigits _) (.cons (hdigits _) (.cons (hdigits _) ih)))

namespace Response

/-- A response is written in lines if the **values of its headers** are. -/
theorem oneLine_make {status : Nat} {reason : String} {headers : List (HeaderKind × Bytes)}
    (h : ∀ header ∈ headers, OneLine header.2) : (make status reason headers).headers.OneLine := by
  have hname : ∀ kind : HeaderKind, OneLine kind.name := by
    intro kind
    cases kind <;> decide
  suffices hall : ∀ start : Headers, start.OneLine → (headers.foldl
      (fun h header => h.insert header.1.name header.2) start).OneLine from
    hall Headers.empty (fun _ hf => absurd hf List.not_mem_nil)
  induction headers with
  | nil => exact fun _ hstart => hstart
  | cons header headers ih =>
      obtain ⟨hfirst, hrest⟩ := List.forall_mem_cons.mp h
      exact fun start hstart => ih hrest _ (hstart.insert (hname header.1) hfirst)

/-- A response is **one head** if its status line and its headers are in lines. -/
theorem isHead_make {status : Nat} {reason : String} {headers : List (HeaderKind × Bytes)}
    (hstart : OneLine (Bytes.ascii Version.http11.text ++ space ::
      (Bytes.ascii (toString status) ++ space :: Bytes.ascii reason)))
    (h : ∀ header ∈ headers, OneLine header.2) : IsHead (make status reason headers).written := by
  have hheaders : (make status reason headers).headers.OneLine := oneLine_make h
  have hhead := isHead_of_lines hstart (by simp) hheaders
  simp only [List.append_assoc, List.cons_append] at hhead
  exact hhead

/-- **A response that accepts a request** is written as one head. -/
theorem isHead_accepting {request : Request} {supported : List String} {r : Response}
    (h : accepting request supported = .ok r) : IsHead r.written := by
  unfold accepting at h
  split at h
  · cases h
  · obtain rfl := Except.ok.inj h
    refine isHead_make (by decide) fun header hheader => ?_
    obtain hfixed | hchosen := List.mem_append.mp hheader
    · simp only [List.mem_cons, List.not_mem_nil, or_false] at hfixed
      obtain rfl | rfl | rfl := hfixed
      · decide
      · decide
      · exact oneLine_base64 _
    · obtain ⟨p, hp, rfl⟩ := List.mem_map.mp hchosen
      exact Request.oneLine_protocols (List.mem_of_find?_eq_some (Option.mem_toList.mp hp))

/-- So is a response that **turns one down**. -/
theorem isHead_rejecting (failure : Failure) : IsHead (rejecting failure).written := by
  unfold rejecting
  split <;> exact isHead_make (by decide) (by decide)

end Response

end Handshake

end WebSocket
