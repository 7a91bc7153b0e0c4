import WebSocket.Proofs.Handshake.Extent
import WebSocket.Proofs.Handshake.Requests

/-!
# How heads are laid out

One head can be written in many ways. Empty lines may stand in front, each line ends in one of two
ways, and a header value stands between blanks. A *layout* is a head together with all of this. The
readers are described by layouts in both directions: what they accept is the layout of some head,
and of a layout they find its start line and its header lines, whatever stands behind it.

Each part of a line is described by an equivalence, `..._eq_found`: the bytes that a reader finds a
thing in are the thing as it is written, followed by the rest. A start line has no line end in it.
So the bytes up to the first line end are the start line, and every layout of these bytes has it.

## Main results

* `Http.parseRequestHead_eq_found`, `Http.parseResponseHead_eq_found`: a head is read exactly if its
  first line is a start line and **header lines stand behind it**.
* `Http.parseFields_lines`: header lines are read **whatever their layout**, if there is room.
* `Http.Layout.exists_of_parseRequestHead`, `Http.Layout.exists_of_parseResponseHead`: whatever is
  read **has a layout**.
-/

namespace WebSocket

namespace Scan

variable {ε α β : Type} {s : Scan ε α} {value : β} {rest : Bytes}

theorem andThen_eq_found_iff {next : α → Bytes → Scan ε β} :
    s.andThen next = .found value rest ↔
      ∃ first behind, s = .found first behind ∧ next first behind = .found value rest := by
  refine ⟨Handshake.andThen_eq_found, ?_⟩
  rintro ⟨first, behind, rfl, h⟩
  exact h

theorem map_eq_found_iff {f : α → β} :
    s.map f = .found value rest ↔ ∃ first, s = .found first rest ∧ value = f first := by
  rw [map, andThen_eq_found_iff]
  constructor
  · rintro ⟨first, behind, hs, h⟩
    obtain ⟨rfl, rfl⟩ := found.inj h
    exact ⟨first, hs, rfl⟩
  · rintro ⟨first, hs, rfl⟩
    exact ⟨first, rest, hs, rfl⟩

end Scan

namespace Http

variable {b part rest : Bytes} {member : UInt8 → Bool} {flaw : Flaw}

/-! ### Line ends -/

/-- How **a line ends**: with both bytes, or with a line feed alone. -/
inductive LineEnd where
  | full
  | bare
  deriving DecidableEq, Repr

/-- The bytes of a line end. -/
def LineEnd.bytes : LineEnd → Bytes
  | full => newline
  | bare => [lineFeed]

/-- A byte string **without a line end** in it. -/
def Unbroken (b : Bytes) : Prop := OneLine b ∧ lineFeed ∉ b

instance (b : Bytes) : Decidable (Unbroken b) := inferInstanceAs (Decidable (_ ∧ _))

theorem Unbroken.append {c : Bytes} (hb : Unbroken b) (hc : Unbroken c) : Unbroken (b ++ c) :=
  ⟨hb.1.append hc.1, fun hmem => (List.mem_append.mp hmem).elim hb.2 hc.2⟩

theorem Unbroken.of_all (hreturn : member carriageReturn = false) (hfeed : member lineFeed = false)
    (h : b.all member = true) : Unbroken b := by
  refine ⟨.of_all hreturn h, fun hmem => ?_⟩
  rw [List.all_eq_true.mp h _ hmem] at hfeed
  cases hfeed

theorem parseLineEnd_eq_found :
    parseLineEnd flaw b = .found () rest ↔ ∃ e : LineEnd, b = e.bytes ++ rest := by
  constructor
  · intro h
    unfold parseLineEnd at h
    split at h
    · cases h
    · split at h
      · rename_i hfeed
        obtain ⟨-, rfl⟩ := Scan.found.inj h
        exact ⟨.bare, by rw [hfeed]; rfl⟩
      · split at h
        · rename_i hreturn
          split at h
          · cases h
          · split at h
            · rename_i hfeed
              obtain ⟨-, rfl⟩ := Scan.found.inj h
              exact ⟨.full, by rw [hreturn, hfeed]; rfl⟩
            · cases h
        · cases h
  · rintro ⟨e, rfl⟩
    cases e <;> rfl

theorem LineEnd.bytes_append_inj {e e' : LineEnd} {rest' : Bytes}
    (h : e.bytes ++ rest = e'.bytes ++ rest') : rest = rest' := by
  have hleft : parseLineEnd .newLine (e.bytes ++ rest) = .found () rest :=
    parseLineEnd_eq_found.mpr ⟨e, rfl⟩
  have hright : parseLineEnd .newLine (e'.bytes ++ rest') = .found () rest' :=
    parseLineEnd_eq_found.mpr ⟨e', rfl⟩
  rw [h, hright] at hleft
  exact (Scan.found.inj hleft).2.symm

/-- A class of bytes without line ends is read **up to the end of the line**. -/
theorem takeWhile_lineEnd (hreturn : member carriageReturn = false)
    (hfeed : member lineFeed = false) (hpart : ∀ byte ∈ part, member byte = true) (e : LineEnd)
    (rest : Bytes) : (part ++ (e.bytes ++ rest)).takeWhile member = part ∧
      (part ++ (e.bytes ++ rest)).dropWhile member = e.bytes ++ rest := by
  rw [List.takeWhile_append_of_pos hpart, List.dropWhile_append_of_pos hpart]
  cases e <;> simp [LineEnd.bytes, newline, hreturn, hfeed]

/-- A line is told by **its first line end**. -/
theorem Unbroken.line_inj {line line' rest' : Bytes} {e e' : LineEnd} (h : Unbroken line)
    (h' : Unbroken line') (heq : line ++ (e.bytes ++ rest) = line' ++ (e'.bytes ++ rest')) :
    line = line' ∧ rest = rest' := by
  let inLine : UInt8 → Bool := fun byte => byte != carriageReturn && byte != lineFeed
  have hall : ∀ {l : Bytes}, Unbroken l → ∀ byte ∈ l, inLine byte = true := by
    intro l hl byte hbyte
    have hreturn : byte ≠ carriageReturn := fun heq => hl.1 (heq ▸ hbyte)
    have hfeed : byte ≠ lineFeed := fun heq => hl.2 (heq ▸ hbyte)
    simp [inLine, hreturn, hfeed]
  obtain ⟨htake, hdrop⟩ := takeWhile_lineEnd (by decide) (by decide) (hall h) e rest
  obtain ⟨htake', hdrop'⟩ := takeWhile_lineEnd (by decide) (by decide) (hall h') e' rest'
  rw [heq] at htake hdrop
  exact ⟨htake.symm.trans htake', LineEnd.bytes_append_inj (hdrop.symm.trans hdrop')⟩

/-! ### Parts of a line -/

theorem parseUntil_eq_found {next : UInt8} :
    parseUntil member b = .found (part, next) rest ↔
      part.all member = true ∧ member next = false ∧ b = part ++ next :: rest := by
  constructor
  · intro h
    unfold parseUntil at h
    split at h
    · cases h
    · rename_i mark behind hdrop
      obtain ⟨heq, rfl⟩ := Scan.found.inj h
      obtain ⟨rfl, rfl⟩ := Prod.mk.inj heq
      have hmark : ¬member mark = true := by
        have hne : b.dropWhile member ≠ [] := by simp [hdrop]
        have hhead := List.head_dropWhile_not member hne
        simpa [hdrop] using hhead
      refine ⟨List.all_takeWhile, Bool.eq_false_iff.mpr hmark, ?_⟩
      rw [← hdrop, List.takeWhile_append_dropWhile]
  · rintro ⟨hpart, hnext, rfl⟩
    exact parseUntil_append hpart hnext

/-- A part of a line is read exactly if **the mark that it ends with** stands behind it. -/
theorem part_eq_found (accept : Bytes → Prop) [DecidablePred accept] {wanted : UInt8}
    (hwanted : member wanted = false) :
    ((parseUntil member b).andThen fun (part, mark) rest =>
      if mark = wanted ∧ accept part then .found part rest else .fault flaw) = .found part rest ↔
      (part.all member = true ∧ accept part) ∧ b = part ++ wanted :: rest := by
  rw [Scan.andThen_eq_found_iff]
  constructor
  · rintro ⟨⟨front, mark⟩, behind, hfront, h⟩
    obtain ⟨hall, -, rfl⟩ := parseUntil_eq_found.mp hfront
    dsimp only at h
    split at h
    · rename_i haccept
      obtain ⟨rfl, rfl⟩ := Scan.found.inj h
      exact ⟨⟨hall, haccept.2⟩, by rw [haccept.1]⟩
    · cases h
  · rintro ⟨⟨hall, haccept⟩, rfl⟩
    exact ⟨(part, wanted), rest, parseUntil_append hall hwanted, if_pos ⟨rfl, haccept⟩⟩

theorem parseMethod_eq_found : parseMethod b = .found part rest ↔
    (part.all isToken = true ∧ part ≠ []) ∧ b = part ++ space :: rest :=
  part_eq_found (· ≠ []) (by decide)

theorem parseTarget_eq_found : parseTarget b = .found part rest ↔
    (part.all isTarget = true ∧ part ≠ [] ∧ Utf8.isValid part = true) ∧
      b = part ++ space :: rest :=
  part_eq_found (fun target => target ≠ [] ∧ Utf8.isValid target = true) (by decide)

theorem parseName_eq_found : parseName b = .found part rest ↔
    (part.all isToken = true ∧ part ≠ []) ∧ b = part ++ colon :: rest :=
  part_eq_found (· ≠ []) (by decide)

theorem parseVersion_eq_found {version : Version} :
    parseVersion b = .found version rest ↔ b = Bytes.ascii version.text ++ rest := by
  constructor
  · intro h
    unfold parseVersion at h
    split at h
    · rename_i digits behind hsplit
      obtain ⟨-, rfl⟩ := (Bytes.split?_eq_some ..).mp hsplit
      split at h
      · rename_i hdigits
        obtain ⟨rfl, rfl⟩ := Scan.found.inj h
        rw [hdigits, Version.text]
      · split at h
        · rename_i hdigits
          obtain ⟨rfl, rfl⟩ := Scan.found.inj h
          rw [hdigits, Version.text]
        · cases h
    · split at h <;> cases h
  · rintro rfl
    have hsplit : Bytes.split? 8 (Bytes.ascii version.text ++ rest) =
        some (Bytes.ascii version.text, rest) :=
      (Bytes.split?_eq_some ..).mpr ⟨by cases version <;> decide, rfl⟩
    rw [parseVersion, hsplit]
    cases version <;> rfl

/-- The number that **the digits of a status** are read as. -/
def statusNumber (digits : Bytes) : Nat :=
  digits.foldl (fun n d => 10 * n + (d.toNat - 0x30)) 0

theorem parseStatus_eq_found {status : Nat} :
    parseStatus b = .found status rest ↔ ∃ digits : Bytes,
      (digits.length = 3 ∧ digits.all isDigit = true ∧ status = statusNumber digits) ∧
        b = digits ++ rest := by
  constructor
  · intro h
    unfold parseStatus at h
    dsimp only at h
    split at h
    · rename_i hdigits
      split at h
      · cases h
      · rename_i digits behind hsplit
        obtain ⟨hlength, rfl⟩ := (Bytes.split?_eq_some ..).mp hsplit
        obtain ⟨rfl, rfl⟩ := Scan.found.inj h
        rw [List.take_left' hlength] at hdigits
        exact ⟨digits, ⟨hlength, hdigits, rfl⟩, rfl⟩
    · cases h
  · rintro ⟨digits, ⟨hlength, hdigits, rfl⟩, rfl⟩
    have hsplit : Bytes.split? 3 (digits ++ rest) = some (digits, rest) :=
      (Bytes.split?_eq_some ..).mpr ⟨hlength, rfl⟩
    rw [parseStatus, List.take_left' hlength, hsplit]
    exact if_pos hdigits

/-- A text is read **up to the end of its line**; what it is read as is a matter of its own. -/
theorem text_eq_found {f : Bytes → Bytes} {value : Bytes} :
    (parseLineEnd flaw (b.dropWhile isText)).map (fun _ => f (b.takeWhile isText)) =
        .found value rest ↔
      ∃ (text : Bytes) (e : LineEnd), (text.all isText = true ∧ value = f text) ∧
        b = text ++ (e.bytes ++ rest) := by
  rw [Scan.map_eq_found_iff]
  constructor
  · rintro ⟨⟨⟩, hend, rfl⟩
    obtain ⟨e, hdrop⟩ := parseLineEnd_eq_found.mp hend
    refine ⟨b.takeWhile isText, e, ⟨List.all_takeWhile, rfl⟩, ?_⟩
    rw [← hdrop, List.takeWhile_append_dropWhile]
  · rintro ⟨text, e, ⟨htext, rfl⟩, rfl⟩
    obtain ⟨htake, hdrop⟩ :=
      takeWhile_lineEnd (by decide) (by decide) (List.all_eq_true.mp htext) e rest
    rw [htake, hdrop]
    exact ⟨(), parseLineEnd_eq_found.mpr ⟨e, rfl⟩, rfl⟩

theorem parseValue_eq_found {value : Bytes} : parseValue b = .found value rest ↔
    ∃ (text : Bytes) (e : LineEnd), (text.all isText = true ∧ value = Bytes.trim text) ∧
      b = text ++ (e.bytes ++ rest) :=
  text_eq_found

theorem parseReason_eq_found {reason : Bytes} : parseReason b = .found reason rest ↔
    ∃ (text : Bytes) (e : LineEnd), (text.all isText = true ∧
      reason = if text.all isVisible then text else []) ∧ b = text ++ (e.bytes ++ rest) :=
  text_eq_found (f := fun text => if text.all isVisible then text else [])

/-- What stands **behind a status** in its line, and the reason that it is read as. -/
inductive Reasoned : Bytes → Bytes → Prop
  | none : Reasoned [] []
  | text {text : Bytes} (htext : text.all isText = true) :
      Reasoned (space :: text) (if text.all isVisible then text else [])

theorem parseAfterStatus_eq_found {reason : Bytes} : parseAfterStatus b = .found reason rest ↔
    ∃ (tail : Bytes) (e : LineEnd), Reasoned tail reason ∧ b = tail ++ (e.bytes ++ rest) := by
  constructor
  · intro h
    unfold parseAfterStatus at h
    split at h
    · cases h
    · split at h
      · rename_i hspace
        obtain ⟨text, e, ⟨htext, rfl⟩, rfl⟩ := parseReason_eq_found.mp h
        exact ⟨space :: text, e, .text htext, by rw [hspace]; rfl⟩
      · obtain ⟨⟨⟩, hend, rfl⟩ := Scan.map_eq_found_iff.mp h
        obtain ⟨e, heq⟩ := parseLineEnd_eq_found.mp hend
        exact ⟨[], e, .none, heq⟩
  · rintro ⟨tail, e, hreason, rfl⟩
    cases hreason with
    | none => cases e <;> rfl
    | text htext =>
        rename_i text
        rw [List.cons_append, parseAfterStatus, if_pos rfl]
        exact parseReason_eq_found.mpr ⟨text, e, ⟨htext, rfl⟩, rfl⟩

/-! ### Start lines -/

/-- A line that is **the start line of a request**. -/
structure RequestLine (line method target : Bytes) (version : Version) : Prop where
  isMethod : method.all isToken = true ∧ method ≠ []
  isTarget : target.all isTarget = true ∧ target ≠ [] ∧ Utf8.isValid target = true
  isLine : line = method ++ space :: (target ++ space :: Bytes.ascii version.text)

/-- A line that is **the start line of a response**. -/
inductive StatusLine : Bytes → Version → Nat → Bytes → Prop
  | mk {version : Version} {digits tail reason : Bytes} (hlength : digits.length = 3)
      (hdigits : digits.all isDigit = true) (hreason : Reasoned tail reason) :
      StatusLine (Bytes.ascii version.text ++ space :: (digits ++ tail)) version
        (statusNumber digits) reason

theorem unbroken_space : Unbroken [space] := by decide

theorem unbroken_version (version : Version) : Unbroken (Bytes.ascii version.text) := by
  cases version <;> decide

theorem RequestLine.unbroken {line method target : Bytes} {version : Version}
    (h : RequestLine line method target version) : Unbroken line := by
  have hmethod : Unbroken method := .of_all (by decide) (by decide) h.isMethod.1
  have htarget : Unbroken target := .of_all (by decide) (by decide) h.isTarget.1
  rw [h.isLine]
  exact hmethod.append (unbroken_space.append (htarget.append
    (unbroken_space.append (unbroken_version version))))

theorem Reasoned.unbroken {tail reason : Bytes} (h : Reasoned tail reason) : Unbroken tail := by
  cases h with
  | none => decide
  | text htext => exact unbroken_space.append (.of_all (by decide) (by decide) htext)

theorem StatusLine.unbroken {line reason : Bytes} {version : Version} {status : Nat}
    (h : StatusLine line version status reason) : Unbroken line := by
  cases h with
  | mk hlength hdigits hreason =>
      exact (unbroken_version version).append (unbroken_space.append
        ((Unbroken.of_all (by decide) (by decide) hdigits).append hreason.unbroken))

theorem skipEmptyLines_append {lead : Bytes} (h : EmptyLines lead) (b : Bytes) :
    skipEmptyLines (lead ++ b) = skipEmptyLines b := by
  induction h with
  | nil => rfl
  | feed _ ih => rw [List.cons_append, skipEmptyLines.eq_def]; exact ih
  | line _ ih => rw [List.cons_append, List.cons_append, skipEmptyLines.eq_def]; exact ih

/-- What is skipped is **empty lines**. -/
theorem of_skipEmptyLines (h : skipEmptyLines b = .found () rest) :
    ∃ lead, EmptyLines lead ∧ b = lead ++ rest := by
  induction b using skipEmptyLines.induct with
  | case1 => cases h
  | case2 more ih =>
      rw [skipEmptyLines.eq_def] at h
      obtain ⟨lead, hlead, rfl⟩ := ih h
      exact ⟨lineFeed :: lead, hlead.feed, rfl⟩
  | case3 => cases h
  | case4 more _ ih =>
      rw [skipEmptyLines.eq_def] at h
      obtain ⟨lead, hlead, rfl⟩ := ih h
      exact ⟨carriageReturn :: lineFeed :: lead, hlead.line, rfl⟩
  | case5 next more hnext _ =>
      rw [skipEmptyLines.eq_def] at h
      dsimp only at h
      rw [if_neg (by decide), if_pos rfl, if_neg hnext] at h
      cases h
  | case6 byte more hfeed hreturn =>
      rw [skipEmptyLines_cons hfeed hreturn] at h
      obtain ⟨-, rfl⟩ := Scan.found.inj h
      exact ⟨[], .nil, rfl⟩

/-- A line that stands **first in a head**, behind empty lines at most. -/
structure Opens (b line behind : Bytes) : Prop where
  unbroken : Unbroken line
  ne : line ≠ []
  bytes : ∃ (lead : Bytes) (e : LineEnd), EmptyLines lead ∧
    b = lead ++ (line ++ (e.bytes ++ behind))

variable {line behind left : Bytes}

theorem Opens.skip (h : Opens b line behind) :
    ∃ e : LineEnd, skipEmptyLines b = .found () (line ++ (e.bytes ++ behind)) := by
  obtain ⟨lead, e, hlead, rfl⟩ := h.bytes
  obtain ⟨byte, more, rfl⟩ := List.exists_cons_of_ne_nil h.ne
  have hreturn : byte ≠ carriageReturn := fun heq => h.unbroken.1 (heq ▸ List.mem_cons_self ..)
  have hfeed : byte ≠ lineFeed := fun heq => h.unbroken.2 (heq ▸ List.mem_cons_self ..)
  exact ⟨e, (skipEmptyLines_append hlead _).trans (skipEmptyLines_cons hfeed hreturn _)⟩

/-- **One line** opens a head. -/
theorem Opens.unique {line' behind' : Bytes} (h : Opens b line behind)
    (h' : Opens b line' behind') : line = line' ∧ behind = behind' := by
  obtain ⟨e, hskip⟩ := h.skip
  obtain ⟨e', hskip'⟩ := h'.skip
  exact h.unbroken.line_inj h'.unbroken (Scan.found.inj (hskip.symm.trans hskip')).2

/-- A request head is read exactly if its first line is a start line and **header lines stand
behind it**. -/
theorem parseRequestHead_eq_found {parts : RequestHead} :
    parseRequestHead b = .found parts left ↔ ∃ line behind,
      RequestLine line parts.method parts.target parts.version ∧ Opens b line behind ∧
        parseFields maxFields behind = .found parts.fields left := by
  simp only [parseRequestHead, Scan.andThen_eq_found_iff, Scan.map_eq_found_iff]
  constructor
  · rintro ⟨⟨⟩, start, hskip, method, b₁, hmethod, target, b₂, htarget, version, b₃, hversion, ⟨⟩,
      behind, hend, fields, hfields, rfl⟩
    obtain ⟨lead, hlead, rfl⟩ := of_skipEmptyLines hskip
    obtain ⟨hisMethod, rfl⟩ := parseMethod_eq_found.mp hmethod
    obtain ⟨hisTarget, rfl⟩ := parseTarget_eq_found.mp htarget
    obtain rfl := parseVersion_eq_found.mp hversion
    obtain ⟨e, rfl⟩ := parseLineEnd_eq_found.mp hend
    have hline : RequestLine _ method target version := ⟨hisMethod, hisTarget, rfl⟩
    exact ⟨_, behind, hline, ⟨hline.unbroken, by simp, lead, e, hlead, by simp⟩, hfields⟩
  · rintro ⟨line, behind, hline, hopens, hfields⟩
    obtain ⟨e, hskip⟩ := hopens.skip
    let versionLine := Bytes.ascii parts.version.text ++ (e.bytes ++ behind)
    have hversion : parseVersion versionLine = .found parts.version (e.bytes ++ behind) :=
      parseVersion_eq_found.mpr rfl
    have htarget : parseTarget (parts.target ++ space :: versionLine) =
        .found parts.target versionLine :=
      parseTarget_eq_found.mpr ⟨hline.isTarget, rfl⟩
    have hmethod : parseMethod (line ++ (e.bytes ++ behind)) =
        .found parts.method (parts.target ++ space :: versionLine) :=
      parseMethod_eq_found.mpr ⟨hline.isMethod, by rw [hline.isLine]; simp [versionLine]⟩
    exact ⟨(), _, hskip, parts.method, _, hmethod, parts.target, _, htarget, parts.version, _,
      hversion, (), behind, parseLineEnd_eq_found.mpr ⟨e, rfl⟩, parts.fields, hfields, rfl⟩

/-- So is a response head. -/
theorem parseResponseHead_eq_found {parts : ResponseHead} :
    parseResponseHead b = .found parts left ↔ ∃ line behind,
      StatusLine line parts.version parts.status parts.reason ∧ Opens b line behind ∧
        parseFields maxFields behind = .found parts.fields left := by
  simp only [parseResponseHead, Scan.andThen_eq_found_iff]
  constructor
  · rintro ⟨⟨⟩, start, hskip, version, b₁, hversion, h⟩
    obtain ⟨lead, hlead, rfl⟩ := of_skipEmptyLines hskip
    obtain rfl := parseVersion_eq_found.mp hversion
    split at h
    · cases h
    · rename_i next b₂
      split at h
      · cases h
      · rename_i hspace
        obtain rfl : next = space := of_not_not hspace
        simp only [Scan.andThen_eq_found_iff, Scan.map_eq_found_iff] at h
        obtain ⟨status, b₃, hstatus, reason, behind, hreason, fields, hfields, rfl⟩ := h
        obtain ⟨digits, ⟨hlength, hdigits, rfl⟩, rfl⟩ := parseStatus_eq_found.mp hstatus
        obtain ⟨tail, e, hreasoned, rfl⟩ := parseAfterStatus_eq_found.mp hreason
        have hline : StatusLine _ version (statusNumber digits) reason :=
          .mk hlength hdigits hreasoned
        exact ⟨_, behind, hline, ⟨hline.unbroken, by simp, lead, e, hlead, by simp⟩, hfields⟩
  · rintro ⟨line, behind, hline, hopens, hfields⟩
    obtain ⟨e, hskip⟩ := hopens.skip
    obtain ⟨version, status, reason, fields⟩ := parts
    cases hline with
    | @mk _ digits tail _ hlength hdigits hreason =>
        refine ⟨(), _, hskip, version, space :: (digits ++ (tail ++ (e.bytes ++ behind))), ?_, ?_⟩
        · exact parseVersion_eq_found.mpr (by simp)
        · dsimp only
          rw [if_neg (by simp)]
          simp only [Scan.andThen_eq_found_iff, Scan.map_eq_found_iff]
          exact ⟨_, _, parseStatus_eq_found.mpr ⟨digits, ⟨hlength, hdigits, rfl⟩, rfl⟩, reason,
            behind, parseAfterStatus_eq_found.mpr ⟨tail, e, hreason, rfl⟩, fields, hfields, rfl⟩

/-! ### Header lines -/

/-- A header line **as it is laid out**: its name, all that stands behind the colon, and its end. -/
structure Line where
  name : Bytes
  text : Bytes
  lineEnd : LineEnd
  name_token : name.all isToken = true
  name_ne : name ≠ []
  text_isText : text.all isText = true

namespace Line

/-- The bytes of a header line. -/
def bytes (l : Line) : Bytes := l.name ++ colon :: (l.text ++ l.lineEnd.bytes)

/-- The header line **as it is read**: its name as it is written, its value without blanks. -/
def read (l : Line) : Field := ⟨l.name, Bytes.trim l.text⟩

/-- What a header line **says**: the case of its name does not matter either. -/
def said (l : Line) : Field := ⟨Bytes.lower l.name, Bytes.trim l.text⟩

/-- A header line is not an empty one. -/
theorem exists_bytes_eq_cons (l : Line) : ∃ byte more, l.bytes = byte :: more ∧
    ¬(byte = carriageReturn ∨ byte = lineFeed) := by
  obtain ⟨byte, more, hname⟩ := List.exists_cons_of_ne_nil l.name_ne
  refine ⟨byte, more ++ colon :: (l.text ++ l.lineEnd.bytes), by rw [bytes, hname]; rfl, ?_⟩
  have htoken := List.all_eq_true.mp l.name_token byte (hname ▸ List.mem_cons_self ..)
  rintro (rfl | rfl) <;> cases htoken

end Line

/-- Header lines are read **whatever their layout**, if there is room for them. -/
theorem parseFields_lines (lines : List Line) (e : LineEnd) (rest : Bytes) (slots : Nat) :
    parseFields slots (lines.flatMap Line.bytes ++ (e.bytes ++ rest)) =
      if lines.length ≤ slots then .found (lines.map Line.read) rest
      else .fault .tooManyHeaders := by
  induction lines generalizing slots with
  | nil => cases e <;> cases slots <;> rfl
  | cons l lines ih =>
      obtain ⟨byte, more, hbytes, hstart⟩ := l.exists_bytes_eq_cons
      rw [List.flatMap_cons, List.append_assoc]
      generalize lines.flatMap Line.bytes ++ (e.bytes ++ rest) = later at ih ⊢
      have hname : parseName (byte :: (more ++ later)) =
          .found l.name (l.text ++ (l.lineEnd.bytes ++ later)) := by
        refine parseName_eq_found.mpr ⟨⟨l.name_token, l.name_ne⟩, ?_⟩
        rw [← List.cons_append, ← hbytes]
        simp [Line.bytes]
      have hvalue : parseValue (l.text ++ (l.lineEnd.bytes ++ later)) =
          .found (Bytes.trim l.text) later :=
        parseValue_eq_found.mpr ⟨l.text, l.lineEnd, ⟨l.text_isText, rfl⟩, rfl⟩
      rw [hbytes, List.cons_append, parseFields.eq_def]
      dsimp only
      rw [if_neg hstart, hname]
      simp only [Scan.andThen, hvalue]
      cases slots with
      | zero => simp
      | succ slots =>
          dsimp only
          rw [ih slots, List.length_cons]
          by_cases hroom : lines.length ≤ slots
          · rw [if_pos hroom, if_pos (Nat.succ_le_succ hroom)]
            rfl
          · rw [if_neg hroom, if_neg fun hle => hroom (Nat.le_of_succ_le_succ hle)]
            rfl

/-- Header lines that are read **have a layout**. -/
theorem exists_lines_of_parseFields {slots : Nat} {fields : List Field}
    (h : parseFields slots b = .found fields left) :
    ∃ (lines : List Line) (e : LineEnd), b = lines.flatMap Line.bytes ++ (e.bytes ++ left) := by
  induction slots, b using parseFields.induct generalizing fields left with
  | case1 => rw [parseFields] at h; cases h
  | case2 slots byte b hend =>
      rw [parseFields, if_pos hend] at h
      obtain ⟨⟨⟩, h, -⟩ := Scan.map_eq_found_iff.mp h
      obtain ⟨e, heq⟩ := parseLineEnd_eq_found.mp h
      exact ⟨[], e, heq⟩
  | case3 slots byte b hline ih =>
      rw [parseFields, if_neg hline] at h
      obtain ⟨name, b₁, hname, h⟩ := Scan.andThen_eq_found_iff.mp h
      obtain ⟨value, b₂, hvalue, h⟩ := Scan.andThen_eq_found_iff.mp h
      cases slots with
      | zero => cases h
      | succ slots =>
          obtain ⟨fields, hfields, -⟩ := Scan.map_eq_found_iff.mp h
          obtain ⟨lines, e, rfl⟩ := ih b₂ hfields
          obtain ⟨⟨htoken, hne⟩, hbytes⟩ := parseName_eq_found.mp hname
          obtain ⟨text, e', ⟨htext, -⟩, rfl⟩ := parseValue_eq_found.mp hvalue
          refine ⟨⟨name, text, e', htoken, hne, htext⟩ :: lines, e, ?_⟩
          rw [hbytes]
          simp [Line.bytes]

/-! ### Layouts -/

/-- A head **as it is laid out**. -/
structure Layout where
  /-- The empty lines in front. -/
  lead : Bytes
  start : Bytes
  startEnd : LineEnd
  lines : List Line
  /-- The end of the empty line behind the header lines. -/
  lastEnd : LineEnd
  lead_empty : EmptyLines lead
  start_unbroken : Unbroken start
  start_ne : start ≠ []

namespace Layout

/-- The bytes of a head. -/
def bytes (s : Layout) : Bytes :=
  s.lead ++ (s.start ++ (s.startEnd.bytes ++ (s.lines.flatMap Line.bytes ++ s.lastEnd.bytes)))

theorem opens (s : Layout) (rest : Bytes) : Opens (s.bytes ++ rest) s.start
    (s.lines.flatMap Line.bytes ++ (s.lastEnd.bytes ++ rest)) :=
  ⟨s.start_unbroken, s.start_ne, s.lead, s.startEnd, s.lead_empty, by simp [bytes]⟩

/-- A head that is opened by a line, with header lines behind it, **has a layout**. -/
theorem exists_of_opens (hopens : Opens b line behind) {fields : List Field}
    (hfields : parseFields maxFields behind = .found fields left) :
    ∃ s : Layout, b = s.bytes ++ left := by
  obtain ⟨lead, e, hlead, rfl⟩ := hopens.bytes
  obtain ⟨lines, lastEnd, rfl⟩ := exists_lines_of_parseFields hfields
  exact ⟨⟨lead, line, e, lines, lastEnd, hlead, hopens.unbroken, hopens.ne⟩, by simp [bytes]⟩

theorem exists_of_parseRequestHead {parts : RequestHead}
    (h : parseRequestHead b = .found parts left) : ∃ s : Layout, b = s.bytes ++ left := by
  obtain ⟨line, behind, -, hopens, hfields⟩ := parseRequestHead_eq_found.mp h
  exact exists_of_opens hopens hfields

theorem exists_of_parseResponseHead {parts : ResponseHead}
    (h : parseResponseHead b = .found parts left) : ∃ s : Layout, b = s.bytes ++ left := by
  obtain ⟨line, behind, -, hopens, hfields⟩ := parseResponseHead_eq_found.mp h
  exact exists_of_opens hopens hfields

/-- What stands **behind the start line** of a layout is its header lines. -/
theorem fields_iff (s : Layout) {fields : List Field} {StartLine : Bytes → Prop} :
    (∃ line behind, StartLine line ∧ Opens (s.bytes ++ rest) line behind ∧
        parseFields maxFields behind = .found fields left) ↔
      StartLine s.start ∧ s.lines.length ≤ maxFields ∧ fields = s.lines.map Line.read ∧
        left = rest := by
  have hlines := parseFields_lines s.lines s.lastEnd rest maxFields
  constructor
  · rintro ⟨line, behind, hline, hopens, hfields⟩
    obtain ⟨rfl, rfl⟩ := hopens.unique (s.opens rest)
    rw [hlines] at hfields
    split at hfields
    · rename_i hroom
      obtain ⟨rfl, rfl⟩ := Scan.found.inj hfields
      exact ⟨hline, hroom, rfl, rfl⟩
    · cases hfields
  · rintro ⟨hline, hroom, rfl, rfl⟩
    exact ⟨_, _, hline, s.opens left, by rw [hlines, if_pos hroom]⟩

/-- What is read of a layout as a request head: **nothing but its lines** matters. -/
theorem parseRequestHead_iff (s : Layout) {parts : RequestHead} :
    parseRequestHead (s.bytes ++ rest) = .found parts left ↔
      RequestLine s.start parts.method parts.target parts.version ∧
        s.lines.length ≤ maxFields ∧ parts.fields = s.lines.map Line.read ∧ left = rest :=
  parseRequestHead_eq_found.trans s.fields_iff

/-- What is read of a layout as a response head. -/
theorem parseResponseHead_iff (s : Layout) {parts : ResponseHead} :
    parseResponseHead (s.bytes ++ rest) = .found parts left ↔
      StatusLine s.start parts.version parts.status parts.reason ∧
        s.lines.length ≤ maxFields ∧ parts.fields = s.lines.map Line.read ∧ left = rest :=
  parseResponseHead_eq_found.trans s.fields_iff

end Layout

end Http

end WebSocket
