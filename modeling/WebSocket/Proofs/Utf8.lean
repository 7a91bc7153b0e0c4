import Mathlib.Data.List.Basic
import WebSocket.Utf8

/-!
# Texts and their bytes

Every text is written in valid UTF-8 and read back from it. A text that is too long is cut in front
of a byte that begins a character, so that what is left is a text again, the first characters of the
whole.

## Main results

* `Utf8.encode_asciiText`: a text of ASCII characters is written as the bytes that it was made of.
* `Utf8.isValid_encode`: every text is written in **valid UTF-8**.
* `Utf8.encodeChars_of_decode?`: what is read as characters is **how these are written**.
* `Utf8.truncate_encode`: a text that is cut is left with **its first characters**.
* `Utf8.isLongestFit_of_encode`: a text is cut **no shorter than it has to be**.
-/

namespace WebSocket

namespace Utf8

/-! ### ASCII -/

/-- A character of ASCII is written in **one byte**. -/
theorem utf8EncodeChar_ascii {n : Nat} (h : n < 0x80) :
    String.utf8EncodeChar (Char.ofNat n) = [UInt8.ofNat n] := by
  have hall : ∀ k : Fin 0x80, String.utf8EncodeChar (Char.ofNat k) = [UInt8.ofNat k] := by decide
  exact hall ⟨n, h⟩

/-- Bytes of ASCII, read as a text, **are written as they were**. -/
theorem encode_asciiText {b : Bytes} (h : ∀ byte ∈ b, byte < 0x80) :
    encode (Bytes.asciiText b) = b := by
  rw [encode, Bytes.asciiText, String.toList_ofList]
  induction b with
  | nil => rfl
  | cons byte b ih =>
      obtain ⟨hbyte, hmore⟩ := List.forall_mem_cons.mp h
      rw [encodeChars, List.map_cons, List.flatMap_cons,
        utf8EncodeChar_ascii (UInt8.lt_iff_toNat_lt.mp hbyte), UInt8.ofNat_toNat]
      exact congrArg _ (ih hmore)

/-! ### Texts -/

/-- A byte that continues a character carries **six bits**. -/
theorem isContinuation_ofNat (n : Nat) : isContinuation (UInt8.ofNat (n % 64 + 128)) = true := by
  simp only [isContinuation, Bool.and_eq_true, decide_eq_true_eq, UInt8.le_iff_toNat_le,
    UInt8.toNat_ofNat', UInt8.reduceToNat]
  omega

/-- The first byte of a longer character **begins no pair**. -/
theorem isPair_eq_false {a : UInt8} (h : 0xE0 ≤ a) (b : UInt8) : isPair a b = false := by
  have hhigh : ¬a ≤ 0xDF := by
    simp only [UInt8.le_iff_toNat_le, UInt8.reduceToNat] at h ⊢
    omega
  rw [isPair, decide_eq_false hhigh, Bool.and_false, Bool.false_and]

/-- The first byte of a character of four **begins no triple**. -/
theorem startsTriple_eq_false {a : UInt8} (h : 0xF0 ≤ a) (b : UInt8) :
    startsTriple a b = false := by
  simp only [startsTriple, Bool.and_eq_false_iff, Bool.or_eq_false_iff, beq_eq_false_iff_ne, ne_eq,
    decide_eq_false_iff_not, UInt8.le_iff_toNat_le, ← UInt8.toNat_inj, UInt8.reduceToNat] at h ⊢
  omega

theorem isPair_ofNat {v : Nat} (hlow : 0x7F < v) (hhigh : v ≤ 0x7FF) :
    isPair (UInt8.ofNat (v / 64 % 32 + 192)) (UInt8.ofNat (v % 64 + 128)) = true := by
  simp only [isPair, isContinuation_ofNat, Bool.and_true, Bool.and_eq_true, decide_eq_true_eq,
    UInt8.le_iff_toNat_le, UInt8.toNat_ofNat', UInt8.reduceToNat]
  omega

/-- The shortest form asks for a number above U+07FF, and **no surrogate** is written. -/
theorem startsTriple_ofNat {v : Nat} (hlow : 0x7FF < v) (hhigh : v ≤ 0xFFFF)
    (hscalar : v < 0xD800 ∨ 0xDFFF < v) :
    startsTriple (UInt8.ofNat (v / 4096 % 16 + 224)) (UInt8.ofNat (v / 64 % 64 + 128)) = true := by
  simp only [startsTriple, isContinuation_ofNat, Bool.and_true, Bool.and_eq_true, Bool.or_eq_true,
    beq_iff_eq, decide_eq_true_eq, UInt8.le_iff_toNat_le, ← UInt8.toNat_inj, UInt8.toNat_ofNat',
    UInt8.reduceToNat]
  omega

theorem startsQuadruple_ofNat {v : Nat} (hlow : 0xFFFF < v) (hhigh : v < 0x110000) :
    startsQuadruple (UInt8.ofNat (v / 262144 % 8 + 240)) (UInt8.ofNat (v / 4096 % 64 + 128)) =
      true := by
  simp only [startsQuadruple, isContinuation_ofNat, Bool.and_true, Bool.and_eq_true,
    Bool.or_eq_true, beq_iff_eq, decide_eq_true_eq, UInt8.le_iff_toNat_le, ← UInt8.toNat_inj,
    UInt8.toNat_ofNat', UInt8.reduceToNat]
  omega

/-- Bytes are compared **like the numbers** that they are. -/
theorem le_ofNat (low n : Nat) (hlow : low ≤ n) (hn : n < 256) :
    UInt8.ofNat low ≤ UInt8.ofNat n := by
  simp only [UInt8.le_iff_toNat_le, UInt8.toNat_ofNat']
  omega

/-- A continuation byte gives its **six bits** back. -/
theorem low6_ofNat (n : Nat) : low6 (UInt8.ofNat (n % 64 + 128)) = n % 64 := by
  simp only [low6, UInt8.toNat_ofNat']
  omega

/-- A character that is written **is read**, whatever follows it. -/
theorem decode?_encodeChar_append (c : Char) (rest : Bytes) :
    decode? (String.utf8EncodeChar c ++ rest) = (decode? rest).map (c :: ·) := by
  have hscalar : c.val.toNat < 0xD800 ∨ 0xDFFF < c.val.toNat ∧ c.val.toNat < 0x110000 := c.valid
  have hascii : ∀ {a : UInt8}, 0x80 ≤ a → ¬a < 0x80 := fun h => UInt8.not_lt.mpr h
  have hback : ∀ {n : Nat}, n = c.val.toNat →
      (decode? rest).map (Char.ofNat n :: ·) = (decode? rest).map (c :: ·) := by
    rintro n rfl
    rw [show Char.ofNat c.val.toNat = c from Char.ofNat_toNat c]
  unfold String.utf8EncodeChar
  generalize c.val.toNat = v at hscalar hback
  dsimp only
  split
  · have hone : UInt8.ofNat v < 0x80 := by
      simp only [UInt8.lt_iff_toNat_lt, UInt8.toNat_ofNat', UInt8.reduceToNat]
      omega
    rw [List.singleton_append, decode?.eq_def]
    simp only [hone, if_true]
    exact hback (by rw [UInt8.toNat_ofNat']; omega)
  split
  · have hpair := isPair_ofNat (v := v) (by omega) (by omega)
    have hfirst := hascii (le_ofNat 0x80 (v / 64 % 32 + 192) (by omega) (by omega))
    simp only [List.cons_append, List.nil_append]
    rw [decode?.eq_def]
    simp only [hfirst, hpair, if_true, if_false]
    exact hback (by rw [low6_ofNat, UInt8.toNat_ofNat']; omega)
  split
  · have htriple := startsTriple_ofNat (v := v) (by omega) (by omega) (by omega)
    have hfirst := hascii (le_ofNat 0x80 (v / 4096 % 16 + 224) (by omega) (by omega))
    have hpair := isPair_eq_false
      (le_ofNat 0xE0 (v / 4096 % 16 + 224) (by omega) (by omega))
    simp only [List.cons_append, List.nil_append]
    rw [decode?.eq_def]
    simp only [hfirst, hpair, htriple, isContinuation_ofNat, if_true, if_false, Bool.and_true,
      Bool.false_eq_true]
    exact hback (by rw [low6_ofNat, low6_ofNat, UInt8.toNat_ofNat']; omega)
  · have hquadruple := startsQuadruple_ofNat (v := v) (by omega) (by omega)
    have hfirst := hascii (le_ofNat 0x80 (v / 262144 % 8 + 240) (by omega) (by omega))
    have hpair := isPair_eq_false
      (le_ofNat 0xE0 (v / 262144 % 8 + 240) (by omega) (by omega))
    have htriple := startsTriple_eq_false
      (le_ofNat 0xF0 (v / 262144 % 8 + 240) (by omega) (by omega))
    simp only [List.cons_append, List.nil_append]
    rw [decode?.eq_def]
    simp only [hfirst, hpair, htriple, hquadruple, isContinuation_ofNat, if_true, if_false,
      Bool.and_true, Bool.false_eq_true]
    exact hback (by rw [low6_ofNat, low6_ofNat, low6_ofNat, UInt8.toNat_ofNat']; omega)

/-- Characters that are written **are read**. -/
theorem decode?_encodeChars (cs : List Char) : decode? (encodeChars cs) = some cs := by
  induction cs with
  | nil => rfl
  | cons c cs ih =>
      rw [encodeChars, List.flatMap_cons, decode?_encodeChar_append]
      exact congrArg (Option.map (c :: ·)) ih

/-- A text that is written **is read**. -/
theorem text?_encode (text : String) : text? (encode text) = some text := by
  rw [text?, encode, decode?_encodeChars, Option.map_some, String.ofList_toList]

/-- Different texts are written **in different bytes**. -/
theorem encode_injective : Function.Injective encode := fun a b h => by
  rw [← Option.some_inj, ← text?_encode a, h, text?_encode]

/-- **Every text is written in valid UTF-8.** -/
theorem isValid_encode (text : String) : isValid (encode text) = true := by
  rw [isValid_eq_isSome_decode?, encode, decode?_encodeChars]
  rfl

/-- A text that is not empty is written **in at least one byte**. -/
theorem encode_ne_nil {text : String} (h : text.isEmpty = false) : encode text ≠ [] := by
  have hne : text.toList ≠ [] := by
    intro hnil
    rw [String.toList_eq_nil_iff] at hnil
    rw [hnil] at h
    cases h
  obtain ⟨c, cs, hcons⟩ := List.exists_cons_of_ne_nil hne
  have hlength : 0 < (String.utf8EncodeChar c).length := by
    rw [String.length_utf8EncodeChar]
    exact c.utf8Size_pos
  rw [encode, hcons, encodeChars, List.flatMap_cons]
  exact List.append_ne_nil_of_left_ne_nil (List.ne_nil_of_length_pos hlength) _

/-! ### Bytes that are read -/

/-- A scalar value is **the number of its character**. -/
theorem toNat_val_ofNat {v : Nat} (h : v.isValidChar) : (Char.ofNat v).val.toNat = v := by
  rw [Char.ofNat, dif_pos h]
  rfl

/-- A byte is the one **with its number**. -/
theorem ofNat_eq_of_toNat {n : Nat} (byte : UInt8) (h : n = byte.toNat) : UInt8.ofNat n = byte := by
  rw [h, UInt8.ofNat_toNat]

theorem isContinuation_iff {byte : UInt8} :
    isContinuation byte = true ↔ 0x80 ≤ byte.toNat ∧ byte.toNat ≤ 0xBF := by
  simp only [isContinuation, Bool.and_eq_true, decide_eq_true_eq, UInt8.le_iff_toNat_le,
    UInt8.reduceToNat]

theorem isPair_iff {a b : UInt8} : isPair a b = true ↔
    0xC2 ≤ a.toNat ∧ a.toNat ≤ 0xDF ∧ 0x80 ≤ b.toNat ∧ b.toNat ≤ 0xBF := by
  simp only [isPair, Bool.and_eq_true, isContinuation_iff, decide_eq_true_eq,
    UInt8.le_iff_toNat_le, UInt8.reduceToNat, and_assoc]

theorem utf8EncodeChar_two {v : Nat} (hlow : 0x7F < v) (hhigh : v ≤ 0x7FF) :
    String.utf8EncodeChar (Char.ofNat v) =
      [UInt8.ofNat (v / 64 % 32 + 192), UInt8.ofNat (v % 64 + 128)] := by
  unfold String.utf8EncodeChar
  rw [toNat_val_ofNat (.inl (by omega))]
  dsimp only
  rw [if_neg (by omega), if_pos hhigh]

theorem utf8EncodeChar_three {v : Nat} (hlow : 0x7FF < v) (hhigh : v ≤ 0xFFFF)
    (hscalar : v < 0xD800 ∨ 0xDFFF < v) :
    String.utf8EncodeChar (Char.ofNat v) =
      [UInt8.ofNat (v / 4096 % 16 + 224), UInt8.ofNat (v / 64 % 64 + 128),
        UInt8.ofNat (v % 64 + 128)] := by
  unfold String.utf8EncodeChar
  rw [toNat_val_ofNat (hscalar.imp_right fun h => ⟨h, by omega⟩)]
  dsimp only
  rw [if_neg (by omega), if_neg (by omega), if_pos hhigh]

theorem utf8EncodeChar_four {v : Nat} (hlow : 0xFFFF < v) (hhigh : v < 0x110000) :
    String.utf8EncodeChar (Char.ofNat v) =
      [UInt8.ofNat (v / 262144 % 8 + 240), UInt8.ofNat (v / 4096 % 64 + 128),
        UInt8.ofNat (v / 64 % 64 + 128), UInt8.ofNat (v % 64 + 128)] := by
  unfold String.utf8EncodeChar
  rw [toNat_val_ofNat (.inr ⟨by omega, hhigh⟩)]
  dsimp only
  rw [if_neg (by omega), if_neg (by omega), if_neg (by omega)]

/-- **A character of two bytes** is written as it was read. -/
theorem utf8EncodeChar_pair {a b : UInt8} (h : isPair a b = true) :
    String.utf8EncodeChar (Char.ofNat (64 * (a.toNat % 32) + low6 b)) = [a, b] := by
  have hpair := isPair_iff.mp h
  rw [low6, utf8EncodeChar_two (by omega) (by omega), ofNat_eq_of_toNat a (by omega),
    ofNat_eq_of_toNat b (by omega)]

theorem startsTriple_iff {a b : UInt8} : startsTriple a b = true ↔
    (a.toNat = 0xE0 ∧ 0xA0 ≤ b.toNat ∧ b.toNat ≤ 0xBF) ∨
    (0xE1 ≤ a.toNat ∧ a.toNat ≤ 0xEC ∧ 0x80 ≤ b.toNat ∧ b.toNat ≤ 0xBF) ∨
    (a.toNat = 0xED ∧ 0x80 ≤ b.toNat ∧ b.toNat ≤ 0x9F) ∨
    (0xEE ≤ a.toNat ∧ a.toNat ≤ 0xEF ∧ 0x80 ≤ b.toNat ∧ b.toNat ≤ 0xBF) := by
  simp only [startsTriple, Bool.and_eq_true, Bool.or_eq_true, isContinuation_iff, beq_iff_eq,
    decide_eq_true_eq, UInt8.le_iff_toNat_le, ← UInt8.toNat_inj, UInt8.reduceToNat, and_assoc,
    or_assoc]

theorem startsQuadruple_iff {a b : UInt8} : startsQuadruple a b = true ↔
    (a.toNat = 0xF0 ∧ 0x90 ≤ b.toNat ∧ b.toNat ≤ 0xBF) ∨
    (0xF1 ≤ a.toNat ∧ a.toNat ≤ 0xF3 ∧ 0x80 ≤ b.toNat ∧ b.toNat ≤ 0xBF) ∨
    (a.toNat = 0xF4 ∧ 0x80 ≤ b.toNat ∧ b.toNat ≤ 0x8F) := by
  simp only [startsQuadruple, Bool.and_eq_true, Bool.or_eq_true, isContinuation_iff, beq_iff_eq,
    decide_eq_true_eq, UInt8.le_iff_toNat_le, ← UInt8.toNat_inj, UInt8.reduceToNat, and_assoc,
    or_assoc]

/-- **A character of three bytes** is written as it was read. -/
theorem utf8EncodeChar_triple {a b c : UInt8} (h : startsTriple a b = true)
    (hc : isContinuation c = true) :
    String.utf8EncodeChar (Char.ofNat (64 * (64 * (a.toNat % 16) + low6 b) + low6 c)) =
      [a, b, c] := by
  have hstart := startsTriple_iff.mp h
  have hlast := isContinuation_iff.mp hc
  rw [low6, low6, utf8EncodeChar_three (by omega) (by omega) (by omega),
    ofNat_eq_of_toNat a (by omega), ofNat_eq_of_toNat b (by omega), ofNat_eq_of_toNat c (by omega)]

/-- **A character of four bytes** is written as it was read. -/
theorem utf8EncodeChar_quadruple {a b c d : UInt8} (h : startsQuadruple a b = true)
    (hc : isContinuation c = true) (hd : isContinuation d = true) :
    String.utf8EncodeChar
        (Char.ofNat (64 * (64 * (64 * (a.toNat % 8) + low6 b) + low6 c) + low6 d)) =
      [a, b, c, d] := by
  have hstart := startsQuadruple_iff.mp h
  have hthird := isContinuation_iff.mp hc
  have hlast := isContinuation_iff.mp hd
  rw [low6, low6, low6, utf8EncodeChar_four (by omega) (by omega), ofNat_eq_of_toNat a (by omega),
    ofNat_eq_of_toNat b (by omega), ofNat_eq_of_toNat c (by omega), ofNat_eq_of_toNat d (by omega)]

/-- **What is read as characters** is how these are written. -/
theorem encodeChars_of_decode? {b : Bytes} {cs : List Char} (h : decode? b = some cs) :
    encodeChars cs = b := by
  have hfront : ∀ {rest : Bytes} {c : Char} {cs : List Char},
      (decode? rest).map (c :: ·) = some cs →
        (∀ {cs}, decode? rest = some cs → encodeChars cs = rest) →
          encodeChars cs = String.utf8EncodeChar c ++ rest := by
    intro rest c cs hcs ih
    obtain ⟨more, hmore, rfl⟩ := Option.map_eq_some_iff.mp hcs
    rw [encodeChars, List.flatMap_cons]
    exact congrArg _ (ih hmore)
  fun_induction decode? b generalizing cs with
  | case1 =>
      obtain rfl := Option.some.inj h
      rfl
  | case2 a rest hascii ih =>
      rw [hfront h ih, utf8EncodeChar_ascii (UInt8.lt_iff_toNat_lt.mp hascii), UInt8.ofNat_toNat]
      rfl
  | case4 a _ b rest hpair ih =>
      rw [hfront h ih, utf8EncodeChar_pair hpair]
      rfl
  | case6 a _ b _ c rest htriple ih =>
      obtain ⟨hstart, hc⟩ := Bool.and_eq_true_iff.mp htriple
      rw [hfront h ih, utf8EncodeChar_triple hstart hc]
      rfl
  | case8 a _ b _ c _ d rest hquadruple ih =>
      obtain ⟨hfirst, hd⟩ := Bool.and_eq_true_iff.mp hquadruple
      obtain ⟨hstart, hc⟩ := Bool.and_eq_true_iff.mp hfirst
      rw [hfront h ih, utf8EncodeChar_quadruple hstart hc hd]
      rfl
  | _ => cases h

/-- Two byte strings of valid UTF-8 **make one**. -/
theorem isValid_append {b b' : Bytes} (h : isValid b = true) (h' : isValid b' = true) :
    isValid (b ++ b') = true := by
  rw [isValid_eq_isSome_decode?] at h h' ⊢
  obtain ⟨cs, hcs⟩ := Option.isSome_iff_exists.mp h
  obtain ⟨cs', hcs'⟩ := Option.isSome_iff_exists.mp h'
  have hwritten : encodeChars (cs ++ cs') = b ++ b' := by
    rw [encodeChars, List.flatMap_append, ← encodeChars, ← encodeChars, encodeChars_of_decode? hcs,
      encodeChars_of_decode? hcs']
  rw [← hwritten, decode?_encodeChars]
  rfl

/-- Bytes of ASCII are **valid UTF-8**. -/
theorem isValid_of_ascii {b : Bytes} (h : ∀ byte ∈ b, byte < 0x80) : isValid b = true := by
  rw [← encode_asciiText h]
  exact isValid_encode _

/-- A text that is read **is written as it was**. -/
theorem encode_of_text? {b : Bytes} {text : String} (h : text? b = some text) :
    encode text = b := by
  obtain ⟨cs, hcs, rfl⟩ := Option.map_eq_some_iff.mp h
  rw [encode, String.toList_ofList]
  exact encodeChars_of_decode? hcs

/-- **Valid UTF-8** is read as a text. -/
theorem text?_eq_none_iff {b : Bytes} : text? b = none ↔ isValid b = false := by
  rw [text?, Option.map_eq_none_iff, isValid_eq_isSome_decode?, Option.isSome_eq_false_iff,
    Option.isNone_iff_eq_none]

/-! ### Cutting -/

/-- Behind its first byte a character has **continuation bytes** only. -/
theorem isContinuation_of_mem_tail (c : Char) {byte : UInt8}
    (h : byte ∈ (String.utf8EncodeChar c).tail) : isContinuation byte = true := by
  unfold String.utf8EncodeChar at h
  dsimp only at h
  split at h
  · cases h
  split at h
  · obtain rfl := List.mem_singleton.mp h
    exact isContinuation_ofNat _
  split at h
  · simp only [List.tail_cons, List.mem_cons, List.not_mem_nil, or_false] at h
    obtain rfl | rfl := h <;> exact isContinuation_ofNat _
  · simp only [List.tail_cons, List.mem_cons, List.not_mem_nil, or_false] at h
    obtain rfl | rfl | rfl := h <;> exact isContinuation_ofNat _

/-- A cut falls **in front of a byte that begins a character**, or at an end. -/
theorem floorBoundary_spec (b : Bytes) (n : Nat) :
    floorBoundary b n = 0 ∨
      ∀ byte, b[floorBoundary b n]? = some byte → isContinuation byte = false := by
  induction n with
  | zero => exact .inl rfl
  | succ n ih =>
      unfold floorBoundary
      cases hbyte : b[n + 1]? with
      | none =>
          dsimp only
          refine .inr fun byte h => ?_
          cases hbyte.symm.trans h
      | some byte =>
          dsimp only
          split
          · exact ih
          · rename_i hnot
            refine .inr fun other h => ?_
            obtain rfl := Option.some.inj (hbyte.symm.trans h)
            exact Bool.eq_false_iff.mpr hnot

/-- At such a place a text is cut **between two characters**. -/
theorem take_encodeChars (cs : List Char) (p : Nat)
    (hp : p = 0 ∨ ∀ byte, (encodeChars cs)[p]? = some byte → isContinuation byte = false) :
    ∃ k, (encodeChars cs).take p = encodeChars (cs.take k) := by
  induction cs generalizing p with
  | nil => exact ⟨0, List.take_nil⟩
  | cons c cs ih =>
      obtain rfl | hp := hp
      · exact ⟨0, rfl⟩
      rw [encodeChars, List.flatMap_cons] at hp ⊢
      by_cases hwhole : (String.utf8EncodeChar c).length ≤ p
      · obtain ⟨k, hk⟩ := ih (p - (String.utf8EncodeChar c).length) (.inr fun byte hbyte => by
          refine hp byte ?_
          rw [List.getElem?_append_right hwhole]
          exact hbyte)
        refine ⟨k + 1, ?_⟩
        rw [List.take_append, List.take_of_length_le hwhole, List.take_succ_cons, encodeChars,
          List.flatMap_cons]
        exact congrArg _ hk
      · -- a place within a character is in front of a continuation byte
        cases p with
        | zero => exact ⟨0, rfl⟩
        | succ p =>
            have hlt := Nat.lt_of_not_le hwhole
            have hbyte := List.getElem?_eq_getElem hlt
            have hnot := hp _ ((List.getElem?_append_left hlt).trans hbyte)
            refine absurd (isContinuation_of_mem_tail c ?_) (Bool.eq_false_iff.mp hnot)
            refine List.mem_of_getElem? (i := p) ?_
            rw [List.getElem?_tail]
            exact hbyte

/-- The first byte of a character **continues none**. -/
theorem exists_encodeChar_cons (c : Char) :
    ∃ first more, String.utf8EncodeChar c = first :: more ∧ isContinuation first = false := by
  have hfirst : ∀ {n : Nat}, n < 0x80 ∨ 0xBF < n ∧ n < 256 →
      isContinuation (UInt8.ofNat n) = false := by
    intro n hn
    rw [← Bool.not_eq_true, isContinuation_iff, UInt8.toNat_ofNat']
    omega
  have hscalar : c.val.toNat < 0xD800 ∨ 0xDFFF < c.val.toNat ∧ c.val.toNat < 0x110000 := c.valid
  unfold String.utf8EncodeChar
  dsimp only
  split
  · exact ⟨_, _, rfl, hfirst (by omega)⟩
  split
  · exact ⟨_, _, rfl, hfirst (by omega)⟩
  split
  · exact ⟨_, _, rfl, hfirst (by omega)⟩
  · exact ⟨_, _, rfl, hfirst (by omega)⟩

theorem encodeChars_append (front back : List Char) :
    encodeChars (front ++ back) = encodeChars front ++ encodeChars back :=
  List.flatMap_append

theorem encodeChars_eq_nil {cs : List Char} (h : encodeChars cs = []) : cs = [] := by
  cases cs with
  | nil => rfl
  | cons c cs =>
      obtain ⟨first, more, hchar, -⟩ := exists_encodeChar_cons c
      rw [encodeChars, List.flatMap_cons, hchar] at h
      cases h

/-- The cut falls at **the last place** where it may fall. -/
theorem le_floorBoundary {b : Bytes} {p n : Nat} (hle : p ≤ n)
    (hp : ∀ byte, b[p]? = some byte → isContinuation byte = false) : p ≤ floorBoundary b n := by
  induction n with
  | zero => exact hle
  | succ n ih =>
      unfold floorBoundary
      split
      · rename_i byte hbyte
        split
        · rename_i hcontinues
          obtain rfl | hlt := Nat.eq_or_lt_of_le hle
          · exact nomatch (hp byte hbyte).symm.trans hcontinues
          · exact ih (Nat.le_of_lt_succ hlt)
        · exact hle
      · exact hle

/-- Behind the first characters of a text **one begins**, or the text ends. -/
theorem not_isContinuation_behind (front back : List Char) (byte : UInt8)
    (h : (encodeChars (front ++ back))[(encodeChars front).length]? = some byte) :
    isContinuation byte = false := by
  rw [encodeChars_append, List.getElem?_append_right (Nat.le_refl _), Nat.sub_self] at h
  cases back with
  | nil => cases h
  | cons c back =>
      obtain ⟨first, more, hchar, hfirst⟩ := exists_encodeChar_cons c
      rw [encodeChars, List.flatMap_cons, hchar] at h
      obtain rfl := Option.some.inj h
      exact hfirst

/-- **A text that is cut** is left with its first characters. -/
theorem truncate_encode (limit : Nat) (text : String) :
    ∃ k, truncate limit (encode text) = encodeChars (text.toList.take k) := by
  unfold truncate
  split
  · exact ⟨text.toList.length, by rw [List.take_length]; rfl⟩
  · exact take_encodeChars _ _ (floorBoundary_spec _ _)

/-- A text that begins another one and is written in no fewer bytes **is the other one**. -/
theorem isPrefix_of_length_le {cs front back : List Char} (hfront : front <+: cs)
    (hback : back <+: cs) (hle : (encodeChars front).length ≤ (encodeChars back).length) :
    front <+: back := by
  obtain h | ⟨more, rfl⟩ := List.prefix_or_prefix_of_prefix hfront hback
  · exact h
  · rw [encodeChars_append, List.length_append] at hle
    have hmore : (encodeChars more).length = 0 := by omega
    have hnil : more = [] := encodeChars_eq_nil (List.length_eq_zero_iff.mp hmore)
    exact ⟨[], by rw [hnil, List.append_nil, List.append_nil]⟩

/-- **The longest front part** of a text that is written in at most so many bytes. -/
structure IsLongestFit (limit : Nat) (whole part : String) : Prop where
  front : part.toList <+: whole.toList
  fits : (encode part).length ≤ limit
  longest : ∀ {other : String}, other.toList <+: whole.toList → (encode other).length ≤ limit →
    other.toList <+: part.toList

/-- A text is cut **no shorter than it has to be**. -/
theorem isLongestFit_of_encode {limit : Nat} {whole part : String}
    (h : encode part = truncate limit (encode whole)) : IsLongestFit limit whole part := by
  obtain ⟨k, hk⟩ := truncate_encode limit whole
  have hchars : part.toList = whole.toList.take k := by
    have hread := decode?_encodeChars part.toList
    rw [show encodeChars part.toList = encodeChars (whole.toList.take k) from h.trans hk,
      decode?_encodeChars] at hread
    exact (Option.some.inj hread).symm
  have hfront : part.toList <+: whole.toList := hchars ▸ List.take_prefix k whole.toList
  refine ⟨hfront, h ▸ length_truncate_le limit _, fun {other} hother hfits => ?_⟩
  refine isPrefix_of_length_le hother hfront ?_
  obtain ⟨back, hback⟩ := hother
  have hwhole : encode other ++ encodeChars back = encode whole := by
    rw [encode, encode, ← hback, encodeChars_append]
  rw [show encodeChars part.toList = truncate limit (encode whole) from h]
  unfold truncate
  split
  · rw [← hwhole, List.length_append]
    exact Nat.le_add_right _ _
  · rw [List.length_take, Nat.le_min]
    refine ⟨le_floorBoundary hfits fun byte hbyte => ?_, ?_⟩
    · rw [encode, ← hback] at hbyte
      exact not_isContinuation_behind _ _ byte hbyte
    · rw [← hwhole, List.length_append]
      exact Nat.le_add_right _ _

end Utf8

end WebSocket
