import WebSocket.Base64
import WebSocket.Http.Chars
import WebSocket.Proofs.Utf8
import Mathlib.Data.List.TakeWhile

/-!
# The parts of a head

What becomes of a header value or a target on its way from one end to the other. Blanks around a
value are lost, which makes no difference to the entries of a list, since those are trimmed in any
case. A key is written in letters, digits and a few marks, so nothing of it is lost, and the bytes
that it stands for are read back.

## Main results

* `Bytes.map_trim_splitOn_trim`: blanks around a list make no difference **to its entries**.
* `Base64.decode_encode`: what is written in Base64 **is read**.
-/

namespace WebSocket

namespace Bytes

/-- A byte string of **nothing but blanks**. -/
def Blank (b : Bytes) : Prop := ∀ byte ∈ b, isBlank byte = true

theorem dropWhile_append_of_blank {lead : Bytes} (h : Blank lead) (b : Bytes) :
    (lead ++ b).dropWhile isBlank = b.dropWhile isBlank :=
  List.dropWhile_append_of_pos h

/-- Blanks **in front** are trimmed. -/
theorem trim_append_left {lead : Bytes} (h : Blank lead) (b : Bytes) :
    trim (lead ++ b) = trim b := by
  rw [trim, dropWhile_append_of_blank h, trim]

/-- Blanks **behind** are trimmed. -/
theorem trim_append_right {trail : Bytes} (h : Blank trail) (b : Bytes) :
    trim (b ++ trail) = trim b := by
  have hback : Blank trail.reverse := fun byte hbyte => h byte (List.mem_reverse.mp hbyte)
  simp only [trim, List.dropWhile_append]
  split
  · rename_i hempty
    rw [List.isEmpty_iff.mp hempty, List.dropWhile_eq_nil_iff.mpr h]
  · rw [List.reverse_append, dropWhile_append_of_blank hback]

/-- A byte string is its trimmed form **between blanks**. -/
theorem exists_blanks (b : Bytes) :
    ∃ lead trail, Blank lead ∧ Blank trail ∧ b = lead ++ (trim b ++ trail) := by
  refine ⟨b.takeWhile isBlank, ((b.dropWhile isBlank).reverse.takeWhile isBlank).reverse,
    fun _ => List.mem_takeWhile_imp, fun _ h => List.mem_takeWhile_imp (List.mem_reverse.mp h), ?_⟩
  rw [trim, ← List.reverse_append, List.takeWhile_append_dropWhile, List.reverse_reverse,
    List.takeWhile_append_dropWhile]

theorem trim_trim (b : Bytes) : trim (trim b) = trim b := by
  obtain ⟨lead, trail, hlead, htrail, heq⟩ := exists_blanks b
  have houter : trim (lead ++ (trim b ++ trail)) = trim (trim b) := by
    rw [trim_append_left hlead, trim_append_right htrail]
  exact houter.symm.trans (congrArg trim heq.symm)

/-- A byte string without blanks is **trimmed as it is**. -/
theorem trim_eq_self {b : Bytes} (h : ∀ byte ∈ b, isBlank byte = false) : trim b = b := by
  have hkeep : ∀ {c : Bytes}, (∀ byte ∈ c, isBlank byte = false) → c.dropWhile isBlank = c := by
    intro c hc
    cases c with
    | nil => rfl
    | cons first more =>
        rw [List.dropWhile_cons, hc first (List.mem_cons_self ..), if_neg Bool.false_ne_true]
  rw [trim, hkeep h, hkeep fun byte hbyte => h byte (List.mem_reverse.mp hbyte),
    List.reverse_reverse]

/-- Trimming keeps to a class of bytes that **holds the blanks**. -/
theorem all_trim {member : UInt8 → Bool}
    (hmember : ∀ byte, isBlank byte = true → member byte = true) (b : Bytes) :
    (trim b).all member = b.all member := by
  obtain ⟨lead, trail, hlead, htrail, heq⟩ := exists_blanks b
  have hall : ∀ {c : Bytes}, Blank c → c.all member = true := fun hc =>
    List.all_eq_true.mpr fun byte hbyte => hmember byte (hc byte hbyte)
  have houter : (lead ++ (trim b ++ trail)).all member = (trim b).all member := by
    rw [List.all_append, List.all_append, hall hlead, hall htrail, Bool.true_and, Bool.and_true]
  exact houter.symm.trans (congrArg (List.all · member) heq.symm)

/-! ### Lists -/

theorem splitOn_eq_cons (separator : UInt8) (b : Bytes) :
    ∃ part parts, splitOn separator b = part :: parts := by
  cases b with
  | nil => exact ⟨_, _, rfl⟩
  | cons byte b =>
      rw [splitOn]
      split
      · exact ⟨_, _, rfl⟩
      · split <;> exact ⟨_, _, rfl⟩

/-- Bytes in front of a list that are no separator belong to its **first entry**. -/
theorem splitOn_append_left {separator : UInt8} {lead b part : Bytes} {parts : List Bytes}
    (hlead : separator ∉ lead) (h : splitOn separator b = part :: parts) :
    splitOn separator (lead ++ b) = (lead ++ part) :: parts := by
  induction lead with
  | nil => exact h
  | cons byte lead ih =>
      obtain ⟨hne, hmore⟩ := not_or.mp (mt List.mem_cons.mpr hlead)
      rw [List.cons_append, splitOn, ih hmore]
      simp [Ne.symm hne]

/-- Bytes behind a list that are no separator belong to its **last entry**. -/
theorem splitOn_append_right {separator : UInt8} {trail : Bytes} (htrail : separator ∉ trail)
    (b : Bytes) : ∃ parts last, splitOn separator b = parts ++ [last] ∧
      splitOn separator (b ++ trail) = parts ++ [last ++ trail] := by
  induction b with
  | nil =>
      refine ⟨[], [], rfl, ?_⟩
      simpa using splitOn_append_left htrail (show splitOn separator [] = [] :: [] from rfl)
  | cons byte b ih =>
      obtain ⟨parts, last, hb, happend⟩ := ih
      rw [List.cons_append, splitOn, splitOn, hb, happend]
      cases parts with
      | nil =>
          by_cases heq : byte = separator
          · exact ⟨[[]], last, by simp [heq], by simp [heq]⟩
          · exact ⟨[], byte :: last, by simp [heq], by simp [heq]⟩
      | cons part parts =>
          by_cases heq : byte = separator
          · exact ⟨[] :: part :: parts, last, by simp [heq], by simp [heq]⟩
          · exact ⟨(byte :: part) :: parts, last, by simp [heq], by simp [heq]⟩

/-- Blanks around a list make no difference **to its entries**, once those are trimmed. -/
theorem map_trim_splitOn_trim {separator : UInt8} (hseparator : isBlank separator = false)
    (b : Bytes) : (splitOn separator (trim b)).map trim = (splitOn separator b).map trim := by
  have hnot : ∀ {c : Bytes}, Blank c → separator ∉ c := fun hc hmem => by
    rw [hc _ hmem] at hseparator
    cases hseparator
  obtain ⟨lead, trail, hlead, htrail, heq⟩ := exists_blanks b
  obtain ⟨parts, last, hentries, hbehind⟩ := splitOn_append_right (hnot htrail) (trim b)
  obtain ⟨first, more, hfirst⟩ := splitOn_eq_cons separator (trim b ++ trail)
  have hfront := splitOn_append_left (hnot hlead) hfirst
  rw [← heq] at hfront
  rw [hfront, List.map_cons, trim_append_left hlead, ← List.map_cons, ← hfirst, hbehind, hentries,
    List.map_append, List.map_append, List.map_singleton, List.map_singleton,
    trim_append_right htrail]

end Bytes

namespace Base64

theorem value_digit {n : Nat} (h : n < 64) : value? (digit n) = some n := by
  have hall : ∀ k : Fin 64, value? (digit k) = some k := by decide
  exact hall ⟨n, h⟩

theorem digit_ne_filling {n : Nat} (h : n < 64) : digit n ≠ filling := by
  have hall : ∀ k : Fin 64, digit k ≠ filling := by decide
  exact hall ⟨n, h⟩

/-- Three bytes are cut into **four numbers below 64**. -/
theorem lt_of_group (a b c : UInt8) :
    a.toNat / 4 < 64 ∧ a.toNat % 4 * 16 + b.toNat / 16 < 64 ∧
      b.toNat % 16 * 4 + c.toNat / 64 < 64 ∧ c.toNat % 64 < 64 := by
  have ha := a.toNat_lt
  have hb := b.toNat_lt
  have hc := c.toNat_lt
  omega

/-- Four numbers below 64 are put together to **the three bytes** that they were cut from. -/
theorem ofNat_group (a b c : UInt8) :
    UInt8.ofNat (4 * (a.toNat / 4) + (a.toNat % 4 * 16 + b.toNat / 16) / 16) = a ∧
      UInt8.ofNat (16 * (a.toNat % 4 * 16 + b.toNat / 16) +
        (b.toNat % 16 * 4 + c.toNat / 64) / 4) = b ∧
      UInt8.ofNat (64 * (b.toNat % 16 * 4 + c.toNat / 64) + c.toNat % 64) = c := by
  have ha := a.toNat_lt
  have hb := b.toNat_lt
  have hc := c.toNat_lt
  simp only [← UInt8.toNat_inj, UInt8.toNat_ofNat']
  omega

/-- **What is written is read.** -/
theorem decode_encode (b : Bytes) : decode? (encode b) = some b := by
  induction b using encode.induct with
  | case1 => rfl
  | case2 a =>
      obtain ⟨hw, hx, -, -⟩ := lt_of_group a 0 0
      obtain ⟨ha, -, -⟩ := ofNat_group a 0 0
      have hzero : (0 : UInt8).toNat = 0 := rfl
      simp only [hzero, Nat.zero_div, Nat.add_zero] at hx ha
      rw [Nat.mul_div_cancel _ (by omega)] at ha
      have hbits : a.toNat % 4 * 16 % 16 = 0 := Nat.mul_mod_left ..
      simp [-UInt8.ofNat_add, -UInt8.ofNat_mul, encode, decode?, decodeLast?, value_digit hw,
        value_digit hx, ha, hbits]
  | case3 a b =>
      obtain ⟨hw, hx, hy, -⟩ := lt_of_group a b 0
      obtain ⟨ha, hb, -⟩ := ofNat_group a b 0
      have hzero : (0 : UInt8).toNat = 0 := rfl
      simp only [hzero, Nat.zero_div, Nat.add_zero] at hy hb
      rw [Nat.mul_div_cancel _ (by omega)] at hb
      have hbits : b.toNat % 16 * 4 % 4 = 0 := Nat.mul_mod_left ..
      simp [-UInt8.ofNat_add, -UInt8.ofNat_mul, encode, decode?, decodeLast?, value_digit hw,
        value_digit hx, value_digit hy, digit_ne_filling hy, ha, hb, hbits]
  | case4 a b c rest ih =>
      obtain ⟨hw, hx, hy, hz⟩ := lt_of_group a b c
      obtain ⟨ha, hb, hc⟩ := ofNat_group a b c
      rw [encode]
      cases hrest : encode rest with
      | nil =>
          obtain rfl : rest = [] := by
            rw [hrest] at ih
            exact (Option.some.inj ih).symm
          simp [-UInt8.ofNat_add, -UInt8.ofNat_mul, decode?, decodeLast?, value_digit hw,
            value_digit hx, value_digit hy, value_digit hz, digit_ne_filling hy,
            digit_ne_filling hz, ha, hb, hc]
      | cons first more =>
          rw [hrest] at ih
          rw [decode?.eq_3 _ _ _ _ _ (by simp)]
          simp [-UInt8.ofNat_add, -UInt8.ofNat_mul, value_digit hw, value_digit hx, value_digit hy,
            value_digit hz, ih, ha, hb, hc]

/-- What is written holds **digits and fillings** only. -/
theorem mem_encode {b : Bytes} {byte : UInt8} (h : byte ∈ encode b) :
    byte = filling ∨ ∃ n, n < 64 ∧ byte = digit n := by
  induction b using encode.induct with
  | case1 => cases h
  | case2 a =>
      obtain ⟨hw, hx, -, -⟩ := lt_of_group a 0 0
      simp only [encode, List.mem_cons, List.not_mem_nil, or_false] at h
      obtain rfl | rfl | rfl | rfl := h
      · exact Or.inr ⟨_, hw, rfl⟩
      · exact Or.inr ⟨_, by simpa using hx, rfl⟩
      · exact Or.inl rfl
      · exact Or.inl rfl
  | case3 a b =>
      obtain ⟨hw, hx, hy, -⟩ := lt_of_group a b 0
      simp only [encode, List.mem_cons, List.not_mem_nil, or_false] at h
      obtain rfl | rfl | rfl | rfl := h
      · exact Or.inr ⟨_, hw, rfl⟩
      · exact Or.inr ⟨_, hx, rfl⟩
      · exact Or.inr ⟨_, by simpa using hy, rfl⟩
      · exact Or.inl rfl
  | case4 a b c rest ih =>
      obtain ⟨hw, hx, hy, hz⟩ := lt_of_group a b c
      simp only [encode, List.mem_cons] at h
      obtain rfl | rfl | rfl | rfl | h := h
      · exact Or.inr ⟨_, hw, rfl⟩
      · exact Or.inr ⟨_, hx, rfl⟩
      · exact Or.inr ⟨_, hy, rfl⟩
      · exact Or.inr ⟨_, hz, rfl⟩
      · exact ih h

/-- Nothing that is written is a **blank** or outside ASCII. -/
theorem plain_of_mem_encode {b : Bytes} {byte : UInt8} (h : byte ∈ encode b) :
    Bytes.isBlank byte = false ∧ Http.isVisible byte = true ∧ byte < 0x80 := by
  obtain rfl | ⟨n, hn, rfl⟩ := mem_encode h
  · decide
  · have hall : ∀ k : Fin 64, Bytes.isBlank (digit k) = false ∧ Http.isVisible (digit k) = true ∧
        digit k < 0x80 := by decide
    exact hall ⟨n, hn⟩

end Base64

end WebSocket
