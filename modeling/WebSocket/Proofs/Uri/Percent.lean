import WebSocket.Proofs.Utf8
import WebSocket.Uri.Percent

/-!
# What is percent encoded is read back

Every byte is written either as itself or as a percent sign and two digits, and the sign never
stands for itself. So a reader can tell the two apart at every place, and comes to the byte that was
written. What is written holds letters, digits, the sign and four marks, and with none of the bytes
that part a request target or end it.

## Main results

* `Percent.decode?_encode`: **what is written is read**.
* `Percent.isWritten_of_mem_encode`: it is written in **few bytes**.
-/

namespace WebSocket

namespace Percent

/-- The bytes with which **anything is written**. -/
def isWritten (b : UInt8) : Bool := isPlain b || b == sign

theorem value?_digit {n : Nat} (h : n < 16) : value? (digit n) = some n := by
  have hall : ∀ k : Fin 16, value? (digit k) = some k := by decide
  exact hall ⟨n, h⟩

theorem ne_sign_of_isPlain {byte : UInt8} (h : isPlain byte = true) : byte ≠ sign := by
  rintro rfl
  cases h

/-- One byte that is written **is read**, whatever follows. -/
theorem decode?_encodeByte_append (byte : UInt8) (rest : Bytes) :
    decode? (encodeByte byte ++ rest) = (decode? rest).map (byte :: ·) := by
  unfold encodeByte
  split
  · rename_i hplain
    rw [List.singleton_append, decode?.eq_def]
    exact if_neg (ne_sign_of_isPlain hplain)
  · have hbyte := byte.toNat_lt
    have hhigh := value?_digit (show byte.toNat / 16 < 16 by omega)
    have hlow := value?_digit (show byte.toNat % 16 < 16 by omega)
    have hwhole : UInt8.ofNat (16 * (byte.toNat / 16) + byte.toNat % 16) = byte := by
      rw [Nat.div_add_mod, UInt8.ofNat_toNat]
    rw [List.cons_append, List.cons_append, List.cons_append, List.nil_append, decode?, if_pos rfl,
      hhigh, hlow]
    cases decode? rest with
    | none => rfl
    | some more => exact congrArg (fun b => some (b :: more)) hwhole

/-- **What is written is read.** -/
theorem decode?_encode (b : Bytes) : decode? (encode b) = some b := by
  induction b with
  | nil => rfl
  | cons byte b ih => rw [encode, List.flatMap_cons, decode?_encodeByte_append, ← encode, ih]; rfl

theorem isWritten_of_encodeByte : ∀ byte, (encodeByte byte).all isWritten = true :=
  Bytes.forall_byte (by decide +kernel)

/-- Everything is written **in few bytes**. -/
theorem isWritten_of_mem_encode {b : Bytes} {byte : UInt8} (h : byte ∈ encode b) :
    isWritten byte = true := by
  obtain ⟨which, -, hbyte⟩ := List.mem_flatMap.mp h
  exact List.all_eq_true.mp (isWritten_of_encodeByte which) byte hbyte

theorem not_mem_encode {mark : UInt8} (hmark : isWritten mark = false) (b : Bytes) :
    mark ∉ encode b := fun h => by
  rw [isWritten_of_mem_encode h] at hmark
  cases hmark

/-! ### Texts -/

/-- The **text** whose bytes were written; nothing when they are no text. -/
def text? (b : Bytes) : Option String := (decode? b).bind Utf8.text?

theorem text?_encode (text : String) : text? (encode (Utf8.encode text)) = some text := by
  rw [text?, decode?_encode, Option.bind_some, Utf8.text?_encode]

end Percent

end WebSocket
