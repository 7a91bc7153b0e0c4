import Mathlib.Data.List.Rotate
import WebSocket.Mask

/-!
# Masking byte by byte

A payload is masked four bytes at a time (`Mask.apply`). This module shows that the grouping makes
no difference: byte `i` of the payload meets byte `i % 4` of the key (`Mask.applyBytewise`), so
masking keeps the length of a payload and undoes itself. A payload can also be masked in two parts
that are cut anywhere: the second part then meets the key turned by the length of the first one
(`Mask.rotate`), since a part may end in the middle of a group.

## Main results

* `Mask.apply_eq_applyBytewise`: masking in groups follows the rule for single bytes.
* `Mask.apply_apply`: masking twice with one key gives the payload back.
* `Mask.apply_append`: what is masked in two parts is masked as a whole.
* `Mask.masked_by_position`: **what masking does** to any payload, in one statement.
-/

namespace WebSocket

namespace Mask

/-- The key repeats after four bytes. -/
theorem byteAt_add_four (m : Mask) (i : Nat) : m.byteAt (i + 4) = m.byteAt i := by
  unfold byteAt
  rw [Nat.add_mod_right]

/-- A whole group of four meets the whole key, and the rest starts with the key afresh. -/
theorem applyBytewise_group (m : Mask) (a b c d : UInt8) (rest : Bytes) :
    m.applyBytewise (a :: b :: c :: d :: rest) =
      (a ^^^ m.first) :: (b ^^^ m.second) :: (c ^^^ m.third) :: (d ^^^ m.fourth) ::
        m.applyBytewise rest := by
  simp only [applyBytewise, List.mapIdx_cons, byteAt_add_four, Nat.add_assoc, Nat.reduceAdd]
  rfl

/-- Fewer than four bytes meet the front of the key. -/
theorem applyBytewise_eq_zipWith (m : Mask) (rest : Bytes) (h : rest.length < 4) :
    m.applyBytewise rest = List.zipWith (· ^^^ ·) rest m.bytes := by
  match rest with
  | [] | [_] | [_, _] | [_, _, _] => rfl
  | _ :: _ :: _ :: _ :: _ =>
      simp only [List.length_cons] at h
      omega

theorem applyGroups_eq (m : Mask) (done payload : Bytes) :
    m.applyGroups done payload = done.reverse ++ m.applyBytewise payload := by
  induction done, payload using applyGroups.induct (m := m) with
  | case1 done a b c d rest ih =>
      rw [applyGroups, ih, applyBytewise_group]
      simp only [List.reverse_cons, List.append_assoc, List.cons_append, List.nil_append]
  | case2 done rest hshort =>
      have hlength : rest.length < 4 := by
        match rest, hshort with
        | [], _ | [_], _ | [_, _], _ | [_, _, _], _ => simp
        | a :: b :: c :: d :: more, hshort => exact absurd rfl (hshort a b c d more)
      rw [applyGroups.eq_2 _ _ _ hshort, List.reverseAux_eq,
        applyBytewise_eq_zipWith m rest hlength]

/-- **Masking in groups** of four follows the rule for single bytes. -/
theorem apply_eq_applyBytewise (m : Mask) (payload : Bytes) :
    m.apply payload = m.applyBytewise payload := by
  rw [apply, applyGroups_eq, List.reverse_nil, List.nil_append]

/-- Masking keeps the length. -/
@[simp] theorem length_apply (m : Mask) (payload : Bytes) :
    (m.apply payload).length = payload.length := by
  rw [apply_eq_applyBytewise, applyBytewise, List.length_mapIdx]

/-- **Masking twice** with one key gives the payload back. -/
@[simp] theorem apply_apply (m : Mask) (payload : Bytes) : m.apply (m.apply payload) = payload := by
  rw [apply_eq_applyBytewise, apply_eq_applyBytewise, applyBytewise, applyBytewise,
    List.mapIdx_mapIdx]
  refine List.ext_getElem (by simp) fun i h₁ h₂ => ?_
  rw [List.getElem_mapIdx, Function.comp_apply, UInt8.xor_assoc, UInt8.xor_self, UInt8.xor_zero]

/-! ### Positions in the key -/

/-- The byte that covers position `i` is byte `i % 4` of the key **as it is sent**. -/
theorem byteAt_eq_getD (m : Mask) (i : Nat) : m.byteAt i = m.bytes.getD (i % 4) 0 := by
  unfold byteAt
  obtain h | h | h | h : i % 4 = 0 ∨ i % 4 = 1 ∨ i % 4 = 2 ∨ i % 4 = 3 := by omega
  all_goals rw [h]; rfl

/-- **Each byte** of a masked payload comes from the byte at its place and from the key alone. -/
theorem getElem?_apply (m : Mask) (payload : Bytes) (i : Nat) :
    (m.apply payload)[i]? = payload[i]?.map fun byte => byte ^^^ m.bytes.getD (i % 4) 0 := by
  rw [apply_eq_applyBytewise, applyBytewise, List.getElem?_mapIdx, byteAt_eq_getD]

/-! ### Parts of a payload -/

/-- The key **turned by `n` bytes**: `n` times the byte in front goes to the end. -/
def rotate (m : Mask) : Nat → Mask
  | 0 => m
  | n + 1 => (⟨m.second, m.third, m.fourth, m.first⟩ : Mask).rotate n

theorem bytes_rotate (m : Mask) (n : Nat) : (m.rotate n).bytes = m.bytes.rotate n := by
  induction n generalizing m with
  | zero => rw [rotate, List.rotate_zero]
  | succ n ih =>
      rw [rotate, ih, bytes, bytes, List.rotate_cons_succ]
      rfl

/-- A key turned by `n` bytes covers a position as the key covers the one **`n` bytes behind**. -/
theorem byteAt_rotate (m : Mask) (n i : Nat) : (m.rotate n).byteAt i = m.byteAt (i + n) := by
  have hplace : i % 4 < m.bytes.length := Nat.mod_lt i (by decide)
  have hturn : (i % 4 + n) % m.bytes.length = (i + n) % 4 := Nat.mod_add_mod i 4 n
  rw [byteAt_eq_getD, byteAt_eq_getD, bytes_rotate, List.getD_eq_getElem?_getD,
    List.getElem?_rotate hplace, hturn, List.getD_eq_getElem?_getD]

/-- **In two parts**: the second one goes on in the key where the first one stopped. -/
theorem apply_append (m : Mask) (front rest : Bytes) :
    m.apply (front ++ rest) = m.apply front ++ (m.rotate (front.length % 4)).apply rest := by
  -- `front` may end inside a group, so the groups of the whole are not those of the two parts: each
  -- side is masked byte by byte instead.
  have hbehind : ∀ i, (m.rotate (front.length % 4)).byteAt i = m.byteAt (i + front.length) := by
    intro i
    rw [byteAt_rotate, byteAt, byteAt, Nat.add_mod_mod]
  simp only [apply_eq_applyBytewise, applyBytewise, List.mapIdx_append, hbehind]

/-- **What masking does**: it keeps the length of a payload, and byte `i` meets byte `i % 4` of the
key. So it undoes itself, and what stands behind `front` is masked with the key turned by the
length of `front` modulo four. -/
theorem masked_by_position (m : Mask) (payload : Bytes) :
    (m.apply payload).length = payload.length ∧
      (∀ i, (m.apply payload)[i]? =
        payload[i]?.map fun byte => byte ^^^ m.bytes.getD (i % 4) 0) ∧
      m.apply (m.apply payload) = payload ∧
      ∀ front, m.apply (front ++ payload) =
        m.apply front ++ (m.rotate (front.length % 4)).apply payload :=
  ⟨length_apply m payload, getElem?_apply m payload, apply_apply m payload,
    fun front => apply_append m front payload⟩

end Mask

end WebSocket
