import WebSocket.Bytes

/-!
# The pieces of a byte string

`Bytes.pieces` cuts a piece off a byte string until nothing is left, and is given a bound on how
often. The bound never matters, so the pieces are the first one and the pieces of the rest
(`Bytes.pieces_of_ne_nil`), and what holds of them is shown by going on behind the first one
(`Bytes.drop_induction`).

## Main results

* `Bytes.flatten_pieces`: a byte string is **the pieces it is cut into**.
* `Bytes.mem_pieces`: a piece is **neither empty nor too long**.
* `Bytes.length_pieces`: how many pieces there are.
-/

namespace WebSocket

namespace Bytes

variable {size : Nat} {b part first : Bytes} {parts : List Bytes}

/-- The pieces cut before come first, and have **no influence on the others**. -/
theorem piecesOnto_eq_append (size : Nat) (done : List Bytes) (bound : Nat) (b : Bytes) :
    piecesOnto size done bound b = done.reverse ++ piecesOnto size [] bound b := by
  induction bound generalizing done b with
  | zero => cases b <;> simp [piecesOnto]
  | succ bound ih =>
      match b with
      | [] => simp [piecesOnto]
      | byte :: more =>
          rw [piecesOnto, piecesOnto, ih, ih [_]]
          · simp
          · exact nofun
          · exact nofun

/-- To allow **more pieces than there are bytes** makes no difference. -/
theorem piecesOnto_congr (hsize : 0 < size) {bound bound' : Nat} (h : b.length ≤ bound)
    (h' : b.length ≤ bound') : piecesOnto size [] bound b = piecesOnto size [] bound' b := by
  induction bound generalizing bound' b with
  | zero =>
      rw [List.eq_nil_of_length_eq_zero (Nat.le_zero.mp h)]
      cases bound' <;> rfl
  | succ bound ih =>
      match b, bound' with
      | [], _ => simp [piecesOnto]
      | byte :: more, bound' + 1 =>
          have hdrop : ((byte :: more).drop size).length ≤ more.length := by
            rw [List.length_drop, List.length_cons]
            omega
          rw [List.length_cons] at h h'
          rw [piecesOnto, piecesOnto, piecesOnto_eq_append, piecesOnto_eq_append size [_] bound',
            @ih _ bound' (by omega) (by omega)]
          · exact nofun
          · exact nofun

/-- **The first piece** is cut off, and the rest is cut into pieces. -/
theorem pieces_of_ne_nil (hsize : 0 < size) (h : b ≠ []) :
    pieces size b = b.take size :: pieces size (b.drop size) := by
  obtain ⟨byte, more, rfl⟩ := List.exists_cons_of_ne_nil h
  have hdrop : ((byte :: more).drop size).length ≤ more.length := by
    rw [List.length_drop, List.length_cons]
    omega
  rw [pieces, List.length_cons, piecesOnto, piecesOnto_eq_append,
    piecesOnto_congr hsize hdrop (Nat.le_refl _)]
  · rfl
  · exact nofun

/-- What holds of the empty string, and of a string **if it holds behind its first piece**, holds of
every string. -/
@[elab_as_elim]
theorem drop_induction {motive : Bytes → Prop} (hsize : 0 < size) (nil : motive [])
    (drop : ∀ b, b ≠ [] → motive (b.drop size) → motive b) (b : Bytes) : motive b := by
  induction hlength : b.length using Nat.strongRecOn generalizing b with
  | ind length ih =>
      by_cases hb : b = []
      · exact hb ▸ nil
      · have hpos := List.length_pos_iff.mpr hb
        refine drop b hb (ih _ ?_ _ rfl)
        rw [List.length_drop]
        omega

/-- A byte string is **the pieces it is cut into**, one behind the other. -/
theorem flatten_pieces (hsize : 0 < size) (b : Bytes) : (pieces size b).flatten = b := by
  induction b using drop_induction hsize with
  | nil => rfl
  | drop b hb ih => rw [pieces_of_ne_nil hsize hb, List.flatten_cons, ih, List.take_append_drop]

/-- A piece is **neither empty nor too long**. -/
theorem mem_pieces (hsize : 0 < size) (h : part ∈ pieces size b) :
    part ≠ [] ∧ part.length ≤ size := by
  induction b using drop_induction hsize with
  | nil => cases h
  | drop b hb ih =>
      rw [pieces_of_ne_nil hsize hb] at h
      obtain rfl | hlater := List.mem_cons.mp h
      · refine ⟨fun hnil => ?_, List.length_take_le _ _⟩
        obtain hzero | hnil := List.take_eq_nil_iff.mp hnil
        · omega
        · exact hb hnil
      · exact ih hlater

/-- There are as many pieces as it takes, **rounded up**. -/
theorem length_pieces (hsize : 0 < size) (b : Bytes) :
    (pieces size b).length = (b.length + size - 1) / size := by
  induction b using drop_induction hsize with
  | nil => exact (Nat.div_eq_of_lt (by rw [List.length_nil]; omega)).symm
  | drop b hb ih =>
      have hpos := List.length_pos_iff.mpr hb
      have hcount : b.length + size - 1 = (b.length - 1) + size := by omega
      rw [pieces_of_ne_nil hsize hb, List.length_cons, ih, List.length_drop, hcount,
        Nat.add_div_right _ hsize]
      obtain hshort | hlong := Nat.le_total b.length size
      · rw [Nat.div_eq_of_lt (by omega), Nat.div_eq_of_lt (by omega)]
      · rw [show b.length - size + size - 1 = b.length - 1 by omega]

/-- Of the pieces of a byte string that is longer than one of them, **none is longer than the
first**. -/
theorem length_le_of_pieces (hsize : 0 < size) (hlong : size < b.length)
    (h : pieces size b = first :: parts) : ∀ part ∈ parts, part.length ≤ first.length := by
  have hb : b ≠ [] := List.length_pos_iff.mp (Nat.zero_lt_of_lt hlong)
  intro part hpart
  have hlength := (mem_pieces hsize (h ▸ List.mem_cons_of_mem first hpart)).2
  rw [pieces_of_ne_nil hsize hb] at h
  obtain ⟨rfl, -⟩ := List.cons.inj h
  rwa [List.length_take, Nat.min_eq_left (Nat.le_of_lt hlong)]

end Bytes

end WebSocket
