import WebSocket.Handshake.HeadReader

/-!
# Where a head ends

The end of a head is found in the bytes that have come so far. Once it is found there, bytes that
come later change nothing: they stand behind the head.

## Main results

* `Handshake.headEndFrom_append`: the end of a head **stays where it is** when more bytes come.
* `Handshake.headProgress_append`: what comes later stands behind the head.
-/

namespace WebSocket

namespace Handshake

variable {b head rest : Bytes} {start e limit : Nat}

/-- A head ends behind its empty line, and **within the bytes** that have come. -/
theorem headEndFrom_bounds (h : headEndFrom start b = some e) :
    start + 4 ≤ e ∧ e ≤ start + b.length := by
  induction b generalizing start with
  | nil => cases h
  | cons byte b ih =>
      rw [headEndFrom] at h
      split at h
      · rename_i hend
        cases h
        have hlength := (List.isPrefixOf_iff_prefix.mp hend).length_le
        have hfour : (Http.newline ++ Http.newline).length = 4 := rfl
        rw [hfour] at hlength
        omega
      · obtain ⟨hle, hlt⟩ := ih h
        rw [List.length_cons]
        omega

/-- The end of a head **stays where it is** when more bytes come. -/
theorem headEndFrom_append (h : headEndFrom start b = some e) (c : Bytes) :
    headEndFrom start (b ++ c) = some e := by
  induction b generalizing start with
  | nil => cases h
  | cons byte b ih =>
      rw [headEndFrom] at h
      rw [List.cons_append, headEndFrom]
      split at h
      · rename_i hend
        rw [if_pos]
        · exact h
        · have hend := List.isPrefixOf_iff_prefix.mp hend
          exact List.isPrefixOf_iff_prefix.mpr (hend.trans (List.prefix_append (byte :: b) c))
      · rename_i hnot
        rw [if_neg]
        · exact ih h
        · intro hend
          -- an empty line that begins here would have been whole already
          have hend := List.isPrefixOf_iff_prefix.mp hend
          refine hnot (List.isPrefixOf_iff_prefix.mpr ?_)
          refine List.prefix_of_prefix_length_le hend (List.prefix_append (byte :: b) c) ?_
          have hbounds := headEndFrom_bounds h
          have hfour : (Http.newline ++ Http.newline).length = 4 := rfl
          rw [hfour, List.length_cons]
          omega

/-- What comes later **stands behind the head**. -/
theorem headProgress_append (h : headProgress limit b = .done head rest) (c : Bytes) :
    headProgress limit (b ++ c) = .done head (rest ++ c) := by
  unfold headProgress at h ⊢
  split at h
  · rename_i e hend
    split at h
    · cases h
    · rename_i hlimit
      cases h
      have hle : e ≤ b.length := by simpa using (headEndFrom_bounds hend).2
      rw [show headEnd? (b ++ c) = some e from headEndFrom_append hend c]
      simp only [if_neg hlimit, List.take_append_of_le_length hle,
        List.drop_append_of_le_length hle]
  · split at h <;> cases h

/-- The head and what stands behind it are all the bytes that have come. -/
theorem append_of_headProgress (h : headProgress limit b = .done head rest) : head ++ rest = b := by
  unfold headProgress at h
  split at h
  · split at h
    · cases h
    · cases h
      exact List.take_append_drop _ b
  · split at h <;> cases h

end Handshake

end WebSocket
