import Mathlib.Data.List.TakeWhile
import WebSocket.Proofs.Utf8
import WebSocket.Uri.Reference

/-!
# What a reference leaves for a request

Of a reference that was read, a request needs the path and the query. Both were read character by
character, and what a path or a query admits, a request target admits. They are cut out of a byte
string of valid UTF-8 at a question mark, and put together with one.

## Main results

* `Uri.pathAndQuery_of_parse?`: the path and the query of a reference **make a request target**.
-/

namespace WebSocket

namespace Uri

variable {b path : Bytes} {query : Option Bytes} {u : Uri}

/-- The **path and the query** of an address, with a slash for a path that is not there. -/
def pathAndQuery (u : Uri) : Bytes :=
  (if u.path.isEmpty then [slash] else u.path) ++ (u.query.map (question :: ·)).getD []

theorem isTarget_of_isPathChar : ∀ byte, isPathChar byte = true → Http.isTarget byte = true :=
  Bytes.forall_byte (by decide +kernel)

theorem isTarget_of_isQueryChar : ∀ byte, isQueryChar byte = true → Http.isTarget byte = true :=
  Bytes.forall_byte (by decide +kernel)

/-- A path and a query **that were read**: each is made of characters that it admits, and both
together are valid UTF-8. -/
structure Clean (path : Bytes) (query : Option Bytes) : Prop where
  pathChars : path.all isPathChar = true
  queryChars : (query.getD []).all isQueryChar = true
  valid : Utf8.isValid (path ++ (query.map (question :: ·)).getD []) = true

theorem clean_of_parsePathAndQuery (h : parsePathAndQuery b = some (path, query)) :
    Clean path query := by
  unfold parsePathAndQuery at h
  extract_lets whole front back at h
  obtain ⟨hclean, heq⟩ := Option.ite_none_right_eq_some.mp h
  simp only [Bool.and_eq_true] at hclean
  obtain ⟨⟨hpath, hquery⟩, hvalid⟩ := hclean
  obtain ⟨rfl, rfl⟩ := Prod.mk.inj (Option.some.inj heq)
  refine ⟨hpath, hquery, ?_⟩
  have hwhole : front ++ (back.map (question :: ·)).getD [] = whole := by
    have hcut := List.takeWhile_append_dropWhile (p := fun byte => byte != question) (l := whole)
    cases hback : whole.dropWhile fun byte => byte != question with
    | nil =>
        rw [hback] at hcut
        simp only [back, hback]
        exact hcut
    | cons mark more =>
        have hmark : mark = question := by
          have hhead := List.head_dropWhile_not (fun byte => byte != question)
            (show whole.dropWhile _ ≠ [] from hback ▸ List.cons_ne_nil _ _)
          simpa [hback] using hhead
        rw [hback, hmark] at hcut
        simp only [back, hback]
        exact hcut
  rw [hwhole]
  exact hvalid

/-- Whatever is read as a reference has a path and a query **that were read**. -/
theorem clean_of_parse? (h : parse? b = some u) : Clean u.path u.query := by
  have hempty : Clean [] none := ⟨rfl, rfl, rfl⟩
  have hauthority : ∀ {b : Bytes} {u : Uri}, ofAuthority? b = some u → Clean u.path u.query := by
    intro b u h
    unfold ofAuthority? at h
    split at h
    · cases h
      exact hempty
    · cases h
  unfold parse? at h
  split at h
  · cases h
  split at h
  · cases h
  · split at h
    · rename_i hbyte
      cases h
      obtain rfl | rfl := hbyte
      · exact ⟨by decide, rfl, by decide⟩
      · exact ⟨by decide, rfl, by decide⟩
    · exact hauthority h
  · split at h
    · obtain ⟨⟨path, query⟩, hparts, rfl⟩ := Option.map_eq_some_iff.mp h
      exact clean_of_parsePathAndQuery hparts
    · split at h
      · cases h
      · exact hauthority h
      · obtain ⟨⟨authority, rest⟩, -, h⟩ := Option.bind_eq_some_iff.mp h
        obtain ⟨-, h⟩ := Option.ite_none_left_eq_some.mp h
        obtain ⟨⟨path, query⟩, hparts, h⟩ := Option.bind_eq_some_iff.mp h
        cases h
        exact clean_of_parsePathAndQuery hparts

theorem pathAndQuery_ne_nil (u : Uri) : u.pathAndQuery ≠ [] := by
  unfold pathAndQuery
  split
  · exact List.cons_ne_nil _ _
  · rename_i hpath
    exact List.append_ne_nil_of_left_ne_nil (by simpa using hpath) _

/-- **The path and the query make a request target**: characters that one admits, in valid
UTF-8. -/
theorem pathAndQuery_of_parse? (h : parse? b = some u) :
    u.pathAndQuery.all Http.isTarget = true ∧ Utf8.isValid u.pathAndQuery = true := by
  obtain ⟨hpath, hquery, hvalid⟩ := clean_of_parse? h
  have hfront : (if u.path.isEmpty then [slash] else u.path).all Http.isTarget = true := by
    split
    · decide
    · exact List.all_eq_true.mpr fun byte hbyte =>
        isTarget_of_isPathChar byte (List.all_eq_true.mp hpath byte hbyte)
  have hback : ((u.query.map (question :: ·)).getD []).all Http.isTarget = true := by
    cases hpart : u.query with
    | none => rfl
    | some query =>
        rw [hpart] at hquery
        refine List.all_eq_true.mpr (List.forall_mem_cons.mpr ⟨by decide, fun byte hbyte => ?_⟩)
        exact isTarget_of_isQueryChar byte (List.all_eq_true.mp hquery byte hbyte)
  refine ⟨by rw [pathAndQuery, List.all_append, hfront, hback]; rfl, ?_⟩
  unfold pathAndQuery
  split
  · rename_i hempty
    rw [List.isEmpty_iff.mp hempty, List.nil_append] at hvalid
    exact Utf8.isValid_append (by decide) hvalid
  · exact hvalid

end Uri

end WebSocket
