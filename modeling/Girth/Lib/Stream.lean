import Mathlib.Data.List.Basic

/-!
# Streams that arrive in segments

A stream hands out what was written to it in segments that no one controls. `readExact` reads a number
of elements with as many reads as it takes. `readExact_eq` says that the segments do not matter: the
elements read, and those left, are those of the whole stream.
-/

namespace Lib

variable {α : Type*}

/-- Read `n` elements; each read takes from the first segment, and a stream without segments has
ended. -/
def readExact (n : Nat) : List (List α) → Option (List α × List (List α))
  | [] => if n = 0 then some ([], []) else none
  | seg :: segs =>
    if n = 0 then some ([], seg :: segs)
    else if n < seg.length then some (seg.take n, seg.drop n :: segs)
    else (readExact (n - seg.length) segs).map fun (xs, rest) => (seg ++ xs, rest)

theorem readExact_eq {n : Nat} {segs : List (List α)} (h : n ≤ segs.flatten.length) :
    ∃ rest, readExact n segs = some (segs.flatten.take n, rest) ∧
      rest.flatten = segs.flatten.drop n := by
  induction segs generalizing n with
  | nil =>
    have hzero : n = 0 := by simpa using h
    subst hzero
    exact ⟨[], rfl, rfl⟩
  | cons seg segs ih =>
    rw [readExact, List.flatten_cons]
    split_ifs with hzero hlt
    · subst hzero
      exact ⟨seg :: segs, rfl, rfl⟩
    · refine ⟨seg.drop n :: segs, ?_, ?_⟩
      · rw [List.take_append_of_le_length (by omega)]
      · rw [List.flatten_cons, List.drop_append_of_le_length (by omega)]
    · rw [List.flatten_cons, List.length_append] at h
      obtain ⟨rest, hread, hrest⟩ := ih (n := n - seg.length) (by omega)
      refine ⟨rest, ?_, ?_⟩
      · have hseg : seg.take n = seg := List.take_of_length_le (by omega)
        rw [hread, Option.map_some, List.take_append, hseg]
      · have hseg : seg.drop n = [] := List.drop_eq_nil_of_le (by omega)
        rw [hrest, List.drop_append, hseg, List.nil_append]

theorem readExact_eq_none {n : Nat} {segs : List (List α)} (h : segs.flatten.length < n) :
    readExact n segs = none := by
  induction segs generalizing n with
  | nil => exact if_neg (by simp at h; omega)
  | cons seg segs ih =>
    rw [List.flatten_cons, List.length_append] at h
    rw [readExact, if_neg (by omega), if_neg (by omega), ih (by omega), Option.map_none]

theorem readExact_append {xs ys : List α} {segs : List (List α)} (h : segs.flatten = xs ++ ys) :
    ∃ rest, readExact xs.length segs = some (xs, rest) ∧ rest.flatten = ys := by
  have hle : xs.length ≤ segs.flatten.length := by simp [h]
  obtain ⟨rest, hread, hrest⟩ := readExact_eq hle
  rw [h, List.take_left] at hread
  rw [h, List.drop_left] at hrest
  exact ⟨rest, hread, hrest⟩

end Lib
