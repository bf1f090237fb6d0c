import Mathlib.Data.Nat.Notation
import Mathlib.Tactic.Common

/-!
# Separated texts

`List.intercalate` with one separator, seen from its first part: what such a text contains
and how long it is.
-/

namespace Separated

variable {α : Type} {sep a : α} {x : List α} {xs : List (List α)}

theorem intercalate_cons (sep x : List α) (xs : List (List α)) :
    sep.intercalate (x :: xs) = x ++ xs.flatMap fun y => sep ++ y := by
  induction xs generalizing x with
  | nil => simp
  | cons y xs ih =>
    rw [List.intercalate_cons_cons, ih, List.flatMap_cons, List.append_assoc, List.append_assoc]

theorem mem_of_mem_intercalate (h : a ∈ [sep].intercalate xs) : a = sep ∨ ∃ x ∈ xs, a ∈ x := by
  cases xs with
  | nil => cases h
  | cons x xs =>
    rw [intercalate_cons] at h
    simp only [List.mem_append, List.mem_flatMap, List.mem_singleton] at h
    rcases h with hfirst | ⟨y, hy, hsep | hin⟩
    · exact Or.inr ⟨x, List.mem_cons_self, hfirst⟩
    · exact Or.inl hsep
    · exact Or.inr ⟨y, List.mem_cons_of_mem _ hy, hin⟩

/-- A part is no longer than the whole. -/
theorem length_le_intercalate (h : x ∈ xs) : x.length ≤ ([sep].intercalate xs).length := by
  induction xs with
  | nil => cases h
  | cons y xs ih =>
    cases xs with
    | nil => simp [List.mem_singleton.mp h]
    | cons z xs =>
      rw [List.intercalate_cons_cons]
      simp only [List.length_append]
      rcases List.mem_cons.mp h with rfl | hrest
      · omega
      · have := ih hrest
        omega

/-- There is a separator for every part but one. -/
theorem count_le_intercalate (sep : α) (xs : List (List α)) :
    xs.length ≤ ([sep].intercalate xs).length + 1 := by
  induction xs with
  | nil => simp
  | cons x xs ih =>
    cases xs with
    | nil => simp
    | cons y xs =>
      rw [List.intercalate_cons_cons]
      simp only [List.length_append, List.length_cons] at ih ⊢
      omega

end Separated
