import Mathlib.Data.List.Lex
import Mathlib.Order.Nat

/-!
# Text

Strings of both languages as lists of code units: UTF-16 units for the JVM, bytes for C++. Both
languages order strings lexicographically by unsigned unit, which is the order of `List ℕ`.
-/

namespace Barn

/-- A string, as the list of its code units. -/
abbrev Text := List ℕ

instance : LawfulBEq Text :=
  inferInstanceAs (LawfulBEq (List ℕ))

/-- The text of a literal. -/
def text (literal : String) : Text :=
  literal.toList.map Char.toNat

/-- Texts of one length are compared before what follows them. -/
theorem append_lt_append {first second : Text} (h : first < second)
    (hlength : first.length = second.length) (firstRest secondRest : Text) :
    first ++ firstRest < second ++ secondRest := by
  induction first generalizing second with
  | nil =>
      cases second with
      | nil => exact absurd h (lt_irrefl _)
      | cons unit second => simp at hlength
  | cons unit first ih =>
      cases second with
      | nil => simp at hlength
      | cons other second =>
          rw [List.cons_lt_cons_iff] at h
          rw [List.cons_append, List.cons_append, List.cons_lt_cons_iff]
          rcases h with hlt | ⟨heq, hlt⟩
          · exact .inl hlt
          · exact .inr ⟨heq, ih hlt (by simpa using hlength)⟩

end Barn
