import Mathlib.Data.Nat.Digits.Lemmas

/-!
# Decimal numerals

Numbers written with the ASCII digits, most significant one first, padded with zeros to a given
width, and the value of such a numeral. Read `value_padded` first.
-/

namespace Decimal

/-- The digits of a number, without leading zeros. -/
def digits (number : ℕ) : List ℕ :=
  (Nat.digits 10 number).reverse.map (· + 48)

/-- The numeral of a number with at least `width` digits. -/
def padded (width number : ℕ) : List ℕ :=
  (digits number).leftpad width 48

/-- The number a numeral stands for. -/
def value (numeral : List ℕ) : ℕ :=
  Nat.ofDigits 10 (numeral.map (· - 48)).reverse

/-- The ASCII digits. -/
def isDigit (unit : ℕ) : Bool :=
  48 ≤ unit ∧ unit ≤ 57

variable {width number : ℕ}

/-- Reading a padded numeral gives the number back. -/
@[simp] theorem value_padded : value (padded width number) = number := by
  have hcancel : (fun unit => unit - 48) ∘ (fun digit => digit + 48) = id :=
    funext fun digit => Nat.add_sub_cancel digit 48
  rw [value, padded, List.leftpad, List.map_append, List.map_replicate, Nat.sub_self, digits,
    List.map_map, hcancel, List.map_id, List.reverse_append, List.reverse_replicate,
    List.reverse_reverse, Nat.ofDigits_append_replicate_zero, Nat.ofDigits_digits]

/-- A number below the power of ten that the width allows has exactly that many digits. -/
theorem length_padded (hnumber : number < 10 ^ width) : (padded width number).length = width := by
  have hdigits : (digits number).length ≤ width := by
    rw [digits, List.length_map, List.length_reverse]
    exact (Nat.digits_length_le_iff (by decide) number).2 hnumber
  rw [padded, List.length_leftpad]
  omega

/-- A numeral has no more digits than the width and the number need. -/
theorem length_padded_le {limit : ℕ} (hwidth : width ≤ limit) (hnumber : number < 10 ^ limit) :
    (padded width number).length ≤ limit := by
  have hdigits : (digits number).length ≤ limit := by
    rw [digits, List.length_map, List.length_reverse]
    exact (Nat.digits_length_le_iff (by decide) number).2 hnumber
  rw [padded, List.length_leftpad]
  exact max_le hwidth hdigits

/-- A numeral of at least one digit is not empty. -/
theorem padded_ne_nil (hwidth : 0 < width) (number : ℕ) : padded width number ≠ [] := by
  rw [← List.length_pos_iff, padded, List.length_leftpad]
  omega

/-- Numerals consist of digits. -/
theorem isDigit_of_mem_padded {unit : ℕ} (hunit : unit ∈ padded width number) :
    isDigit unit = true := by
  rw [padded, List.leftpad, List.mem_append] at hunit
  obtain hpad | hdigit := hunit
  · rw [List.eq_of_mem_replicate hpad]
    rfl
  · rw [digits, List.mem_map] at hdigit
    obtain ⟨digit, hmem, rfl⟩ := hdigit
    have hlt := Nat.digits_lt_base (by decide) (List.mem_reverse.1 hmem)
    simp only [isDigit, decide_eq_true_eq]
    omega

/-- Different numbers have different numerals. -/
theorem padded_injective (width : ℕ) : Function.Injective (padded width) := by
  intro first second h
  have hvalues := congrArg value h
  rwa [value_padded, value_padded] at hvalues

end Decimal
