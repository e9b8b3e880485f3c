import Barn.Platform.Words
import Barn.Text.Basic
import Mathlib.Algebra.Order.Ring.Int
import Mathlib.Data.List.DropRight
import Mathlib.Data.Nat.Digits.Lemmas

/-!
# The Java library

What the collector uses of the standard library: exceptions, strings and numbers. A computation
that can throw is a `Throws`; `parseLong_hex` is the case of a number that consists of digits.
-/

namespace Barn

/-- The exceptions that can occur. -/
inductive Throwable where
  | stringIndexOutOfBounds
  | numberFormat
  | nullPointer
  | noSuchElement
  | illegalArgument
  | arithmetic
  | illegalInstant
  | fileNotFound
  | io (description : Text)
  deriving DecidableEq

/-- The result of a computation that can throw an exception. -/
abbrev Throws (α : Type) := Except Throwable α

/-- A sequence returns a value when both parts do. -/
theorem bind_eq_ok_iff {ε α β : Type} {first : Except ε α} {rest : α → Except ε β} {result : β} :
    first >>= rest = .ok result ↔ ∃ value, first = .ok value ∧ rest value = .ok result := by
  cases first with
  | error error => simp [bind, Except.bind]
  | ok value => simp [bind, Except.bind]

/-- What a Java runtime adds to the language: its line separator, how it prints the trace of an
exception, and the digits it knows beyond ASCII. -/
structure JavaRuntime where
  lineSeparator : Text
  getStackTrace : Throwable → Text
  nonAsciiDigit : ℕ → Option (Fin 16)

/-- `substring(beginIndex, endIndex)` -/
def substring (beginIndex endIndex : ℕ) (string : Text) : Throws Text :=
  if beginIndex ≤ endIndex ∧ endIndex ≤ string.length then
    .ok ((string.take endIndex).drop beginIndex)
  else .error .stringIndexOutOfBounds

/-- The value of an ASCII digit in base 16. -/
def asciiDigit (unit : ℕ) : Option ℕ :=
  if 48 ≤ unit ∧ unit ≤ 57 then some (unit - 48)
  else if 97 ≤ unit ∧ unit ≤ 102 then some (unit - 87)
  else if 65 ≤ unit ∧ unit ≤ 70 then some (unit - 55)
  else none

/-- `Character.digit(unit, 16)` -/
def characterDigit (java : JavaRuntime) (unit : ℕ) : Option ℕ :=
  if unit < 128 then asciiDigit unit else (java.nonAsciiDigit unit).map Fin.val

/-- The number that digits of base 16 denote after a given one. -/
def digitsValue (digit : ℕ → Option ℕ) : ℕ → Text → Option ℕ
  | start, [] => some start
  | start, unit :: string => (digit unit).bind fun value =>
      digitsValue digit (start * 16 + value) string

/-- `Long.parseLong(string, 16)` -/
def parseLong (java : JavaRuntime) (string : Text) : Throws Int :=
  let signed := string.head? = some 45 ∨ string.head? = some 43
  let digits := if signed then string.tail else string
  match digits, digitsValue (characterDigit java) 0 digits with
  | [], _ => .error .numberFormat
  | _, none => .error .numberFormat
  | _, some value =>
      if string.head? = some 45 then
        if value ≤ 2 ^ 63 then .ok (-value) else .error .numberFormat
      else if value < 2 ^ 63 then .ok value else .error .numberFormat

/-- The digit of base 16 for a value below 16. -/
def hexDigit (value : ℕ) : ℕ :=
  if value < 10 then 48 + value else 87 + value

/-- The digits of base 16 of a number, most significant one first. -/
def hexDigits (number : ℕ) : Text :=
  ((Nat.digits 16 number).map hexDigit).reverse

/-- `Long.toHexString` -/
def toHexString (value : ℤ) : Text :=
  if value = 0 then text "0" else hexDigits (value % 2 ^ 64).toNat

/-- `string.split(separator)`: trailing empty parts are dropped, but a string without separator
stays as it is. -/
def split (separator : ℕ) (string : Text) : List Text :=
  if separator ∈ string then (string.splitOn separator).rdropWhile fun part => part.isEmpty
  else [string]

/-- A text of ASCII digits in base 16. -/
def IsHex (string : Text) : Prop :=
  ∀ unit ∈ string, (asciiDigit unit).isSome

instance (string : Text) : Decidable (IsHex string) :=
  inferInstanceAs (Decidable (∀ unit ∈ string, (asciiDigit unit).isSome = true))

/-- A text of ASCII digits in base 16, in lower case. -/
def IsLowerHex (string : Text) : Prop :=
  ∀ unit ∈ string, 48 ≤ unit ∧ unit ≤ 57 ∨ 97 ≤ unit ∧ unit ≤ 102

variable {java : JavaRuntime} {string first second : Text} {unit : ℕ}

/-- The units that are ASCII digits in base 16. -/
theorem asciiDigit_isSome_iff :
    (asciiDigit unit).isSome ↔
      48 ≤ unit ∧ unit ≤ 57 ∨ 97 ≤ unit ∧ unit ≤ 102 ∨ 65 ≤ unit ∧ unit ≤ 70 := by
  unfold asciiDigit
  split
  · simp_all
  · split
    · simp_all
    · split <;> simp_all

/-- On ASCII digits every runtime agrees. -/
theorem characterDigit_of_isSome (h : (asciiDigit unit).isSome) :
    characterDigit java unit = asciiDigit unit := by
  have hrange := asciiDigit_isSome_iff.1 h
  rw [characterDigit, if_pos (by omega)]

/-- On hexadecimal text every runtime agrees. -/
theorem digitsValue_of_isHex (hhex : IsHex string) (start : ℕ) :
    digitsValue (characterDigit java) start string = digitsValue asciiDigit start string := by
  induction string generalizing start with
  | nil => rfl
  | cons unit string ih =>
      rw [digitsValue, digitsValue, characterDigit_of_isSome (hhex unit List.mem_cons_self)]
      exact congrArg _ (funext fun value => ih (fun other h => hhex other (.tail _ h)) _)

/-- Hexadecimal text has a value. -/
theorem digitsValue_isSome (hhex : IsHex string) (start : ℕ) :
    ∃ value, digitsValue asciiDigit start string = some value := by
  induction string generalizing start with
  | nil => exact ⟨start, rfl⟩
  | cons unit string ih =>
      obtain ⟨digit, hdigit⟩ := Option.isSome_iff_exists.1 (hhex unit List.mem_cons_self)
      rw [digitsValue, hdigit]
      exact ih (fun other h => hhex other (.tail _ h)) _

/-- A digit of base 16 is below 16. -/
theorem asciiDigit_lt {value : ℕ} (h : asciiDigit unit = some value) : value < 16 := by
  unfold asciiDigit at h
  split at h
  · rw [Option.some.injEq] at h
    omega
  · split at h
    · rw [Option.some.injEq] at h
      omega
    · split at h
      · rw [Option.some.injEq] at h
        omega
      · simp at h

/-- Digits bound the number they denote. -/
theorem digitsValue_lt {start value : ℕ} (h : digitsValue asciiDigit start string = some value) :
    value < (start + 1) * 16 ^ string.length := by
  induction string generalizing start with
  | nil =>
      rw [digitsValue, Option.some.injEq] at h
      simp [← h]
  | cons unit string ih =>
      rw [digitsValue, Option.bind_eq_some_iff] at h
      obtain ⟨digit, hdigit, hrest⟩ := h
      have hlt := asciiDigit_lt hdigit
      calc value < (start * 16 + digit + 1) * 16 ^ string.length := ih hrest
        _ ≤ ((start + 1) * 16) * 16 ^ string.length := Nat.mul_le_mul_right _ (by omega)
        _ = (start + 1) * 16 ^ (string.length + 1) := by rw [Nat.mul_assoc, ← Nat.pow_succ']

/-- Lower case hexadecimal text is hexadecimal. -/
theorem IsLowerHex.isHex (h : IsLowerHex string) : IsHex string := by
  intro unit hunit
  rw [asciiDigit_isSome_iff]
  exact (h unit hunit).imp_right .inl

/-- Digits add to the number they follow. -/
theorem digitsValue_ge {start value : ℕ} (h : digitsValue asciiDigit start string = some value) :
    start * 16 ^ string.length ≤ value := by
  induction string generalizing start with
  | nil =>
      rw [digitsValue, Option.some.injEq] at h
      simp [h]
  | cons unit string ih =>
      rw [digitsValue, Option.bind_eq_some_iff] at h
      obtain ⟨digit, _, hrest⟩ := h
      calc start * 16 ^ (string.length + 1) = start * 16 * 16 ^ string.length := by
            rw [Nat.mul_assoc, ← Nat.pow_succ']
        _ ≤ (start * 16 + digit) * 16 ^ string.length := Nat.mul_le_mul_right _ (by omega)
        _ ≤ value := ih hrest

/-- Lower case digits are ordered as their values. -/
theorem asciiDigit_lt_of_lt {unit other value value' : ℕ}
    (hunit : 48 ≤ unit ∧ unit ≤ 57 ∨ 97 ≤ unit ∧ unit ≤ 102)
    (hother : 48 ≤ other ∧ other ≤ 57 ∨ 97 ≤ other ∧ other ≤ 102) (hlt : unit < other)
    (hvalue : asciiDigit unit = some value) (hvalue' : asciiDigit other = some value') :
    value < value' := by
  unfold asciiDigit at hvalue hvalue'
  split at hvalue <;> split at hvalue' <;> simp_all <;> omega

/-- So are texts of the same length. -/
theorem digitsValue_lt_of_lt (hfirst : IsLowerHex first) (hsecond : IsLowerHex second)
    (hlength : first.length = second.length) (hlt : first < second) {start value value' : ℕ}
    (hvalue : digitsValue asciiDigit start first = some value)
    (hvalue' : digitsValue asciiDigit start second = some value') : value < value' := by
  induction first generalizing second start with
  | nil =>
      rw [List.length_nil] at hlength
      rw [List.length_eq_zero_iff.1 hlength.symm] at hlt
      exact absurd hlt (lt_irrefl _)
  | cons unit first ih =>
      cases second with
      | nil => simp at hlength
      | cons other second =>
          have hlengths : first.length = second.length := by simpa using hlength
          rw [digitsValue, Option.bind_eq_some_iff] at hvalue hvalue'
          obtain ⟨digit, hdigit, hrest⟩ := hvalue
          obtain ⟨digit', hdigit', hrest'⟩ := hvalue'
          rcases List.cons_lt_cons_iff.1 hlt with hunits | ⟨rfl, htails⟩
          · have hdigits := asciiDigit_lt_of_lt (hfirst unit List.mem_cons_self)
              (hsecond other List.mem_cons_self) hunits hdigit hdigit'
            calc value < (start * 16 + digit + 1) * 16 ^ first.length := digitsValue_lt hrest
              _ ≤ (start * 16 + digit') * 16 ^ second.length := by
                  rw [hlengths]
                  exact Nat.mul_le_mul_right _ (by omega)
              _ ≤ value' := digitsValue_ge hrest'
          · rw [hdigit, Option.some.injEq] at hdigit'
            subst hdigit'
            exact ih (fun unit hunit => hfirst unit (.tail _ hunit))
              (fun unit hunit => hsecond unit (.tail _ hunit)) hlengths htails hrest hrest'

/-- Digits that follow others. -/
theorem digitsValue_append (digit : ℕ → Option ℕ) (start : ℕ) :
    digitsValue digit start (first ++ second) =
      (digitsValue digit start first).bind fun value => digitsValue digit value second := by
  induction first generalizing start with
  | nil => rfl
  | cons unit first ih =>
      rw [List.cons_append, digitsValue, digitsValue, Option.bind_assoc]
      exact congrArg _ (funext fun value => ih _)

/-- Leading zeros do not count. -/
theorem digitsValue_replicate (count : ℕ) :
    digitsValue asciiDigit 0 (List.replicate count 48 ++ string) =
      digitsValue asciiDigit 0 string := by
  induction count with
  | zero => rfl
  | succ count ih => exact ih

/-- A digit has its value. -/
theorem asciiDigit_hexDigit {value : ℕ} (h : value < 16) :
    asciiDigit (hexDigit value) = some value := by
  unfold asciiDigit hexDigit
  split
  · rw [if_pos (by omega)]
    congr 1
    omega
  · rw [if_neg (by omega), if_pos (by omega)]
    congr 1
    omega

/-- The digits of a number denote it. -/
theorem digitsValue_hexDigits (number : ℕ) :
    digitsValue asciiDigit 0 (hexDigits number) = some number := by
  induction number using Nat.strongRecOn with
  | _ number ih =>
      by_cases hzero : number = 0
      · rw [hzero]
        rfl
      · have hdigits : hexDigits number = hexDigits (number / 16) ++ [hexDigit (number % 16)] := by
          rw [hexDigits, Nat.digits_eq_cons_digits_div (by decide) hzero, List.map_cons,
            List.reverse_cons]
          rfl
        rw [hdigits, digitsValue_append, ih (number / 16) (by omega), Option.bind_some, digitsValue,
          asciiDigit_hexDigit (by omega), Option.bind_some, digitsValue]
        congr 1
        omega

/-- Digits of base 16 are written in lower case. -/
theorem isLowerHex_hexDigits (number : ℕ) : IsLowerHex (hexDigits number) := by
  intro unit hunit
  rw [hexDigits, List.mem_reverse, List.mem_map] at hunit
  obtain ⟨value, hvalue, rfl⟩ := hunit
  have hlt := Nat.digits_lt_base (by decide) hvalue
  unfold hexDigit
  split <;> omega

/-- A number that fits into a width, in digits of base 16 that are padded to it. -/
theorem toHexString_spec (width number : ℕ) (hnumber : number < 16 ^ width) (hwidth : 0 < width)
    (hfits : number < 2 ^ 64) :
    ((toHexString number).leftpad width 48).length = width ∧
      IsLowerHex ((toHexString number).leftpad width 48) ∧
      digitsValue asciiDigit 0 ((toHexString number).leftpad width 48) = some number := by
  obtain ⟨hlength, hlower, hvalue⟩ : (toHexString number).length ≤ width ∧
      IsLowerHex (toHexString number) ∧
      digitsValue asciiDigit 0 (toHexString number) = some number := by
    unfold toHexString
    split
    · next hzero =>
        rw [Nat.cast_eq_zero.1 hzero]
        exact ⟨hwidth, by unfold IsLowerHex; decide, rfl⟩
    · have hunsigned : ((number : ℤ) % 2 ^ 64).toNat = number := by omega
      rw [hunsigned]
      refine ⟨?_, isLowerHex_hexDigits number, digitsValue_hexDigits number⟩
      rw [hexDigits, List.length_reverse, List.length_map]
      exact (Nat.digits_length_le_iff (by decide) number).2 hnumber
  refine ⟨?_, fun unit hunit => ?_, ?_⟩
  · rw [List.length_leftpad, max_eq_left hlength]
  · rw [List.leftpad, List.mem_append] at hunit
    rcases hunit with hpad | hdigit
    · rw [List.eq_of_mem_replicate hpad]
      omega
    · exact hlower unit hdigit
  · rw [List.leftpad, digitsValue_replicate, hvalue]

/-- A number that consists of digits only is its value, if that fits a `long`. -/
theorem parseLong_hex (hhex : IsHex string) (hne : string ≠ []) {value : ℕ}
    (hvalue : digitsValue asciiDigit 0 string = some value) (hfits : value < 2 ^ 63) :
    parseLong java string = .ok value := by
  cases string with
  | nil => exact absurd rfl hne
  | cons unit string =>
      have hunit := asciiDigit_isSome_iff.1 (hhex unit List.mem_cons_self)
      have hminus : unit ≠ 45 := by omega
      have hplus : unit ≠ 43 := by omega
      simpa [parseLong, hminus, hplus, digitsValue_of_isHex hhex, hvalue] using hfits

end Barn
