import Barn.Data.Decimal
import Barn.Text.Basic
import Mathlib.Data.List.TakeWhile

/-!
# Formatted streams

What `std::ostringstream` and `std::istringstream` of the C++ library make of words and integers.
An extraction that finds the stream exhausted leaves its variable as it is; one that finds no
number sets it to zero.
-/

namespace Barn

/-- `isspace` of the classic locale. -/
def isSpace (unit : ℕ) : Bool :=
  unit = 32 ∨ 9 ≤ unit ∧ unit ≤ 13

/-- `operator<<` for an `int`. -/
def formatInt (value : Int) : Text :=
  if value < 0 then 45 :: Decimal.padded 1 value.natAbs else Decimal.padded 1 value.natAbs

/-- An input stream: what is left of it, and whether none of its error bits is set. -/
structure IStream where
  rest : Text
  good : Bool
  deriving DecidableEq

namespace IStream

/-- `std::istringstream` -/
def ofText (contents : Text) : IStream where
  rest := contents
  good := true

/-- The sentry of a formatted extraction. It skips white space and fails at the end. -/
def sentry (stream : IStream) : Bool × IStream :=
  if stream.good then
    let rest := stream.rest.dropWhile isSpace
    (!rest.isEmpty, { rest := rest, good := !rest.isEmpty })
  else
    (false, stream)

/-- `operator>>` into a string that holds `word`. -/
def extractWord (word : Text) (stream : IStream) : Text × IStream :=
  let (ok, stream) := stream.sentry
  if ok then
    -- The end of the stream is noticed only when the word reaches it.
    let rest := stream.rest.dropWhile fun unit => !isSpace unit
    (stream.rest.takeWhile fun unit => !isSpace unit, { rest := rest, good := !rest.isEmpty })
  else
    (word, stream)

/-- The sign in front of a number and what follows it. -/
def takeSign : Text → Bool × Text
  | 45 :: field => (true, field)
  | 43 :: field => (false, field)
  | field => (false, field)

/-- `operator>>` into an `int` that holds `value`. A number out of range is replaced by the nearest
one in range. -/
def extractInt (value : Int) (stream : IStream) : Int × IStream :=
  let (ok, stream) := stream.sentry
  if ok then
    let (negative, field) := takeSign stream.rest
    let digits := field.takeWhile Decimal.isDigit
    let rest := field.dropWhile Decimal.isDigit
    let number : Int := if negative then -Decimal.value digits else Decimal.value digits
    let inRange := -2 ^ 31 ≤ number ∧ number < 2 ^ 31
    (max (-2 ^ 31) (min number (2 ^ 31 - 1)),
      { rest := rest, good := digits ≠ [] ∧ inRange ∧ rest ≠ [] })
  else
    (value, stream)

/-- The sentry finds what is not white space. -/
theorem sentry_ok {unit : ℕ} {stream : IStream} {rest : Text} (hgood : stream.good = true)
    (h : stream.rest.dropWhile isSpace = unit :: rest) :
    stream.sentry = (true, { rest := unit :: rest, good := true }) := by
  simp [sentry, hgood, h]

/-- The word extracted begins with the first unit that is not white space. -/
theorem extractWord_ok {unit : ℕ} {stream : IStream} {rest : Text} (hgood : stream.good = true)
    (h : stream.rest.dropWhile isSpace = unit :: rest) (word : Text) :
    stream.extractWord word =
      (unit :: rest.takeWhile fun unit => !isSpace unit,
        { rest := rest.dropWhile fun unit => !isSpace unit,
          good := !(rest.dropWhile fun unit => !isSpace unit).isEmpty }) := by
  have hunit : (!isSpace unit) = true := by
    have hhead := List.head_dropWhile_not isSpace
      (show stream.rest.dropWhile isSpace ≠ [] by simp [h])
    simpa [h] using hhead
  simp [extractWord, sentry_ok hgood h, hunit]

/-- A number is extracted whatever the variable held before. -/
theorem extractInt_of_ok {stream : IStream} (h : stream.sentry.1 = true) (value value' : Int) :
    stream.extractInt value = stream.extractInt value' := by
  simp [extractInt, h]

/-- A variable keeps its value when the sentry fails. -/
theorem extractInt_of_fails {stream : IStream} (h : stream.sentry.1 = false) (value : Int) :
    (stream.extractInt value).1 = value := by
  simp [extractInt, h]

end IStream

/-- A formatted number is taken apart into its sign and its digits. -/
theorem takeSign_formatInt (number : Int) :
    IStream.takeSign (formatInt number) =
      (decide (number < 0), Decimal.padded 1 number.natAbs) := by
  rw [formatInt]
  split_ifs with hneg
  · simp [IStream.takeSign, hneg]
  · obtain ⟨digit, digits, hpadded⟩ :=
      List.exists_cons_of_ne_nil (Decimal.padded_ne_nil Nat.one_pos number.natAbs)
    have hdigit : Decimal.isDigit digit = true :=
      Decimal.isDigit_of_mem_padded (hpadded ▸ List.mem_cons_self)
    simp only [Decimal.isDigit, decide_eq_true_eq] at hdigit
    rw [hpadded, IStream.takeSign, decide_eq_false hneg]
    · intro field hminus
      obtain ⟨rfl, -⟩ := List.cons.inj hminus
      omega
    · intro field hplus
      obtain ⟨rfl, -⟩ := List.cons.inj hplus
      omega

/-- A formatted number is not empty and begins with no white space. -/
theorem formatInt_eq_cons (number : Int) :
    ∃ unit rest, formatInt number = unit :: rest ∧ isSpace unit = false := by
  obtain ⟨digit, digits, hpadded⟩ :=
    List.exists_cons_of_ne_nil (Decimal.padded_ne_nil Nat.one_pos number.natAbs)
  have hdigit : Decimal.isDigit digit = true :=
    Decimal.isDigit_of_mem_padded (hpadded ▸ List.mem_cons_self)
  rw [formatInt, hpadded]
  split_ifs
  · exact ⟨45, digit :: digits, rfl, rfl⟩
  · refine ⟨digit, digits, rfl, ?_⟩
    simp only [Decimal.isDigit, isSpace, decide_eq_true_eq, decide_eq_false_iff_not] at hdigit ⊢
    omega

/-- A formatted number after white space is extracted again. -/
theorem extractInt_formatInt {number : Int} (hlow : -2 ^ 31 ≤ number) (hhigh : number < 2 ^ 31)
    (value : Int) : ((IStream.mk (32 :: formatInt number) true).extractInt value).1 = number := by
  obtain ⟨unit, rest, hformat, hspace⟩ := formatInt_eq_cons number
  have hsentry : (IStream.mk (32 :: formatInt number) true).sentry =
      (true, IStream.mk (formatInt number) true) := by
    rw [hformat]
    refine IStream.sentry_ok rfl ?_
    rw [List.dropWhile_cons_of_pos rfl, List.dropWhile_cons_of_neg (by simp [hspace])]
  have hdigits : (Decimal.padded 1 number.natAbs).takeWhile Decimal.isDigit =
      Decimal.padded 1 number.natAbs :=
    List.takeWhile_eq_self_iff.2 fun unit => Decimal.isDigit_of_mem_padded
  have hnumber : (if decide (number < 0) = true then -(number.natAbs : Int) else number.natAbs) =
      number := by
    split_ifs with hneg
    · rw [decide_eq_true_eq] at hneg
      omega
    · rw [decide_eq_true_eq] at hneg
      omega
  simp only [IStream.extractInt, hsentry, if_true, takeSign_formatInt, hdigits,
    Decimal.value_padded, hnumber]
  omega

end Barn
