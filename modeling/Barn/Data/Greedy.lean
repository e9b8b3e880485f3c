import Mathlib.Data.List.Basic

/-!
# Patterns with greedy wildcards

A pattern is a list of pieces that has to match a whole input. A wildcard takes as much as lets
the rest of the pattern still match, and reports what it took. `matchPieces_many` gives the result
without search: the split is right if no longer one lets the rest match. What the rest needs at
least, `Splits.literalCount_le` and `Splits.minLength_le` say.
-/

namespace Greedy

variable {α β : Type}

/-- One piece of a pattern: a fixed symbol, any one symbol, a block of given length, or a wildcard.
Blocks and wildcards are captured. -/
inductive Piece (α : Type) where
  | literal (symbol : α)
  | single (accepts : α → Bool)
  | block (length : ℕ) (accepts : α → Bool)
  | many (accepts : α → Bool)

/-- Take as many accepted symbols as let the rest succeed. -/
def longestFirst (accepts : α → Bool) (rest : List α → Option β) :
    List α → Option (List α × β)
  | [] => (rest []).map fun result => ([], result)
  | symbol :: input =>
      match if accepts symbol then longestFirst accepts rest input else none with
      | some (taken, result) => some (symbol :: taken, result)
      | none => (rest (symbol :: input)).map fun result => ([], result)

/-- The captures of a pattern that matches the whole input. -/
def matchPieces [DecidableEq α] : List (Piece α) → List α → Option (List (List α))
  | [], input => if input.isEmpty then some [] else none
  | .literal symbol :: pieces, input =>
      if input.head? = some symbol then matchPieces pieces input.tail else none
  | .single accepts :: pieces, input =>
      if input.head?.any accepts then matchPieces pieces input.tail else none
  | .block length accepts :: pieces, input =>
      if length ≤ input.length ∧ (input.take length).all accepts then
        (matchPieces pieces (input.drop length)).map fun captures => input.take length :: captures
      else none
  | .many accepts :: pieces, input =>
      (longestFirst accepts (matchPieces pieces) input).map fun result => result.1 :: result.2

/-- What a wildcard takes is accepted, and the rest succeeds after it. -/
theorem longestFirst_sound {accepts : α → Bool} {rest : List α → Option β} {input taken : List α}
    {result : β} (h : longestFirst accepts rest input = some (taken, result)) :
    ∃ remaining, input = taken ++ remaining ∧ taken.all accepts = true ∧
      rest remaining = some result := by
  induction input generalizing taken with
  | nil =>
      simp only [longestFirst, Option.map_eq_some_iff, Prod.mk.injEq] at h
      obtain ⟨_, hrest, rfl, rfl⟩ := h
      exact ⟨[], rfl, rfl, hrest⟩
  | cons symbol input ih =>
      rw [longestFirst] at h
      split at h
      · next found hfound =>
          simp only [Option.some.injEq, Prod.mk.injEq] at h
          obtain ⟨rfl, rfl⟩ := h
          split at hfound
          · next haccepts =>
              obtain ⟨remaining, rfl, htaken, hrest⟩ := ih hfound
              exact ⟨remaining, rfl, by simp [haccepts, htaken], hrest⟩
          · simp at hfound
      · simp only [Option.map_eq_some_iff, Prod.mk.injEq] at h
        obtain ⟨_, hrest, rfl, rfl⟩ := h
        exact ⟨symbol :: input, rfl, rfl, hrest⟩

/-- Without any split that lets the rest succeed there is no result. -/
theorem longestFirst_eq_none {accepts : α → Bool} {rest : List α → Option β} {input : List α}
    (h : ∀ taken remaining, input = taken ++ remaining → rest remaining = none) :
    longestFirst accepts rest input = none := by
  cases hfound : longestFirst accepts rest input with
  | none => rfl
  | some found =>
      obtain ⟨remaining, hinput, _, hrest⟩ :=
        longestFirst_sound (show _ = some (found.1, found.2) from hfound)
      rw [h _ _ hinput] at hrest
      exact absurd hrest (by simp)

/-- The first split with which the rest succeeds and no longer one does is the result. -/
theorem longestFirst_append {accepts : α → Bool} {rest : List α → Option β}
    {taken remaining : List α} {result : β} (htaken : taken.all accepts = true)
    (hrest : rest remaining = some result)
    (hlonger : ∀ skipped suffix, skipped ≠ [] → remaining = skipped ++ suffix →
      rest suffix = none) :
    longestFirst accepts rest (taken ++ remaining) = some (taken, result) := by
  induction taken with
  | nil =>
      cases remaining with
      | nil => simp [longestFirst, hrest]
      | cons symbol remaining =>
          have hnone : longestFirst accepts rest remaining = none := by
            refine longestFirst_eq_none fun skipped suffix h => ?_
            exact hlonger (symbol :: skipped) suffix (by simp) (by rw [h, List.cons_append])
          simp [longestFirst, hnone, hrest]
  | cons symbol taken ih =>
      rw [List.all_cons, Bool.and_eq_true] at htaken
      simp [longestFirst, htaken.1, ih htaken.2]

variable [DecidableEq α]

/-- A wildcard captures a text after which the rest matches, if no longer one leaves a match. -/
theorem matchPieces_many {accepts : α → Bool} {pieces : List (Piece α)} {taken remaining : List α}
    {captures : List (List α)} (htaken : taken.all accepts = true)
    (hrest : matchPieces pieces remaining = some captures)
    (hlonger : ∀ skipped suffix, skipped ≠ [] → remaining = skipped ++ suffix →
      matchPieces pieces suffix = none) :
    matchPieces (.many accepts :: pieces) (taken ++ remaining) = some (taken :: captures) := by
  rw [matchPieces, longestFirst_append htaken hrest hlonger]
  rfl

/-- A block captures as many symbols as it is long. -/
theorem matchPieces_block {accepts : α → Bool} {pieces : List (Piece α)} {taken remaining : List α}
    {length : ℕ} (hlength : taken.length = length) (htaken : taken.all accepts = true) :
    matchPieces (.block length accepts :: pieces) (taken ++ remaining) =
      (matchPieces pieces remaining).map fun captures => taken :: captures := by
  subst hlength
  simp [matchPieces, htaken]

@[simp] theorem matchPieces_literal {symbol : α} {pieces : List (Piece α)} {input : List α} :
    matchPieces (.literal symbol :: pieces) (symbol :: input) = matchPieces pieces input := by
  simp [matchPieces]

/-- How often a pattern requires a symbol literally. -/
def literalCount (symbol : α) (pieces : List (Piece α)) : ℕ :=
  pieces.countP fun
    | .literal other => symbol = other
    | _ => false

/-- How many symbols a pattern requires. -/
def minLength : List (Piece α) → ℕ
  | [] => 0
  | .literal _ :: pieces => minLength pieces + 1
  | .single _ :: pieces => minLength pieces + 1
  | .block length _ :: pieces => minLength pieces + length
  | .many _ :: pieces => minLength pieces

/-- The input consists of what the pieces of a pattern stand for, with these captures. -/
def Splits : List (Piece α) → List α → List (List α) → Prop
  | [], input, captures => input = [] ∧ captures = []
  | .literal symbol :: pieces, input, captures =>
      ∃ remaining, input = symbol :: remaining ∧ Splits pieces remaining captures
  | .single accepts :: pieces, input, captures =>
      ∃ symbol remaining, input = symbol :: remaining ∧ accepts symbol = true ∧
        Splits pieces remaining captures
  | .block length accepts :: pieces, input, captures =>
      ∃ taken remaining captures', input = taken ++ remaining ∧ captures = taken :: captures' ∧
        taken.length = length ∧ taken.all accepts = true ∧ Splits pieces remaining captures'
  | .many accepts :: pieces, input, captures =>
      ∃ taken remaining captures', input = taken ++ remaining ∧ captures = taken :: captures' ∧
        taken.all accepts = true ∧ Splits pieces remaining captures'

omit [DecidableEq α] in
/-- A block captures what it stands for. -/
theorem splits_block_cons {length : ℕ} {accepts : α → Bool} {pieces : List (Piece α)}
    {input first : List α} {captures : List (List α)} :
    Splits (.block length accepts :: pieces) input (first :: captures) ↔
      ∃ remaining, input = first ++ remaining ∧ first.length = length ∧
        first.all accepts = true ∧ Splits pieces remaining captures := by
  constructor
  · rintro ⟨taken, remaining, captures', hinput, hcaptures, hblock⟩
    obtain ⟨rfl, rfl⟩ := List.cons.inj hcaptures
    exact ⟨remaining, hinput, hblock⟩
  · intro h
    obtain ⟨remaining, hinput, hblock⟩ := h
    exact ⟨first, remaining, captures, hinput, rfl, hblock⟩

omit [DecidableEq α] in
/-- So does a wildcard. -/
theorem splits_many_cons {accepts : α → Bool} {pieces : List (Piece α)} {input first : List α}
    {captures : List (List α)} :
    Splits (.many accepts :: pieces) input (first :: captures) ↔
      ∃ remaining, input = first ++ remaining ∧ first.all accepts = true ∧
        Splits pieces remaining captures := by
  constructor
  · rintro ⟨taken, remaining, captures', hinput, hcaptures, hmany⟩
    obtain ⟨rfl, rfl⟩ := List.cons.inj hcaptures
    exact ⟨remaining, hinput, hmany⟩
  · intro h
    obtain ⟨remaining, hinput, hmany⟩ := h
    exact ⟨first, remaining, captures, hinput, rfl, hmany⟩

/-- A matched input splits into the pieces of the pattern. -/
theorem splits_of_matchPieces {pieces : List (Piece α)} {input : List α} {captures : List (List α)}
    (h : matchPieces pieces input = some captures) : Splits pieces input captures := by
  induction pieces generalizing input captures with
  | nil =>
      rw [matchPieces] at h
      split at h
      · next hempty => exact ⟨List.isEmpty_iff.1 hempty, (Option.some.inj h).symm⟩
      · simp at h
  | cons piece pieces ih =>
      cases piece with
      | literal symbol =>
          rw [matchPieces] at h
          split at h
          · next hhead => exact ⟨_, (List.cons_head?_tail hhead).symm, ih h⟩
          · simp at h
      | single accepts =>
          rw [matchPieces] at h
          split at h
          · next hhead =>
              obtain ⟨symbol, hhead, haccepts⟩ := (Option.any_eq_true _ _).1 hhead
              exact ⟨symbol, _, (List.cons_head?_tail hhead).symm, haccepts, ih h⟩
          · simp at h
      | block length accepts =>
          rw [matchPieces] at h
          split at h
          · next hblock =>
              rw [Option.map_eq_some_iff] at h
              obtain ⟨captures', h, hcaptures⟩ := h
              exact ⟨_, _, captures', (List.take_append_drop length input).symm, hcaptures.symm,
                List.length_take_of_le hblock.1, hblock.2, ih h⟩
          · simp at h
      | many accepts =>
          rw [matchPieces, Option.map_eq_some_iff] at h
          obtain ⟨⟨taken, captures'⟩, h, hcaptures⟩ := h
          obtain ⟨remaining, hinput, htaken, hrest⟩ := longestFirst_sound h
          exact ⟨taken, remaining, captures', hinput, hcaptures.symm, htaken, ih hrest⟩

/-- A matched input contains each symbol at least as often as the pattern requires it. -/
theorem Splits.literalCount_le {pieces : List (Piece α)} {input : List α}
    {captures : List (List α)} (h : Splits pieces input captures) (symbol : α) :
    literalCount symbol pieces ≤ input.count symbol := by
  induction pieces generalizing input captures with
  | nil => simp [literalCount]
  | cons piece pieces ih =>
      cases piece with
      | literal other =>
          obtain ⟨remaining, rfl, hrest⟩ := h
          have hle := ih hrest
          unfold literalCount at hle ⊢
          by_cases heq : symbol = other
          · simpa [heq] using heq ▸ hle
          · simpa [heq, Ne.symm heq] using hle
      | single accepts =>
          obtain ⟨other, remaining, rfl, _, hrest⟩ := h
          have hle := ih hrest
          rw [List.count_cons]
          simp only [literalCount, List.countP_cons] at hle ⊢
          simp only [Bool.false_eq_true, if_false]
          omega
      | block length accepts =>
          obtain ⟨taken, remaining, captures', rfl, _, _, _, hrest⟩ := h
          have hle := ih hrest
          rw [List.count_append]
          simp only [literalCount, List.countP_cons] at hle ⊢
          simp only [Bool.false_eq_true, if_false]
          omega
      | many accepts =>
          obtain ⟨taken, remaining, captures', rfl, _, _, hrest⟩ := h
          have hle := ih hrest
          rw [List.count_append]
          simp only [literalCount, List.countP_cons] at hle ⊢
          simp only [Bool.false_eq_true, if_false]
          omega

omit [DecidableEq α] in
/-- A matched input is at least as long as the pattern requires. -/
theorem Splits.minLength_le {pieces : List (Piece α)} {input : List α} {captures : List (List α)}
    (h : Splits pieces input captures) : minLength pieces ≤ input.length := by
  induction pieces generalizing input captures with
  | nil => exact Nat.zero_le _
  | cons piece pieces ih =>
      cases piece with
      | literal symbol =>
          obtain ⟨remaining, rfl, hrest⟩ := h
          exact Nat.succ_le_succ (ih hrest)
      | single accepts =>
          obtain ⟨symbol, remaining, rfl, _, hrest⟩ := h
          exact Nat.succ_le_succ (ih hrest)
      | block length accepts =>
          obtain ⟨taken, remaining, captures', rfl, _, rfl, _, hrest⟩ := h
          have hle := ih hrest
          rw [minLength, List.length_append]
          omega
      | many accepts =>
          obtain ⟨taken, remaining, captures', rfl, _, _, hrest⟩ := h
          have hle := ih hrest
          rw [minLength, List.length_append]
          omega

/-- A wildcard before a literal stops at its last occurrence that leaves the pattern enough. -/
theorem matchPieces_many_literal {accepts : α → Bool} {symbol : α} {pieces : List (Piece α)}
    {taken remaining : List α} {captures : List (List α)} (htaken : taken.all accepts = true)
    (hrest : matchPieces pieces remaining = some captures)
    (hcount : remaining.count symbol ≤ literalCount symbol pieces) :
    matchPieces (.many accepts :: .literal symbol :: pieces) (taken ++ symbol :: remaining) =
      some (taken :: captures) := by
  refine matchPieces_many htaken (by rwa [matchPieces_literal]) ?_
  intro skipped suffix hskipped hsplit
  cases skipped with
  | nil => exact absurd rfl hskipped
  | cons first skipped =>
      rw [List.cons_append, List.cons.injEq] at hsplit
      cases hmatch : matchPieces (.literal symbol :: pieces) suffix with
      | none => rfl
      | some found =>
          have hneeded := (splits_of_matchPieces hmatch).literalCount_le symbol
          have hsuffix : suffix.count symbol ≤ remaining.count symbol := by
            rw [hsplit.2, List.count_append]
            exact Nat.le_add_left _ _
          have hone : literalCount symbol (.literal symbol :: pieces) =
              literalCount symbol pieces + 1 := by
            simp [literalCount]
          omega

/-- A wildcard before a pattern of fixed length leaves it just that. -/
theorem matchPieces_many_minLength {accepts : α → Bool} {pieces : List (Piece α)}
    {taken remaining : List α} {captures : List (List α)} (htaken : taken.all accepts = true)
    (hrest : matchPieces pieces remaining = some captures)
    (hlength : remaining.length ≤ minLength pieces) :
    matchPieces (.many accepts :: pieces) (taken ++ remaining) = some (taken :: captures) := by
  refine matchPieces_many htaken hrest ?_
  intro skipped suffix hskipped hsplit
  cases hmatch : matchPieces pieces suffix with
  | none => rfl
  | some found =>
      have hneeded := (splits_of_matchPieces hmatch).minLength_le
      have hpositive := List.length_pos_iff.2 hskipped
      rw [hsplit, List.length_append] at hlength
      omega

end Greedy
