import Mathlib.Data.List.DropRight

/-!
# Circular buffers that overwrite

A buffer of fixed capacity whose `pushBack` overwrites the oldest item once it is full. Its items
are always the last `capacity` ones pushed since it was empty; read `items_pushAll` first.
-/

/-- At most `capacity` items, the oldest one first. -/
structure CircularBuffer (α : Type) (capacity : ℕ) where
  items : List α
  length_le : items.length ≤ capacity

namespace CircularBuffer

variable {α : Type} {capacity : ℕ}

/-- A buffer without items. -/
def clear : CircularBuffer α capacity where
  items := []
  length_le := Nat.zero_le capacity

/-- Append an item; a full buffer gives up its oldest item for it. -/
def pushBack (buffer : CircularBuffer α capacity) (item : α) : CircularBuffer α capacity where
  items :=
    if buffer.items.length < capacity then buffer.items ++ [item]
    else (buffer.items ++ [item]).tail
  length_le := by
    have hfits := buffer.length_le
    split
    · rw [List.length_append, List.length_singleton]
      omega
    · rw [List.length_tail, List.length_append, List.length_singleton]
      omega

/-- Append items one after the other. -/
def pushAll (buffer : CircularBuffer α capacity) (items : List α) : CircularBuffer α capacity :=
  items.foldl pushBack buffer

@[simp] theorem items_clear : (clear : CircularBuffer α capacity).items = [] := rfl

@[simp] theorem pushAll_nil (buffer : CircularBuffer α capacity) : buffer.pushAll [] = buffer :=
  rfl

@[simp] theorem pushAll_cons (buffer : CircularBuffer α capacity) (item : α) (items : List α) :
    buffer.pushAll (item :: items) = (buffer.pushBack item).pushAll items := rfl

/-- Pushing in two goes is pushing all at once. -/
theorem pushAll_append (buffer : CircularBuffer α capacity) (first second : List α) :
    buffer.pushAll (first ++ second) = (buffer.pushAll first).pushAll second :=
  List.foldl_append

/-- A push keeps the last `capacity` items. -/
theorem items_pushBack (buffer : CircularBuffer α capacity) (item : α) :
    (buffer.pushBack item).items = (buffer.items ++ [item]).rtake capacity := by
  have hfits := buffer.length_le
  unfold pushBack List.rtake
  rw [List.length_append, List.length_singleton]
  split
  · next hroom =>
      rw [show buffer.items.length + 1 - capacity = 0 by omega, List.drop_zero]
  · next hfull =>
      rw [show buffer.items.length + 1 - capacity = 1 by omega, List.drop_one]

/-- Keeping the last items once more after appending to a list already cut changes nothing. -/
theorem rtake_rtake_append (items suffix : List α) :
    (items.rtake capacity ++ suffix).rtake capacity = (items ++ suffix).rtake capacity := by
  unfold List.rtake
  rw [← List.drop_append_of_le_length (Nat.sub_le _ _), List.drop_drop]
  congr 1
  simp only [List.length_drop, List.length_append]
  omega

/-- The items are the last `capacity` ones of all that were there or pushed. -/
theorem items_pushAll (buffer : CircularBuffer α capacity) (items : List α) :
    (buffer.pushAll items).items = (buffer.items ++ items).rtake capacity := by
  induction items generalizing buffer with
  | nil =>
      rw [pushAll_nil, List.append_nil, List.rtake, Nat.sub_eq_zero_of_le buffer.length_le,
        List.drop_zero]
  | cons item items ih =>
      rw [pushAll_cons, ih, items_pushBack, rtake_rtake_append, List.append_assoc,
        List.singleton_append]

/-- Items pushed last into an empty buffer push out only those pushed before them, as long as they
fit the capacity. -/
theorem items_pushAll_pushAll_clear (first : List α) {second : List α}
    (hfits : second.length ≤ capacity) :
    (((clear : CircularBuffer α capacity).pushAll first).pushAll second).items =
      first.drop (second.length + first.length - capacity) ++ second := by
  rw [← pushAll_append, items_pushAll, items_clear, List.nil_append, List.rtake,
    List.length_append, Nat.add_comm first.length, List.drop_append_of_le_length]
  omega

end CircularBuffer
