import Mathlib.Data.List.TakeWhile
import Mathlib.Tactic.SplitIfs

/-!
# Reading lines of text files

`java.io.BufferedReader` over a UTF-8 file. A line ends at a line feed, at a carriage return or at
both in this order; `readLine` leaves the line feed after a carriage return for the next call.
`readLine_spec` says what one call takes from the file.
-/

namespace Barn

/-- `getBytes(utf8)` -/
def getBytes (line : List Char) : List UInt8 :=
  line.flatMap String.utf8EncodeChar

/-- The bytes of a UTF-8 file. -/
def fileBytes (file : String) : List UInt8 :=
  file.toByteArray.data.toList

theorem fileBytes_eq (file : String) : fileBytes file = getBytes file.toList := by
  rw [fileBytes, ← String.utf8Encode_toList, List.utf8Encode, List.data_toByteArray, getBytes]

/-- A byte below 128 is the encoding of a character of its own and part of no other one. -/
theorem mem_utf8EncodeChar {byte : UInt8} {char : Char} (hbyte : byte.toNat < 128) :
    byte ∈ String.utf8EncodeChar char ↔ char.val.toNat = byte.toNat := by
  have hlead : ∀ number, 128 ≤ number → number < 256 → byte ≠ UInt8.ofNat number := by
    intro number hlow hhigh heq
    rw [heq, UInt8.toNat_ofNat'] at hbyte
    omega
  rw [String.utf8EncodeChar]
  split_ifs with hone htwo hthree
  · rw [List.mem_singleton, ← UInt8.toNat_inj, UInt8.toNat_ofNat']
    omega
  · refine iff_of_false ?_ (by omega)
    simp only [List.mem_cons, List.not_mem_nil, or_false, not_or]
    exact ⟨hlead _ (by omega) (by omega), hlead _ (by omega) (by omega)⟩
  · refine iff_of_false ?_ (by omega)
    simp only [List.mem_cons, List.not_mem_nil, or_false, not_or]
    exact ⟨hlead _ (by omega) (by omega), hlead _ (by omega) (by omega),
      hlead _ (by omega) (by omega)⟩
  · refine iff_of_false ?_ (by omega)
    simp only [List.mem_cons, List.not_mem_nil, or_false, not_or]
    exact ⟨hlead _ (by omega) (by omega), hlead _ (by omega) (by omega),
      hlead _ (by omega) (by omega), hlead _ (by omega) (by omega)⟩

/-- A text contains a byte below 128 if it contains that character. -/
theorem mem_getBytes {byte : UInt8} {char : Char} (hbyte : byte.toNat < 128)
    (hchar : char.val.toNat = byte.toNat) {line : List Char} :
    byte ∈ getBytes line ↔ char ∈ line := by
  have hunique : ∀ other : Char, byte ∈ String.utf8EncodeChar other ↔ other = char := by
    intro other
    rw [mem_utf8EncodeChar hbyte, ← hchar, UInt32.toNat_inj, Char.val_inj]
  simp [getBytes, hunique]

/-- `BufferedReader` over a file: the characters not read yet, and whether a line feed in front of
them belongs to the line before. -/
structure BufferedReader where
  rest : List Char
  skipLF : Bool
  deriving DecidableEq

/-- The characters that end a line. -/
def isLineEnd (char : Char) : Bool :=
  char = '\n' || char = '\r'

namespace BufferedReader

/-- A reader at the beginning of a file. -/
def ofFile (file : String) : BufferedReader where
  rest := file.toList
  skipLF := false

/-- The characters without the line feed that belongs to the line before. -/
def pending (reader : BufferedReader) : List Char :=
  if reader.skipLF ∧ reader.rest.head? = some '\n' then reader.rest.tail else reader.rest

/-- `ready`. The line feed to be skipped does not count, and is skipped if it has arrived. -/
def ready (reader : BufferedReader) : Bool × BufferedReader :=
  if reader.rest.isEmpty then
    (false, reader)
  else
    (!reader.pending.isEmpty, { rest := reader.pending, skipLF := false })

/-- `readLine`, which is `none` at the end of the file. -/
def readLine (reader : BufferedReader) : Option (List Char) × BufferedReader :=
  if reader.rest.isEmpty then
    (none, reader)
  else
    let line := reader.pending.takeWhile fun char => !isLineEnd char
    match reader.pending.dropWhile fun char => !isLineEnd char with
    | [] => (if line.isEmpty then none else some line, { rest := [], skipLF := false })
    | lineEnd :: rest => (some line, { rest := rest, skipLF := lineEnd = '\r' })

/-- Dropping the line feed makes what is to be read no longer. -/
theorem length_pending_le (reader : BufferedReader) :
    reader.pending.length ≤ reader.rest.length := by
  rw [pending]
  split_ifs
  · rw [List.length_tail]
    omega
  · exact le_rfl

theorem pending_of_skipLF {reader : BufferedReader} (h : reader.skipLF = false) :
    reader.pending = reader.rest := by
  simp [pending, h]

/-- `ready` is false when nothing is to be read. -/
theorem ready_of_nil {reader : BufferedReader} (h : reader.pending = []) :
    reader.ready.1 = false := by
  rw [ready]
  split_ifs
  · rfl
  · simp [h]

/-- Otherwise it is true, and the line feed is dropped. -/
theorem ready_of_ne_nil {reader : BufferedReader} (h : reader.pending ≠ []) :
    reader.ready = (true, ⟨reader.pending, false⟩) := by
  rw [ready, if_neg]
  · simpa using h
  · intro hempty
    have hlength := reader.length_pending_le
    rw [List.isEmpty_iff.1 hempty, List.length_nil, Nat.le_zero] at hlength
    exact h (List.length_eq_zero_iff.1 hlength)

/-- What `readLine` takes from a file that has not ended: a line and what ends it. -/
theorem readLine_spec {rest : List Char} (hrest : rest ≠ []) :
    ∃ line reader, (BufferedReader.mk rest false).readLine = (some line, reader) ∧
      (∀ char ∈ line, isLineEnd char = false) ∧
        (rest = line ∧ reader = ⟨[], false⟩ ∨
          ∃ lineEnd, isLineEnd lineEnd = true ∧ rest = line ++ lineEnd :: reader.rest ∧
            reader.skipLF = decide (lineEnd = '\r')) := by
  have hpending : (BufferedReader.mk rest false).pending = rest := pending_of_skipLF rfl
  have hline : ∀ char ∈ rest.takeWhile (fun char => !isLineEnd char), isLineEnd char = false := by
    intro char hchar
    simpa using List.mem_takeWhile_imp hchar
  have hparts := List.takeWhile_append_dropWhile (p := fun char => !isLineEnd char) (l := rest)
  rw [readLine, if_neg (by simpa using hrest)]
  simp only [hpending]
  cases hdrop : rest.dropWhile fun char => !isLineEnd char with
  | nil =>
      rw [hdrop, List.append_nil] at hparts
      refine ⟨_, _, Prod.ext (if_neg ?_) rfl, hline, .inl ⟨hparts.symm, rfl⟩⟩
      rw [hparts]
      simpa using hrest
  | cons lineEnd later =>
      rw [hdrop] at hparts
      refine ⟨_, _, rfl, hline, .inr ⟨lineEnd, ?_, hparts.symm, rfl⟩⟩
      have hhead := List.head_dropWhile_not (fun char => !isLineEnd char)
        (show rest.dropWhile (fun char => !isLineEnd char) ≠ [] by rw [hdrop]; simp)
      simpa [hdrop] using hhead

end BufferedReader

end Barn
