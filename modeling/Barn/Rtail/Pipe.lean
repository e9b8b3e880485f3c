import Barn.Data.Lines
import Mathlib.Data.List.Chain
import Mathlib.Order.Lattice

/-!
# The pipe of rtail

`runPipe` of `Network/Rtail.hs`, which stands between a service and `svlogd`. It publishes what it
reads and writes it to `stdout`, chunk by chunk: the lines of a chunk are cut out and ended again
without regard to the chunks around it (`runPipe_passesThrough_iff`).
-/

namespace Barn.Rtail

/-- `ByteString` -/
abbrev ByteString := List UInt8

/-- `nl` -/
def nl : ByteString := [0x0A]

/-- What the loop does to the socket and to `stdout`. -/
inductive Action where
  | sendMulti (parts : List ByteString)
  | hPut (bytes : ByteString)
  deriving DecidableEq

/-- `BS.split`. The empty string has no pieces. -/
def split (byte : UInt8) (bytes : ByteString) : List ByteString :=
  if bytes.isEmpty then [] else bytes.splitOn byte

/-- `lines'`, the lines that the loop finds in a chunk. -/
def chunkLines (chunk : ByteString) : List ByteString :=
  (split 0x0A chunk).filter fun line => !line.isEmpty

/-- `loop`, on what the calls of `hGetSome` return: an empty chunk is the end of the input. -/
def loop (topic : ByteString) : List ByteString → List Action
  | [] => []
  | chunk :: chunks =>
      if chunk.isEmpty then []
      else
        .sendMulti (topic :: chunkLines chunk) ::
          (((chunkLines chunk).intersperse nl).map .hPut ++ .hPut nl :: loop topic chunks)

/-- `runPipe`, for an input that `hGetSome` cuts into the given chunks. -/
def runPipe (topic : ByteString) (chunks : List ByteString) : List Action :=
  loop topic chunks

/-- What an action writes to `stdout`. -/
def Action.written : Action → ByteString
  | .sendMulti _ => []
  | .hPut bytes => bytes

/-- The lines of a message, which follow its topic. -/
def Action.sent : Action → List ByteString
  | .sendMulti parts => parts.tail
  | .hPut _ => []

/-- All that is written to `stdout`. -/
def stdout (actions : List Action) : ByteString :=
  actions.flatMap Action.written

/-- The lines sent to the socket, over all messages. -/
def sentLines (actions : List Action) : List ByteString :=
  actions.flatMap Action.sent

/-- The stream and the socket get the non-empty lines of the input. -/
structure PassesThrough (stream : ByteString) (actions : List Action) : Prop where
  stdout : stdout actions = Lines.terminated 0x0A (Lines.nonempty 0x0A stream)
  sent : sentLines actions = Lines.nonempty 0x0A stream

/-- Every chunk has something to pass on and none of the chunks ends within a line. -/
structure CutAtLines (chunks : List ByteString) : Prop where
  substance : ∀ chunk ∈ chunks, ∃ byte ∈ chunk, byte ≠ 0x0A
  boundaries : chunks.IsChain (Lines.Parted 0x0A)

variable {topic chunk : ByteString} {chunks : List ByteString}

theorem chunkLines_eq (chunk : ByteString) : chunkLines chunk = Lines.nonempty 0x0A chunk := by
  rw [chunkLines, split]
  split_ifs with hempty
  · rw [List.isEmpty_iff.1 hempty]
    rfl
  · exact Lines.filter_splitOn 0x0A chunk

/-- Lines with newlines between and after them. -/
theorem flatten_intersperse {line : ByteString} (lines : List ByteString) :
    ((line :: lines).intersperse nl).flatten ++ nl = Lines.terminated 0x0A (line :: lines) := by
  induction lines generalizing line with
  | nil => simp [Lines.terminated, nl]
  | cons next lines ih =>
      rw [List.intersperse_cons_cons, List.flatten_cons, List.flatten_cons, List.append_assoc,
        List.append_assoc, ih]
      simp [Lines.terminated, nl]

/-- A chunk puts its lines on `stdout`, or a newline if it has none. -/
theorem stdout_loop_cons (h : chunk ≠ []) :
    stdout (loop topic (chunk :: chunks)) =
      (if Lines.nonempty 0x0A chunk = [] then nl
        else Lines.terminated 0x0A (Lines.nonempty 0x0A chunk)) ++ stdout (loop topic chunks) := by
  have hwritten : ∀ lines : List ByteString,
      (lines.map Action.hPut).flatMap Action.written = lines.flatten := by
    intro lines
    rw [List.flatMap_map]
    exact List.flatMap_id'
  rw [loop, if_neg (by simpa using h), chunkLines_eq, stdout, List.flatMap_cons,
    List.flatMap_append, hwritten, List.flatMap_cons, ← stdout]
  cases Lines.nonempty 0x0A chunk with
  | nil => simp [Action.written]
  | cons line lines =>
      rw [if_neg (List.cons_ne_nil _ _), ← flatten_intersperse]
      simp [Action.written]

/-- A chunk sends its lines in one message. -/
theorem sentLines_loop_cons (h : chunk ≠ []) :
    sentLines (loop topic (chunk :: chunks)) =
      Lines.nonempty 0x0A chunk ++ sentLines (loop topic chunks) := by
  have hsent : ∀ lines : List ByteString, (lines.map Action.hPut).flatMap Action.sent = [] := by
    intro lines
    rw [List.flatMap_map]
    exact List.flatMap_eq_nil_iff.2 fun _ _ => rfl
  rw [loop, if_neg (by simpa using h), chunkLines_eq, sentLines, List.flatMap_cons,
    List.flatMap_append, hsent, List.flatMap_cons, ← sentLines]
  rfl

/-- The condition, chunk by chunk. -/
theorem cutAtLines_cons (h : [] ∉ chunks) :
    CutAtLines (chunk :: chunks) ↔
      (∃ byte ∈ chunk, byte ≠ 0x0A) ∧ Lines.Parted 0x0A chunk chunks.flatten ∧
        CutAtLines chunks := by
  have hparted : Lines.Parted 0x0A chunk chunks.flatten ↔
      ∀ next ∈ chunks.head?, Lines.Parted 0x0A chunk next := by
    cases chunks with
    | nil => simp [Lines.Parted]
    | cons next chunks =>
        cases next with
        | nil => exact absurd List.mem_cons_self h
        | cons byte next => simp [Lines.Parted]
  rw [hparted]
  constructor
  · intro hcut
    have hchain := List.isChain_cons.1 hcut.boundaries
    exact ⟨hcut.substance chunk List.mem_cons_self, hchain.1,
      fun next hnext => hcut.substance next (List.mem_cons_of_mem _ hnext), hchain.2⟩
  · rintro ⟨hsubstance, hboundary, hcut⟩
    exact ⟨List.forall_mem_cons.2 ⟨hsubstance, hcut.substance⟩,
      List.isChain_cons.2 ⟨hboundary, hcut.boundaries⟩⟩

/-- Cut at lines, the chunks are passed on as the stream is. -/
theorem CutAtLines.passesThrough (topic : ByteString) (hcut : CutAtLines chunks) (h : [] ∉ chunks) :
    PassesThrough chunks.flatten (runPipe topic chunks) := by
  rw [runPipe]
  induction chunks with
  | nil => exact ⟨rfl, rfl⟩
  | cons chunk chunks ih =>
      rw [List.mem_cons, not_or] at h
      obtain ⟨hsubstance, hparted, hrest⟩ := (cutAtLines_cons h.2).1 hcut
      obtain ⟨hstdout, hsent⟩ := ih hrest h.2
      rw [List.flatten_cons]
      constructor
      · rw [stdout_loop_cons (Ne.symm h.1), if_neg (Lines.nonempty_ne_nil.2 hsubstance), hstdout,
          Lines.nonempty_append hparted, Lines.terminated_append]
      · rw [sentLines_loop_cons (Ne.symm h.1), hsent, Lines.nonempty_append hparted]

/-- `stdout` has at least a newline for every line of the stream, and more of them if the chunks
are not cut at lines. -/
theorem length_le_count_stdout (topic : ByteString) (h : [] ∉ chunks) :
    (Lines.nonempty 0x0A chunks.flatten).length ≤ (stdout (loop topic chunks)).count 0x0A ∧
      ((Lines.nonempty 0x0A chunks.flatten).length = (stdout (loop topic chunks)).count 0x0A →
        CutAtLines chunks) := by
  induction chunks with
  | nil => exact ⟨le_rfl, fun _ => ⟨by simp, .nil⟩⟩
  | cons chunk chunks ih =>
      rw [List.mem_cons, not_or] at h
      obtain ⟨hle, hcut⟩ := ih h.2
      rw [stdout_loop_cons (Ne.symm h.1), List.count_append, List.flatten_cons, cutAtLines_cons h.2,
        ← Lines.nonempty_ne_nil]
      -- What the chunk writes: a newline for every line, and one if it has no line.
      have hcount : (if Lines.nonempty 0x0A chunk = [] then nl
          else Lines.terminated 0x0A (Lines.nonempty 0x0A chunk)).count 0x0A =
          max 1 (Lines.nonempty 0x0A chunk).length := by
        split_ifs with hnone
        · rw [hnone]
          rfl
        · rw [Lines.count_terminated fun line => Lines.sep_notMem_of_mem_nonempty]
          exact (max_eq_right (List.length_pos_iff.2 hnone)).symm
      rw [hcount]
      by_cases hparted : Lines.Parted 0x0A chunk chunks.flatten
      · rw [Lines.nonempty_append hparted, List.length_append]
        refine ⟨by omega, fun heq => ⟨?_, hparted, hcut (by omega)⟩⟩
        rw [← List.length_pos_iff]
        omega
      · have hjoined := Lines.length_nonempty_append hparted
        omega

/-- Whatever chunks the input is cut into, `runPipe` passes its lines on exactly if every chunk
contains more than newlines and no line crosses a boundary between chunks. -/
theorem runPipe_passesThrough_iff (topic : ByteString) (chunks : List ByteString)
    (h : [] ∉ chunks) :
    PassesThrough chunks.flatten (runPipe topic chunks) ↔ CutAtLines chunks := by
  constructor
  · intro hpasses
    refine (length_le_count_stdout topic h).2 ?_
    rw [← runPipe, hpasses.stdout,
      Lines.count_terminated fun line => Lines.sep_notMem_of_mem_nonempty]
  · intro hcut
    exact hcut.passesThrough topic h

/-- Two lines read with a cut at the end of the first. -/
theorem runPipe_passesThrough_lines :
    PassesThrough [97, 10, 98, 10] (runPipe [116] [[97, 10], [98, 10]]) :=
  (runPipe_passesThrough_iff [116] [[97, 10], [98, 10]] (by decide)).2
    ⟨by decide, by simp [Lines.Parted]⟩

/-- Two ways to cut one line, of which the second makes two of it. -/
theorem runPipe_splits_line :
    stdout (runPipe [116] [[97, 98, 10]]) = [97, 98, 10] ∧
      stdout (runPipe [116] [[97], [98, 10]]) = [97, 10, 98, 10] ∧
      sentLines (runPipe [116] [[97], [98, 10]]) = [[97], [98]] ∧
      ¬PassesThrough [97, 98, 10] (runPipe [116] [[97], [98, 10]]) := by
  refine ⟨by decide, by decide, by decide, fun h => ?_⟩
  exact absurd h.stdout (by decide)

end Barn.Rtail
