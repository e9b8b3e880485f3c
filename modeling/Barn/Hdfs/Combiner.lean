import Barn.Data.Lines
import Barn.Platform.Reader

/-!
# Combining files

`combineIntoSeqFile` of `combiner.scala`, which makes a record of every line it reads. It reads the
files with a `BufferedReader`, to which a carriage return is a line end as well
(`combineIntoSeqFile_records_iff`). The files are UTF-8, so that decoding and encoding a line give
its bytes back.
-/

namespace Barn.Hdfs.FileCombiner

/-- A record of the sequence file: its `LongWritable` and its `BytesWritable`. -/
structure Record where
  key : Int
  value : List UInt8
  deriving DecidableEq

/-- The loop over the lines of one file, in at most this many passes. It is `none` if they do not
suffice, or if `readLine` returns `null`. The clock shows `currentTimeMillis n` at the `n`th
`append`. -/
def appendLines (currentTimeMillis : ℕ → Int) :
    ℕ → BufferedReader → List Record → Option (List Record)
  | 0, _, _ => none
  | passes + 1, bufferedSource, written =>
      let (isReady, bufferedSource) := bufferedSource.ready
      if isReady then
        match bufferedSource.readLine with
        | (none, _) => none
        | (some line, bufferedSource) =>
            appendLines currentTimeMillis passes bufferedSource
              (written ++ [⟨currentTimeMillis written.length, getBytes line⟩])
      else
        some written

/-- What is done for each file. It takes at most one pass for each character and the last one. -/
def appendFile (currentTimeMillis : ℕ → Int) (written : List Record) (file : String) :
    Option (List Record) :=
  appendLines currentTimeMillis (file.toList.length + 1) (BufferedReader.ofFile file) written

/-- `combineIntoSeqFile`: the records of the sequence file made from local files of the given
contents. -/
def combineIntoSeqFile (currentTimeMillis : ℕ → Int) (localFiles : List String) :
    Option (List Record) :=
  localFiles.foldlM (appendFile currentTimeMillis) []

/-- The log records of a file: what its newlines end, and what follows the last one. -/
def logRecords (file : String) : List (List UInt8) :=
  Lines.lines 0x0A (fileBytes file)

/-- The log records are the lines of the text, as bytes. -/
theorem logRecords_eq (file : String) :
    logRecords file = (Lines.lines '\n' file.toList).map getBytes := by
  have hmark : ∀ char : Char, char ≠ '\n' → (0x0A : UInt8) ∉ String.utf8EncodeChar char := by
    intro char hchar hmem
    have hval := (mem_utf8EncodeChar (by decide)).1 hmem
    exact hchar (Char.ext (UInt32.toNat_inj.1 hval))
  rw [logRecords, fileBytes_eq, getBytes]
  exact Lines.lines_flatMap (by decide) hmark (fun _ => String.utf8EncodeChar_ne_nil) file.toList

/-- The carriage returns of a text, as bytes. -/
theorem mem_getBytes_cr {line : List Char} : (0x0D : UInt8) ∈ getBytes line ↔ '\r' ∈ line :=
  mem_getBytes (by decide) (by decide)

/-- What a loop over lines writes, where `rest` is yet to be read: lines without carriage returns,
and those of `rest` if there is none in it. -/
structure Writes (rest : List Char) (lines : List (List Char)) : Prop where
  noReturn : ∀ line ∈ lines, '\r' ∉ line
  exact : '\r' ∉ rest → lines = Lines.lines '\n' rest

/-- The line read first is written first. -/
theorem Writes.cons {line rest later : List Char} {lineEnd : Char} {lines : List (List Char)}
    (hline : ∀ char ∈ line, isLineEnd char = false) (hend : isLineEnd lineEnd = true)
    (h : '\r' ∉ line ++ lineEnd :: rest → later = rest)
    (hlines : Writes later lines) : Writes (line ++ lineEnd :: rest) (line :: lines) where
  noReturn := by
    rw [List.forall_mem_cons]
    exact ⟨fun hmem => by simpa [isLineEnd] using hline '\r' hmem, hlines.noReturn⟩
  exact := by
    intro hnone
    obtain rfl := h hnone
    simp only [List.mem_append, List.mem_cons, not_or] at hnone
    obtain ⟨-, hreturn, hlater⟩ := hnone
    obtain rfl : lineEnd = '\n' := by
      have hends : lineEnd = '\n' ∨ lineEnd = '\r' := by simpa [isLineEnd] using hend
      exact hends.resolve_right (Ne.symm hreturn)
    have hnewline : '\n' ∉ line := fun hmem => by simpa [isLineEnd] using hline '\n' hmem
    rw [Lines.lines_append_cons hnewline, hlines.exact hlater]

/-- A line that the file ends in is written last. -/
theorem Writes.last {line : List Char} {lines : List (List Char)}
    (hline : ∀ char ∈ line, isLineEnd char = false) (hne : line ≠ [])
    (hlines : Writes [] lines) : Writes line (line :: lines) where
  noReturn := by
    rw [List.forall_mem_cons]
    exact ⟨fun hmem => by simpa [isLineEnd] using hline '\r' hmem, hlines.noReturn⟩
  exact := by
    intro _
    have hnewline : '\n' ∉ line := fun hmem => by simpa [isLineEnd] using hline '\n' hmem
    rw [Lines.lines_of_notMem hnewline hne, hlines.exact List.not_mem_nil, Lines.lines_nil]

/-- With a pass for every character and one more the loop ends, and it has written the lines of
what was to be read. -/
theorem appendLines_spec (currentTimeMillis : ℕ → Int) {passes : ℕ} {reader : BufferedReader}
    (written : List Record)
    (hpasses : reader.pending.length < passes) :
    ∃ output lines, appendLines currentTimeMillis passes reader written = some output ∧
      output.map Record.value = written.map Record.value ++ lines.map getBytes ∧
        Writes reader.pending lines := by
  induction passes generalizing reader written with
  | zero => omega
  | succ passes ih =>
      by_cases hpending : reader.pending = []
      · refine ⟨written, [], ?_, by simp, ⟨by simp, fun _ => by rw [hpending]; rfl⟩⟩
        rw [appendLines]
        simp only [BufferedReader.ready_of_nil hpending]
        rfl
      · have hpositive := List.length_pos_iff.2 hpending
        obtain ⟨line, following, hread, hline, hends⟩ := BufferedReader.readLine_spec hpending
        have hshorter : following.pending.length < passes := by
          obtain ⟨-, rfl⟩ | ⟨lineEnd, -, hrest, -⟩ := hends
          · exact lt_of_lt_of_le hpositive (by omega)
          · have hle := following.length_pending_le
            rw [hrest, List.length_append, List.length_cons] at hpasses
            omega
        obtain ⟨output, lines, houtput, hvalues, hlines⟩ := ih
          (written ++ [⟨currentTimeMillis written.length, getBytes line⟩]) hshorter
        refine ⟨output, line :: lines, ?_, ?_, ?_⟩
        · rw [appendLines]
          simp only [BufferedReader.ready_of_ne_nil hpending, if_true, hread, houtput]
        · simp [hvalues]
        · obtain ⟨hrest, rfl⟩ | ⟨lineEnd, hend, hrest, hskip⟩ := hends
          · rw [hrest]
            exact .last hline (hrest ▸ hpending) hlines
          · rw [hrest]
            refine .cons hline hend (fun hnone => ?_) hlines
            -- Without a carriage return there is no line feed to be skipped.
            have hreturn : lineEnd ≠ '\r' := by
              rintro rfl
              simp at hnone
            exact BufferedReader.pending_of_skipLF (by simp [hskip, hreturn])

/-- What combining files writes: lines without carriage returns, and the log records of the files
if there is none in them. -/
structure Combines (localFiles : List String) (lines : List (List Char)) : Prop where
  noReturn : ∀ line ∈ lines, '\r' ∉ line
  exact : (∀ file ∈ localFiles, 0x0D ∉ fileBytes file) →
    lines.map getBytes = localFiles.flatMap logRecords

/-- Combining ends, whatever was written before. -/
theorem appendFiles_spec (currentTimeMillis : ℕ → Int) (localFiles : List String)
    (written : List Record) :
    ∃ output lines, localFiles.foldlM (appendFile currentTimeMillis) written = some output ∧
      output.map Record.value = written.map Record.value ++ lines.map getBytes ∧
        Combines localFiles lines := by
  induction localFiles generalizing written with
  | nil => exact ⟨written, [], rfl, by simp, by simp, fun _ => rfl⟩
  | cons file localFiles ih =>
      have hpending : (BufferedReader.ofFile file).pending = file.toList :=
        BufferedReader.pending_of_skipLF rfl
      obtain ⟨middle, lines, hmiddle, hvalues, hlines⟩ :=
        appendLines_spec currentTimeMillis written
          (show (BufferedReader.ofFile file).pending.length < file.toList.length + 1 by
            rw [hpending]; exact Nat.lt_succ_self _)
      rw [hpending] at hlines
      obtain ⟨output, later, houtput, hvalues', hlater⟩ := ih middle
      refine ⟨output, lines ++ later, ?_, ?_, ?_, fun hreturn => ?_⟩
      · rw [List.foldlM_cons, appendFile, hmiddle]
        exact houtput
      · rw [hvalues', hvalues, List.map_append, List.append_assoc]
      · rw [List.forall_mem_append]
        exact ⟨hlines.noReturn, hlater.noReturn⟩
      · rw [List.forall_mem_cons, fileBytes_eq, mem_getBytes_cr] at hreturn
        rw [List.map_append, List.flatMap_cons, hlater.exact hreturn.2,
          hlines.exact hreturn.1, logRecords_eq]

/-- The sequence file has the log records of the files, in order and byte for byte, exactly if no
file contains a carriage return. -/
theorem combineIntoSeqFile_records_iff (currentTimeMillis : ℕ → Int) (localFiles : List String) :
    (∃ output, combineIntoSeqFile currentTimeMillis localFiles = some output ∧
        output.map Record.value = localFiles.flatMap logRecords) ↔
      ∀ file ∈ localFiles, 0x0D ∉ fileBytes file := by
  obtain ⟨output, lines, houtput, hvalues, hcombines⟩ :=
    appendFiles_spec currentTimeMillis localFiles []
  rw [List.map_nil, List.nil_append] at hvalues
  constructor
  · rintro ⟨_, hsame, hrecords⟩ file hfile hreturn
    rw [combineIntoSeqFile, houtput] at hsame
    cases hsame
    -- The record with the carriage return is none of those written.
    obtain ⟨line, hline, hmem⟩ :=
      Lines.exists_mem_lines (show (0x0D : UInt8) ≠ 0x0A by decide) hreturn
    have hwritten : line ∈ lines.map getBytes := by
      rw [← hvalues, hrecords]
      exact List.mem_flatMap.2 ⟨file, hfile, hline⟩
    obtain ⟨text, htext, rfl⟩ := List.mem_map.1 hwritten
    exact hcombines.noReturn text htext (mem_getBytes_cr.1 hmem)
  · intro hreturn
    exact ⟨output, houtput, by rw [hvalues, hcombines.exact hreturn]⟩

/-- A line with a carriage return in it becomes two records, and one that ends in a carriage return
and a newline loses its last byte. -/
theorem combineIntoSeqFile_cuts :
    logRecords "a\rb\n" = [[97, 13, 98]] ∧
      (combineIntoSeqFile (fun _ => 0) ["a\rb\n"]) = some [⟨0, [97]⟩, ⟨0, [98]⟩] ∧
      logRecords "a\r\n" = [[97, 13]] ∧
      (combineIntoSeqFile (fun _ => 0) ["a\r\n"]) = some [⟨0, [97]⟩] := by
  decide

end Barn.Hdfs.FileCombiner
