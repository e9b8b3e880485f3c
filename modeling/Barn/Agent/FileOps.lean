import Barn.Agent.Dispatch
import Mathlib.Data.List.Sort

/-!
# File operations of the agent

What `FileOps` makes of a directory and of the output of rsync, as in `files.cpp` and `rsync.cpp`.
-/

namespace Barn.Agent.FileOps

/-- `is_svlogd_filename` -/
def isSvlogdFilename (filename : Text) : Bool :=
  filename.head? = some 64

/-- `EMERGENCY_STOP_FILENAME` -/
def emergencyStopFilename : Text :=
  text "STOP_SHIPPING"

/-- `list_file_names` of a directory with these files. -/
def listFileNames (files : List Text) : List Text :=
  files.insertionSort (· ≤ ·)

/-- The loop of `list_log_directory` over the rest of the names. -/
def listLogDirectoryLoop : List Text → List Text → List Text
  | [], svlogdFiles => svlogdFiles
  | name :: fileNames, svlogdFiles =>
      let svlogdFiles := if isSvlogdFilename name then svlogdFiles ++ [name] else svlogdFiles
      if name = emergencyStopFilename then []
      else listLogDirectoryLoop fileNames svlogdFiles

/-- `list_log_directory` of a directory with these files. -/
def listLogDirectory (files : List Text) : List Text :=
  listLogDirectoryLoop (listFileNames files) []

/-- `get_rsync_candidates`: the lines of the output that are names of log files. -/
def getRsyncCandidates (rsyncOutput : Text) : List Text :=
  (rsyncOutput.splitOn 10).filter isSvlogdFilename

/-- `PARTIAL_TRANSFER` -/
def partialTransfer : Int := 23

/-- `PARTIAL_TRANSFER_DUE_VANISHED_SOURCE` -/
def partialTransferDueVanishedSource : Int := 24

/-- The exit codes of a dry run whose output counts. -/
def accepts (code : Int) : Prop :=
  code = 0 ∨ code = partialTransfer ∨ code = partialTransferDueVanishedSource

instance (code : Int) : Decidable (accepts code) :=
  inferInstanceAs (Decidable (_ ∨ _))

/-- `log_files_not_on_target`, given the exit code and the output of the dry run. -/
def logFilesNotOnTarget (files : List Text) (code : Int) (rsyncOutput : Text) :
    Validation (List Text) :=
  if files.length = 0 then .ok []
  else if ¬accepts code then .error (text "Failed to retrieve sync list: " ++ rsyncOutput)
  else .ok ((getRsyncCandidates rsyncOutput).insertionSort (· ≤ ·))

variable {files logs others : List Text}

/-- Sorting what is sorted already, in any order, gives it back. -/
theorem insertionSort_eq_of_perm {names : List Text} (hperm : names.Perm logs)
    (hsorted : logs.Pairwise (· < ·)) : names.insertionSort (· ≤ ·) = logs := by
  have hle : logs.Pairwise (· ≤ ·) := hsorted.imp le_of_lt
  refine List.Perm.eq_of_pairwise' ?_ hle ((List.perm_insertionSort _ _).trans hperm)
  exact List.pairwise_insertionSort _ _

/-- The loop lists the log files, or nothing if shipping is to stop. -/
theorem listLogDirectoryLoop_eq (fileNames svlogdFiles : List Text) :
    listLogDirectoryLoop fileNames svlogdFiles =
      if emergencyStopFilename ∈ fileNames then []
      else svlogdFiles ++ fileNames.filter isSvlogdFilename := by
  induction fileNames generalizing svlogdFiles with
  | nil => simp [listLogDirectoryLoop]
  | cons name fileNames ih =>
      rw [listLogDirectoryLoop]
      by_cases hstop : name = emergencyStopFilename
      · rw [if_pos hstop, if_pos (by simp [hstop])]
      · have hmem : emergencyStopFilename ∈ name :: fileNames ↔
            emergencyStopFilename ∈ fileNames := by
          rw [List.mem_cons]
          exact or_iff_right (Ne.symm hstop)
        rw [if_neg hstop]
        simp only [hmem]
        by_cases hlog : isSvlogdFilename name
        · rw [if_pos hlog, ih, List.filter_cons_of_pos hlog, List.append_assoc]
          rfl
        · rw [if_neg hlog, ih, List.filter_cons_of_neg hlog]

/-- A listing of a directory is that of its log files, or nothing if shipping is to stop. -/
theorem listLogDirectory_eq (hsorted : logs.Pairwise (· < ·))
    (hlogs : ∀ name ∈ logs, isSvlogdFilename name)
    (hothers : ∀ name ∈ others, ¬isSvlogdFilename name) :
    listLogDirectory (logs ++ others) = logs ∨ listLogDirectory (logs ++ others) = [] := by
  have hfilter : (logs ++ others).filter isSvlogdFilename = logs := by
    rw [List.filter_append, List.filter_eq_self.2 hlogs, List.filter_eq_nil_iff.2 hothers,
      List.append_nil]
  have hnames : (listFileNames (logs ++ others)).filter isSvlogdFilename = logs := by
    refine List.Perm.eq_of_pairwise' ?_ (hsorted.imp le_of_lt) ?_
    · exact (List.pairwise_insertionSort _ _).filter _
    · exact ((List.perm_insertionSort _ _).filter _).trans (.of_eq hfilter)
  rw [listLogDirectory, listLogDirectoryLoop_eq, hnames, List.nil_append]
  split
  · exact .inr rfl
  · exact .inl rfl

/-- Without a file that stops shipping all log files are listed. -/
theorem listLogDirectory_of_notMem (hsorted : logs.Pairwise (· < ·))
    (hlogs : ∀ name ∈ logs, isSvlogdFilename name)
    (hothers : ∀ name ∈ others, ¬isSvlogdFilename name) (hgoes : emergencyStopFilename ∉ others) :
    listLogDirectory (logs ++ others) = logs := by
  have hnot : emergencyStopFilename ∉ listFileNames (logs ++ others) := by
    intro hmem
    rcases List.mem_append.1 ((List.perm_insertionSort _ _).mem_iff.1 hmem) with hlog | hother
    · exact absurd (hlogs _ hlog) (by decide)
    · exact hgoes hother
  have hfilter : (logs ++ others).filter isSvlogdFilename = logs := by
    rw [List.filter_append, List.filter_eq_self.2 hlogs, List.filter_eq_nil_iff.2 hothers,
      List.append_nil]
  rw [listLogDirectory, listLogDirectoryLoop_eq, if_neg hnot, List.nil_append]
  refine List.Perm.eq_of_pairwise' ?_ (hsorted.imp le_of_lt) ?_
  · exact (List.pairwise_insertionSort _ _).filter _
  · exact ((List.perm_insertionSort _ _).filter _).trans (.of_eq hfilter)

end Barn.Agent.FileOps
