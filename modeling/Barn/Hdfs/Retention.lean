import Barn.Hdfs.Selection
import Mathlib.Algebra.Order.BigOperators.Group.List

/-!
# Retained files

Which files `cleanupLocal` deletes. `asked` are the files it asks for, as a function of the listing,
and `Reached` says of a file that it is one of them; `cleanupLocal_deletion` connects them with the
deletions of an execution, some of which can fail.
-/

namespace Barn.Hdfs

open Interaction

/-- The files of these that are dated before the limit. -/
def expired (jvm : Jvm) (limit : DateTime) (files : List File) : List File :=
  files.filter (datedBefore jvm limit)

/-- The length of the files together. -/
def totalLength (files : List File) : ℕ :=
  (files.map File.length).sum

/-- The files that the deletion loop asks for, if the files had this size together. -/
def asked (jvm : Jvm) (limit : DateTime) (floor : ℤ) : List File → ℤ → List File
  | [], _ => []
  | file :: files, size =>
      match fileTime jvm file with
      | .error _ => []
      | .ok time =>
          if time.isBefore limit ∧ floor < toLong size then
            file :: asked jvm limit floor files (size - file.length)
          else asked jvm limit floor files size

/-- The deletion loop gets to the file and asks for it: every file up to it that is dated before
the limit finds more than the floor left. -/
structure Reached (jvm : Jvm) (limit : DateTime) (floor size : ℤ) (before : List File)
    (file : File) : Prop where
  due : datedBefore jvm limit file
  dated : ∀ earlier ∈ before, Dated jvm earlier
  above : ∀ first other rest, before ++ [file] = first ++ other :: rest →
    datedBefore jvm limit other → floor < toLong (size - totalLength (expired jvm limit first))

/-- Remove the files from their local directories. -/
def World.removeAll (files : List File) (world : World) : World :=
  files.foldl (fun world file => world.removeLocal file) world

section Sizes

variable {files first second removed : List File}

@[simp] theorem totalLength_nil : totalLength [] = 0 := rfl

@[simp] theorem totalLength_cons (file : File) :
    totalLength (file :: files) = file.length + totalLength files := rfl

@[simp] theorem totalLength_append :
    totalLength (first ++ second) = totalLength first + totalLength second := by
  simp [totalLength]

theorem totalLength_perm (h : first.Perm second) : totalLength first = totalLength second :=
  (h.map _).sum_eq

/-- Fewer files are not longer. -/
theorem totalLength_le (h : removed.Sublist files) : totalLength removed ≤ totalLength files :=
  (h.map _).sum_le_sum fun _ _ => Nat.zero_le _

/-- The sum that the code computes is that of the lengths as a `long`. -/
theorem sumFileSizes_eq (files : List File) : sumFileSizes files = toLong (totalLength files) := by
  have hsum : ∀ (files : List File) (start : ℤ),
      files.foldl (fun sum file => toLong (sum + file.length)) (toLong start) =
        toLong (start + totalLength files) := by
    intro files
    induction files with
    | nil => simp [totalLength]
    | cons file files ih =>
        intro start
        rw [List.foldl_cons, toLong_add_toLong, ih, totalLength_cons]
        push_cast
        rw [add_assoc]
  have hzero := hsum files 0
  rwa [zero_add, toLong_of_range (by norm_num) (by norm_num)] at hzero

/-- What is removed and what is left make up the whole. -/
theorem totalLength_removed (h : removed.Sublist files) (hnodup : files.Nodup) :
    totalLength (files.filter fun file => file ∉ removed) + totalLength removed =
      totalLength files := by
  induction h with
  | slnil => rfl
  | @cons removed files file h ih =>
      rw [List.nodup_cons] at hnodup
      have hkept : file ∉ removed := fun hmem => hnodup.1 (h.subset hmem)
      rw [List.filter_cons_of_pos (by simpa using hkept), totalLength_cons, totalLength_cons,
        add_assoc, ih hnodup.2]
  | @cons_cons removed files file h ih =>
      rw [List.nodup_cons] at hnodup
      have hrest : files.filter (fun other => other ∉ file :: removed) =
          files.filter fun other => other ∉ removed := by
        refine List.filter_congr fun other hother => ?_
        have hne : other ≠ file := fun heq => hnodup.1 (heq ▸ hother)
        simp [hne]
      rw [List.filter_cons_of_neg (by simp), hrest, totalLength_cons, totalLength_cons,
        ← ih hnodup.2]
      omega

end Sizes

section Asked

variable {jvm : Jvm} {limit : DateTime} {floor size : ℤ} {files : List File} {file : File}

/-- What is asked for is dated before the limit. -/
theorem datedBefore_of_mem_asked (h : file ∈ asked jvm limit floor files size) :
    datedBefore jvm limit file = true := by
  induction files generalizing size with
  | nil => simp [asked] at h
  | cons first files ih =>
      rw [asked] at h
      split at h
      · simp at h
      · next time htime =>
          split at h
          · next hdue =>
              rcases List.mem_cons.1 h with rfl | hrest
              · exact datedBefore_iff.2 ⟨time, htime, hdue.1⟩
              · exact ih hrest
          · exact ih h

/-- The files are asked for in their order. -/
theorem asked_sublist : (asked jvm limit floor files size).Sublist files := by
  induction files generalizing size with
  | nil => exact .slnil
  | cons first files ih =>
      rw [asked]
      split
      · exact List.nil_sublist _
      · split
        · exact ih.cons_cons _
        · exact ih.cons _

/-- Below the floor nothing is asked for. -/
theorem asked_eq_nil (h : toLong size ≤ floor) : asked jvm limit floor files size = [] := by
  induction files with
  | nil => rfl
  | cons first files ih =>
      rw [asked]
      split
      · rfl
      · rw [if_neg (by omega), ih]

theorem expired_cons_due (hdue : datedBefore jvm limit file) :
    expired jvm limit (file :: files) = file :: expired jvm limit files :=
  List.filter_cons_of_pos hdue

theorem expired_cons_young (hyoung : ¬datedBefore jvm limit file) :
    expired jvm limit (file :: files) = expired jvm limit files :=
  List.filter_cons_of_neg hyoung

/-- The next file is asked for. -/
theorem asked_cons_due (hdue : datedBefore jvm limit file) (habove : floor < toLong size) :
    asked jvm limit floor (file :: files) size =
      file :: asked jvm limit floor files (size - file.length) := by
  obtain ⟨time, htime, hbefore⟩ := datedBefore_iff.1 hdue
  simp only [asked, htime]
  exact if_pos ⟨hbefore, habove⟩

/-- The next file is too young. -/
theorem asked_cons_young (hdated : Dated jvm file) (hyoung : ¬datedBefore jvm limit file) :
    asked jvm limit floor (file :: files) size = asked jvm limit floor files size := by
  obtain ⟨time, htime⟩ := hdated
  simp only [asked, htime]
  exact if_neg fun hboth => hyoung (datedBefore_iff.2 ⟨time, htime, hboth.1⟩)

/-- The first file is reached. -/
theorem reached_nil_iff :
    Reached jvm limit floor size [] file ↔ datedBefore jvm limit file ∧ floor < toLong size := by
  constructor
  · intro h
    have habove := h.above [] file [] rfl h.due
    simp only [expired, totalLength, List.filter_nil, List.map_nil, List.sum_nil, Nat.cast_zero,
      sub_zero] at habove
    exact ⟨h.due, habove⟩
  · intro h
    obtain ⟨hdue, habove⟩ := h
    refine ⟨hdue, by simp, fun first other rest hsplit _ => ?_⟩
    have hfirst : first = [] := by
      rcases List.append_eq_singleton_iff.1 hsplit.symm with ⟨hnil, _⟩ | ⟨_, hcons⟩
      · exact hnil
      · simp at hcons
    simpa [hfirst, expired, totalLength] using habove

/-- A later file is reached after one that is asked for. -/
theorem reached_cons_due {first : File} {before : List File} (hdue : datedBefore jvm limit first) :
    Reached jvm limit floor size (first :: before) file ↔
      floor < toLong size ∧ Reached jvm limit floor (size - first.length) before file := by
  have hlength : ∀ pre : List File, size - (totalLength (expired jvm limit (first :: pre)) : ℤ) =
      size - first.length - totalLength (expired jvm limit pre) := by
    intro pre
    rw [expired_cons_due hdue, totalLength_cons]
    push_cast
    exact (sub_sub _ _ _).symm
  constructor
  · intro h
    have habove := h.above [] first (before ++ [file]) rfl hdue
    refine ⟨by simpa [expired, totalLength] using habove, h.due,
      fun other hother => h.dated other (.tail _ hother), fun pre other rest hsplit hother => ?_⟩
    rw [← hlength]
    exact h.above (first :: pre) other rest (by simp [hsplit]) hother
  · intro h
    obtain ⟨habove, h⟩ := h
    refine ⟨h.due, fun other hother => ?_, fun pre other rest hsplit hother => ?_⟩
    · rcases List.mem_cons.1 hother with rfl | hlater
      · obtain ⟨time, htime, _⟩ := datedBefore_iff.1 hdue
        exact ⟨time, htime⟩
      · exact h.dated other hlater
    · cases pre with
      | nil => simpa [expired, totalLength] using habove
      | cons head pre =>
          obtain ⟨rfl, hrest⟩ := List.cons.inj hsplit
          rw [hlength]
          exact h.above pre other rest hrest hother

/-- A later file is reached after one that is too young. -/
theorem reached_cons_young {first : File} {before : List File}
    (hyoung : ¬datedBefore jvm limit first) :
    Reached jvm limit floor size (first :: before) file ↔
      Dated jvm first ∧ Reached jvm limit floor size before file := by
  constructor
  · intro h
    refine ⟨h.dated first List.mem_cons_self, h.due,
      fun other hother => h.dated other (.tail _ hother), fun pre other rest hsplit hother => ?_⟩
    rw [← expired_cons_young hyoung]
    exact h.above (first :: pre) other rest (by simp [hsplit]) hother
  · intro h
    obtain ⟨hdated, h⟩ := h
    refine ⟨h.due, fun other hother => ?_, fun pre other rest hsplit hother => ?_⟩
    · rcases List.mem_cons.1 hother with rfl | hlater
      · exact hdated
      · exact h.dated other hlater
    · cases pre with
      | nil =>
          obtain ⟨rfl, _⟩ := List.cons.inj hsplit
          exact absurd hother hyoung
      | cons head pre =>
          obtain ⟨rfl, hrest⟩ := List.cons.inj hsplit
          rw [expired_cons_young hyoung]
          exact h.above pre other rest hrest hother

/-- A file that is reached can be decoded, as can all files before it. -/
theorem Reached.dated_all {before : List File} (h : Reached jvm limit floor size before file) :
    ∀ earlier ∈ before ++ [file], Dated jvm earlier := by
  intro earlier hearlier
  rcases List.mem_append.1 hearlier with hbefore | hfile
  · exact h.dated earlier hbefore
  · obtain ⟨time, htime, _⟩ := datedBefore_iff.1 h.due
    exact ⟨time, List.mem_singleton.1 hfile ▸ htime⟩

/-- A file that is reached is asked for, after all the ones before it that are dated before the
limit. -/
theorem Reached.asked_eq {before : List File} (h : Reached jvm limit floor size before file)
    (after : List File) :
    ∃ rest, asked jvm limit floor (before ++ file :: after) size =
      expired jvm limit before ++ file :: rest := by
  induction before generalizing size with
  | nil =>
      obtain ⟨hdue, habove⟩ := reached_nil_iff.1 h
      exact ⟨_, asked_cons_due hdue habove⟩
  | cons first before ih =>
      by_cases hdue : datedBefore jvm limit first
      · obtain ⟨habove, hlater⟩ := (reached_cons_due hdue).1 h
        obtain ⟨rest, hrest⟩ := ih hlater
        refine ⟨rest, ?_⟩
        rw [List.cons_append, asked_cons_due hdue habove, hrest, expired_cons_due hdue,
          List.cons_append]
      · obtain ⟨hdated, hlater⟩ := (reached_cons_young hdue).1 h
        obtain ⟨rest, hrest⟩ := ih hlater
        refine ⟨rest, ?_⟩
        rw [List.cons_append, asked_cons_young hdated hdue, hrest, expired_cons_young hdue]

/-- What is asked for is reached. -/
theorem reached_of_asked {first rest : List File}
    (h : asked jvm limit floor files size = first ++ file :: rest) :
    ∃ before after, files = before ++ file :: after ∧ first = expired jvm limit before ∧
      Reached jvm limit floor size before file := by
  induction files generalizing size first with
  | nil => simp [asked] at h
  | cons head files ih =>
      by_cases hdated : Dated jvm head
      · by_cases hdue : datedBefore jvm limit head
        · by_cases habove : floor < toLong size
          · rw [asked_cons_due hdue habove] at h
            cases first with
            | nil =>
                obtain ⟨rfl, _⟩ := List.cons.inj h
                exact ⟨[], files, rfl, rfl, reached_nil_iff.2 ⟨hdue, habove⟩⟩
            | cons head' first =>
                obtain ⟨rfl, hlater⟩ := List.cons.inj h
                obtain ⟨before, after, rfl, rfl, hreached⟩ := ih hlater
                refine ⟨head :: before, after, rfl, ?_,
                  (reached_cons_due hdue).2 ⟨habove, hreached⟩⟩
                rw [expired_cons_due hdue]
          · rw [asked_eq_nil (not_lt.1 habove)] at h
            simp at h
        · rw [asked_cons_young hdated hdue] at h
          obtain ⟨before, after, rfl, rfl, hreached⟩ := ih h
          refine ⟨head :: before, after, rfl, ?_, (reached_cons_young hdue).2 ⟨hdated, hreached⟩⟩
          rw [expired_cons_young hdue]
      · cases htime : fileTime jvm head with
        | ok time => exact absurd ⟨time, htime⟩ hdated
        | error throwable => simp [asked, htime] at h

end Asked

section Runs

variable {jvm : Jvm} {dir : Dir} {limit : DateTime} {minMB count size : ℤ}
  {files removed : List File}
  {outcomes : List Outcome} {world final : World}

/-- The size below which nothing is deleted. -/
abbrev floorBytes (minMB : ℤ) : ℤ :=
  toInt (minMB * 1024 * 1024)

/-- Removing files changes nothing but the local directories. -/
theorem removeAll_rest (files : List File) (world : World) :
    world.removeAll files = { world with localDirs := (world.removeAll files).localDirs } := by
  induction files generalizing world with
  | nil => rfl
  | cons file files ih =>
      rw [World.removeAll, List.foldl_cons]
      exact ih (world.removeLocal file)

/-- A directory from which files are removed. -/
theorem localDirs_removeAll {listing : List File} (hlisting : world.localDirs dir = some listing)
    (hparents : ∀ file ∈ files, file.parent = dir) :
    (world.removeAll files).localDirs dir = some (listing.filter fun file => file ∉ files) := by
  induction files generalizing world listing with
  | nil => simpa [World.removeAll] using hlisting
  | cons file files ih =>
      have hparent : file.parent = dir := hparents file List.mem_cons_self
      have hfirst : (world.removeLocal file).localDirs dir =
          some (listing.filter fun other => other ≠ file) := by
        simp [World.removeLocal, hparent, hlisting]
      have hrest := ih hfirst fun other hother => hparents other (.tail _ hother)
      rw [World.removeAll, List.foldl_cons]
      refine hrest.trans (congrArg some ?_)
      rw [List.filter_filter]
      refine List.filter_congr fun other _ => ?_
      rw [Bool.and_comm]
      simp

/-- What an execution of the deletion loop has done: it has removed some of the files that are asked
for, all of them if the deletions succeed, and it returns a value only if all files can be
decoded. -/
structure Deletion (jvm : Jvm) (limit : DateTime) (floor size : ℤ) (files : List File)
    (outcomes : List Outcome) (removed : List File) (result : Attempt (ℤ × ℤ)) : Prop where
  removed_sublist : removed.Sublist (asked jvm limit floor files size)
  removed_eq : (∀ outcome ∈ outcomes, outcome = .ok) → removed = asked jvm limit floor files size
  dated : ∀ value, result = .ok value → ∀ file ∈ files, Dated jvm file
  bytes_eq : ∀ value, result = .ok value →
    value.2 = toLong (size - totalLength (asked jvm limit floor files size))
  returns : (∀ outcome ∈ outcomes, ∀ throwable, outcome ≠ .fails throwable) →
    (∀ file ∈ files, Dated jvm file) → ∃ value, result = .ok value

/-- The loop without files. -/
theorem deleteRetained_nil (value : ℤ × ℤ) :
    deleteRetained jvm limit minMB [] value = Program.done (.ok value) := rfl

/-- The loop ends at a file that cannot be decoded. -/
theorem deleteRetained_undated {file : File} {throwable : Throwable}
    (h : fileTime jvm file = .error throwable) (value : ℤ × ℤ) :
    deleteRetained jvm limit minMB (file :: files) value =
      Program.done (.error (.thrown throwable)) := by
  rw [deleteRetained, h, bare, Action.attempt_error_bind]
  rfl

/-- The loop goes on after a file that it keeps. -/
theorem deleteRetained_kept {file : File} (hdated : Dated jvm file)
    (hkept : ¬(datedBefore jvm limit file ∧ floorBytes minMB < size)) :
    deleteRetained jvm limit minMB (file :: files) (count, size) =
      deleteRetained jvm limit minMB files (count, size) := by
  obtain ⟨time, htime⟩ := hdated
  have hnot : ¬(time.isBefore limit = true ∧ toInt (minMB * 1024 * 1024) < size) :=
    fun hboth => hkept ⟨datedBefore_iff.2 ⟨time, htime, hboth.1⟩, hboth.2⟩
  rw [deleteRetained, htime, bare, Action.attempt_ok_bind, if_neg hnot]

/-- The loop asks for a file and goes on if no exception escapes. -/
theorem deleteRetained_due {file : File} (hdue : datedBefore jvm limit file)
    (habove : floorBytes minMB < size) :
    deleteRetained jvm limit minMB (file :: files) (count, size) =
      (Action.delete file >>= fun _ => deleteRetained jvm limit minMB files
        (toInt (count + 1), toLong (size - file.length))) := by
  obtain ⟨time, htime, hbefore⟩ := datedBefore_iff.1 hdue
  rw [deleteRetained, htime, bare, Action.attempt_ok_bind, if_pos ⟨hbefore, habove⟩]

/-- A deletion removes the file, is refused or throws. -/
theorem execute_delete {file : File} {result : Attempt Unit}
    (h : execute machine outcomes (Action.delete file) world = some (result, final)) :
    (result = .ok () ∧ (outcomes = [.ok] ∧ final = world.removeLocal file ∨
      outcomes = [.refused] ∧ final = world)) ∨
    ∃ throwable, outcomes = [.fails throwable] ∧ result = .error (.thrown throwable) ∧
      final = world := by
  obtain ⟨outcome, reply, rfl, hanswer, rfl⟩ := execute_request_iff.1 h
  cases outcome <;> simp only [answer] at hanswer
  case ok =>
    obtain ⟨rfl, rfl⟩ := answer_parts hanswer
    exact .inl ⟨rfl, .inl ⟨rfl, rfl⟩⟩
  case refused =>
    obtain ⟨rfl, rfl⟩ := answer_parts hanswer
    exact .inl ⟨rfl, .inr ⟨rfl, rfl⟩⟩
  case fails throwable =>
    obtain ⟨rfl, rfl⟩ := answer_parts hanswer
    exact .inr ⟨throwable, rfl, rfl, rfl⟩
  all_goals simp at hanswer

/-- The loop goes on after a file that it has asked for. -/
theorem Deletion.due {floor : ℤ} {file : File} {outcome : Outcome} {removed' : List File}
    {result : Attempt (ℤ × ℤ)} (hdue : datedBefore jvm limit file) (habove : floor < toLong size)
    (h : Deletion jvm limit floor (size - file.length) files outcomes removed result)
    (houtcome : outcome = .ok ∧ removed' = file :: removed ∨
      outcome = .refused ∧ removed' = removed) :
    Deletion jvm limit floor size (file :: files) (outcome :: outcomes) removed' result := by
  have hasked : asked jvm limit floor (file :: files) size =
      file :: asked jvm limit floor files (size - file.length) := asked_cons_due hdue habove
  refine ⟨?_, fun hall => ?_, fun value hvalue later hlater => ?_, fun value hvalue => ?_,
    fun hsafe hfiles => ?_⟩
  · rw [hasked]
    rcases houtcome with ⟨_, rfl⟩ | ⟨_, rfl⟩
    · exact h.removed_sublist.cons_cons _
    · exact h.removed_sublist.cons _
  · rcases houtcome with ⟨_, rfl⟩ | ⟨rfl, _⟩
    · rw [hasked, h.removed_eq fun other hother => hall other (.tail _ hother)]
    · exact absurd (hall _ List.mem_cons_self) (by simp)
  · rcases List.mem_cons.1 hlater with rfl | hmem
    · obtain ⟨time, htime, _⟩ := datedBefore_iff.1 hdue
      exact ⟨time, htime⟩
    · exact h.dated value hvalue later hmem
  · rw [h.bytes_eq value hvalue, hasked, totalLength_cons]
    push_cast
    rw [sub_sub]
  · exact h.returns (fun other hother => hsafe other (.tail _ hother))
      fun later hlater => hfiles later (.tail _ hlater)

/-- The deletion loop. -/
theorem deleteRetained_deletion {result : Attempt (ℤ × ℤ)}
    (h : execute machine outcomes (deleteRetained jvm limit minMB files (count, toLong size))
      world = some (result, final)) :
    ∃ removed, final = world.removeAll removed ∧
      Deletion jvm limit (floorBytes minMB) size files outcomes removed result := by
  -- On the files that the loop still has to see; the size goes down with each deletion.
  induction files generalizing outcomes world count size with
  | nil =>
      rw [deleteRetained_nil] at h
      cases outcomes with
      | cons outcome outcomes => simp [execute] at h
      | nil =>
          obtain ⟨rfl, rfl⟩ := Prod.mk.inj (Option.some.inj h)
          refine ⟨[], rfl, .slnil, fun _ => rfl, by simp, fun value hvalue => ?_,
            fun _ _ => ⟨_, rfl⟩⟩
          rw [← Except.ok.inj hvalue]
          simp [asked, totalLength]
  | cons file files ih =>
      cases htime : fileTime jvm file with
      | error throwable =>
          -- A name without a label ends the loop, whatever its age would be.
          have hnone : asked jvm limit (floorBytes minMB) (file :: files) size = [] := by
            rw [asked, htime]
          rw [deleteRetained_undated htime] at h
          cases outcomes with
          | cons outcome outcomes => simp [execute] at h
          | nil =>
              obtain ⟨rfl, rfl⟩ := Prod.mk.inj (Option.some.inj h)
              refine ⟨[], rfl, List.nil_sublist _, fun _ => hnone.symm, by simp, by simp,
                fun _ hdated => ?_⟩
              obtain ⟨time, hok⟩ := hdated file List.mem_cons_self
              rw [htime] at hok
              simp at hok
      | ok time =>
          have hdated : Dated jvm file := ⟨time, htime⟩
          have hall : ∀ {other : List File}, (∀ later ∈ other, Dated jvm later) →
              ∀ later ∈ file :: other, Dated jvm later := by
            intro other hother later hlater
            rcases List.mem_cons.1 hlater with rfl | hmem
            · exact hdated
            · exact hother later hmem
          by_cases hkept : datedBefore jvm limit file ∧ floorBytes minMB < toLong size
          · -- Below the limit and above the floor: the file is deleted, or the loop stops at the
            -- failure.
            obtain ⟨hdue, habove⟩ := hkept
            rw [deleteRetained_due hdue habove, execute_andThen_iff] at h
            rw [toLong_sub_toLong] at h
            rcases h with ⟨first, second, _, middle, rfl, hdelete, hrest⟩ | ⟨failure, hdelete, rfl⟩
            · obtain ⟨removed, rfl, hrun⟩ := ih hrest
              rcases execute_delete hdelete with
                ⟨_, ⟨rfl, rfl⟩ | ⟨rfl, rfl⟩⟩ | ⟨throwable, _, hthrown, _⟩
              · exact ⟨file :: removed, rfl, hrun.due hdue habove (.inl ⟨rfl, rfl⟩)⟩
              · exact ⟨removed, rfl, hrun.due hdue habove (.inr ⟨rfl, rfl⟩)⟩
              · simp at hthrown
            · rcases execute_delete hdelete with ⟨hok, _⟩ | ⟨throwable, rfl, _, rfl⟩
              · simp at hok
              · refine ⟨[], rfl, List.nil_sublist _, fun hall => ?_, by simp, by simp,
                  fun hsafe => ?_⟩
                · exact absurd (hall _ List.mem_cons_self) (by simp)
                · exact absurd rfl (hsafe _ List.mem_cons_self throwable)
          · -- Kept for its age or for the floor: either way it is not asked for.
            have hasked : asked jvm limit (floorBytes minMB) (file :: files) size =
                asked jvm limit (floorBytes minMB) files size := by
              by_cases hdue : datedBefore jvm limit file
              · have hbelow : toLong size ≤ floorBytes minMB := by
                  by_contra hnot
                  exact hkept ⟨hdue, not_le.1 hnot⟩
                rw [asked_eq_nil hbelow, asked_eq_nil hbelow]
              · exact asked_cons_young hdated hdue
            rw [deleteRetained_kept hdated hkept] at h
            obtain ⟨removed, hfinal, hrun⟩ := ih h
            refine ⟨removed, hfinal, ?_⟩
            exact
              { removed_sublist := by rw [hasked]; exact hrun.removed_sublist
                removed_eq := by rw [hasked]; exact hrun.removed_eq
                dated := fun value hvalue => hall (hrun.dated value hvalue)
                bytes_eq := by rw [hasked]; exact hrun.bytes_eq
                returns := fun hsafe hfiles =>
                  hrun.returns hsafe fun later hlater => hfiles later (.tail _ hlater) }

/-- The loop can succeed with every deletion. -/
theorem deleteRetained_can_delete (jvm : Jvm) (limit : DateTime) (minMB : ℤ) (files : List File)
    (count size : ℤ) (world : World) :
    ∃ outcomes result final, (∀ outcome ∈ outcomes, outcome = .ok) ∧
      execute machine outcomes (deleteRetained jvm limit minMB files (count, size)) world =
        some (result, final) := by
  induction files generalizing count size world with
  | nil => exact ⟨[], _, _, by simp, rfl⟩
  | cons file files ih =>
      cases htime : fileTime jvm file with
      | error throwable => exact ⟨[], _, _, by simp, by rw [deleteRetained_undated htime]; rfl⟩
      | ok time =>
          by_cases hkept : datedBefore jvm limit file ∧ floorBytes minMB < size
          · rw [deleteRetained_due hkept.1 hkept.2]
            obtain ⟨outcomes, result, final, hall, hrest⟩ :=
              ih (toInt (count + 1)) (toLong (size - file.length)) (world.removeLocal file)
            refine ⟨.ok :: outcomes, result, final, ?_, ?_⟩
            · intro outcome houtcome
              rcases List.mem_cons.1 houtcome with rfl | hmem
              · rfl
              · exact hall outcome hmem
            · exact execute_andThen_iff.2 (.inl ⟨[.ok], outcomes, (), _, rfl,
                execute_request_iff.2 ⟨.ok, _, rfl, rfl, rfl⟩, hrest⟩)
          · rw [deleteRetained_kept ⟨time, htime⟩ hkept]
            exact ih count size world

end Runs

/-- The directory has these files, which all have different names. -/
structure World.Lists (world : World) (dir : Dir) (listing : List File) : Prop where
  localDirs_eq : world.localDirs dir = some listing
  parent_eq : ∀ file ∈ listing, file.parent = dir
  names : (listing.map File.getName).Nodup

section Cleanup

variable {jvm : Jvm} {dir : Dir} {limit : DateTime} {minMB : ℤ} {listing removed : List File}
  {outcomes : List Outcome} {world final : World}

theorem mem_of_mem_sortedFiles {file : File} (h : file ∈ sortedFiles listing) : file ∈ listing :=
  (List.mem_filter.1 (List.mem_filter.1 ((List.mem_insertionSort _).1 h)).1).1

/-- The sorted files have different names if all files have. -/
theorem nodup_names_sortedFiles (h : (listing.map File.getName).Nodup) :
    ((sortedFiles listing).map File.getName).Nodup := by
  refine ((List.perm_insertionSort _ _).map _).nodup_iff.2 (h.sublist ?_)
  exact (List.filter_sublist.trans List.filter_sublist).map _

theorem World.Lists.nodup (h : world.Lists dir listing) : (sortedFiles listing).Nodup :=
  (nodup_names_sortedFiles h.names).of_map _

/-- Files that are not sorted away are never removed. -/
theorem World.Lists.removeAll (h : world.Lists dir listing)
    (hremoved : removed.Sublist (sortedFiles listing)) :
    (world.removeAll removed).localFiles dir = listing.filter fun file => file ∉ removed := by
  have hparents : ∀ file ∈ removed, file.parent = dir :=
    fun file hfile => h.parent_eq file (mem_of_mem_sortedFiles (hremoved.subset hfile))
  rw [World.localFiles, localDirs_removeAll h.localDirs_eq hparents, Option.getD_some]

/-- What is gone has been removed. -/
theorem World.Lists.mem_removed (h : world.Lists dir listing)
    (hremoved : removed.Sublist (sortedFiles listing)) {file : File} (hfile : file ∈ listing)
    (hgone : file ∉ (world.removeAll removed).localFiles dir) : file ∈ removed := by
  rw [h.removeAll hremoved] at hgone
  by_contra hkept
  exact hgone (List.mem_filter.2 ⟨hfile, by simpa using hkept⟩)

/-- What is left of the files. -/
theorem sortedFiles_filter (keeps : File → Bool) :
    (sortedFiles (listing.filter keeps)).Perm ((sortedFiles listing).filter keeps) := by
  refine (List.perm_insertionSort _ _).trans ?_
  refine List.Perm.trans ?_ ((List.perm_insertionSort _ _).filter keeps).symm
  simp only [List.filter_filter]
  refine .of_eq (List.filter_congr fun file _ => ?_)
  ac_rfl

/-- The sizes of what is removed and of what is left. -/
theorem World.Lists.totalLength_eq (h : world.Lists dir listing)
    (hremoved : removed.Sublist (sortedFiles listing)) :
    totalLength (sortedFiles ((world.removeAll removed).localFiles dir)) + totalLength removed =
      totalLength (sortedFiles listing) := by
  rw [h.removeAll hremoved, totalLength_perm (sortedFiles_filter _)]
  exact totalLength_removed hremoved h.nodup

/-- Listing a local directory tells its files or throws. -/
theorem execute_listFiles {result : Attempt (Option (List File))}
    (h : execute machine outcomes (Action.listFiles dir) world = some (result, final)) :
    final = world ∧ (outcomes = [.ok] ∧ result = .ok (world.localDirs dir) ∨
      ∃ throwable, outcomes = [.fails throwable] ∧ result = .error (.thrown throwable)) := by
  obtain ⟨outcome, reply, rfl, hanswer, rfl⟩ := execute_request_iff.1 h
  cases outcome <;> simp only [answer] at hanswer
  case ok =>
    obtain ⟨rfl, rfl⟩ := answer_parts hanswer
    exact ⟨rfl, .inl ⟨rfl, rfl⟩⟩
  case fails throwable =>
    obtain ⟨rfl, rfl⟩ := answer_parts hanswer
    exact ⟨rfl, .inr ⟨throwable, rfl, rfl⟩⟩
  all_goals simp at hanswer

/-- Listing the files in order can fail. -/
theorem execute_listSortedLocalFiles (hlisting : world.localDirs dir = some listing)
    {result : Attempt (List File)}
    (h : execute machine outcomes (listSortedLocalFiles jvm dir) world = some (result, final)) :
    final = world ∧ (outcomes = [.ok] ∧ result = .ok (sortedFiles listing) ∨
      ∃ throwable error, outcomes = [.fails throwable] ∧ result = .error (.left error)) := by
  obtain ⟨inner, hinner, rfl⟩ := execute_validate_iff.1 h
  rcases execute_andThen_iff.1 hinner with
    ⟨first, second, reply, middle, rfl, hlist, hrest⟩ | ⟨failure, hlist, rfl⟩
  · obtain ⟨rfl, ⟨rfl, hreply⟩ | ⟨_, _, hreply⟩⟩ := execute_listFiles hlist
    · obtain rfl : reply = some listing := (Except.ok.inj hreply).trans hlisting
      obtain ⟨rfl, rfl, rfl⟩ := execute_attempt_iff.1 hrest
      exact ⟨rfl, .inl ⟨rfl, rfl⟩⟩
    · simp at hreply
  · obtain ⟨rfl, ⟨rfl, hreply⟩ | ⟨throwable, rfl, hreply⟩⟩ := execute_listFiles hlist
    · simp at hreply
    · obtain rfl := Except.error.inj hreply
      exact ⟨rfl, .inr ⟨throwable, _, rfl, rfl⟩⟩

/-- The cleanup deletes files that are asked for, unless the listing fails. -/
theorem cleanupLocal_deletion (hlisting : world.localDirs dir = some listing)
    {result : Attempt (ℤ × ℤ)}
    (h : execute machine outcomes (cleanupLocal jvm dir limit minMB) world = some (result, final)) :
    (∃ rest removed inner, outcomes = .ok :: rest ∧ final = world.removeAll removed ∧
      Deletion jvm limit (floorBytes minMB) (totalLength (sortedFiles listing))
        ((sortedFiles listing).rdrop 1) rest removed inner ∧
      result = validate jvm (text "Deletion of retained files failed.") inner) ∨
    (∃ throwable, outcomes = [.fails throwable]) ∧ (∃ error, result = .error (.left error)) ∧
      final = world := by
  rcases execute_andThen_iff.1 h with
    ⟨first, second, files, middle, rfl, hlist, hrest⟩ | ⟨failure, hlist, rfl⟩
  · obtain ⟨rfl, ⟨rfl, hfiles⟩ | ⟨_, _, _, hfiles⟩⟩ := execute_listSortedLocalFiles hlisting hlist
    · obtain rfl := Except.ok.inj hfiles
      obtain ⟨inner, hinner, rfl⟩ := execute_validate_iff.1 hrest
      rw [sumFileSizes_eq] at hinner
      obtain ⟨removed, rfl, hdeletion⟩ := deleteRetained_deletion hinner
      exact .inl ⟨second, removed, inner, rfl, rfl, hdeletion, rfl⟩
    · simp at hfiles
  · obtain ⟨rfl, ⟨_, hfiles⟩ | ⟨throwable, error, rfl, hfiles⟩⟩ :=
      execute_listSortedLocalFiles hlisting hlist
    · simp at hfiles
    · rw [Except.error.inj hfiles]
      exact .inr ⟨⟨throwable, rfl⟩, ⟨error, rfl⟩, rfl⟩

/-- The cleanup can succeed with every deletion. -/
theorem cleanupLocal_can_delete (hlisting : world.localDirs dir = some listing) (jvm : Jvm)
    (limit : DateTime) (minMB : ℤ) :
    ∃ outcomes result final, (∀ outcome ∈ outcomes, outcome = .ok) ∧
      execute machine (.ok :: outcomes) (cleanupLocal jvm dir limit minMB) world =
        some (result, final) := by
  obtain ⟨outcomes, result, final, hall, hdelete⟩ := deleteRetained_can_delete jvm limit minMB
    ((sortedFiles listing).rdrop 1) 0 (sumFileSizes (sortedFiles listing)) world
  refine ⟨outcomes, validate jvm (text "Deletion of retained files failed.") result, final, hall,
    ?_⟩
  refine execute_andThen_iff.2 (.inl ⟨[.ok], outcomes, sortedFiles listing, world, rfl, ?_,
    execute_validate_iff.2 ⟨result, hdelete, rfl⟩⟩)
  refine execute_validate_iff.2 ⟨.ok (sortedFiles listing), ?_, rfl⟩
  refine execute_andThen_iff.2 (.inl ⟨[.ok], [], some listing, world, rfl, ?_, ?_⟩)
  · exact execute_request_iff.2 ⟨.ok, .ok (some listing), rfl, by rw [answer, hlisting], rfl⟩
  · exact execute_attempt_iff.2 ⟨rfl, rfl, rfl⟩

/-- What is asked for are files of the listing. -/
theorem asked_sublist_sortedFiles {floor size : ℤ} :
    (asked jvm limit floor ((sortedFiles listing).rdrop 1) size).Sublist (sortedFiles listing) :=
  asked_sublist.trans (List.take_sublist _ _)

/-- Where the files but the last are split, so are all files. -/
theorem rdrop_one_split {files before : List File} {file : File} :
    (∃ after, files.rdrop 1 = before ++ file :: after) ↔
      ∃ after, after ≠ [] ∧ files = before ++ file :: after := by
  constructor
  · intro h
    obtain ⟨after, h⟩ := h
    rcases List.eq_nil_or_concat' files with rfl | ⟨first, last, rfl⟩
    · simp at h
    · rw [List.rdrop_concat_succ, List.rdrop_zero] at h
      exact ⟨after ++ [last], by simp, by simp [h]⟩
  · intro h
    obtain ⟨after, hafter, h⟩ := h
    rcases List.eq_nil_or_concat' after with rfl | ⟨first, last, rfl⟩
    · exact absurd rfl hafter
    · refine ⟨first, ?_⟩
      rw [h, ← List.cons_append, ← List.append_assoc, List.rdrop_concat_succ, List.rdrop_zero]

theorem Reached.floor_lt {floor : ℤ} {files before after : List File} {file : File}
    (h : Reached jvm limit floor (totalLength files) before file)
    (hfiles : files = before ++ file :: after) :
    floor + totalLength (expired jvm limit before) < totalLength files := by
  have hle : totalLength (expired jvm limit before) ≤ totalLength files := by
    rw [hfiles, totalLength_append]
    exact (totalLength_le List.filter_sublist).trans (Nat.le_add_right _ _)
  have habove := h.above before file [] rfl h.due
  have hless := toLong_le (show 0 ≤ (totalLength files : ℤ) - totalLength (expired jvm limit before)
    by omega)
  omega

/-- Of a list without repetitions, an element comes before those that follow it. -/
theorem mem_before_of_later {files before after before' after' : List File} {file later : File}
    (hnodup : files.Nodup) (hsplit : files = before ++ file :: after) (hlater : later ∈ after)
    (hsplit' : files = before' ++ later :: after') : file ∈ before' := by
  obtain ⟨first, rest, rfl⟩ := List.append_of_mem hlater
  rw [← List.cons_append, ← List.append_assoc] at hsplit
  have hfirst : later ∉ before ++ file :: first := by
    rw [hsplit, List.nodup_append] at hnodup
    exact fun hmem => hnodup.2.2 later hmem later List.mem_cons_self rfl
  have hrest : later ∉ rest := by
    rw [hsplit, List.nodup_append] at hnodup
    exact (List.nodup_cons.1 hnodup.2.1).1
  have hsame := (List.append_cons_inj_of_notMem hfirst hrest).1 (hsplit.symm.trans hsplit')
  rw [← hsame.1]
  exact List.mem_append_right _ List.mem_cons_self

/-- What is deleted comes after files that can be decoded; those of them that are dated before the
limit are asked for as well. -/
theorem mem_asked_spec {floor size : ℤ} {files : List File} {file : File}
    (h : file ∈ asked jvm limit floor (files.rdrop 1) size) :
    ∃ before after, after ≠ [] ∧ files = before ++ file :: after ∧
      (∀ earlier ∈ before, Dated jvm earlier) ∧
      ∀ earlier ∈ before, datedBefore jvm limit earlier →
        earlier ∈ asked jvm limit floor (files.rdrop 1) size := by
  obtain ⟨first, rest, hasked⟩ := List.append_of_mem h
  obtain ⟨before, after, hsplit, rfl, hreached⟩ := reached_of_asked hasked
  obtain ⟨after, hafter, hsplit⟩ := rdrop_one_split.1 ⟨after, hsplit⟩
  refine ⟨before, after, hafter, hsplit, hreached.dated, fun earlier hearlier hdue => ?_⟩
  rw [hasked]
  exact List.mem_append_left _ (List.mem_filter.2 ⟨hearlier, hdue⟩)

/-- What a cleanup of a listing does when the deletions have these outcomes: it deletes old files
only, from the oldest on, and never the last one. -/
structure OldestFirst (jvm : Jvm) (limit : DateTime) (floor : ℤ) (listing : List File)
    (outcomes : List Outcome) (result : Attempt (ℤ × ℤ)) (left : List File) : Prop where
  old : ∀ file ∈ listing, file ∉ left →
    file ∈ sortedFiles listing ∧ ∃ time, fileTime jvm file = .ok time ∧ time.isBefore limit
  last_left : ∀ last, (sortedFiles listing).getLast? = some last → last ∈ left
  in_order : (∀ outcome ∈ outcomes, outcome = .ok) →
    ∀ before file after, sortedFiles listing = before ++ file :: after → after ≠ [] →
      datedBefore jvm limit file → file ∈ left → ∀ later ∈ after, later ∈ left
  above_floor : totalLength (sortedFiles listing) ≤ floor → left = listing
  returns : (∀ file ∈ (sortedFiles listing).dropLast, Dated jvm file) →
    (∀ outcome ∈ outcomes, ∀ throwable, outcome ≠ .fails throwable) →
    ∃ value, result = .ok value ∧
      ((∀ outcome ∈ outcomes, outcome = .ok) →
        value.2 = toLong (totalLength (sortedFiles left)))
  stops : ∀ before file after, sortedFiles listing = before ++ file :: after → after ≠ [] →
    ¬Dated jvm file →
    (∃ error, result = .error (.left error)) ∧ ∀ other ∈ listing, other ∉ left → other ∈ before
  caught : ∀ throwable, result ≠ .error (.thrown throwable)

/-- No exception escapes what is validated. -/
theorem validate_ne_thrown {α : Type} {detail : Text} {result : Attempt α} {throwable : Throwable} :
    validate jvm detail result ≠ .error (.thrown throwable) := by
  cases result with
  | ok value => simp [validate]
  | error failure => cases failure <;> simp [validate]

/-- A failure that is validated is a `Left`. -/
theorem validate_error {α : Type} (detail : Text) (failure : Failure) :
    ∃ error, validate jvm detail (.error failure : Attempt α) = .error (.left error) := by
  cases failure with
  | left error => exact ⟨error, rfl⟩
  | thrown throwable => exact ⟨_, rfl⟩

end Cleanup

end Barn.Hdfs
