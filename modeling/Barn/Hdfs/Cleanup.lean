import Barn.Hdfs.Retention

/-!
# Cleaning up

What `cleanupLocal` and the cleanup after an error guarantee: how much is left
(`cleanupLocal_floor`), in which order files go (`cleanupLocal_oldestFirst`), and whether a file
that goes could still be shipped (`cleanupAfterError_tooOld`).
-/

namespace Barn.Hdfs

open Interaction

/-- The directory of a service. -/
def webDir : Dir :=
  text "/local/logs/web@main@node1"

/-- Two megabytes of 2012 and one byte of 2014. -/
def unequalFiles : List File :=
  [⟨webDir, text "@400000005000000000000000.s", false, 2097152⟩,
    ⟨webDir, text "@4000000053724e0000000000.s", false, 1⟩]

/-- The world with these files. -/
def World.holding (files : List File) : World :=
  files.foldl (fun world file => world.receive file) (.initial 0)

/-- The beginning of 2014. -/
def newYear : DateTime :=
  ⟨1388534400000, .utc⟩

theorem lists_unequalFiles : (World.holding unequalFiles).Lists webDir unequalFiles where
  localDirs_eq := by
    simp [World.holding, unequalFiles, World.receive, World.initial, World.localFiles]
  parent_eq := by decide
  names := by decide

theorem sortedFiles_unequalFiles : sortedFiles unequalFiles = unequalFiles := by
  decide

section Cleanup

variable {jvm : Jvm} {dir : Dir} {limit : DateTime} {minMB : ℤ} {listing : List File}
  {outcomes : List Outcome} {world final : World}

/-- Cleaning up leaves at least the floor, if there was that much, exactly if no file that is
reached takes what is left below it. -/
theorem cleanupLocal_floor (hlists : world.Lists dir listing)
    (hlow : -2 ^ 31 ≤ minMB * 1024 * 1024) (hhigh : minMB * 1024 * 1024 < 2 ^ 31) :
    (∀ outcomes result final,
      execute machine outcomes (cleanupLocal jvm dir limit minMB) world = some (result, final) →
      minMB * 1024 * 1024 ≤ totalLength (sortedFiles listing) →
      minMB * 1024 * 1024 ≤ totalLength (sortedFiles (final.localFiles dir))) ↔
    ∀ before file after, sortedFiles listing = before ++ file :: after → after ≠ [] →
      Reached jvm limit (minMB * 1024 * 1024) (totalLength (sortedFiles listing)) before file →
      minMB * 1024 * 1024 + totalLength (expired jvm limit before) + file.length ≤
        totalLength (sortedFiles listing) := by
  have hfloor : floorBytes minMB = minMB * 1024 * 1024 := toInt_of_range hlow hhigh
  rw [← hfloor]
  constructor
  · intro h before file after hsplit hafter hreached
    obtain ⟨outcomes, result, final, hall, hexecute⟩ :=
      cleanupLocal_can_delete hlists.localDirs_eq jvm limit minMB
    have hfloor := hreached.floor_lt hsplit
    have hleft := h _ _ _ hexecute (by omega)
    rcases cleanupLocal_deletion hlists.localDirs_eq hexecute with
      ⟨rest, removed, inner, houtcomes, rfl, hdeletion, _⟩ | ⟨⟨throwable, hfails⟩, _⟩
    · obtain ⟨_, rfl⟩ := List.cons.inj houtcomes
      obtain ⟨after', hdropped⟩ := rdrop_one_split.2 ⟨after, hafter, hsplit⟩
      obtain ⟨later, hasked⟩ := hreached.asked_eq after'
      have hremoved := hdeletion.removed_eq hall
      rw [hdropped, hasked] at hremoved
      have htotal :=
        hlists.totalLength_eq (hdeletion.removed_sublist.trans asked_sublist_sortedFiles)
      rw [hremoved, totalLength_append, totalLength_cons] at htotal
      rw [hremoved] at hleft
      omega
    · simp at hfails
  · intro h outcomes result final hexecute htotal
    rcases cleanupLocal_deletion hlists.localDirs_eq hexecute with
      ⟨rest, removed, inner, houtcomes, rfl, hdeletion, _⟩ | ⟨_, _, rfl⟩
    · have hleft :=
        hlists.totalLength_eq (hdeletion.removed_sublist.trans asked_sublist_sortedFiles)
      have hle := totalLength_le hdeletion.removed_sublist
      rcases List.eq_nil_or_concat' (asked jvm limit (floorBytes minMB)
        ((sortedFiles listing).rdrop 1) (totalLength (sortedFiles listing))) with
        hnone | ⟨first, file, hasked⟩
      · rw [hnone, totalLength_nil] at hle
        omega
      · -- What is left after the last file that is asked for is left at the end.
        obtain ⟨before, after, hsplit, rfl, hreached⟩ := reached_of_asked hasked
        obtain ⟨after, hafter, hsplit⟩ := rdrop_one_split.1 ⟨after, hsplit⟩
        have hbound := h before file after hsplit hafter hreached
        rw [hasked, totalLength_append, totalLength_cons, totalLength_nil] at hle
        omega
    · rwa [World.localFiles, hlists.localDirs_eq]

/-- The file of two megabytes takes what is left below one. -/
theorem cleanupLocal_floor_unequal :
    ¬∀ outcomes result final, execute machine outcomes (cleanupLocal .utc webDir newYear 1)
        (.holding unequalFiles) = some (result, final) →
      1 * 1024 * 1024 ≤ (totalLength (sortedFiles unequalFiles) : ℤ) →
      1 * 1024 * 1024 ≤ (totalLength (sortedFiles (final.localFiles webDir)) : ℤ) := by
  rw [cleanupLocal_floor lists_unequalFiles (by norm_num) (by norm_num), sortedFiles_unequalFiles]
  intro h
  have hreached : Reached .utc newYear (1 * 1024 * 1024) (totalLength unequalFiles) []
      ⟨webDir, text "@400000005000000000000000.s", false, 2097152⟩ :=
    reached_nil_iff.2 ⟨by decide, by decide⟩
  have hbound := h [] _ _ rfl (List.cons_ne_nil _ _) hreached
  norm_num [unequalFiles, totalLength, expired] at hbound

/-- One byte is left of two megabytes, although one megabyte is to be kept. -/
theorem cleanup_below_floor : ∃ outcomes result final,
    execute machine outcomes (cleanupLocal .utc webDir newYear 1) (.holding unequalFiles) =
      some (result, final) ∧
    1 * 1024 * 1024 ≤ totalLength (sortedFiles unequalFiles) ∧
    totalLength (sortedFiles (final.localFiles webDir)) = 1 := by
  have hleft : (execute machine [.ok, .ok] (cleanupLocal .utc webDir newYear 1)
      (.holding unequalFiles)).any (fun after =>
        totalLength (sortedFiles (after.2.localFiles webDir)) = 1) = true := by
    decide
  obtain ⟨⟨result, final⟩, hexecute, hone⟩ := (Option.any_eq_true _ _).1 hleft
  refine ⟨_, result, final, hexecute, by decide, by simpa using hone⟩

/-- Cleaning up deletes from the oldest file on, below the limit only and never the newest. -/
theorem cleanupLocal_oldestFirst (hlists : world.Lists dir listing)
    (hlow : -2 ^ 31 ≤ minMB * 1024 * 1024) (hhigh : minMB * 1024 * 1024 < 2 ^ 31)
    {result : Attempt (ℤ × ℤ)}
    (h : execute machine (.ok :: outcomes) (cleanupLocal jvm dir limit minMB) world =
      some (result, final)) :
    OldestFirst jvm limit (minMB * 1024 * 1024) listing outcomes result
      (final.localFiles dir) := by
  have hfloor : floorBytes minMB = minMB * 1024 * 1024 := toInt_of_range hlow hhigh
  rw [← hfloor]
  -- The listing succeeds, so the run is the loop over all files but the newest.
  rcases cleanupLocal_deletion hlists.localDirs_eq h with
    ⟨rest, removed, inner, houtcomes, rfl, hdeletion, rfl⟩ | ⟨⟨throwable, hfails⟩, _⟩
  swap
  · simp at hfails
  obtain ⟨_, rfl⟩ := List.cons.inj houtcomes
  have hremoved := hdeletion.removed_sublist.trans asked_sublist_sortedFiles
  have hgone : ∀ file ∈ listing, file ∉ (world.removeAll removed).localFiles dir →
      file ∈ removed := fun file hfile => hlists.mem_removed hremoved hfile
  have hkept : ∀ file ∈ (world.removeAll removed).localFiles dir, file ∉ removed := by
    intro file hfile
    rw [hlists.removeAll hremoved] at hfile
    simpa using (List.mem_filter.1 hfile).2
  refine ⟨fun file hfile hdeleted => ?_, fun last hlast => ?_,
    fun hall before file after hsplit hafter hdue hleft later hlater => ?_, fun htotal => ?_,
    fun hdated hsafe => ?_, fun before file after hsplit hafter hundated => ?_,
    fun _ => validate_ne_thrown⟩
  · have hdeleted := hgone file hfile hdeleted
    exact ⟨hremoved.subset hdeleted, datedBefore_iff.1
      (datedBefore_of_mem_asked (hdeletion.removed_sublist.subset hdeleted))⟩
  · -- The newest file is not among those the loop sees, and no name stands twice in the listing.
    by_contra hdeleted
    have hlisted := mem_of_mem_sortedFiles (List.mem_of_getLast? hlast)
    obtain ⟨before, after, hafter, hsplit, _⟩ :=
      mem_asked_spec (hdeletion.removed_sublist.subset (hgone last hlisted hdeleted))
    have hnodup := hlists.nodup
    rw [hsplit, List.getLast?_append_cons, List.getLast?_cons_of_ne_nil hafter] at hlast
    rw [hsplit, List.nodup_append] at hnodup
    exact (List.nodup_cons.1 hnodup.2.1).1 (List.mem_of_getLast? hlast)
  · -- A later file is asked for only when every due file before it was, and with no deletion
    -- failing what is asked for is gone.
    by_contra hdeleted
    have hlisted : later ∈ sortedFiles listing := by
      rw [hsplit]
      exact List.mem_append_right _ (.tail _ hlater)
    obtain ⟨before', after', _, hsplit', _, hasked⟩ := mem_asked_spec
      (hdeletion.removed_sublist.subset (hgone later (mem_of_mem_sortedFiles hlisted) hdeleted))
    have hearlier := mem_before_of_later hlists.nodup hsplit hlater hsplit'
    refine hkept file hleft ?_
    rw [hdeletion.removed_eq hall]
    exact hasked file hearlier hdue
  · have hless := toLong_le (Int.natCast_nonneg (totalLength (sortedFiles listing)))
    have hnone := hdeletion.removed_sublist
    rw [asked_eq_nil (by omega), List.sublist_nil] at hnone
    rw [hnone]
    simp [World.removeAll, World.localFiles, hlists.localDirs_eq]
  · have hfiles : ∀ file ∈ (sortedFiles listing).rdrop 1, Dated jvm file := by
      rw [List.dropLast_eq_take] at hdated
      exact hdated
    obtain ⟨value, rfl⟩ := hdeletion.returns hsafe hfiles
    refine ⟨value, rfl, fun hall => ?_⟩
    rw [hdeletion.bytes_eq value rfl, ← hdeletion.removed_eq hall,
      ← hlists.totalLength_eq hremoved]
    push_cast
    rw [add_sub_cancel_right]
  · -- An undated file ends the loop with an error, and nothing after it is asked for.
    obtain ⟨after', hfiles⟩ := rdrop_one_split.2 ⟨after, hafter, hsplit⟩
    constructor
    · cases inner with
      | error failure => exact validate_error _ failure
      | ok value =>
          refine absurd (hdeletion.dated value rfl file ?_) hundated
          rw [hfiles]
          exact List.mem_append_right _ List.mem_cons_self
    · intro other hother hdeleted
      have hasked := hdeletion.removed_sublist.subset (hgone other hother hdeleted)
      obtain ⟨time, htime, _⟩ := datedBefore_iff.1 (datedBefore_of_mem_asked hasked)
      obtain ⟨before', after', _, hsplit', hdated, _⟩ := mem_asked_spec hasked
      have hmem : other ∈ before ++ file :: after := by
        rw [← hsplit, hsplit']
        exact List.mem_append_right _ List.mem_cons_self
      rcases List.mem_append.1 hmem with hbefore | hrest
      · exact hbefore
      · rcases List.mem_cons.1 hrest with rfl | hlater
        · exact absurd ⟨time, htime⟩ hundated
        · exact absurd (hdated file (mem_before_of_later hlists.nodup hsplit hlater hsplit'))
            hundated

/-- The old file of two megabytes is deleted, the newest file is not. -/
theorem cleanupLocal_oldestFirst_unequal : ∃ result final,
    execute machine [.ok, .ok] (cleanupLocal .utc webDir newYear 1) (.holding unequalFiles) =
      some (result, final) ∧
    OldestFirst .utc newYear (1 * 1024 * 1024) unequalFiles [.ok] result
      (final.localFiles webDir) := by
  have hruns : (execute machine [.ok, .ok] (cleanupLocal .utc webDir newYear 1)
      (.holding unequalFiles)).isSome = true := by
    decide
  obtain ⟨⟨result, final⟩, hexecute⟩ := Option.isSome_iff_exists.1 hruns
  exact ⟨result, final, hexecute,
    cleanupLocal_oldestFirst lists_unequalFiles (by norm_num) (by norm_num) hexecute⟩

/-- Four megabytes of 2012 and one byte of 2014. -/
def stubbornFiles : List File :=
  [⟨webDir, text "@400000005000000000000000.s", false, 2097152⟩,
    ⟨webDir, text "@400000005000000100000000.s", false, 2097152⟩,
    ⟨webDir, text "@4000000053724e0000000000.s", false, 1⟩]

/-- The deletion of the oldest file is refused, and the file after it is deleted. -/
theorem cleanup_out_of_order : ∃ result final,
    execute machine [.ok, .refused, .ok] (cleanupLocal .utc webDir newYear 1)
      (.holding stubbornFiles) = some (result, final) ∧
    ∃ first second last, sortedFiles stubbornFiles = [first, second, last] ∧
      datedBefore .utc newYear first ∧ first ∈ final.localFiles webDir ∧
      second ∉ final.localFiles webDir := by
  have hruns : (execute machine [.ok, .refused, .ok] (cleanupLocal .utc webDir newYear 1)
      (.holding stubbornFiles)).any (fun after =>
        decide (after.2.localFiles webDir = stubbornFiles.eraseIdx 1)) = true := by
    decide +kernel
  obtain ⟨⟨result, final⟩, hexecute, hleft⟩ := (Option.any_eq_true _ _).1 hruns
  replace hleft := of_decide_eq_true hleft
  refine ⟨result, final, hexecute, _, _, _, (show sortedFiles stubbornFiles = stubbornFiles by
    decide +kernel), by decide +kernel, ?_, ?_⟩
  · rw [hleft]
    exact List.mem_cons_self
  · rw [hleft]
    decide

end Cleanup

section AfterError

variable {jvm : Jvm} {dir : Dir} {listing : List File} {world final : World}

/-- Cleaning up after an error reads the clock once and cleans up before that time. -/
theorem execute_cleanupAfterError {outcomes : List Outcome} {millis : ℤ}
    {result : Attempt (ℤ × ℤ)} :
    execute machine (.reads millis :: outcomes) (cleanupAfterError jvm dir) world =
        some (result, final) ↔
      world.clock ≤ millis ∧
        execute machine outcomes (cleanupLocal jvm dir
          (DateTime.minusDays (maxLookBackDays + 1) ⟨millis, jvm.zone⟩) minMB)
          { world with clock := millis } = some (result, final) := by
  refine execute_andThen_iff.trans ?_
  constructor
  · intro h
    rcases h with ⟨first, second, now, middle, houtcomes, hnow, hrest⟩ | ⟨failure, hnow, _⟩
    · obtain ⟨time, rfl, hclock, hvalue, rfl⟩ := execute_now_iff.1 hnow
      obtain rfl := Except.ok.inj hvalue
      obtain ⟨htime, rfl⟩ := List.cons.inj houtcomes
      obtain rfl := Outcome.reads.inj htime
      exact ⟨hclock, hrest⟩
    · obtain ⟨_, _, _, hvalue, _⟩ := execute_now_iff.1 hnow
      simp at hvalue
  · intro h
    obtain ⟨hclock, hrest⟩ := h
    exact .inl ⟨[.reads millis], outcomes, ⟨millis, jvm.zone⟩, { world with clock := millis }, rfl,
      execute_now_iff.2 ⟨millis, rfl, hclock, rfl, rfl⟩, hrest⟩

/-- Cleaning up after an error deletes only what is too old to be shipped, exactly if every file
that is reached is dated before the midnight, and so is every file before it. -/
theorem cleanupAfterError_tooOld {millis : ℤ} (hlists : world.Lists dir listing)
    (hclock : world.clock ≤ millis) :
    (∀ outcomes result final,
      execute machine (.reads millis :: outcomes) (cleanupAfterError jvm dir) world =
        some (result, final) →
      ∀ file ∈ listing, file ∉ final.localFiles dir → ∀ candidates after,
        execute machine [.reads millis] (outstandingFiles jvm (sortedFiles listing) none) final =
          some (.ok candidates, after) → file ∉ candidates) ↔
    ∀ before file after, sortedFiles listing = before ++ file :: after → after ≠ [] →
      Reached jvm (DateTime.minusDays (maxLookBackDays + 1) ⟨millis, jvm.zone⟩)
        (minMB * 1024 * 1024) (totalLength (sortedFiles listing)) before file →
      ∀ earlier ∈ before ++ [file],
        datedBefore jvm (oldestMidnight ⟨millis, jvm.zone⟩) earlier := by
  have hfloor : floorBytes minMB = minMB * 1024 * 1024 := by decide
  have hlists' : World.Lists { world with clock := millis } dir listing :=
    ⟨hlists.localDirs_eq, hlists.parent_eq, hlists.names⟩
  rw [← hfloor]
  constructor
  · intro h before file after hsplit hafter hreached
    -- Let every deletion succeed: the file reached is then deleted, so it must not be selected.
    obtain ⟨outcomes, result, final, hall, hexecute⟩ := cleanupLocal_can_delete
      hlists'.localDirs_eq jvm (DateTime.minusDays (maxLookBackDays + 1) ⟨millis, jvm.zone⟩) minMB
    have hcleanup := execute_cleanupAfterError.2 ⟨hclock, hexecute⟩
    rcases cleanupLocal_deletion hlists'.localDirs_eq hexecute with
      ⟨rest, removed, inner, houtcomes, rfl, hdeletion, _⟩ | ⟨⟨throwable, hfails⟩, _⟩
    swap
    · simp at hfails
    obtain ⟨_, rfl⟩ := List.cons.inj houtcomes
    have hdeleted : file ∈ removed := by
      obtain ⟨after', hdropped⟩ := rdrop_one_split.2 ⟨after, hafter, hsplit⟩
      obtain ⟨later, hasked⟩ := hreached.asked_eq after'
      rw [hdeletion.removed_eq hall, hdropped, hasked]
      exact List.mem_append_right _ List.mem_cons_self
    have hgone :
        file ∉ (World.removeAll removed { world with clock := millis }).localFiles dir := by
      rw [hlists'.removeAll (hdeletion.removed_sublist.trans asked_sublist_sortedFiles)]
      exact fun hmem => by simpa [hdeleted] using (List.mem_filter.1 hmem).2
    have hfile : file ∈ listing := by
      refine mem_of_mem_sortedFiles ?_
      rw [hsplit]
      exact List.mem_append_right _ List.mem_cons_self
    have hfinal : (World.removeAll removed { world with clock := millis }).clock ≤ millis := by
      rw [removeAll_rest]
    refine (outstandingAt_drops hlists.nodup hsplit hreached.dated_all).1
      fun candidates hcandidates => ?_
    exact h _ _ _ hcleanup file hfile hgone candidates _
      (execute_outstandingFiles_iff.2 ⟨millis, rfl, hfinal, rfl, hcandidates.symm⟩)
  · intro h outcomes result final hexecute file hfile hgone candidates after hselect
    obtain ⟨_, hexecute⟩ := execute_cleanupAfterError.1 hexecute
    obtain ⟨_, htime, _, _, hcandidates⟩ := execute_outstandingFiles_iff.1 hselect
    obtain rfl := Outcome.reads.inj (List.cons.inj htime).1
    rcases cleanupLocal_deletion hlists'.localDirs_eq hexecute with
      ⟨rest, removed, inner, _, rfl, hdeletion, _⟩ | ⟨_, _, rfl⟩
    · -- What was deleted was reached, whatever the other deletions did.
      have hdeleted := hlists'.mem_removed
        (hdeletion.removed_sublist.trans asked_sublist_sortedFiles) hfile hgone
      obtain ⟨first, later, hasked⟩ :=
        List.append_of_mem (hdeletion.removed_sublist.subset hdeleted)
      obtain ⟨before, after', hdropped, _, hreached⟩ := reached_of_asked hasked
      obtain ⟨after', hafter, hsplit⟩ := rdrop_one_split.1 ⟨after', hdropped⟩
      exact (outstandingAt_drops hlists.nodup hsplit hreached.dated_all).2
        (h before file after' hsplit hafter hreached) candidates hcandidates.symm
    · refine absurd ?_ hgone
      rw [World.localFiles, hlists'.localDirs_eq]
      exact hfile

/-- Two megabytes and one byte of 2014-05-13, shortly before 17:00. -/
def recentFiles : List File :=
  [⟨webDir, text "@4000000053724e0000000000.s", false, 2097152⟩,
    ⟨webDir, text "@4000000053724e0100000000.s", false, 1⟩]

theorem lists_recentFiles : (World.holding recentFiles).Lists webDir recentFiles where
  localDirs_eq := by
    simp [World.holding, recentFiles, World.receive, World.initial, World.localFiles]
  parent_eq := by decide
  names := by decide

theorem sortedFiles_recentFiles : sortedFiles recentFiles = recentFiles := by
  decide +kernel

/-- At 20:00 on 2014-05-17 the first file is reached, but is not too old to be shipped. -/
theorem cleanupAfterError_tooOld_recent :
    ¬∀ outcomes result final,
      execute machine (.reads 1400356800000 :: outcomes) (cleanupAfterError .utc webDir)
        (.holding recentFiles) = some (result, final) →
      ∀ file ∈ recentFiles, file ∉ final.localFiles webDir → ∀ candidates after,
        execute machine [.reads 1400356800000]
          (outstandingFiles .utc (sortedFiles recentFiles) none) final =
            some (.ok candidates, after) → file ∉ candidates := by
  rw [cleanupAfterError_tooOld lists_recentFiles (by decide), sortedFiles_recentFiles]
  intro h
  have hreached : Reached .utc (DateTime.minusDays (maxLookBackDays + 1) ⟨1400356800000, .utc⟩)
      (minMB * 1024 * 1024) (totalLength recentFiles) []
      ⟨webDir, text "@4000000053724e0000000000.s", false, 2097152⟩ :=
    reached_nil_iff.2 ⟨by decide, by decide⟩
  have hold := h [] _ _ rfl (List.cons_ne_nil _ _) hreached _ List.mem_cons_self
  exact absurd hold (by decide)

/-- At that time the first file is deleted after an error, and it would still be shipped. -/
theorem deletes_outstanding : ∃ outcomes result final candidates after,
    execute machine (.reads 1400356800000 :: outcomes) (cleanupAfterError .utc webDir)
      (.holding recentFiles) = some (result, final) ∧
    execute machine [.reads 1400356800000]
      (outstandingFiles .utc (sortedFiles recentFiles) none) final = some (.ok candidates, after) ∧
    ∃ file ∈ recentFiles, file ∉ final.localFiles webDir ∧ file ∈ candidates := by
  have hruns : (execute machine [.reads 1400356800000, .ok, .ok] (cleanupAfterError .utc webDir)
      (.holding recentFiles)).any (fun cleaned =>
        decide (cleaned.2.localFiles webDir = recentFiles.tail) &&
        (execute machine [.reads 1400356800000]
          (outstandingFiles .utc (sortedFiles recentFiles) none) cleaned.2).any
            fun selected => decide (selected.1 = .ok recentFiles)) = true := by
    decide +kernel
  obtain ⟨⟨result, final⟩, hcleanup, hboth⟩ := (Option.any_eq_true _ _).1 hruns
  obtain ⟨hleft, hselected⟩ := Bool.and_eq_true_iff.1 hboth
  obtain ⟨⟨selected, after⟩, hselect, hcandidates⟩ := (Option.any_eq_true _ _).1 hselected
  obtain rfl := of_decide_eq_true hcandidates
  refine ⟨_, result, final, recentFiles, after, hcleanup, hselect, _, List.mem_cons_self, ?_,
    List.mem_cons_self⟩
  rw [of_decide_eq_true hleft]
  decide

end AfterError

end Barn.Hdfs
