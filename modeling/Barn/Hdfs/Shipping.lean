import Barn.Hdfs.Solo

/-!
# Shipping the candidates

What `shipCandidates` does to HDFS and which exceptions escape from it when nothing interferes:
files on HDFS change outside the directory for temporary files only where the new name is free
(`shipCandidates_entries`), and whether an exception can escape depends on the file system and on
the last candidate (`shipCandidates_returns`).
-/

namespace Barn.Hdfs

open Interaction

section Asks

variable {α β : Type} {among : Command → Prop}

/-- Every request that the action can make is among these. -/
def Action.Asks (among : Command → Prop) (action : Action α) : Prop :=
  Program.Asks among action

/-- A computation makes no requests. -/
theorem Action.asks_attempt (result : Attempt α) : (Action.attempt result).Asks among :=
  trivial

/-- Requests of a sequence. -/
theorem Action.asks_bind {action : Action α} {rest : α → Action β} (h : action.Asks among)
    (hrest : ∀ value, (rest value).Asks among) : (action >>= rest).Asks among := by
  refine Program.Asks.bind h fun result => ?_
  cases result with
  | ok value => exact hrest value
  | error failure => trivial

/-- Requests of what is validated. -/
theorem Action.asks_validate {jvm : Jvm} {detail : Text} {action : Action α}
    (h : action.Asks among) : (Action.validate jvm detail action).Asks among :=
  Program.Asks.bind h fun _ => trivial

/-- A single request. -/
theorem Action.asks_request {command : Command} {made : command.Reply → Attempt α}
    (h : among command) :
    Action.Asks among (Program.request command fun reply => Action.attempt (made reply)) :=
  ⟨h, fun _ => trivial⟩

/-- Every request is a request. -/
theorem Action.asks_any (action : Action α) : action.Asks fun _ => True := by
  unfold Action.Asks
  unfold Action at action
  induction action with
  | done value => trivial
  | request command next ih => exact ⟨trivial, ih⟩

/-- The deletion loop deletes among its files. -/
theorem asks_deleteRetained (jvm : Jvm) (limit : DateTime) (minMB : ℤ) {files : List File}
    (hdelete : ∀ file ∈ files, among (.delete file)) (sofar : ℤ × ℤ) :
    (deleteRetained jvm limit minMB files sofar).Asks among := by
  induction files generalizing sofar with
  | nil => exact trivial
  | cons file files ih =>
      have hrest : ∀ other ∈ files, among (.delete other) :=
        fun other hother => hdelete other (.tail _ hother)
      refine Action.asks_bind (Action.asks_attempt _) fun time => ?_
      split
      · exact Action.asks_bind (Action.asks_request (hdelete file List.mem_cons_self))
          fun _ => ih hrest _
      · exact ih hrest _

/-- The local files are listed. -/
theorem asks_listSortedLocalFiles (jvm : Jvm) (dir : Dir) (hlist : among (.listFiles dir)) :
    (listSortedLocalFiles jvm dir).Asks among := by
  refine Action.asks_validate (Action.asks_bind (Action.asks_request hlist) fun found => ?_)
  cases found <;> trivial

/-- Cleaning up lists and deletes. -/
theorem asks_cleanupLocal (jvm : Jvm) (dir : Dir) (limit : DateTime) (minMB : ℤ)
    (hlist : among (.listFiles dir)) (hdelete : ∀ file, among (.delete file)) :
    (cleanupLocal jvm dir limit minMB).Asks among :=
  Action.asks_bind (asks_listSortedLocalFiles jvm dir hlist) fun _ => Action.asks_validate
    (asks_deleteRetained jvm limit minMB (fun file _ => hdelete file) _)

/-- After an error the clock is read first. -/
theorem asks_cleanupAfterError (jvm : Jvm) (dir : Dir) (hnow : among (.now .actOnServiceDir))
    (hlist : among (.listFiles dir)) (hdelete : ∀ file, among (.delete file)) :
    (cleanupAfterError jvm dir).Asks among :=
  Action.asks_bind (Action.asks_request hnow) fun _ => asks_cleanupLocal jvm dir _ _ hlist hdelete

/-- The clock says how far to look back. -/
theorem asks_earliestLookbackDate (jvm : Jvm) (minFileDate : Option DateTime) (maxLookBackDays : ℕ)
    (hnow : among (.now .earliestLookbackDate)) :
    (earliestLookbackDate jvm minFileDate maxLookBackDays).Asks among :=
  Action.asks_bind (Action.asks_request hnow) fun _ => Action.asks_attempt _

/-- And whether it is time to ship. -/
theorem asks_isShippingTime (jvm : Jvm) (last : Option DateTime) (shipInterval : ℤ)
    (totalReadySize maxReadySize : ℤ) (hnow : among (.now .enoughTimePast)) :
    (isShippingTime jvm last shipInterval totalReadySize maxReadySize).Asks among := by
  cases last with
  | none => exact Action.asks_attempt _
  | some time =>
      refine Action.asks_bind (Action.asks_bind (Action.asks_request hnow) fun _ =>
        Action.asks_bind (Action.asks_attempt _) fun _ => Action.asks_attempt _) fun enough => ?_
      split
      · exact Action.asks_attempt _
      · exact Action.asks_attempt _

/-- And which files are too old. -/
theorem asks_outstandingFiles (jvm : Jvm) (files : List File) (lastTaistamp : Option Text)
    (hnow : among (.now .outstandingFiles)) :
    (outstandingFiles jvm files lastTaistamp).Asks among := by
  rw [outstandingFiles_eq]
  exact Action.asks_bind (Action.asks_request hnow) fun _ => Action.asks_attempt _

end Asks

section Requests

variable {s : Setting} {clock : ClockUse → ℤ} {α : Type} {action : Action α}
  {world final : World} {result : Attempt α}

/-- No file on HDFS is renamed, and only temporary files are copied there. -/
def Setting.Keeps (s : Setting) : Command → Prop
  | .rename _ _ => False
  | .copyFromLocalFile _ target => target.parent = s.tempDir
  | _ => True

/-- Outside the directory for temporary files HDFS holds the same entries. -/
def Setting.SameEntries (s : Setting) (world final : World) : Prop :=
  ∀ path, path ≠ s.tempDir → final.entries path = world.entries path

/-- An answer, with the clock read at a given time, is one of the surroundings or a time. -/
theorem timed_answer {command : Command} {outcome : Outcome} {reply : command.Reply}
    {after : World} (h : (timed clock).answer command outcome world = some (reply, after)) :
    (∃ use, command = .now use ∧ after = { world with clock := clock use }) ∨
      answer command outcome world = some (reply, after) := by
  cases command with
  | now use =>
      simp only [timed] at h
      split at h
      · exact .inl ⟨use, rfl, (answer_parts h).2⟩
      · simp at h
  | _ => exact .inr h

/-- Such requests change nothing there. -/
theorem sameEntries_of_asks (hasks : action.Asks s.Keeps)
    (h : action.Yields clock world result final) : s.SameEntries world final := by
  refine Runs.preserves ?_ hasks h (show s.SameEntries world world from fun _ _ => rfl)
  intro command outcome middle reply after hkeeps hanswer hsame path hpath
  rw [← hsame path hpath]
  rcases timed_answer hanswer with ⟨use, rfl, rfl⟩ | hanswer
  · rfl
  · cases command with
    | now use => rw [(answer_now hanswer).2.2]; rfl
    | listFiles dir => rw [(answer_listFiles hanswer).1]
    | delete file =>
        rcases answer_delete hanswer with rfl | rfl <;> rfl
    | unboxLazy dir =>
        obtain ⟨fileSystems, rfl⟩ := answer_unboxLazy hanswer
        rfl
    | cacheGet other => rw [(answer_cacheGet hanswer).2]
    | cachePut other listing => rw [answer_cachePut hanswer]; rfl
    | listStatus other => rw [(answer_listStatus hanswer).1]
    | mkdirs other =>
        rcases answer_mkdirs hanswer with rfl | rfl
        · rfl
        · exact World.entries_makeDirectory path
    | combineIntoSeqFile candidates dir =>
        rcases answer_combineIntoSeqFile hanswer with ⟨_, _, rfl⟩ | ⟨_, rfl⟩ <;> rfl
    | randomName => rw [answer_randomName hanswer]; rfl
    | copyFromLocalFile source target =>
        have hother : path ≠ target.parent := fun heq => hpath (heq.trans hkeeps)
        rcases answer_copyFromLocalFile hanswer with ⟨_, _, _, rfl⟩ | ⟨_, rfl | rfl⟩
        · exact World.entries_writeFile hother
        · rfl
        · exact World.entries_writeFile hother
    | rename source target => exact hkeeps.elim

/-- The file system has been created. -/
def Setting.Connected (s : Setting) (world : World) : Prop :=
  world.fileSystems s.serviceDir = true

/-- A file system that has been created stays. -/
theorem Setting.Connected.yields (hworld : s.Connected world)
    (h : action.Yields clock world result final) : s.Connected final := by
  refine Runs.preserves ?_ (Action.asks_any action) h (show s.Connected world from hworld)
  intro command outcome middle reply after _ hanswer hmiddle
  rcases timed_answer hanswer with ⟨use, rfl, rfl⟩ | hanswer
  · exact hmiddle
  · cases command with
    | now use => rw [(answer_now hanswer).2.2]; exact hmiddle
    | listFiles dir => rw [(answer_listFiles hanswer).1]; exact hmiddle
    | delete file => rcases answer_delete hanswer with rfl | rfl <;> exact hmiddle
    | unboxLazy dir =>
        cases outcome <;> simp only [answer] at hanswer
        case ok =>
          rw [(answer_parts hanswer).2]
          unfold Setting.Connected at hmiddle ⊢
          by_cases hdir : s.serviceDir = dir
          · simp [hdir]
          · simpa [hdir] using hmiddle
        case fails throwable =>
          split at hanswer
          · simp at hanswer
          · rw [(answer_parts hanswer).2]
            exact hmiddle
        all_goals simp at hanswer
    | cacheGet other => rw [(answer_cacheGet hanswer).2]; exact hmiddle
    | cachePut other listing => rw [answer_cachePut hanswer]; exact hmiddle
    | listStatus other => rw [(answer_listStatus hanswer).1]; exact hmiddle
    | mkdirs other => rcases answer_mkdirs hanswer with rfl | rfl <;> exact hmiddle
    | combineIntoSeqFile candidates dir =>
        rcases answer_combineIntoSeqFile hanswer with ⟨_, _, rfl⟩ | ⟨_, rfl⟩ <;> exact hmiddle
    | randomName => rw [answer_randomName hanswer]; exact hmiddle
    | copyFromLocalFile source target =>
        rcases answer_copyFromLocalFile hanswer with ⟨_, _, _, rfl⟩ | ⟨_, rfl | rfl⟩ <;>
          exact hmiddle
    | rename source target =>
        rcases answer_rename hanswer with hmoved | ⟨_, rfl⟩
        · show after.fileSystems s.serviceDir = true
          rw [World.fileSystems_moveFile hmoved]
          exact hmiddle
        · exact hmiddle

end Requests

/-- The last candidate is the last file. -/
theorem lastCandidate_of_suffix {files before after : List File} {file last : File}
    (hsplit : files = before ++ file :: after) (hlast : files.getLast? = some last) :
    lastCandidate (file :: after) = .ok last := by
  rw [hsplit, List.getLast?_append, List.getLast?_cons] at hlast
  rw [lastCandidate, List.getLast?_cons]
  simpa using hlast

section Ship

variable {s : Setting} {clock : ClockUse → ℤ} {α β : Type} {base : DateTime} {name : Text}

/-- No entry of the directory for the time has the name. -/
def Setting.Free (s : Setting) (base : DateTime) (name : Text) (world : World) : Prop :=
  ∀ entry ∈ world.entries (s.hdfsDir base), entry.getName ≠ name

/-- The action changes what is on HDFS, outside the directory for temporary files, only if the name
is free. -/
def Setting.AddsOnly (s : Setting) (clock : ClockUse → ℤ) (base : DateTime) (name : Text)
    (action : Action α) : Prop :=
  ∀ world result final, action.Yields clock world result final →
    s.SameEntries world final ∨ s.Free base name world

/-- Whether the name is free depends on what is outside that directory. -/
theorem Setting.SameEntries.free_iff {world final : World} (h : s.SameEntries world final) :
    s.Free base name final ↔ s.Free base name world := by
  rw [Setting.Free, h _ (s.hdfsDir_ne_tempDir base)]
  rfl

/-- What keeps everything adds nothing. -/
theorem addsOnly_of_asks {action : Action α} (h : action.Asks s.Keeps) :
    s.AddsOnly clock base name action :=
  fun _ _ _ hyields => .inl (sameEntries_of_asks h hyields)

/-- A sequence of such actions. -/
theorem Setting.AddsOnly.bind {action : Action α} {rest : α → Action β}
    (h : s.AddsOnly clock base name action)
    (hrest : ∀ value, s.AddsOnly clock base name (rest value)) :
    s.AddsOnly clock base name (action >>= rest) := by
  intro world result final hyields
  rcases yields_bind_iff.1 hyields with ⟨value, middle, haction, hafter⟩ | ⟨failure, haction, rfl⟩
  · rcases h _ _ _ haction with hsame | hfree
    · rcases hrest value _ _ _ hafter with hsame' | hfree
      · exact .inl fun path hpath => (hsame' path hpath).trans (hsame path hpath)
      · exact .inr (hsame.free_iff.1 hfree)
    · exact .inr hfree
  · exact h _ _ _ haction

/-- What is validated does what it did. -/
theorem Setting.AddsOnly.validate {jvm : Jvm} {detail : Text} {action : Action α}
    (h : s.AddsOnly clock base name action) :
    s.AddsOnly clock base name (Action.validate jvm detail action) := by
  intro world result final hyields
  obtain ⟨inner, haction, _⟩ := yields_validate_iff.1 hyields
  exact h _ _ _ haction

/-- A rename needs a free name. -/
theorem addsOnly_rename (source : HdfsFile) :
    s.AddsOnly clock base name (Action.rename source ⟨s.hdfsDir base, name⟩) := by
  intro world result final hyields
  obtain ⟨outcome, reply, hanswer, _⟩ := (yields_request_iff (by simp)).1 hyields
  rcases answer_rename hanswer with hmoved | ⟨_, rfl⟩
  · refine .inr fun entry hentry hname => ?_
    unfold World.moveFile at hmoved
    split at hmoved
    · next existing _ hexisting =>
        split at hmoved
        · simp at hmoved
        · next hfresh =>
            rw [World.entries, hexisting] at hentry
            exact hfresh (List.any_eq_true.2 ⟨entry, hentry, by simpa using hname⟩)
    · simp at hmoved
  · exact .inl fun _ _ => rfl

/-- Creating a directory adds nothing. -/
theorem asks_ensureHdfsDir (hdfsDir : HdfsDir) :
    (ensureHdfsDir s.jvm s.serviceDir hdfsDir).Asks s.Keeps :=
  Action.asks_bind (Action.asks_request trivial) fun _ =>
    Action.asks_validate (Action.asks_request trivial)

/-- Shipping through a temporary file needs a free name. -/
theorem addsOnly_atomicShipToHdfs (src : Text) :
    s.AddsOnly clock base name
      (atomicShipToHdfs s.jvm s.serviceDir src (s.hdfsDir base) name s.tempDir) := by
  refine .bind (addsOnly_of_asks (Action.asks_request trivial)) fun _ => ?_
  refine .bind (addsOnly_of_asks (Action.asks_request trivial)) fun tempName => ?_
  refine .bind (addsOnly_of_asks (Action.asks_validate (Action.asks_request rfl))) fun _ => ?_
  refine .validate (.bind (addsOnly_rename _) fun renamed => ?_)
  cases renamed <;> exact addsOnly_of_asks (Action.asks_attempt _)

/-- The rest of a round adds a file only if its name is free. -/
theorem shipCandidates_entries {plan : ShippingPlan} {candidates : List File} {world final : World}
    {result : Attempt Unit} (hdir : plan.hdfsDir = s.hdfsDir base)
    (htemp : plan.hdfsTempDir = s.tempDir)
    (h : (shipCandidates s.jvm s.barnConf s.serviceDir s.serviceInfo plan candidates).Yields clock
      world result final) :
    s.SameEntries world final ∨ ∃ last name, lastCandidate candidates = .ok last ∧
      targetName s.jvm last.taistamp s.serviceInfo = .ok name ∧ s.Free base name world := by
  have hconcat : (concatCandidates s.jvm candidates s.barnConf.localTempDir).Asks s.Keeps :=
    Action.asks_validate (Action.asks_request trivial)
  rw [shipCandidates, hdir, htemp] at h
  rcases yields_bind_iff.1 h with ⟨path, start, hcombine, hcombined⟩ | ⟨failure, hcombine, rfl⟩
  · have hstart := sameEntries_of_asks hconcat hcombine
    cases hlast : lastCandidate candidates with
    | error throwable =>
        simp only [hlast, bare, Action.attempt_error_bind] at hcombined
        rw [(yields_attempt_iff.1 hcombined).2]
        exact .inl hstart
    | ok last =>
        simp only [hlast, bare, Action.attempt_ok_bind] at hcombined
        cases hname : targetName s.jvm (svlogdFileNameToTaiString last.getName) s.serviceInfo with
        | error throwable =>
            simp only [hname, Action.attempt_error_bind] at hcombined
            rw [(yields_attempt_iff.1 hcombined).2]
            exact .inl hstart
        | ok name =>
            simp only [hname, Action.attempt_ok_bind] at hcombined
            have hrest : s.AddsOnly clock base name (do
                ensureHdfsDir s.jvm s.serviceDir (s.hdfsDir base)
                ensureHdfsDir s.jvm s.serviceDir s.tempDir
                let _ ← atomicShipToHdfs s.jvm s.serviceDir path (s.hdfsDir base) name s.tempDir
                let shippedTS ← Action.attempt (svlogdFileTimestamp s.jvm last)
                let _ ← cleanupLocal s.jvm s.serviceDir shippedTS minMB) :=
              .bind (addsOnly_of_asks (asks_ensureHdfsDir _)) fun _ =>
                .bind (addsOnly_of_asks (asks_ensureHdfsDir _)) fun _ =>
                  .bind (addsOnly_atomicShipToHdfs _) fun _ =>
                    addsOnly_of_asks (Action.asks_bind (Action.asks_attempt _) fun _ =>
                      Action.asks_bind (asks_cleanupLocal _ _ _ _ trivial fun _ => trivial)
                        fun _ => Action.asks_attempt _)
            rcases hrest _ _ _ hcombined with hsame | hfree
            · exact .inl fun other hother => (hsame other hother).trans (hstart other hother)
            · exact .inr ⟨last, name, rfl, hname, hstart.free_iff.1 hfree⟩
  · exact .inl (sameEntries_of_asks hconcat hcombine)

/-- Files of the local directories can be combined. -/
theorem concatCandidates_can_yield (s : Setting) (clock : ClockUse → ℤ) {candidates : List File}
    {world : World} (dir : Dir)
    (hfiles : ∀ file ∈ candidates, file ∈ world.localFiles file.parent) :
    ∃ path final, (concatCandidates s.jvm candidates dir).Yields clock world (.ok path) final ∧
      final.localTemp path = some (.combined candidates) ∧ final.hdfs = world.hdfs ∧
      final.fileSystems = world.fileSystems := by
  have hall : (candidates.all fun file => file ∈ world.localFiles file.parent) = true :=
    List.all_eq_true.2 fun file hfile => by simpa using hfiles file hfile
  refine ⟨childPath dir [], { world with
    localTemp := Function.update world.localTemp (childPath dir []) (some (.combined candidates)) },
    yields_validate_iff.2 ⟨.ok (childPath dir []), ?_, rfl⟩, Function.update_self _ _ _, rfl, rfl⟩
  refine (yields_request_iff (by simp)).2 ⟨.named [], .ok (childPath dir []), ?_, rfl⟩
  simp only [answer]
  rw [if_pos hall]

/-- A directory can be created. -/
theorem ensureHdfsDir_can_yield (s : Setting) (clock : ClockUse → ℤ) (path : HdfsDir)
    (world : World) :
    ∃ final, (ensureHdfsDir s.jvm s.serviceDir path).Yields clock world (.ok ()) final ∧
      final.localTemp = world.localTemp ∧ final.hdfs path = some (world.entries path) ∧
      ∀ other, other ≠ path → final.hdfs other = world.hdfs other := by
  refine ⟨World.makeDirectory path { world with
      fileSystems := Function.update world.fileSystems s.serviceDir true },
    yields_bind_iff.2 (.inl ⟨(), _, (yields_request_iff (by simp)).2 ⟨.ok, .ok (), rfl, rfl⟩,
      yields_validate_iff.2 ⟨.ok (), (yields_request_iff (by simp)).2 ⟨.ok, .ok (), rfl, rfl⟩,
        rfl⟩⟩), rfl, Function.update_self _ _ _, fun other hother => ?_⟩
  exact Function.update_of_ne hother _ _

/-- What was combined can be shipped under a free name. -/
theorem atomicShipToHdfs_can_yield (clock : ClockUse → ℤ) {src : Text} {world : World}
    {content : Content} {existing : List Entry} (hsrc : world.localTemp src = some content)
    (hexisting : world.hdfs (s.hdfsDir base) = some existing)
    (hfree : s.Free base name world) :
    ∃ file final, (atomicShipToHdfs s.jvm s.serviceDir src (s.hdfsDir base) name s.tempDir).Yields
      clock world (.ok file) final ∧
        final.entries (s.hdfsDir base) =
          world.entries (s.hdfsDir base) ++ [⟨name, false, content⟩] := by
  obtain ⟨tempName, htempName⟩ := Infinite.exists_notMem_finset world.drawnNames.toFinset
  have hdrawn : tempName ∉ world.drawnNames := by simpa using htempName
  -- The world once the file is in the directory for temporary files.
  let copied : World := { World.writeFile ⟨s.tempDir, tempName⟩ content { world with
      fileSystems := Function.update world.fileSystems s.serviceDir true
      drawnNames := tempName :: world.drawnNames } with
    localTemp := Function.update world.localTemp src none }
  have hne := s.hdfsDir_ne_tempDir base
  have hfound : (copied.entries s.tempDir).find? (fun entry => entry.getName = tempName) =
      some ⟨tempName, false, content⟩ :=
    World.find?_writeFile ⟨s.tempDir, tempName⟩ content
  have htarget : copied.hdfs (s.hdfsDir base) = some existing :=
    (Function.update_of_ne hne _ _).trans hexisting
  have hentries : world.entries (s.hdfsDir base) = existing := by
    rw [World.entries, hexisting, Option.getD_some]
  have hmoves : ∃ moved, copied.moveFile ⟨s.tempDir, tempName⟩ ⟨s.hdfsDir base, name⟩ =
      some moved := by
    unfold World.moveFile
    rw [hfound, htarget]
    have hany : ¬(existing.any fun other => other.getName = name) = true := by
      rw [List.any_eq_true]
      rintro ⟨entry, hentry, hname⟩
      exact hfree entry (hentries ▸ hentry) (by simpa using hname)
    simp only [hany]
    exact ⟨_, rfl⟩
  obtain ⟨moved, hmoved⟩ := hmoves
  obtain ⟨_, hadded, _⟩ := World.moveFile_spec hmoved hne.symm hfound
  refine ⟨⟨s.hdfsDir base, name⟩, moved, ?_, ?_⟩
  · refine yields_bind_iff.2 (.inl ⟨(), { world with
      fileSystems := Function.update world.fileSystems s.serviceDir true },
      (yields_request_iff (by simp)).2 ⟨.ok, .ok (), rfl, rfl⟩, ?_⟩)
    refine yields_bind_iff.2 (.inl ⟨tempName, { world with
      fileSystems := Function.update world.fileSystems s.serviceDir true
      drawnNames := tempName :: world.drawnNames }, ?_, ?_⟩)
    · refine (yields_request_iff (by simp)).2 ⟨.named tempName, tempName, ?_, rfl⟩
      simp only [answer]
      rw [if_neg hdrawn]
    · refine yields_bind_iff.2 (.inl ⟨(), copied, yields_validate_iff.2 ⟨.ok (),
        (yields_request_iff (by simp)).2 ⟨.ok, .ok (), ?_, rfl⟩, rfl⟩, ?_⟩)
      · simp only [answer, hsrc, Option.map_some]
        rfl
      · refine yields_validate_iff.2 ⟨.ok _, yields_bind_iff.2 (.inl ⟨true, moved,
          (yields_request_iff (by simp)).2 ⟨.ok, .ok true, ?_, rfl⟩, yields_pure_iff.2 ⟨rfl, rfl⟩⟩),
          rfl⟩
        simp only [answer, hmoved]
  · rw [hadded]
    congr 1
    exact World.entries_writeFile hne

/-- The rest of a round can add a file if its name is free. -/
theorem shipCandidates_can_add {plan : ShippingPlan} {candidates : List File} {last : File}
    {world : World} (hdir : plan.hdfsDir = s.hdfsDir base) (htemp : plan.hdfsTempDir = s.tempDir)
    (hfiles : ∀ file ∈ candidates, file ∈ world.localFiles file.parent)
    (hlast : lastCandidate candidates = .ok last)
    (hname : targetName s.jvm last.taistamp s.serviceInfo = .ok name)
    (hfree : s.Free base name world) :
    ∃ result final, (shipCandidates s.jvm s.barnConf s.serviceDir s.serviceInfo plan
      candidates).Yields clock world result final ∧ ¬s.SameEntries world final := by
  have hne := s.hdfsDir_ne_tempDir base
  obtain ⟨path, combined, hcombine, hpath, hhdfs, _⟩ := concatCandidates_can_yield s clock
    s.barnConf.localTempDir hfiles
  obtain ⟨created, hcreate, hlocal, hexisting, _⟩ := ensureHdfsDir_can_yield s clock
    (s.hdfsDir base) combined
  obtain ⟨ready, hready, hlocal', _, hother⟩ := ensureHdfsDir_can_yield s clock
    s.tempDir created
  have hentries : ready.entries (s.hdfsDir base) = world.entries (s.hdfsDir base) := by
    rw [World.entries, hother _ hne, hexisting, Option.getD_some, World.entries, hhdfs,
      World.entries]
  obtain ⟨file, shipped, hship, hadded⟩ := atomicShipToHdfs_can_yield clock
    (show ready.localTemp path = some (.combined candidates) by rw [hlocal', hlocal, hpath])
    ((hother _ hne).trans hexisting)
    (show s.Free base name ready from fun entry hentry => hfree entry (hentries ▸ hentry))
  obtain ⟨result, final, hrest⟩ := exists_yields clock (do
    let shippedTS ← Action.attempt (svlogdFileTimestamp s.jvm last)
    let _ ← cleanupLocal s.jvm s.serviceDir shippedTS minMB) shipped
  have hkept : s.SameEntries shipped final :=
    sameEntries_of_asks (Action.asks_bind (Action.asks_attempt _) fun _ =>
      Action.asks_bind (asks_cleanupLocal _ _ _ _ trivial fun _ => trivial)
        fun _ => Action.asks_attempt _) hrest
  refine ⟨result, final, ?_, fun hsame => ?_⟩
  · rw [shipCandidates, hdir, htemp]
    refine yields_bind_iff.2 (.inl ⟨path, combined, hcombine, ?_⟩)
    rw [File.taistamp] at hname
    simp only [hlast, hname, bare, Action.attempt_ok_bind]
    exact yields_bind_iff.2 (.inl ⟨(), created, hcreate, yields_bind_iff.2 (.inl ⟨(), ready, hready,
      yields_bind_iff.2 (.inl ⟨file, shipped, hship, hrest⟩)⟩)⟩)
  · have hcontra := hsame _ hne
    rw [hkept _ hne, hadded, hentries] at hcontra
    simp at hcontra

end Ship

section Returns

variable {s : Setting} {clock : ClockUse → ℤ} {α β : Type}

/-- Once the file system is there, no exception escapes from the action. -/
def Setting.Returns (s : Setting) (clock : ClockUse → ℤ) (action : Action α) : Prop :=
  ∀ world result final, s.Connected world → action.Yields clock world result final →
    ∀ throwable, result ≠ .error (.thrown throwable)

/-- A computation that throws nothing. -/
theorem returns_attempt {result : Attempt α}
    (h : ∀ throwable, result ≠ .error (.thrown throwable)) :
    s.Returns clock (Action.attempt result) := by
  intro world result' final _ hyields
  rw [(yields_attempt_iff.1 hyields).1]
  exact h

/-- Nothing escapes from what is validated. -/
theorem returns_validate {jvm : Jvm} {detail : Text} {action : Action α} :
    s.Returns clock (Action.validate jvm detail action) := by
  intro world result final _ hyields throwable
  obtain ⟨inner, _, rfl⟩ := yields_validate_iff.1 hyields
  exact validate_ne_thrown

/-- Nothing escapes from a sequence if nothing does from its parts. -/
theorem Setting.Returns.bind {action : Action α} {rest : α → Action β}
    (h : s.Returns clock action) (hrest : ∀ value, s.Returns clock (rest value)) :
    s.Returns clock (action >>= rest) := by
  intro world result final hworld hyields throwable
  rcases yields_bind_iff.1 hyields with ⟨value, middle, haction, hafter⟩ | ⟨failure, haction, rfl⟩
  · exact hrest value _ _ _ (hworld.yields haction) hafter throwable
  · intro hthrown
    rw [Except.error.inj hthrown] at haction
    exact h _ _ _ hworld haction throwable rfl

/-- The file system is there. -/
theorem returns_unboxLazy : s.Returns clock (Action.unboxLazy s.serviceDir) := by
  intro world result final hworld hyields throwable
  rcases yields_unboxLazy_iff.1 hyields with ⟨rfl, _⟩ | ⟨_, hfs, _⟩
  · simp
  · rw [Setting.Connected, hfs] at hworld
    simp at hworld

/-- Nothing escapes from shipping if the name can be made. -/
theorem shipCandidates_returns {plan : ShippingPlan} {candidates : List File} {last : File}
    {time : DateTime} (hlast : lastCandidate candidates = .ok last)
    (htime : fileTime s.jvm last = .ok time) :
    s.Returns clock
      (shipCandidates s.jvm s.barnConf s.serviceDir s.serviceInfo plan candidates) := by
  have hname : ∃ name, targetName s.jvm (svlogdFileNameToTaiString last.getName) s.serviceInfo =
      .ok name := ⟨_, bind_eq_ok_iff.2 ⟨time, htime, rfl⟩⟩
  obtain ⟨name, hname⟩ := hname
  unfold shipCandidates
  refine .bind returns_validate fun path => ?_
  simp only [hlast, hname, bare, Action.attempt_ok_bind]
  refine .bind (.bind returns_unboxLazy fun _ => returns_validate) fun _ => ?_
  refine .bind (.bind returns_unboxLazy fun _ => returns_validate) fun _ => ?_
  refine .bind (.bind returns_unboxLazy fun _ => .bind ?_ fun tempName =>
    .bind returns_validate fun _ => returns_validate) fun _ => ?_
  · intro world result final _ hyields throwable
    obtain ⟨_, reply, _, rfl⟩ := (yields_request_iff (by simp)).1 hyields
    simp
  · refine .bind (returns_attempt fun throwable => validate_ne_thrown) fun limit => ?_
    exact .bind (.bind returns_validate fun _ => returns_validate) fun _ =>
      returns_attempt fun throwable => by simp

/-- Without the file system or the name an exception can escape from it. -/
theorem shipCandidates_can_throw {plan : ShippingPlan} {candidates : List File} {last : File}
    {world : World} (hfiles : ∀ file ∈ candidates, file ∈ world.localFiles file.parent)
    (hlast : lastCandidate candidates = .ok last)
    (h : ¬s.Connected world ∨ ¬Dated s.jvm last) :
    ∃ throwable final, (shipCandidates s.jvm s.barnConf s.serviceDir s.serviceInfo plan
      candidates).Yields clock world (.error (.thrown throwable)) final := by
  obtain ⟨path, combined, hcombine, _, _, hfs⟩ := concatCandidates_can_yield s clock
    s.barnConf.localTempDir hfiles
  cases htime : fileTime s.jvm last with
  | error throwable =>
      refine ⟨throwable, combined, yields_bind_iff.2 (.inl ⟨path, combined, hcombine, ?_⟩)⟩
      have hname : targetName s.jvm (svlogdFileNameToTaiString last.getName) s.serviceInfo =
          .error throwable := by
        unfold targetName
        unfold fileTime at htime
        rw [htime]
        rfl
      simp only [hlast, hname, bare, Action.attempt_ok_bind, Action.attempt_error_bind]
      exact yields_attempt_iff.2 ⟨rfl, rfl⟩
  | ok time =>
      have hdisconnected : combined.fileSystems s.serviceDir = false := by
        have hnot := h.resolve_right (not_not.2 ⟨time, htime⟩)
        rw [hfs]
        simpa [Setting.Connected] using hnot
      have hname : ∃ name, targetName s.jvm (svlogdFileNameToTaiString last.getName) s.serviceInfo =
          .ok name := ⟨_, bind_eq_ok_iff.2 ⟨time, htime, rfl⟩⟩
      obtain ⟨name, hname⟩ := hname
      refine ⟨.nullPointer, combined, yields_bind_iff.2 (.inl ⟨path, combined, hcombine, ?_⟩)⟩
      simp only [hlast, hname, bare, Action.attempt_ok_bind]
      exact yields_bind_iff.2 (.inr ⟨_, yields_bind_iff.2 (.inr ⟨_,
        yields_unboxLazy_iff.2 (.inr ⟨⟨_, rfl⟩, hdisconnected, rfl⟩), rfl⟩), rfl⟩)

end Returns

end Barn.Hdfs
