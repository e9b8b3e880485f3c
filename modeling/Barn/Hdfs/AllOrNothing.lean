import Barn.Hdfs.Arrivals

/-!
# A round is all or nothing

At every moment of a round HDFS is either as it was when the round began, or it has got exactly the
one file the round ships. `RoundEffect` says which in every phase; the result is
`round_allOrNothing`.
-/

namespace Barn.Hdfs

open Interaction Relation

namespace Setting

variable (s : Setting)

/-- The directories on HDFS are the same, but for the one for temporary files. -/
def SameDirs (world world' : World) : Prop :=
  ∀ path, path ≠ s.tempDir → world'.entries path = world.entries path

/-- The file is dated within `maxLookBackDays + 1` days of every time between the two clocks. -/
def Recent (start world : World) (file : File) : Prop :=
  ∃ time, fileTime s.jvm file = .ok time ∧ ∀ millis, start.clock ≤ millis → millis ≤ world.clock →
    time.isBefore (DateTime.minusDays (maxLookBackDays + 1) ⟨millis, s.jvm.zone⟩) = false

/-- These are candidates chosen from a listing of the service directory that was made since the
round began. -/
def ChosenSince (start world : World) (candidates : List File) : Prop :=
  ∃ listing lastTaistamp now,
    (∀ file ∈ start.localFiles s.serviceDir, file ∈ listing) ∧
    (∀ file ∈ listing, file ∈ start.localFiles s.serviceDir ∨ file ∈ world.received) ∧
    dropWhileThrows (isSettled s.jvm lastTaistamp (oldestMidnight now)) (sortedFiles listing) =
      .ok candidates

/-- One file has been added on HDFS since the round began and nothing else has changed: the
combination of the candidates in the order of their names, in the directory of a day the round
saw, under a name with the taistamp of the last of them. -/
def ShippedOnce (start world : World) : Prop :=
  ∃ candidates last name base, s.ChosenSince start world candidates ∧
    candidates.Pairwise (fun first second => first.path ≤ second.path) ∧
    candidates.getLast? = some last ∧
    targetName s.jvm (svlogdFileNameToTaiString last.getName) s.serviceInfo = .ok name ∧
    text "," ++ svlogdFileNameToTaiString last.getName ++ text ".seq" <:+ name ∧
    start.clock ≤ base.millis ∧ base.millis ≤ world.clock ∧ base.zone = s.jvm.zone ∧
    world.entries (s.hdfsDir base) =
      start.entries (s.hdfsDir base) ++ [⟨name, false, .combined candidates⟩] ∧
    ∀ path, path ≠ s.hdfsDir base → path ≠ s.tempDir → world.entries path = start.entries path

/-- Nothing has been added on HDFS, and of these files the recent ones are still there. -/
def NotShipped (start : World) (kept : List File) (world : World) : Prop :=
  s.SameDirs start world ∧
    ∀ file ∈ kept, s.Recent start world file → file ∈ world.localFiles s.serviceDir

/-- Either nothing has been added on HDFS, or one file. -/
def Either (start : World) (kept : List File) (world : World) : Prop :=
  s.NotShipped start kept world ∨ s.ShippedOnce start world

/-- Nothing has been added on HDFS and nothing has been deleted. -/
structure Intact (start : World) (kept : List File) (world : World) : Prop where
  sameDirs : s.SameDirs start world
  start_mem : ∀ file ∈ start.localFiles s.serviceDir, file ∈ world.localFiles s.serviceDir
  kept_mem : ∀ file ∈ kept, file ∈ world.localFiles s.serviceDir

/-- These are the sorted files of a listing that was made since the round began. -/
def ListedSince (start world : World) (files : List File) : Prop :=
  ∃ listing, files = sortedFiles listing ∧
    (∀ file ∈ start.localFiles s.serviceDir, file ∈ listing) ∧
    ∀ file ∈ listing, file ∈ start.localFiles s.serviceDir ∨ file ∈ world.received

/-- What a round has done so far, phase by phase. -/
def PhaseEffect (start : World) (kept : List File) (world : World) : Phase → Prop
  | .ready => s.Intact start kept world
  | .listed files => s.Intact start kept world ∧ s.ListedSince start world files
  | .looking files _ => s.Intact start kept world ∧ s.ListedSince start world files
  | .planning files _ base => s.Intact start kept world ∧ s.ListedSince start world files ∧
      start.clock ≤ base.millis ∧ base.millis ≤ world.clock ∧ base.zone = s.jvm.zone
  | .selected base candidates => s.Intact start kept world ∧
      s.ChosenSince start world candidates ∧
      candidates.Pairwise (fun first second => first.path ≤ second.path) ∧
      start.clock ≤ base.millis ∧ base.millis ≤ world.clock ∧ base.zone = s.jvm.zone
  | .shipped _ => s.ShippedOnce start world
  | .failed now => s.Either start kept world ∧
      start.clock ≤ now.millis ∧ now.millis ≤ world.clock ∧ now.zone = s.jvm.zone
  | .cleaning true _ _ => s.ShippedOnce start world
  | .cleaning false limit _ => s.Either start kept world ∧
      ∃ millis, start.clock ≤ millis ∧ millis ≤ world.clock ∧
        limit = DateTime.minusDays (maxLookBackDays + 1) ⟨millis, s.jvm.zone⟩

/-- What a round has done so far. -/
structure RoundEffect (start : World) (kept : List File) (state : Phase × World) : Prop where
  clock_le : start.clock ≤ state.2.clock
  origin : ∀ file ∈ state.2.localFiles s.serviceDir,
    file ∈ start.localFiles s.serviceDir ∨ file ∈ state.2.received
  phaseEffect : s.PhaseEffect start kept state.2 state.1

/-- A change that leaves HDFS as it is, but for temporary files, and at most adds local files. -/
structure Quiet (world world' : World) : Prop where
  clock_le : world.clock ≤ world'.clock
  local_subset : ∀ file ∈ world.localFiles s.serviceDir, file ∈ world'.localFiles s.serviceDir
  local_origin : ∀ file ∈ world'.localFiles s.serviceDir,
    file ∈ world.localFiles s.serviceDir ∨ file ∈ world'.received
  received_subset : ∀ file ∈ world.received, file ∈ world'.received
  sameDirs : s.SameDirs world world'

end Setting

namespace Setting

variable {s : Setting} {start world world' : World} {kept : List File} {phase : Phase}

/-- The name of a file on HDFS ends with its taistamp. -/
theorem suffix_targetName {jvm : Jvm} {taistamp name : Text} {info : LocalServiceInfo}
    (h : targetName jvm taistamp info = .ok name) :
    text "," ++ taistamp ++ text ".seq" <:+ name := by
  rw [targetName, bind_eq_ok_iff] at h
  obtain ⟨time, _, hname⟩ := h
  rw [← Except.ok.inj hname]
  refine ⟨formatPadded 4 time.toLocalDate.year ++ text "," ++
    formatPadded 2 time.toLocalDate.month ++ text "," ++ formatPadded 2 time.toLocalDate.day ++
    text "," ++ info.serviceName ++ text "," ++ info.hostName, ?_⟩
  simp only [List.append_assoc]

/-- A recent file was recent at every earlier moment. -/
theorem Recent.earlier {file : File} (h : s.Recent start world' file)
    (hclock : world.clock ≤ world'.clock) : s.Recent start world file := by
  obtain ⟨time, htime, hrecent⟩ := h
  exact ⟨time, htime, fun millis hstart hend => hrecent millis hstart (hend.trans hclock)⟩

/-- Two changes of nothing but temporary files are one. -/
theorem SameDirs.trans {world'' : World} (h : s.SameDirs world world')
    (h' : s.SameDirs world' world'') : s.SameDirs world world'' :=
  fun path hpath => (h' path hpath).trans (h path hpath)

theorem Intact.quiet (h : s.Intact start kept world) (hquiet : s.Quiet world world') :
    s.Intact start kept world' where
  sameDirs := h.sameDirs.trans hquiet.sameDirs
  start_mem := fun file hfile => hquiet.local_subset file (h.start_mem file hfile)
  kept_mem := fun file hfile => hquiet.local_subset file (h.kept_mem file hfile)

theorem ListedSince.quiet {files : List File} (h : s.ListedSince start world files)
    (hquiet : s.Quiet world world') : s.ListedSince start world' files := by
  obtain ⟨listing, hfiles, hstart, horigin⟩ := h
  exact ⟨listing, hfiles, hstart, fun file hfile =>
    (horigin file hfile).imp_right (hquiet.received_subset file)⟩

theorem ChosenSince.mono {candidates : List File} (h : s.ChosenSince start world candidates)
    (hreceived : ∀ file ∈ world.received, file ∈ world'.received) :
    s.ChosenSince start world' candidates := by
  obtain ⟨listing, lastTaistamp, now, hstart, horigin, hcandidates⟩ := h
  exact ⟨listing, lastTaistamp, now, hstart, fun file hfile =>
    (horigin file hfile).imp_right (hreceived file), hcandidates⟩

theorem ShippedOnce.mono (h : s.ShippedOnce start world) (hclock : world.clock ≤ world'.clock)
    (hreceived : ∀ file ∈ world.received, file ∈ world'.received)
    (hdirs : s.SameDirs world world') : s.ShippedOnce start world' := by
  obtain ⟨candidates, last, name, base, hchosen, hsorted, hlast, hname, hsuffix, hlow, hhigh,
    hzone, hadded, hother⟩ := h
  refine ⟨candidates, last, name, base, hchosen.mono hreceived, hsorted, hlast, hname, hsuffix,
    hlow, hhigh.trans hclock, hzone, ?_, fun path hbase htemp => ?_⟩
  · rw [hdirs _ (s.hdfsDir_ne_tempDir base), hadded]
  · rw [hdirs path htemp, hother path hbase htemp]

theorem Either.quiet (h : s.Either start kept world) (hquiet : s.Quiet world world') :
    s.Either start kept world' := by
  rcases h with hnot | hshipped
  · refine .inl ⟨hnot.1.trans hquiet.sameDirs, fun file hfile hrecent => ?_⟩
    exact hquiet.local_subset file (hnot.2 file hfile (hrecent.earlier hquiet.clock_le))
  · exact .inr (hshipped.mono hquiet.clock_le hquiet.received_subset hquiet.sameDirs)

/-- Quiet changes leave what a round has done as it is. -/
theorem RoundEffect.quiet (h : s.RoundEffect start kept (phase, world))
    (hquiet : s.Quiet world world') : s.RoundEffect start kept (phase, world') where
  clock_le := h.clock_le.trans hquiet.clock_le
  origin := by
    intro file hfile
    rcases hquiet.local_origin file hfile with hold | hnew
    · exact (h.origin file hold).imp_right (hquiet.received_subset file)
    · exact .inr hnew
  phaseEffect := by
    have heffect := h.phaseEffect
    cases phase with
    | ready => exact heffect.quiet hquiet
    | listed files => exact ⟨heffect.1.quiet hquiet, heffect.2.quiet hquiet⟩
    | looking files lookBack => exact ⟨heffect.1.quiet hquiet, heffect.2.quiet hquiet⟩
    | planning files lookBack base =>
        obtain ⟨hintact, hlisted, hlow, hhigh, hzone⟩ := heffect
        exact ⟨hintact.quiet hquiet, hlisted.quiet hquiet, hlow, hhigh.trans hquiet.clock_le, hzone⟩
    | selected base candidates =>
        obtain ⟨hintact, hchosen, hsorted, hlow, hhigh, hzone⟩ := heffect
        exact ⟨hintact.quiet hquiet, hchosen.mono hquiet.received_subset, hsorted, hlow,
          hhigh.trans hquiet.clock_le, hzone⟩
    | shipped candidates =>
        exact heffect.mono hquiet.clock_le hquiet.received_subset hquiet.sameDirs
    | failed now =>
        obtain ⟨heither, hlow, hhigh, hzone⟩ := heffect
        exact ⟨heither.quiet hquiet, hlow, hhigh.trans hquiet.clock_le, hzone⟩
    | cleaning shipped limit files =>
        cases shipped with
        | true => exact heffect.mono hquiet.clock_le hquiet.received_subset hquiet.sameDirs
        | false =>
            obtain ⟨heither, millis, hlow, hhigh, hlimit⟩ := heffect
            exact ⟨heither.quiet hquiet, millis, hlow, hhigh.trans hquiet.clock_le, hlimit⟩

/-- Nothing recent is lost before a round ships. -/
theorem Intact.notShipped (h : s.Intact start kept world) : s.NotShipped start kept world :=
  ⟨h.sameDirs, fun file hfile _ => h.kept_mem file hfile⟩

/-- In every phase HDFS is as it was, or one file has been added. -/
theorem RoundEffect.either (h : s.RoundEffect start kept (phase, world)) :
    s.Either start kept world := by
  have heffect := h.phaseEffect
  cases phase with
  | ready => exact .inl heffect.notShipped
  | listed files => exact .inl heffect.1.notShipped
  | looking files lookBack => exact .inl heffect.1.notShipped
  | planning files lookBack base => exact .inl heffect.1.notShipped
  | selected base candidates => exact .inl heffect.1.notShipped
  | shipped candidates => exact .inr heffect
  | failed now => exact heffect.1
  | cleaning shipped limit files =>
      cases shipped with
      | true => exact .inr heffect
      | false => exact heffect.1

/-- Reading the clock is quiet. -/
theorem Quiet.clock {millis : ℤ} (h : world.clock ≤ millis) :
    s.Quiet world { world with clock := millis } :=
  ⟨h, fun _ h => h, fun _ h => .inl h, fun _ h => h, fun _ _ => rfl⟩

/-- What is unobserved is quiet. -/
theorem Quiet.of_unobserved (h : Unobserved s world world') : s.Quiet world world' := by
  have hlocal : world'.localFiles s.serviceDir = world.localFiles s.serviceDir := by
    rw [World.localFiles, World.localFiles, h.localDirs_eq]
  refine ⟨h.clock_le, ?_, ?_, ?_, h.entries_eq⟩
  · rw [hlocal]
    exact fun _ h => h
  · rw [hlocal]
    exact fun _ h => .inl h
  · rw [h.received_eq]
    exact fun _ h => h

/-- From any moment on, the files that are there can be looked at. -/
theorem RoundEffect.keep (h : s.RoundEffect start kept (phase, world)) :
    s.RoundEffect start (world.localFiles s.serviceDir) (phase, world) where
  clock_le := h.clock_le
  origin := h.origin
  phaseEffect := by
    have heffect := h.phaseEffect
    have hkeep : s.Intact start kept world →
        s.Intact start (world.localFiles s.serviceDir) world :=
      fun hintact => ⟨hintact.sameDirs, hintact.start_mem, fun _ h => h⟩
    have hafter : s.Either start kept world →
        s.Either start (world.localFiles s.serviceDir) world :=
      fun heither => heither.imp_left fun hnot => ⟨hnot.1, fun _ h _ => h⟩
    cases phase with
    | ready => exact hkeep heffect
    | listed files => exact ⟨hkeep heffect.1, heffect.2⟩
    | looking files lookBack => exact ⟨hkeep heffect.1, heffect.2⟩
    | planning files lookBack base => exact ⟨hkeep heffect.1, heffect.2⟩
    | selected base candidates => exact ⟨hkeep heffect.1, heffect.2⟩
    | shipped candidates => exact heffect
    | failed now => exact ⟨hafter heffect.1, heffect.2⟩
    | cleaning shipped limit files =>
        cases shipped with
        | true => exact heffect
        | false => exact ⟨hafter heffect.1, heffect.2⟩

/-- Deleting a file keeps the files that are not this one. -/
theorem RoundEffect.removeLocal {file : File} {state : Phase × World}
    (h : s.RoundEffect start kept state)
    (heffect : s.PhaseEffect start kept (state.2.removeLocal file) state.1) :
    s.RoundEffect start kept (state.1, state.2.removeLocal file) where
  clock_le := h.clock_le
  origin := fun other hother => h.origin other (mem_removeLocal_iff.1 hother).1
  phaseEffect := heffect

end Setting

section Steps

variable {t : Terms} {start world world' : World} {kept : List File} {phase : Phase}

/-- A step of a round does to HDFS and to the local files what its phases say. -/
theorem RoundStep.roundEffect {state state' : Phase × World} (hstep : RoundStep t state state')
    (h : t.RoundEffect start kept state) : t.RoundEffect start kept state' := by
  cases hstep with
  | internal hunobserved => exact h.quiet (.of_unobserved hunobserved)
  | list => exact ⟨h.clock_le, h.origin, h.phaseEffect, _, rfl, h.phaseEffect.start_mem, h.origin⟩
  | look hclock _ =>
      have hquiet := h.quiet (.clock hclock)
      exact ⟨hquiet.clock_le, hquiet.origin, hquiet.phaseEffect⟩
  | plan hclock =>
      have hquiet := h.quiet (.clock hclock)
      exact ⟨hquiet.clock_le, hquiet.origin, hquiet.phaseEffect.1, hquiet.phaseEffect.2,
        hquiet.clock_le, le_rfl, rfl⟩
  | select hclock _ _ hcandidates _ =>
      have hquiet := h.quiet (.clock hclock)
      obtain ⟨hintact, ⟨listing, hfiles, hstart, horigin⟩, hlow, hhigh, hzone⟩ :=
        hquiet.phaseEffect
      subst hfiles
      exact ⟨hquiet.clock_le, hquiet.origin, hintact,
        ⟨listing, _, _, hstart, horigin, hcandidates⟩,
        (pairwise_sortedFiles listing).sublist
          (dropWhileThrows_suffix hcandidates).sublist, hlow, hhigh, hzone⟩
  | @ship base candidates last name world world' hlast hname hadded =>
      obtain ⟨hintact, hchosen, hsorted, hlow, hhigh, hzone⟩ := h.phaseEffect
      have hlocal : world'.localFiles t.serviceDir = world.localFiles t.serviceDir := by
        rw [World.localFiles, World.localFiles, hadded.localDirs_eq]
      refine ⟨h.clock_le.trans hadded.clock_eq.ge, ?_, candidates, last, name, base,
        hchosen.mono (by rw [hadded.received_eq]; exact fun _ h => h), hsorted, hlast, hname,
        Setting.suffix_targetName hname, hlow, hhigh.trans hadded.clock_eq.ge, hzone, ?_, ?_⟩
      · intro file hfile
        rw [hlocal] at hfile
        rw [hadded.received_eq]
        exact h.origin file hfile
      · rw [hadded.entries_path, hintact.sameDirs _ (t.hdfsDir_ne_tempDir base)]
      · intro path hbase htemp
        rw [hadded.entries_eq path hbase htemp, hintact.sameDirs path htemp]
  | fail hclock =>
      have hquiet := h.quiet (.clock hclock)
      exact ⟨hquiet.clock_le, hquiet.origin, hquiet.either, hquiet.clock_le, le_rfl, rfl⟩
  | cleanShipped _ _ => exact ⟨h.clock_le, h.origin, h.phaseEffect⟩
  | cleanOld =>
      obtain ⟨heither, hlow, hhigh, hzone⟩ := h.phaseEffect
      exact ⟨h.clock_le, h.origin, heither, _, hlow, hhigh, by rw [← hzone]⟩
  | @delete shipped limit files file time world _ htime hbefore =>
      cases shipped with
      | true => exact h.removeLocal (h.phaseEffect.mono le_rfl (fun _ h => h) fun _ _ => rfl)
      | false =>
          obtain ⟨heither, millis, hlow, hhigh, rfl⟩ := h.phaseEffect
          refine h.removeLocal ⟨heither.imp (fun hnot => ⟨hnot.1, ?_⟩) (fun hshipped =>
            hshipped.mono le_rfl (fun _ h => h) fun _ _ => rfl), millis, hlow, hhigh, rfl⟩
          -- The file that is deleted was too old at the time the cleanup began.
          intro other hother hrecent
          refine Setting.mem_removeLocal_iff.2 ⟨hnot.2 other hother hrecent, fun _ heq => ?_⟩
          obtain ⟨otherTime, hotherTime, hrecent⟩ := hrecent
          rw [heq, htime, Except.ok.injEq] at hotherTime
          have hnow := hrecent millis hlow hhigh
          rw [← hotherTime, hbefore] at hnow
          simp at hnow

end Steps

/-- The entries of a run that belong to one round, while nobody else places a file on HDFS. -/
def Setting.WithinRound (s : Setting) : s.actRounds.Label → Prop
  | .event (.place _ _) | .start => False
  | _ => True

instance (s : Setting) : DecidablePred s.WithinRound
  | .event (.place _ _) | .start => .isFalse id
  | .event (.advance _) | .event (.arrive _) | .event (.ensureDir _) | .event (.setFault _ _) |
    .event (.relist _) | .answer _ => .isTrue trivial

/-- Nothing but placing a file changes the files on HDFS. -/
theorem Setting.quiet_of_occurs {s : Setting} {event : Event} {world world' : World}
    (h : s.occurs event world = some world') (hplace : ∀ path entry, event ≠ .place path entry) :
    s.Quiet world world' := by
  cases event with
  | advance millis =>
      simp only [Setting.occurs] at h
      split at h
      · next hclock =>
          rw [← Option.some.inj h]
          exact .clock hclock
      · simp at h
  | arrive file =>
      simp only [Setting.occurs] at h
      split at h
      · next hparent =>
          rw [← Option.some.inj h]
          have hfiles : (world.receive file).localFiles s.serviceDir =
              world.localFiles s.serviceDir ++ [file] := localFiles_receive hparent
          refine ⟨le_rfl, ?_, ?_, fun _ h => List.mem_append_left _ h, fun _ _ => rfl⟩
          · rw [hfiles]
            exact fun _ h => List.mem_append_left _ h
          · rw [hfiles]
            intro other hother
            exact (List.mem_append.1 hother).imp_right (List.mem_append_right _)
      · simp at h
  | place path entry => exact absurd rfl (hplace path entry)
  | ensureDir path =>
      rw [← Option.some.inj h]
      exact ⟨le_rfl, fun _ h => h, fun _ h => .inl h, fun _ h => h,
        fun _ _ => World.entries_makeDirectory _⟩
  | setFault path fault =>
      rw [← Option.some.inj h]
      exact ⟨le_rfl, fun _ h => h, fun _ h => .inl h, fun _ h => h, fun _ _ => rfl⟩
  | relist path =>
      simp only [Setting.occurs, Barn.Hdfs.relist] at h
      split at h
      · next hanswer =>
          obtain ⟨rfl, _⟩ := answer_listStatus hanswer
          split at h
          · rw [← Option.some.inj h]
            exact ⟨le_rfl, fun _ h => h, fun _ h => .inl h, fun _ h => h, fun _ _ => rfl⟩
          · simp at h
      · simp at h

section Runs

variable {s : Setting} {start middle final : World} {kept : List File}

/-- The terms of a single round: nothing is assumed about the cache, the clock or the arrivals. -/
def Setting.anyTerms (s : Setting) : Terms where
  toSetting := s
  trusted := False
  mayRead := fun _ _ => True
  mayArrive := fun _ _ => True

/-- What can happen around a round while nobody else places a file on HDFS. -/
def Setting.Around (s : Setting) (world world' : World) : Prop :=
  Interference s.anyTerms world world' ∧ s.Quiet world world'

/-- The steps of one round and of what happens around it. -/
abbrev Setting.RoundRun (s : Setting) : Phase × machine.World → Phase × machine.World → Prop :=
  ReflTransGen (Rounds.SystemStep s.Around (fun _ _ => False) (RoundStep s.anyTerms))

/-- Every run of one round is a run of the protocol; a round that succeeds has shipped. -/
theorem actOnServiceDir_roundRun {labels : List s.actRounds.Label} {phase : Phase}
    {program program' : Program signature (Attempt Unit)} {world world' : World}
    (hround : ∀ label ∈ labels, s.WithinRound label)
    (hfollows : Follows (roundContract s.anyTerms)
      (fun result phase _ => result = .ok () → ∃ limit files, phase = .cleaning true limit files)
      program phase world)
    (hrun : s.actRounds.run labels (program, world) = some (program', world')) :
    ∃ phase', s.RoundRun (phase, world) (phase', world') ∧
      Follows (roundContract s.anyTerms)
        (fun result phase _ => result = .ok () → ∃ limit files, phase = .cleaning true limit files)
        program' phase' world' := by
  have hevent : ∀ event (program : Program signature (Attempt Unit)) before after,
      s.WithinRound (.event event) → s.actRounds.occurs event before = some after →
      s.Around before after ∧ Interference s.anyTerms before after := by
    intro event _ before after hwithin hoccurs
    have hplace : ∀ path entry, event ≠ .place path entry := by
      rintro path entry rfl
      exact hwithin
    have hhappens : s.anyTerms.Happens before after := by
      refine ⟨event, ?_, hoccurs⟩
      cases event with
      | place path entry => exact absurd rfl (hplace path entry)
      | _ => trivial
    exact ⟨⟨hhappens.interference, Setting.quiet_of_occurs hoccurs hplace⟩, hhappens.interference⟩
  exact Rounds.run_follows hevent (fun _ _ _ _ _ _ _ _ => trivial)
    (fun _ _ _ hstart _ => False.elim hstart) (Rounds.admits_of_forall hround _) hfollows hrun

/-- What happens in a round keeps to what its phases say. -/
theorem Setting.RoundRun.roundEffect {state state' : Phase × World} (h : s.RoundRun state state')
    (heffect : s.RoundEffect start kept state) : s.RoundEffect start kept state' :=
  Rounds.SystemStep.invariant (fun _ _ _ haround h => h.quiet haround.2)
    (fun _ _ hrestart => False.elim hrestart) (fun _ _ hstep h => hstep.roundEffect h) h heffect

/-- The rename is behind the round, or it has failed. -/
def Phase.Over : Phase → Prop
  | .shipped _ | .failed _ | .cleaning _ _ _ => True
  | _ => False

/-- After the rename a round does nothing more on HDFS, but for temporary files. -/
theorem Setting.RoundRun.sameDirs {state state' : Phase × World} (h : s.RoundRun state state')
    (hover : state.1.Over) : s.SameDirs state.2 state'.2 := by
  have hboth : state'.1.Over ∧ s.SameDirs state.2 state'.2 := by
    refine Rounds.SystemStep.invariant
      (motive := fun current => current.1.Over ∧ s.SameDirs state.2 current.2) ?_
      (fun _ _ hrestart => False.elim hrestart) ?_ h ⟨hover, fun _ _ => rfl⟩
    · exact fun phase world world' haround hboth =>
        ⟨hboth.1, hboth.2.trans haround.2.sameDirs⟩
    · intro current next hstep h
      obtain ⟨hover, hsame⟩ := h
      cases hstep with
      | internal hunobserved => exact ⟨hover, hsame.trans hunobserved.entries_eq⟩
      | fail _ => exact ⟨trivial, hsame⟩
      | cleanShipped _ _ => exact ⟨trivial, hsame⟩
      | cleanOld => exact ⟨trivial, hsame⟩
      | delete _ _ _ => exact ⟨trivial, hsame⟩
      | list => exact False.elim hover
      | look _ _ => exact False.elim hover
      | plan _ => exact False.elim hover
      | select _ _ _ _ _ => exact False.elim hover
      | ship _ _ _ => exact False.elim hover
  exact hboth.2

/-- A round that has shipped is past its rename. -/
theorem Setting.RoundEffect.over {state : Phase × World} (h : s.RoundEffect start kept state)
    (hshipped : s.ShippedOnce start state.2) : state.1.Over := by
  obtain ⟨_, _, _, base, _, _, _, _, _, _, _, _, hadded, _⟩ := hshipped
  have hchanged : ¬ s.SameDirs start state.2 := by
    intro hsame
    rw [hsame _ (s.hdfsDir_ne_tempDir base)] at hadded
    simp at hadded
  obtain ⟨phase, world⟩ := state
  have heffect := h.phaseEffect
  cases phase with
  | ready => exact absurd heffect.sameDirs hchanged
  | listed files => exact absurd heffect.1.sameDirs hchanged
  | looking files lookBack => exact absurd heffect.1.sameDirs hchanged
  | planning files lookBack base => exact absurd heffect.1.sameDirs hchanged
  | selected base candidates => exact absurd heffect.1.sameDirs hchanged
  | shipped candidates => trivial
  | failed now => trivial
  | cleaning shipped limit files => trivial

end Runs

end Barn.Hdfs
