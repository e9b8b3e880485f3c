import Barn.Hdfs.Retention
import Barn.Hdfs.Throttle

/-!
# A round on its own

What a round does when nothing interferes, as a function of the files, the listings it looks at and
the times at which it reads the clock. A round selects candidates (`selectCandidates`,
`selectAt`) and then ships them; `syncServiceDir_eq` puts the two together.
-/

namespace Barn.Hdfs

open Interaction

/-- The part of a round up to the candidates. -/
def selectCandidates (jvm : Jvm) (barnConf : BarnConf) (serviceDir : Dir)
    (serviceInfo : LocalServiceInfo) : Action (ShippingPlan × List File) := do
  let localFiles ← listSortedLocalFiles jvm serviceDir
  let minFileDate ← Action.attempt (earliestFileDate jvm localFiles)
  let lookBack ← earliestLookbackDate jvm minFileDate maxLookBackDays
  let plan ← planNextShip jvm serviceDir serviceInfo (sumFileSizes localFiles) maxReadySize
    barnConf.hdfsLogDir barnConf.shipInterval lookBack
  let candidates ← outstandingFiles jvm localFiles plan.lastTaistamp
  return (plan, candidates)

/-- A round selects candidates and ships them. -/
theorem syncServiceDir_eq (s : Setting) :
    syncServiceDir s.jvm s.barnConf s.serviceDir =
      (selectCandidates s.jvm s.barnConf s.serviceDir s.serviceInfo >>= fun selected =>
        shipCandidates s.jvm s.barnConf s.serviceDir s.serviceInfo selected.1 selected.2) := by
  simp only [syncServiceDir, selectCandidates, s.decodes, ofListing, Action.attempt_ok_bind,
    Action.bind_assoc]
  rfl

namespace Setting

variable (s : Setting)

/-- How far the search looks back. -/
def lookBackAt (clock : ClockUse → ℤ) (minFileDate : Option DateTime) : DateTime :=
  lookBackDate minFileDate ((s.timeOf clock .earliestLookbackDate).minusDays maxLookBackDays)

/-- The candidates, as a function of the files, the lookups and the clock. -/
def selectAt (lookup : HdfsDir → CachedListing) (files : List File) (clock : ClockUse → ℤ) :
    Attempt (ShippingPlan × List File) := do
  let minFileDate ← earliestFileDate s.jvm files
  let plan ← s.planAt lookup (sumFileSizes files) maxReadySize (s.lookBackAt clock minFileDate)
    (s.timeOf clock .planNextShip) (s.timeOf clock .enoughTimePast)
  let candidates ← outstandingAt s.jvm files plan.lastTaistamp (s.timeOf clock .outstandingFiles)
  return (plan, candidates)

/-- The search finds these files of the service. -/
def Finds (lookup : HdfsDir → CachedListing) (base lookBack : DateTime)
    (infos : List PlacedFileInfo) : Prop :=
  ∃ found, s.searchWith lookup base lookBack (targetDirsBound base lookBack) 0 = .ok found ∧
    ofListing (found.getD (.ok [])) = .ok infos

/-- The search comes to a directory that is not cached, though the file system has yet to be
created. -/
def Disconnected (clock : ClockUse → ℤ) (world : World) (files : List File) : Prop :=
  world.fileSystems s.serviceDir = false ∧ ∃ minFileDate,
    earliestFileDate s.jvm files = .ok minFileDate ∧
      s.Uncached world (s.timeOf clock .planNextShip) (s.lookBackAt clock minFileDate) 0

end Setting

section Select

variable {s : Setting} {clock : ClockUse → ℤ} {world final : World} {listing : List File}

/-- Listing the service directory yields its files or fails with a `Left`. -/
theorem yields_listSortedLocalFiles_iff (hlisting : world.localDirs s.serviceDir = some listing)
    {value : Attempt (List File)} :
    (listSortedLocalFiles s.jvm s.serviceDir).Yields clock world value final ↔
      (value = .ok (sortedFiles listing) ∨ ∃ throwable, value = .error (.left (caught s.jvm
        (text "Can't list local files on: " ++ s.serviceDir) throwable))) ∧ final = world := by
  have hlist : ∀ (reply : Attempt (Option (List File))) after,
      (Action.listFiles s.serviceDir).Yields clock world reply after ↔
        (reply = .ok (some listing) ∨ ∃ throwable, reply = .error (.thrown throwable)) ∧
          after = world := by
    intro reply after
    refine (yields_request_iff (by simp)).trans ?_
    constructor
    · rintro ⟨outcome, answered, h, rfl⟩
      cases outcome <;> simp only [answer] at h
      case ok =>
        obtain ⟨rfl, rfl⟩ := answer_parts h
        exact ⟨.inl (by rw [hlisting]; rfl), rfl⟩
      case fails throwable =>
        obtain ⟨rfl, rfl⟩ := answer_parts h
        exact ⟨.inr ⟨throwable, rfl⟩, rfl⟩
      all_goals simp at h
    · rintro ⟨rfl | ⟨throwable, rfl⟩, rfl⟩
      · exact ⟨.ok, .ok (after.localDirs s.serviceDir), rfl, by rw [hlisting]; rfl⟩
      · exact ⟨.fails throwable, .error throwable, rfl, rfl⟩
  rw [listSortedLocalFiles, yields_validate_iff]
  constructor
  · rintro ⟨inner, hinner, rfl⟩
    rcases yields_bind_iff.1 hinner with ⟨reply, middle, hreply, hrest⟩ | ⟨failure, hreply, rfl⟩
    · obtain ⟨hok | ⟨_, hthrown⟩, rfl⟩ := (hlist _ _).1 hreply
      · rw [Except.ok.inj hok] at hrest
        obtain ⟨rfl, rfl⟩ := yields_pure_iff.1 hrest
        exact ⟨.inl rfl, rfl⟩
      · simp at hthrown
    · obtain ⟨hok | ⟨throwable, hthrown⟩, rfl⟩ := (hlist _ _).1 hreply
      · simp at hok
      · rw [Except.error.inj hthrown]
        exact ⟨.inr ⟨throwable, rfl⟩, rfl⟩
  · rintro ⟨rfl | ⟨throwable, rfl⟩, rfl⟩
    · exact ⟨_, yields_bind_iff.2 (.inl ⟨some listing, final, (hlist _ _).2 ⟨.inl rfl, rfl⟩,
        yields_pure_iff.2 ⟨rfl, rfl⟩⟩), rfl⟩
    · exact ⟨_, yields_bind_iff.2 (.inr ⟨.thrown throwable, (hlist _ _).2 ⟨.inr ⟨_, rfl⟩, rfl⟩,
        rfl⟩), rfl⟩

/-- How far to look back depends on the clock. -/
theorem yields_earliestLookbackDate_iff {minFileDate : Option DateTime} {value : Attempt DateTime} :
    (earliestLookbackDate s.jvm minFileDate maxLookBackDays).Yields clock world value final ↔
      value = .ok (s.lookBackAt clock minFileDate) ∧
        final = { world with clock := clock .earliestLookbackDate } := by
  rw [earliestLookbackDate, yields_bind_iff]
  constructor
  · rintro (⟨now, middle, hnow, hrest⟩ | ⟨failure, hnow, rfl⟩)
    · obtain ⟨hvalue, rfl⟩ := yields_now_iff.1 hnow
      rw [Except.ok.inj hvalue] at hrest
      exact yields_pure_iff.1 hrest
    · simp at hnow
  · rintro ⟨rfl, rfl⟩
    exact .inl ⟨_, _, yields_now_iff.2 ⟨rfl, rfl⟩, yields_pure_iff.2 ⟨rfl, rfl⟩⟩

/-- Which files are outstanding depends on the clock. -/
theorem yields_outstandingFiles_iff {files : List File} {lastTaistamp : Option Text}
    {value : Attempt (List File)} :
    (outstandingFiles s.jvm files lastTaistamp).Yields clock world value final ↔
      value = outstandingAt s.jvm files lastTaistamp (s.timeOf clock .outstandingFiles) ∧
        final = { world with clock := clock .outstandingFiles } := by
  rw [outstandingFiles_eq, yields_bind_iff]
  constructor
  · rintro (⟨now, middle, hnow, hrest⟩ | ⟨failure, hnow, rfl⟩)
    · obtain ⟨hvalue, rfl⟩ := yields_now_iff.1 hnow
      rw [Except.ok.inj hvalue] at hrest
      exact yields_attempt_iff.1 hrest
    · simp at hnow
  · rintro ⟨rfl, rfl⟩
    exact .inl ⟨_, _, yields_now_iff.2 ⟨rfl, rfl⟩, yields_attempt_iff.2 ⟨rfl, rfl⟩⟩

/-- Selecting yields what `selectAt` says, unless the files cannot be listed or the file system
cannot be created. -/
theorem selectCandidates_yields (hlisting : world.localDirs s.serviceDir = some listing)
    {value : Attempt (ShippingPlan × List File)}
    (h : (selectCandidates s.jvm s.barnConf s.serviceDir s.serviceInfo).Yields clock world value
      final) :
    (value = s.selectAt (s.lookup world) (sortedFiles listing) clock ∧ s.Prepared world final ∧
      (final.fileSystems s.serviceDir = true → world.fileSystems s.serviceDir = true ∨
        s.Disconnected clock world (sortedFiles listing))) ∨
      ((∃ error, value = .error (.left error)) ∧ final = world) ∨
      (∃ throwable, value = .error (.thrown throwable)) ∧
        s.Disconnected clock world (sortedFiles listing) := by
  have hticked : ∀ (world : World) millis, s.Prepared world { world with clock := millis } :=
    fun world millis => ⟨rfl, rfl, id⟩
  rw [selectCandidates] at h
  rcases yields_bind_iff.1 h with ⟨files, start, hlist, hlisted⟩ | ⟨failure, hlist, rfl⟩
  · obtain ⟨hfiles | ⟨_, hleft⟩, rfl⟩ := (yields_listSortedLocalFiles_iff hlisting).1 hlist
    · rw [Except.ok.inj hfiles] at hlisted
      unfold Setting.selectAt
      rcases yields_bind_iff.1 hlisted with
        ⟨minFileDate, start, hdate, hdated⟩ | ⟨failure, hdate, rfl⟩
      · obtain ⟨hearliest, rfl⟩ := yields_attempt_iff.1 hdate
        simp only [← hearliest, bind, Except.bind]
        rcases yields_bind_iff.1 hdated with
          ⟨lookBack, looking, hlook, hlooked⟩ | ⟨failure, hlook, rfl⟩
        · obtain ⟨hlookBack, rfl⟩ := yields_earliestLookbackDate_iff.1 hlook
          rw [Except.ok.inj hlookBack] at hlooked
          -- The file system is created only if the search comes to a directory that the cache
          -- lacks.
          have hconnected : ∀ {after : World}, (after.fileSystems s.serviceDir = true →
              start.fileSystems s.serviceDir = true ∨ s.Uncached start
                (s.timeOf clock .planNextShip) (s.lookBackAt clock minFileDate) 0) →
              after.fileSystems s.serviceDir = true → start.fileSystems s.serviceDir = true ∨
                s.Disconnected clock start (sortedFiles listing) := by
            intro after hafter htrue
            by_cases hfs : start.fileSystems s.serviceDir = true
            · exact .inl hfs
            · exact .inr ⟨by simpa using hfs, minFileDate, hearliest.symm,
                (hafter htrue).resolve_left hfs⟩
          rcases yields_bind_iff.1 hlooked with
            ⟨plan, planned, hplan, hplanned⟩ | ⟨failure, hplan, rfl⟩
          · -- The plan is found: the selection of files is left, which touches nothing of the
            -- world.
            rcases planNextShip_yields hplan with ⟨hat, hprepared, hfs⟩ | ⟨⟨_, hthrown⟩, _⟩
            · replace hat : .ok plan = s.planAt (s.lookup start) _ _ _ _ _ := hat
              rw [← hat]
              rcases yields_bind_iff.1 hplanned with
                ⟨candidates, selected, hselect, hselected⟩ | ⟨failure, hselect, rfl⟩
              · obtain ⟨hcandidates, rfl⟩ := yields_outstandingFiles_iff.1 hselect
                obtain ⟨rfl, rfl⟩ := yields_pure_iff.1 hselected
                refine .inl ⟨?_, ((hticked _ _).trans hprepared).trans (hticked _ _),
                  hconnected hfs⟩
                dsimp only
                rw [← hcandidates]
                rfl
              · obtain ⟨hcandidates, rfl⟩ := yields_outstandingFiles_iff.1 hselect
                refine .inl ⟨?_, ((hticked _ _).trans hprepared).trans (hticked _ _),
                  hconnected hfs⟩
                dsimp only
                rw [← hcandidates]
            · simp at hthrown
          · -- No plan: an error of the planner, or the file system could not be created.
            rcases planNextShip_yields hplan with
              ⟨hat, hprepared, hfs⟩ | ⟨⟨throwable, hthrown⟩, hfs, huncached⟩
            · replace hat : .error failure = s.planAt (s.lookup start) _ _ _ _ _ := hat
              rw [← hat]
              exact .inl ⟨rfl, (hticked _ _).trans hprepared, hconnected hfs⟩
            · rw [Except.error.inj hthrown]
              exact .inr (.inr ⟨⟨throwable, rfl⟩, hfs, minFileDate, hearliest.symm, huncached⟩)
        · obtain ⟨hlookBack, _⟩ := yields_earliestLookbackDate_iff.1 hlook
          simp at hlookBack
      · obtain ⟨hearliest, rfl⟩ := yields_attempt_iff.1 hdate
        rw [← hearliest]
        exact .inl ⟨rfl, .refl _, .inl⟩
    · simp at hleft
  · obtain ⟨hfiles | ⟨throwable, hleft⟩, rfl⟩ := (yields_listSortedLocalFiles_iff hlisting).1 hlist
    · simp at hfiles
    · rw [Except.error.inj hleft]
      exact .inr (.inl ⟨⟨_, rfl⟩, rfl⟩)

/-- A plan is made of what the search finds if the throttle can count and has no reason to stop the
ship. -/
theorem planAt_eq_ok_iff {lookup : HdfsDir → CachedListing} {totalReadySize maxReadySize : ℤ}
    {lookBack base : DateTime} {plan : ShippingPlan} :
    s.planAt lookup totalReadySize maxReadySize lookBack base (s.timeOf clock .enoughTimePast) =
        .ok plan ↔
      ∃ infos, s.Finds lookup base lookBack infos ∧ s.LastCountable clock infos ∧
        s.MayShip clock totalReadySize maxReadySize infos ∧
        plan = ⟨s.hdfsDir base, s.tempDir, getLastShippedTaistamp infos⟩ := by
  have hpass : ∀ infos, (∃ last, lastShippedTime s.jvm (getLastShippedTaistamp infos) = .ok last ∧
      s.throttleAt last totalReadySize maxReadySize (s.timeOf clock .enoughTimePast) = .ok ()) ↔
      s.LastCountable clock infos ∧ s.MayShip clock totalReadySize maxReadySize infos := by
    intro infos
    simp only [throttleAt_eq_ok_iff]
    unfold Setting.LastCountable Setting.MayShip
    cases getLastShippedTaistamp infos with
    | none => simp [lastShippedTime]
    | some taistamp =>
        cases htime : convertTai64ToTime s.jvm taistamp with
        | error throwable => simp [lastShippedTime, htime, Except.map]
        | ok time =>
            simp only [lastShippedTime, htime, Except.map, Except.ok.injEq, exists_eq_left',
              Option.some.injEq, forall_eq']
            refine and_congr Iff.rfl ⟨?_, fun hship => hship taistamp time rfl htime⟩
            rintro hship _ other rfl hother
            rw [htime, Except.ok.injEq] at hother
            exact hother ▸ hship
  simp only [Setting.planAt, Setting.planFrom, bind_eq_ok_iff, bare_eq_ok_iff]
  constructor
  · intro h
    obtain ⟨found, hfound, infos, hinfos, last, hlast, _, hthrottle, hplan⟩ := h
    obtain ⟨hcountable, hship⟩ := (hpass infos).1 ⟨last, hlast, hthrottle⟩
    exact ⟨infos, ⟨found, hfound, hinfos⟩, hcountable, hship, (Except.ok.inj hplan).symm⟩
  · rintro ⟨infos, ⟨found, hfound, hinfos⟩, hcountable, hship, rfl⟩
    obtain ⟨last, hlast, hthrottle⟩ := (hpass infos).2 ⟨hcountable, hship⟩
    exact ⟨found, hfound, infos, hinfos, last, hlast, (), hthrottle, rfl⟩

/-- What is selected is what `selectAt` says, where the plan lets the ship pass. -/
theorem selectAt_eq_ok_iff {lookup : HdfsDir → CachedListing} {files : List File}
    {selected : ShippingPlan × List File} :
    s.selectAt lookup files clock = .ok selected ↔
      ∃ minFileDate infos, earliestFileDate s.jvm files = .ok minFileDate ∧
        s.Finds lookup (s.timeOf clock .planNextShip) (s.lookBackAt clock minFileDate) infos ∧
        s.LastCountable clock infos ∧
        s.MayShip clock (toLong (totalLength files)) maxReadySize infos ∧
        outstandingAt s.jvm files (getLastShippedTaistamp infos)
          (s.timeOf clock .outstandingFiles) = .ok selected.2 ∧
        selected.1 = ⟨s.hdfsDir (s.timeOf clock .planNextShip), s.tempDir,
          getLastShippedTaistamp infos⟩ := by
  simp only [Setting.selectAt, bind_eq_ok_iff, planAt_eq_ok_iff, sumFileSizes_eq]
  constructor
  · rintro ⟨minFileDate, hdate, plan, ⟨infos, hfinds, hcountable, hship, rfl⟩, candidates,
      hselected, hok⟩
    obtain rfl := Except.ok.inj hok
    exact ⟨minFileDate, infos, hdate, hfinds, hcountable, hship, hselected, rfl⟩
  · intro h
    obtain ⟨minFileDate, infos, hdate, hfinds, hcountable, hship, hselected, hplan⟩ := h
    refine ⟨minFileDate, hdate, selected.1, ⟨infos, hfinds, hcountable, hship, hplan⟩, selected.2,
      ?_, rfl⟩
    rw [hplan]
    exact hselected

/-- Candidates are files of the service directory. -/
theorem Setting.Prepared.candidates_mem {middle : World} {before after : List File} {file : File}
    (h : s.Prepared world middle) (hlists : world.Lists s.serviceDir listing)
    (hsplit : sortedFiles listing = before ++ file :: after) :
    ∀ candidate ∈ file :: after, candidate ∈ middle.localFiles candidate.parent := by
  intro candidate hcandidate
  have hmem : candidate ∈ listing :=
    mem_of_mem_sortedFiles (hsplit ▸ List.mem_append_right _ hcandidate)
  rw [hlists.parent_eq candidate hmem, World.localFiles, h.rest_eq]
  show candidate ∈ (world.localDirs s.serviceDir).getD []
  rw [hlists.localDirs_eq]
  exact hmem

/-- Selecting can yield that. -/
theorem selectCandidates_can_yield (s : Setting) (clock : ClockUse → ℤ)
    (hlisting : world.localDirs s.serviceDir = some listing) :
    ∃ final, (selectCandidates s.jvm s.barnConf s.serviceDir s.serviceInfo).Yields clock world
      (s.selectAt (s.lookup world) (sortedFiles listing) clock) final := by
  have hlist : (listSortedLocalFiles s.jvm s.serviceDir).Yields clock world
      (.ok (sortedFiles listing)) world :=
    (yields_listSortedLocalFiles_iff hlisting).2 ⟨.inl rfl, rfl⟩
  unfold Setting.selectAt selectCandidates
  cases hdate : earliestFileDate s.jvm (sortedFiles listing) with
  | error failure =>
      exact ⟨world, yields_bind_iff.2 (.inl ⟨_, _, hlist, yields_bind_iff.2
        (.inr ⟨failure, yields_attempt_iff.2 ⟨hdate.symm, rfl⟩, rfl⟩)⟩)⟩
  | ok minFileDate =>
      simp only [bind, Except.bind]
      have hstart : ∀ {value final}, Action.Yields clock (do
          let plan ← planNextShip s.jvm s.serviceDir s.serviceInfo
            (sumFileSizes (sortedFiles listing)) maxReadySize s.barnConf.hdfsLogDir
            s.barnConf.shipInterval (s.lookBackAt clock minFileDate)
          let candidates ← outstandingFiles s.jvm (sortedFiles listing) plan.lastTaistamp
          return (plan, candidates))
          { world with clock := clock .earliestLookbackDate } value final →
          (selectCandidates s.jvm s.barnConf s.serviceDir s.serviceInfo).Yields clock world value
            final := fun h =>
        yields_bind_iff.2 (.inl ⟨_, _, hlist, yields_bind_iff.2 (.inl ⟨minFileDate, world,
          yields_attempt_iff.2 ⟨hdate.symm, rfl⟩, yields_bind_iff.2 (.inl ⟨_, _,
            yields_earliestLookbackDate_iff.2 ⟨rfl, rfl⟩, h⟩)⟩)⟩)
      obtain ⟨planned, hplan⟩ := planNextShip_can_yield s clock
        (sumFileSizes (sortedFiles listing)) maxReadySize (s.lookBackAt clock minFileDate)
        { world with clock := clock .earliestLookbackDate }
      replace hplan : Action.Yields clock _ _ (s.planAt (s.lookup world) _ _ _ _ _) planned := hplan
      cases hplanned : s.planAt (s.lookup world) (sumFileSizes (sortedFiles listing)) maxReadySize
          (s.lookBackAt clock minFileDate) (s.timeOf clock .planNextShip)
          (s.timeOf clock .enoughTimePast) with
      | error failure =>
          rw [hplanned] at hplan
          exact ⟨planned, hstart (yields_bind_iff.2 (.inr ⟨failure, hplan, rfl⟩))⟩
      | ok plan =>
          rw [hplanned] at hplan
          dsimp only
          cases hselected : outstandingAt s.jvm (sortedFiles listing) plan.lastTaistamp
              (s.timeOf clock .outstandingFiles) with
          | error failure =>
              exact ⟨_, hstart (yields_bind_iff.2 (.inl ⟨plan, planned, hplan, yields_bind_iff.2
                (.inr ⟨failure, yields_outstandingFiles_iff.2 ⟨hselected.symm, rfl⟩, rfl⟩)⟩))⟩
          | ok candidates =>
              exact ⟨_, hstart (yields_bind_iff.2 (.inl ⟨plan, planned, hplan, yields_bind_iff.2
                (.inl ⟨candidates, _, yields_outstandingFiles_iff.2 ⟨hselected.symm, rfl⟩,
                  yields_pure_iff.2 ⟨rfl, rfl⟩⟩)⟩))⟩

/-- Without the file system an exception can escape. -/
theorem selectCandidates_can_throw (hlisting : world.localDirs s.serviceDir = some listing)
    (h : s.Disconnected clock world (sortedFiles listing)) :
    ∃ throwable final, (selectCandidates s.jvm s.barnConf s.serviceDir s.serviceInfo).Yields clock
      world (.error (.thrown throwable)) final := by
  obtain ⟨hfs, minFileDate, hdate, huncached⟩ := h
  obtain ⟨throwable, final, hplan⟩ : ∃ throwable final, (planNextShip s.jvm s.serviceDir
      s.serviceInfo (sumFileSizes (sortedFiles listing)) maxReadySize s.barnConf.hdfsLogDir
      s.barnConf.shipInterval (s.lookBackAt clock minFileDate)).Yields clock
        { world with clock := clock .earliestLookbackDate } (.error (.thrown throwable)) final :=
    planNextShip_can_throw _ _ hfs huncached
  exact ⟨throwable, final, yields_bind_iff.2 (.inl ⟨_, _,
    (yields_listSortedLocalFiles_iff hlisting).2 ⟨.inl rfl, rfl⟩, yields_bind_iff.2 (.inl
      ⟨minFileDate, world, yields_attempt_iff.2 ⟨hdate.symm, rfl⟩, yields_bind_iff.2 (.inl ⟨_, _,
        yields_earliestLookbackDate_iff.2 ⟨rfl, rfl⟩,
        yields_bind_iff.2 (.inr ⟨_, hplan, rfl⟩)⟩)⟩)⟩)⟩

end Select

end Barn.Hdfs
