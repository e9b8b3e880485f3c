import Barn.Hdfs.Shipping

/-!
# Shipping before the interval has passed

Before the interval has passed a round ships only if there is enough to ship, where the files that
are retained count, too. `actOnServiceDir_early` says when the files that have not been shipped are
enough on their own.
-/

namespace Barn.Hdfs

open Interaction

/-- The files with a greater taistamp than the last shipped one. -/
def unshipped (taistamp : Text) (files : List File) : List File :=
  files.filter fun file => taistamp < file.taistamp

namespace Setting

variable (s : Setting)

/-- The last shipped file that a round finds has this taistamp and this timestamp. -/
def LastShipped (clock : ClockUse → ℤ) (world : World) (files : List File) (taistamp : Text)
    (time : DateTime) : Prop :=
  ∃ minFileDate infos, earliestFileDate s.jvm files = .ok minFileDate ∧
    s.Finds (s.lookup world) (s.timeOf clock .planNextShip) (s.lookBackAt clock minFileDate) infos ∧
    getLastShippedTaistamp infos = some taistamp ∧ convertTai64ToTime s.jvm taistamp = .ok time

/-- Fewer seconds than the interval lie between the timestamp and now. -/
def TooEarly (clock : ClockUse → ℤ) (time : DateTime) : Prop :=
  clock .enoughTimePast - time.millis < s.barnConf.shipInterval * 1000

/-- Apart from the throttle nothing is in the way of a ship: there are candidates, the last of them
makes a name, and that name is free. -/
def Shippable (clock : ClockUse → ℤ) (world : World) (files : List File) (taistamp : Text) : Prop :=
  ∃ candidates last name,
    outstandingAt s.jvm files (some taistamp) (s.timeOf clock .outstandingFiles) = .ok candidates ∧
    lastCandidate candidates = .ok last ∧
    targetName s.jvm last.taistamp s.serviceInfo = .ok name ∧
    s.Free (s.timeOf clock .planNextShip) name world

end Setting

section Round

variable {s : Setting} {clock : ClockUse → ℤ} {world final : World} {listing : List File}

/-- The last shipped file that a round finds is known. -/
theorem Setting.LastShipped.unique {files : List File} {minFileDate : Option DateTime}
    {infos : List PlacedFileInfo} {taistamp : Text} {time : DateTime}
    (h : s.LastShipped clock world files taistamp time)
    (hdate : earliestFileDate s.jvm files = .ok minFileDate)
    (hfinds : s.Finds (s.lookup world) (s.timeOf clock .planNextShip)
      (s.lookBackAt clock minFileDate) infos) :
    getLastShippedTaistamp infos = some taistamp := by
  obtain ⟨minFileDate', infos', hdate', ⟨found', hfound', hinfos'⟩, htaistamp, _⟩ := h
  obtain ⟨found, hfound, hinfos⟩ := hfinds
  rw [hdate, Except.ok.injEq] at hdate'
  rw [← hdate', hfound, Except.ok.injEq] at hfound'
  rw [← hfound', hinfos, Except.ok.injEq] at hinfos'
  rw [hinfos', htaistamp]

/-- Choosing the candidates changes no files on HDFS. -/
theorem asks_selectCandidates :
    (selectCandidates s.jvm s.barnConf s.serviceDir s.serviceInfo).Asks s.Keeps := by
  have hcachingLs : ∀ path, (cachingLs s.jvm s.serviceDir path).Asks s.Keeps := by
    intro path
    refine Action.asks_bind (Action.asks_request trivial) fun cached => ?_
    cases cached with
    | some listing => exact Action.asks_attempt _
    | none =>
        refine Action.asks_bind (Action.asks_request trivial) fun _ => Action.asks_bind ?_ fun _ =>
          Action.asks_bind (Action.asks_request trivial) fun _ => Action.asks_attempt _
        exact Program.Asks.bind (Action.asks_validate (Program.Asks.bind
          (Action.asks_request trivial) fun _ => trivial)) fun _ => trivial
  have hsearch : ∀ targetDirs fuel first, (searchDirs s.jvm s.serviceDir s.serviceInfo targetDirs
      fuel first).Asks s.Keeps := by
    intro targetDirs fuel
    induction fuel with
    | zero => exact fun _ => Action.asks_attempt _
    | succ fuel ih =>
        intro first
        refine Action.asks_bind (Action.asks_attempt _) fun found => ?_
        cases found with
        | none => exact Action.asks_attempt _
        | some path =>
            refine Action.asks_bind (hcachingLs path) fun listing => ?_
            split
            · exact Action.asks_attempt _
            · exact ih _
  refine Action.asks_bind (asks_listSortedLocalFiles _ _ trivial) fun files => ?_
  refine Action.asks_bind (Action.asks_attempt _) fun minFileDate => ?_
  refine Action.asks_bind (asks_earliestLookbackDate _ _ _ trivial) fun lookBack => ?_
  refine Action.asks_bind ?_ fun plan => Action.asks_bind (asks_outstandingFiles _ _ _ trivial)
    fun _ => Action.asks_attempt _
  exact Action.asks_bind (Action.asks_request trivial) fun base =>
    Action.asks_bind (hsearch _ _ _) fun found => Action.asks_bind (Action.asks_attempt _) fun _ =>
      Action.asks_bind (Action.asks_attempt _) fun _ =>
        Action.asks_bind (asks_isShippingTime _ _ _ _ _ trivial) fun _ => Action.asks_attempt _

/-- A round changes files on HDFS exactly as far as it does before any cleanup. -/
theorem actOnServiceDir_ships_iff :
    (∃ result final, (actOnServiceDir s.jvm s.barnConf s.serviceDir).Yields clock world result
      final ∧ ¬s.SameEntries world final) ↔
    ∃ result final, (syncServiceDir s.jvm s.barnConf s.serviceDir).Yields clock world result
      final ∧ ¬s.SameEntries world final := by
  -- Whatever follows the synchronisation, files on HDFS stay as they are.
  have hcleanup : ∀ {middle last : World} {result : Attempt (ℤ × ℤ)},
      (cleanupAfterError s.jvm s.serviceDir).Yields clock middle result last →
      (s.SameEntries world last ↔ s.SameEntries world middle) := by
    intro middle last result hyields
    have hsame := sameEntries_of_asks (s := s)
      (asks_cleanupAfterError s.jvm s.serviceDir trivial trivial
      fun _ => trivial) hyields
    exact ⟨fun h path hpath => (hsame path hpath).symm.trans (h path hpath),
      fun h path hpath => (hsame path hpath).trans (h path hpath)⟩
  constructor
  · intro h
    obtain ⟨result, final, hyields, hships⟩ := h
    obtain ⟨synced, middle, hsync, hrest⟩ := runs_bind_iff.1 hyields
    refine ⟨synced, middle, hsync, ?_⟩
    match synced with
    | .ok _ | .error (.thrown _) =>
        rw [← (yields_attempt_iff.1 hrest).2]
        exact hships
    | .error (.left error) =>
        obtain ⟨_, cleaned, hclean, hleft⟩ := runs_bind_iff.1 hrest
        rw [(yields_attempt_iff.1 hleft).2] at hships
        exact fun hsame => hships ((hcleanup hclean).2 hsame)
  · intro h
    obtain ⟨result, middle, hsync, hships⟩ := h
    match result with
    | .ok _ | .error (.thrown _) =>
        exact ⟨_, middle, runs_bind_iff.2 ⟨_, _, hsync, .done _ _⟩, hships⟩
    | .error (.left error) =>
        obtain ⟨cleaned, final, hclean⟩ :=
          exists_yields clock (cleanupAfterError s.jvm s.serviceDir) middle
        exact ⟨.error (.left error), final, runs_bind_iff.2 ⟨_, _, hsync, runs_bind_iff.2
          ⟨cleaned, final, hclean, .done _ _⟩⟩, fun hsame => hships ((hcleanup hclean).1 hsame)⟩

/-- A round that ships before the interval has passed could do so, and the total size is more than
`maxReadySize`. -/
theorem total_of_early_ship (hlists : world.Lists s.serviceDir listing) {result : Attempt Unit}
    (h : (syncServiceDir s.jvm s.barnConf s.serviceDir).Yields clock world result final)
    (hships : ¬s.SameEntries world final) {taistamp : Text} {time : DateTime}
    (hlast : s.LastShipped clock world (sortedFiles listing) taistamp time)
    (hearly : s.TooEarly clock time) :
    maxReadySize < toLong (totalLength (sortedFiles listing)) ∧ Countable clock time ∧
      s.Shippable clock world (sortedFiles listing) taistamp := by
  rw [syncServiceDir_eq] at h
  rcases yields_bind_iff.1 h with ⟨selected, middle, hselect, hship⟩ | ⟨failure, hselect, _⟩
  · have hstart := sameEntries_of_asks asks_selectCandidates hselect
    rcases selectCandidates_yields hlists.localDirs_eq hselect with
      ⟨hvalue, _⟩ | ⟨⟨_, hleft⟩, _⟩ | ⟨⟨_, hthrown⟩, _⟩
    · obtain ⟨minFileDate, infos, hdate, hfinds, hcountable, hmay, hcandidates, hplan⟩ :=
        selectAt_eq_ok_iff.1 hvalue.symm
      have htaistamp := hlast.unique hdate hfinds
      obtain ⟨_, _, _, _, _, htime⟩ := hlast
      rw [htaistamp] at hcandidates
      refine ⟨?_, ?_, ?_⟩
      · exact (hmay taistamp time htaistamp htime).resolve_left (not_le.2 hearly)
      · obtain ⟨other, hother, hcounts⟩ := hcountable taistamp htaistamp
        rw [htime, Except.ok.injEq] at hother
        exact hother ▸ hcounts
      · rcases shipCandidates_entries (congrArg ShippingPlan.hdfsDir hplan)
          (congrArg ShippingPlan.hdfsTempDir hplan) hship with
          hsame | ⟨last, name, hlastCandidate, hname, hfree⟩
        · refine absurd (fun path hpath => ?_) hships
          exact (hsame path hpath).trans (hstart path hpath)
        · exact ⟨selected.2, last, name, hcandidates, hlastCandidate, hname,
            hstart.free_iff.1 hfree⟩
    · simp at hleft
    · simp at hthrown
  · exact absurd (sameEntries_of_asks asks_selectCandidates hselect) hships

/-- Conversely, such a round can ship. -/
theorem early_ship_of_total (hlists : world.Lists s.serviceDir listing) {taistamp : Text}
    {time : DateTime} (hlast : s.LastShipped clock world (sortedFiles listing) taistamp time)
    (htotal : maxReadySize < toLong (totalLength (sortedFiles listing)))
    (hcountable : Countable clock time)
    (hshippable : s.Shippable clock world (sortedFiles listing) taistamp) :
    ∃ result final, (syncServiceDir s.jvm s.barnConf s.serviceDir).Yields clock world result
      final ∧ ¬s.SameEntries world final := by
  obtain ⟨minFileDate, infos, hdate, hfinds, htaistamp, htime⟩ := hlast
  obtain ⟨candidates, last, name, hcandidates, hlastCandidate, hname, hfree⟩ := hshippable
  let plan : ShippingPlan :=
    ⟨s.hdfsDir (s.timeOf clock .planNextShip), s.tempDir, getLastShippedTaistamp infos⟩
  have hselected : s.selectAt (s.lookup world) (sortedFiles listing) clock =
      .ok (plan, candidates) := by
    refine selectAt_eq_ok_iff.2 ⟨minFileDate, infos, hdate, hfinds, fun other hother => ?_,
      fun _ _ _ _ => .inr htotal, by rw [htaistamp]; exact hcandidates, rfl⟩
    rw [htaistamp, Option.some.injEq] at hother
    exact ⟨time, hother ▸ htime, hcountable⟩
  obtain ⟨middle, hselect⟩ := selectCandidates_can_yield s clock hlists.localDirs_eq
  rw [hselected] at hselect
  have hstart := sameEntries_of_asks asks_selectCandidates hselect
  obtain ⟨before, file, after, hsplit, _, _, rfl⟩ := outstandingAt_eq_ok_iff.1 hcandidates
  rcases selectCandidates_yields hlists.localDirs_eq hselect with
    ⟨_, hprepared, _⟩ | ⟨⟨_, hleft⟩, _⟩ | ⟨⟨_, hthrown⟩, _⟩
  · obtain ⟨result, final, hship, hadds⟩ := shipCandidates_can_add
      (show plan.hdfsDir = s.hdfsDir (s.timeOf clock .planNextShip) from rfl)
      (show plan.hdfsTempDir = s.tempDir from rfl)
      (hprepared.candidates_mem hlists hsplit) hlastCandidate hname (hstart.free_iff.2 hfree)
    refine ⟨result, final, ?_, fun hsame => hadds fun path hpath => ?_⟩
    · rw [syncServiceDir_eq]
      exact yields_bind_iff.2 (.inl ⟨_, middle, hselect, hship⟩)
    · exact (hsame path hpath).trans (hstart path hpath).symm
  · simp at hleft
  · simp at hthrown

/-- Early ships are those of enough unshipped files exactly if, whenever the total size is more than
`maxReadySize` and nothing else is in the way, the unshipped files are. -/
theorem actOnServiceDir_early (hlists : world.Lists s.serviceDir listing) :
    (∀ result final, (actOnServiceDir s.jvm s.barnConf s.serviceDir).Yields clock world result
      final → ¬s.SameEntries world final →
      ∀ taistamp time, s.LastShipped clock world (sortedFiles listing) taistamp time →
        s.TooEarly clock time →
        maxReadySize < totalLength (unshipped taistamp (sortedFiles listing))) ↔
    ∀ taistamp time, s.LastShipped clock world (sortedFiles listing) taistamp time →
      s.TooEarly clock time → Countable clock time →
      s.Shippable clock world (sortedFiles listing) taistamp →
      maxReadySize < toLong (totalLength (sortedFiles listing)) →
      maxReadySize < totalLength (unshipped taistamp (sortedFiles listing)) := by
  constructor
  · intro h taistamp time hlast hearly hcountable hshippable htotal
    obtain ⟨result, final, hyields, hships⟩ := actOnServiceDir_ships_iff.2
      (early_ship_of_total hlists hlast htotal hcountable hshippable)
    exact h result final hyields hships taistamp time hlast hearly
  · intro h result final hyields hships taistamp time hlast hearly
    obtain ⟨synced, middle, hsync, hships'⟩ :=
      actOnServiceDir_ships_iff.1 ⟨result, final, hyields, hships⟩
    obtain ⟨htotal, hcountable, hshippable⟩ :=
      total_of_early_ship hlists hsync hships' hlast hearly
    exact h taistamp time hlast hearly hcountable hshippable htotal

end Round

section Sample

/-- A file of two gigabytes, which was shipped and is retained. -/
def retainedFile : File :=
  ⟨Setting.hourly.serviceDir, text "@4000000053724e0000000000.s", false, 2147483648⟩

/-- A file that was rotated half a minute later. -/
def newFile (length : ℕ) : File :=
  ⟨Setting.hourly.serviceDir, text "@4000000053724e1e00000000.s", false, length⟩

/-- Both are in the service directory, and the first is on HDFS. -/
def World.retaining (length : ℕ) : World :=
  { World.initial 0 with
    localDirs := Function.update (World.initial 0).localDirs Setting.hourly.serviceDir
      (some [retainedFile, newFile length])
    hdfs := Function.update (World.initial 0).hdfs placedFile.parent
      (some [⟨placedFile.getName, false, .combined [retainedFile]⟩]) }

/-- The clock stands still another half minute later. -/
def earlyClock : ClockUse → ℤ :=
  fun _ => 1400000000000

theorem lists_retaining (length : ℕ) :
    (World.retaining length).Lists Setting.hourly.serviceDir [retainedFile, newFile length] where
  localDirs_eq := by simp [World.retaining]
  parent_eq := by simp [retainedFile, newFile]
  names := show [text "@4000000053724e0000000000.s", text "@4000000053724e1e00000000.s"].Nodup by
    decide

theorem sortedFiles_retaining (length : ℕ) :
    sortedFiles [retainedFile, newFile length] = [retainedFile, newFile length] := by
  have hnames : excluded (text "@4000000053724e0000000000.s") = false ∧
      excluded (text "@4000000053724e1e00000000.s") = false := by decide
  have hpaths : retainedFile.path ≤ (newFile length).path :=
    show childPath Setting.hourly.serviceDir (text "@4000000053724e0000000000.s") ≤
      childPath Setting.hourly.serviceDir (text "@4000000053724e1e00000000.s") by decide +kernel
  have hkept : ([retainedFile, newFile length].filter fun file => !file.isDirectory).filter
      (fun file => !excluded file.getName) = [retainedFile, newFile length] := by
    simp [retainedFile, newFile, hnames]
  rw [sortedFiles, hkept]
  exact List.Pairwise.insertionSort_eq (by simpa using hpaths)

theorem earliestFileDate_retaining (length : ℕ) :
    earliestFileDate Setting.hourly.jvm [retainedFile, newFile length] =
      .ok (some ⟨1399999965000, .utc⟩) := by
  have htime : fileTime .utc retainedFile = .ok ⟨1399999965000, .utc⟩ :=
    convertTai64ToTime_of_millis (show _ = some 1399999965000 by decide)
  show (svlogdFileTimestamp .utc retainedFile).map some = _
  rw [svlogdFileTimestamp, htime]
  rfl

theorem finds_retaining (length : ℕ) :
    Setting.hourly.Finds (Setting.hourly.lookup (World.retaining length))
      (Setting.hourly.timeOf earlyClock .planNextShip) ⟨1399999965000, .utc⟩ [placedFileInfo] := by
  have hfound : Setting.hourly.searchWith (Setting.hourly.lookup (World.retaining 0))
      (Setting.hourly.timeOf earlyClock .planNextShip) ⟨1399999965000, .utc⟩
      (targetDirsBound (Setting.hourly.timeOf earlyClock .planNextShip) ⟨1399999965000, .utc⟩) 0 =
        .ok (some (.ok [placedFileInfo])) := by
    decide
  exact ⟨_, hfound, rfl⟩

/-- What was shipped last is known. -/
theorem lastShipped_retaining (length : ℕ) :
    Setting.hourly.LastShipped earlyClock (World.retaining length)
      [retainedFile, newFile length] (text "4000000053724e0000000000") ⟨1399999965000, .utc⟩ := by
  refine ⟨_, [placedFileInfo], earliestFileDate_retaining length, finds_retaining length, rfl, ?_⟩
  exact convertTai64ToTime_of_millis (show _ = some 1399999965000 by decide)

/-- The new file can be shipped. -/
theorem shippable_retaining (length : ℕ) :
    Setting.hourly.Shippable earlyClock (World.retaining length)
      (sortedFiles [retainedFile, newFile length]) (text "4000000053724e0000000000") := by
  have houtstanding : outstandingAt .utc [retainedFile, newFile length]
      (some (text "4000000053724e0000000000")) ⟨1400000000000, .utc⟩ = .ok [newFile length] := by
    rfl
  have hname : targetName .utc (text "4000000053724e1e00000000") Setting.hourly.serviceInfo =
      .ok (text "2014,05,13,web,node1,4000000053724e1e00000000.seq") := by
    decide
  have hfree : Setting.hourly.Free (Setting.hourly.timeOf earlyClock .planNextShip)
      (text "2014,05,13,web,node1,4000000053724e1e00000000.seq") (World.retaining 0) := by
    unfold Setting.Free
    decide
  rw [sortedFiles_retaining]
  exact ⟨[newFile length], newFile length, _, houtstanding, rfl, hname, hfree⟩

/-- It is, early, if both are big enough together. -/
theorem ships_retaining (length : ℕ)
    (htotal : maxReadySize < toLong (totalLength [retainedFile, newFile length])) :
    ∃ result final, (actOnServiceDir Setting.hourly.jvm Setting.hourly.barnConf
      Setting.hourly.serviceDir).Yields earlyClock (World.retaining length) result final ∧
      ¬Setting.hourly.SameEntries (World.retaining length) final := by
  have hlast := lastShipped_retaining length
  have hcountable : Countable earlyClock ⟨1399999965000, .utc⟩ := ⟨by decide, by decide⟩
  rw [← sortedFiles_retaining] at hlast htotal
  exact actOnServiceDir_ships_iff.2
    (early_ship_of_total (lists_retaining length) hlast htotal hcountable
      (shippable_retaining length))

/-- A round ships the new file early. -/
theorem actOnServiceDir_early_big :
    (∃ result final, (actOnServiceDir Setting.hourly.jvm Setting.hourly.barnConf
      Setting.hourly.serviceDir).Yields earlyClock (World.retaining 2147483648) result final ∧
      ¬Setting.hourly.SameEntries (World.retaining 2147483648) final) ∧
    ∀ result final, (actOnServiceDir Setting.hourly.jvm Setting.hourly.barnConf
      Setting.hourly.serviceDir).Yields earlyClock (World.retaining 2147483648) result final →
      ¬Setting.hourly.SameEntries (World.retaining 2147483648) final →
      ∀ taistamp time, Setting.hourly.LastShipped earlyClock (World.retaining 2147483648)
        (sortedFiles [retainedFile, newFile 2147483648]) taistamp time →
        Setting.hourly.TooEarly earlyClock time → maxReadySize <
          totalLength (unshipped taistamp (sortedFiles [retainedFile, newFile 2147483648])) := by
  refine ⟨ships_retaining 2147483648 (by decide),
    (actOnServiceDir_early (lists_retaining 2147483648)).2 ?_⟩
  rw [sortedFiles_retaining]
  intro taistamp time hlast _ _ _ _
  have htaistamp := hlast.unique (earliestFileDate_retaining 2147483648)
    (finds_retaining 2147483648)
  rw [← Option.some.inj htaistamp]
  decide

/-- Ten new bytes are shipped early, too, if what is retained is big enough. -/
theorem actOnServiceDir_early_small :
    ∃ result final, (actOnServiceDir Setting.hourly.jvm Setting.hourly.barnConf
      Setting.hourly.serviceDir).Yields earlyClock (World.retaining 10) result final ∧
      ¬Setting.hourly.SameEntries (World.retaining 10) final ∧
      ∃ taistamp time, Setting.hourly.LastShipped earlyClock (World.retaining 10)
        (sortedFiles [retainedFile, newFile 10]) taistamp time ∧
        Setting.hourly.TooEarly earlyClock time ∧ ¬maxReadySize <
          totalLength (unshipped taistamp (sortedFiles [retainedFile, newFile 10])) := by
  have hlast := lastShipped_retaining 10
  rw [← sortedFiles_retaining] at hlast
  have hearly : Setting.hourly.TooEarly earlyClock ⟨1399999965000, .utc⟩ := by
    unfold Setting.TooEarly
    decide
  obtain ⟨result, final, hyields, hships⟩ := ships_retaining 10 (by decide)
  refine ⟨result, final, hyields, hships, _, _, hlast, hearly, ?_⟩
  rw [sortedFiles_retaining]
  decide

end Sample

end Barn.Hdfs
