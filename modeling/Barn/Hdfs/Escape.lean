import Barn.Hdfs.Days
import Barn.Hdfs.Shipping

/-!
# Exceptions that escape from a round

`Harm` lists what lets an exception escape from a round, and `actOnServiceDir_returns` says that
without any of it a round ends with a `Left` or a `Right`. One file with a name that is not one of
svlogd's is harm enough (`actOnServiceDir_throws`).
-/

namespace Barn.Hdfs

open Interaction

/-- An exception escapes. -/
def Escapes {α : Type} (result : Attempt α) : Prop :=
  ∃ throwable, result = .error (.thrown throwable)

section Attempts

variable {α β : Type}

@[simp] theorem not_escapes_ok {value : α} : ¬Escapes (.ok value : Attempt α) := by
  simp [Escapes]

@[simp] theorem not_escapes_left {error : BarnError} :
    ¬Escapes (.error (.left error) : Attempt α) := by
  simp [Escapes]

/-- An exception escapes from a sequence where one escapes from a part of it. -/
theorem escapes_bind_iff {first : Attempt α} {rest : α → Attempt β} :
    Escapes (first >>= rest) ↔
      Escapes first ∨ ∃ value, first = .ok value ∧ Escapes (rest value) := by
  cases first with
  | error failure => simp [Escapes, bind, Except.bind]
  | ok value => simp [bind, Except.bind]

/-- From a bare call every exception escapes. -/
theorem escapes_bare_iff {result : Throws α} :
    Escapes (bare result) ↔ ¬∃ value, result = .ok value := by
  cases result <;> simp [Escapes, bare]

/-- From a listing none does. -/
theorem not_escapes_ofListing {listing : Except BarnError α} : ¬Escapes (ofListing listing) := by
  cases listing <;> simp [ofListing]

end Attempts

section Search

variable {s : Setting} {lookup : HdfsDir → CachedListing} {base lookBack : DateTime}

/-- The search fails where a midnight that it comes to does not exist. -/
theorem escapes_searchWith_iff {fuel first : ℕ} :
    Escapes (s.searchWith lookup base lookBack fuel first) ↔
      ∃ count throwable, first ≤ count ∧ count < first + fuel ∧
        (∀ before, first ≤ before → before < count → s.Passes lookup base lookBack before) ∧
        s.searched base lookBack count = .error throwable := by
  -- On the directories left to search, from the first one on.
  induction fuel generalizing first with
  | zero =>
      constructor
      · intro h
        simp [Setting.searchWith] at h
      · intro h
        obtain ⟨count, _, hle, hlt, _⟩ := h
        omega
  | succ fuel ih =>
      -- Only a directory that is passed leads to a later one.
      have hlater : ∀ {count throwable}, first ≤ count →
          (∀ before, first ≤ before → before < count → s.Passes lookup base lookBack before) →
          s.searched base lookBack count = .error throwable →
          s.searched base lookBack first = .error throwable ∨
            s.Passes lookup base lookBack first ∧ first + 1 ≤ count := by
        intro count throwable hle hpasses hcount
        rcases hle.eq_or_lt with rfl | hlt
        · exact .inl hcount
        · exact .inr ⟨hpasses first le_rfl hlt, hlt⟩
      rw [Setting.searchWith]
      cases hsearched : s.searched base lookBack first with
      | error throwable =>
          refine ⟨fun _ => ⟨first, throwable, le_rfl, by omega,
            fun before hle hlt => ?_, hsearched⟩, fun _ => ⟨throwable, rfl⟩⟩
          omega
      | ok found =>
          -- A search that stops here does not fail later.
          have hstays : ¬s.Passes lookup base lookBack first → ¬∃ count throwable, first ≤ count ∧
              count < first + (fuel + 1) ∧ (∀ before, first ≤ before → before < count →
                s.Passes lookup base lookBack before) ∧
              s.searched base lookBack count = .error throwable := by
            intro hnot h
            obtain ⟨count, throwable, hle, _, hpasses, hcount⟩ := h
            rcases hlater hle hpasses hcount with hfirst | ⟨hpassed, _⟩
            · simp [hsearched] at hfirst
            · exact hnot hpassed
          cases found with
          | none =>
              refine iff_of_false (by simp) (hstays ?_)
              intro h
              obtain ⟨path, hpath, _⟩ := h
              simp [hsearched] at hpath
          | some path =>
              dsimp only
              cases hrelevant : relevantFiles s.serviceInfo (lookup path) with
              | some relevant =>
                  refine iff_of_false (by simp) (hstays ?_)
                  intro h
                  obtain ⟨other, hother, hnone⟩ := h
                  rw [hsearched, Except.ok.injEq, Option.some.injEq] at hother
                  simp [← hother, hrelevant] at hnone
              | none =>
                  have hpassed : s.Passes lookup base lookBack first :=
                    ⟨path, hsearched, hrelevant⟩
                  refine ih.trans ⟨?_, ?_⟩
                  · intro h
                    obtain ⟨count, throwable, hle, hlt, hpasses, hcount⟩ := h
                    refine ⟨count, throwable, by omega, by omega, fun before hfirst hbefore => ?_,
                      hcount⟩
                    rcases hfirst.eq_or_lt with rfl | hnext
                    · exact hpassed
                    · exact hpasses before hnext hbefore
                  · intro h
                    obtain ⟨count, throwable, hle, hlt, hpasses, hcount⟩ := h
                    rcases hlater hle hpasses hcount with hfirst | ⟨_, hnext⟩
                    · simp [hsearched] at hfirst
                    · exact ⟨count, throwable, hnext, by omega,
                        fun before hbefore => hpasses before (by omega), hcount⟩

/-- The search that planning makes fails exactly there. -/
theorem escapes_search_iff (hzone : base.zone = s.jvm.zone) :
    Escapes (s.searchWith lookup base lookBack (targetDirsBound base lookBack) 0) ↔
      ∃ count throwable, (∀ before < count, s.Passes lookup base lookBack before) ∧
        s.searched base lookBack count = .error throwable := by
  refine escapes_searchWith_iff.trans ⟨?_, ?_⟩
  · intro h
    obtain ⟨count, throwable, _, _, hpasses, hcount⟩ := h
    exact ⟨count, throwable, fun before => hpasses before (Nat.zero_le _), hcount⟩
  · intro h
    obtain ⟨count, throwable, hpasses, hcount⟩ := h
    have hbound : count < targetDirsBound base lookBack := by
      cases count with
      | zero => unfold targetDirsBound; omega
      | succ days =>
          obtain ⟨path, hpath, _⟩ := hpasses days (Nat.lt_succ_self _)
          exact targetDir_bound hzone hpath
    exact ⟨count, throwable, Nat.zero_le _, by omega, fun before _ => hpasses before, hcount⟩

end Search

/-- What can let an exception escape from a round that looks back to a date: the file system is
missing where it is needed, a midnight that the search comes to does not exist, the throttle cannot
count from the last shipped file, the first file that is not settled does not decode, or there is
one to ship but the last file does not decode. -/
inductive Setting.Harm (s : Setting) (clock : ClockUse → ℤ) (world : World) (files : List File)
    (lookBack : DateTime) : Prop
  | uncached :
      world.fileSystems s.serviceDir = false →
      s.Uncached world (s.timeOf clock .planNextShip) lookBack 0 → s.Harm clock world files lookBack
  | midnight {count throwable} :
      (∀ before < count, s.Passes (s.lookup world) (s.timeOf clock .planNextShip) lookBack before) →
      s.searched (s.timeOf clock .planNextShip) lookBack count = .error throwable →
      s.Harm clock world files lookBack
  | lastShipped {infos} :
      s.Finds (s.lookup world) (s.timeOf clock .planNextShip) lookBack infos →
      ¬s.LastCountable clock infos → s.Harm clock world files lookBack
  | undecodable {infos before file after} :
      s.Finds (s.lookup world) (s.timeOf clock .planNextShip) lookBack infos →
      s.MayShip clock (toLong (totalLength files)) maxReadySize infos →
      files = before ++ file :: after →
      (∀ earlier ∈ before, isSettled s.jvm (getLastShippedTaistamp infos)
        (oldestMidnight (s.timeOf clock .outstandingFiles)) earlier = .ok true) →
      (∀ settled, isSettled s.jvm (getLastShippedTaistamp infos)
        (oldestMidnight (s.timeOf clock .outstandingFiles)) file ≠ .ok settled) →
      s.Harm clock world files lookBack
  | lastCandidate {infos before file after last} :
      s.Finds (s.lookup world) (s.timeOf clock .planNextShip) lookBack infos →
      s.MayShip clock (toLong (totalLength files)) maxReadySize infos →
      files = before ++ file :: after →
      (∀ earlier ∈ before, isSettled s.jvm (getLastShippedTaistamp infos)
        (oldestMidnight (s.timeOf clock .outstandingFiles)) earlier = .ok true) →
      isSettled s.jvm (getLastShippedTaistamp infos)
        (oldestMidnight (s.timeOf clock .outstandingFiles)) file = .ok false →
      files.getLast? = some last →
      ¬(Dated s.jvm last ∧ s.Connected world) → s.Harm clock world files lookBack

section Harm

variable {s : Setting} {clock : ClockUse → ℤ} {lookup : HdfsDir → CachedListing}
  {base lookBack : DateTime} {totalReadySize maxReadySize : ℤ} {infos : List PlacedFileInfo}

/-- From the throttle an exception escapes if it cannot count. -/
theorem escapes_throttle_iff :
    Escapes (bare (lastShippedTime s.jvm (getLastShippedTaistamp infos)) >>= fun last =>
      s.throttleAt last totalReadySize maxReadySize (s.timeOf clock .enoughTimePast)) ↔
      ¬s.LastCountable clock infos := by
  rw [escapes_bind_iff, escapes_bare_iff]
  unfold Setting.LastCountable
  cases hlast : getLastShippedTaistamp infos with
  | none => simp [lastShippedTime, bare_eq_ok_iff, Setting.throttleAt]
  | some taistamp =>
      cases htime : convertTai64ToTime s.jvm taistamp with
      | error throwable => simp [lastShippedTime, htime, Except.map]
      | ok time =>
          have hescapes : Escapes (s.throttleAt (some time) totalReadySize maxReadySize
              (s.timeOf clock .enoughTimePast)) ↔ ¬Countable clock time := by
            refine ⟨fun h hcountable => ?_, throttleAt_thrown s _ _⟩
            obtain ⟨throwable, hthrown⟩ := h
            rw [throttleAt_of_countable fun other hother => Option.some.inj hother ▸ hcountable]
              at hthrown
            exact throttleAnswer_ne_thrown hthrown
          simp [lastShippedTime, htime, Except.map, bare, hescapes]

/-- From planning one escapes if a midnight is missing or the throttle cannot count. -/
theorem escapes_planAt_iff (hzone : base.zone = s.jvm.zone) :
    Escapes (s.planAt lookup totalReadySize maxReadySize lookBack base
      (s.timeOf clock .enoughTimePast)) ↔
    (∃ count throwable, (∀ before < count, s.Passes lookup base lookBack before) ∧
      s.searched base lookBack count = .error throwable) ∨
    ∃ infos, s.Finds lookup base lookBack infos ∧ ¬s.LastCountable clock infos := by
  rw [Setting.planAt, escapes_bind_iff, escapes_search_iff hzone]
  refine or_congr Iff.rfl ?_
  have hfrom : ∀ found, Escapes (s.planFrom found totalReadySize maxReadySize base
      (s.timeOf clock .enoughTimePast)) ↔
      ∃ infos, ofListing (found.getD (.ok [])) = .ok infos ∧ ¬s.LastCountable clock infos := by
    intro found
    rw [Setting.planFrom, escapes_bind_iff]
    simp only [not_escapes_ofListing, false_or]
    refine exists_congr fun infos => and_congr Iff.rfl ?_
    rw [← escapes_throttle_iff, escapes_bind_iff, escapes_bind_iff]
    refine or_congr Iff.rfl (exists_congr fun last => and_congr Iff.rfl ?_)
    rw [escapes_bind_iff]
    refine or_iff_left ?_
    intro h
    obtain ⟨_, _, hplan⟩ := h
    exact not_escapes_ok hplan
  simp only [hfrom]
  constructor
  · intro h
    obtain ⟨found, hfound, infos, hinfos, hnot⟩ := h
    exact ⟨infos, ⟨found, hfound, hinfos⟩, hnot⟩
  · intro h
    obtain ⟨infos, ⟨found, hfound, hinfos⟩, hnot⟩ := h
    exact ⟨found, hfound, infos, hinfos, hnot⟩

/-- From the selection an exception escapes if the first file not settled does not decode. -/
theorem escapes_outstandingAt_iff {files : List File} {last : Option Text} {now : DateTime} :
    Escapes (outstandingAt s.jvm files last now) ↔
      ∃ before file after, files = before ++ file :: after ∧
        (∀ earlier ∈ before, isSettled s.jvm last (oldestMidnight now) earlier = .ok true) ∧
        ∀ settled, isSettled s.jvm last (oldestMidnight now) file ≠ .ok settled := by
  rw [← dropWhileThrows_error_iff, outstandingAt]
  cases dropWhileThrows (isSettled s.jvm last (oldestMidnight now)) files with
  | error throwable => simp [outstandingOf, Escapes]
  | ok kept => cases kept <;> simp [outstandingOf]

end Harm

section Round

variable {s : Setting} {clock : ClockUse → ℤ} {lookup : HdfsDir → CachedListing} {world : World}
  {listing : List File}

/-- From the choice of candidates an exception escapes where one does from its parts. -/
theorem escapes_selectAt_iff {files : List File} :
    Escapes (s.selectAt lookup files clock) ↔
      ∃ minFileDate, earliestFileDate s.jvm files = .ok minFileDate ∧
        (Escapes (s.planAt lookup (sumFileSizes files) maxReadySize
            (s.lookBackAt clock minFileDate) (s.timeOf clock .planNextShip)
            (s.timeOf clock .enoughTimePast)) ∨
          ∃ plan, s.planAt lookup (sumFileSizes files) maxReadySize
              (s.lookBackAt clock minFileDate) (s.timeOf clock .planNextShip)
              (s.timeOf clock .enoughTimePast) = .ok plan ∧
            Escapes (outstandingAt s.jvm files plan.lastTaistamp
              (s.timeOf clock .outstandingFiles))) := by
  have hdate : ¬Escapes (earliestFileDate s.jvm files) := by
    intro h
    obtain ⟨throwable, hthrown⟩ := h
    unfold earliestFileDate at hthrown
    split at hthrown
    · simp at hthrown
    · next file _ =>
        cases htime : svlogdFileTimestamp s.jvm file with
        | ok time => simp [htime, Except.map] at hthrown
        | error failure =>
            rw [htime] at hthrown
            obtain rfl := Except.error.inj hthrown
            exact validate_ne_thrown htime
  rw [Setting.selectAt, escapes_bind_iff, or_iff_right hdate]
  refine exists_congr fun minFileDate => and_congr Iff.rfl ?_
  rw [escapes_bind_iff]
  refine or_congr Iff.rfl (exists_congr fun plan => and_congr Iff.rfl ?_)
  rw [escapes_bind_iff]
  refine or_iff_left ?_
  intro h
  obtain ⟨_, _, hselected⟩ := h
  exact not_escapes_ok hselected

/-- An exception escapes from a round exactly if one escapes before any cleanup. -/
theorem actOnServiceDir_escapes_iff :
    (∃ result final, (actOnServiceDir s.jvm s.barnConf s.serviceDir).Yields clock world result
      final ∧ Escapes result) ↔
    ∃ result final, (syncServiceDir s.jvm s.barnConf s.serviceDir).Yields clock world result
      final ∧ Escapes result := by
  constructor
  · intro h
    obtain ⟨result, final, hyields, hescapes⟩ := h
    obtain ⟨synced, middle, hsync, hrest⟩ := runs_bind_iff.1 hyields
    refine ⟨synced, middle, hsync, ?_⟩
    cases synced with
    | ok value =>
        obtain ⟨rfl, _⟩ := yields_attempt_iff.1 hrest
        exact hescapes
    | error failure =>
        cases failure with
        | thrown throwable => exact ⟨throwable, rfl⟩
        | left error =>
            obtain ⟨_, _, _, hleft⟩ := runs_bind_iff.1 hrest
            obtain ⟨rfl, _⟩ := yields_attempt_iff.1 hleft
            simp at hescapes
  · rintro ⟨result, final, hsync, throwable, rfl⟩
    exact ⟨_, final, runs_bind_iff.2 ⟨_, _, hsync, .done _ _⟩, throwable, rfl⟩

/-- What escapes before any cleanup escapes from the selection or from shipping. -/
theorem syncServiceDir_escapes_iff :
    (∃ result final, (syncServiceDir s.jvm s.barnConf s.serviceDir).Yields clock world result
      final ∧ Escapes result) ↔
    (∃ throwable final, (selectCandidates s.jvm s.barnConf s.serviceDir s.serviceInfo).Yields clock
      world (.error (.thrown throwable)) final) ∨
    ∃ selected middle, (selectCandidates s.jvm s.barnConf s.serviceDir s.serviceInfo).Yields clock
      world (.ok selected) middle ∧ ∃ throwable final, (shipCandidates s.jvm s.barnConf
        s.serviceDir s.serviceInfo selected.1 selected.2).Yields clock middle
          (.error (.thrown throwable)) final := by
  rw [syncServiceDir_eq]
  constructor
  · rintro ⟨_, final, hyields, throwable, rfl⟩
    rcases yields_bind_iff.1 hyields with
      ⟨selected, middle, hselect, hship⟩ | ⟨failure, hselect, hf⟩
    · exact .inr ⟨selected, middle, hselect, throwable, final, hship⟩
    · rw [← Except.error.inj hf] at hselect
      exact .inl ⟨throwable, final, hselect⟩
  · rintro (⟨throwable, final, hselect⟩ | ⟨selected, middle, hselect, throwable, final, hship⟩)
    · exact ⟨_, final, yields_bind_iff.2 (.inr ⟨_, hselect, rfl⟩), throwable, rfl⟩
    · exact ⟨_, final, yields_bind_iff.2 (.inl ⟨selected, middle, hselect, hship⟩), throwable, rfl⟩

/-- What escapes from the selection is harm. -/
theorem harm_of_selectAt {files : List File}
    (h : Escapes (s.selectAt (s.lookup world) files clock)) :
    ∃ minFileDate, earliestFileDate s.jvm files = .ok minFileDate ∧
      s.Harm clock world files (s.lookBackAt clock minFileDate) := by
  obtain ⟨minFileDate, hdate, hplan | ⟨plan, hplan, houtstanding⟩⟩ := escapes_selectAt_iff.1 h
  · refine ⟨minFileDate, hdate, ?_⟩
    rcases (escapes_planAt_iff rfl).1 hplan with
      ⟨count, throwable, hpasses, hcount⟩ | ⟨infos, hfinds, hnot⟩
    · exact .midnight hpasses hcount
    · exact .lastShipped hfinds hnot
  · obtain ⟨infos, hfinds, _, hship, rfl⟩ := planAt_eq_ok_iff.1 hplan
    rw [sumFileSizes_eq] at hship
    obtain ⟨before, file, after, hsplit, hbefore, hfile⟩ := escapes_outstandingAt_iff.1 houtstanding
    exact ⟨minFileDate, hdate, .undecodable hfinds hship hsplit hbefore hfile⟩

/-- What escapes from a round is harm. -/
theorem harm_of_escapes (hlists : world.Lists s.serviceDir listing) {result : Attempt Unit}
    {final : World} (h : (syncServiceDir s.jvm s.barnConf s.serviceDir).Yields clock world result
      final) (hescapes : Escapes result) :
    ∃ minFileDate, earliestFileDate s.jvm (sortedFiles listing) = .ok minFileDate ∧
      s.Harm clock world (sortedFiles listing) (s.lookBackAt clock minFileDate) := by
  rcases syncServiceDir_escapes_iff.1 ⟨result, final, h, hescapes⟩ with
    ⟨throwable, final, hselect⟩ | ⟨selected, middle, hselect, throwable, final, hship⟩
  · rcases selectCandidates_yields hlists.localDirs_eq hselect with
      ⟨hvalue, _⟩ | ⟨⟨_, hleft⟩, _⟩ | ⟨_, hfs, minFileDate, hdate, huncached⟩
    · exact harm_of_selectAt ⟨throwable, hvalue.symm⟩
    · simp at hleft
    · exact ⟨minFileDate, hdate, .uncached hfs huncached⟩
  · rcases selectCandidates_yields hlists.localDirs_eq hselect with
      ⟨hvalue, hprepared, _⟩ | ⟨⟨_, hleft⟩, _⟩ | ⟨⟨_, hthrown⟩, _⟩
    · obtain ⟨minFileDate, infos, hdate, hfinds, _, hmay, hcandidates, _⟩ :=
        selectAt_eq_ok_iff.1 hvalue.symm
      obtain ⟨before, file, after, hsplit, hbefore, hfile, hselected⟩ :=
        outstandingAt_eq_ok_iff.1 hcandidates
      have hne : sortedFiles listing ≠ [] := by simp [hsplit]
      have hlast := List.getLast?_eq_some_getLast hne
      refine ⟨minFileDate, hdate, .lastCandidate hfinds hmay hsplit hbefore hfile hlast ?_⟩
      intro h
      obtain ⟨⟨time, htime⟩, hconnected⟩ := h
      have hlastCandidate := lastCandidate_of_suffix hsplit hlast
      rw [← hselected] at hlastCandidate
      exact shipCandidates_returns hlastCandidate htime _ _ _ (hprepared.connected hconnected) hship
        throwable rfl
    · simp at hleft
    · simp at hthrown

/-- All harm lets an exception escape. -/
theorem escapes_of_harm (hlists : world.Lists s.serviceDir listing) {minFileDate : Option DateTime}
    (hdate : earliestFileDate s.jvm (sortedFiles listing) = .ok minFileDate)
    (h : s.Harm clock world (sortedFiles listing) (s.lookBackAt clock minFileDate)) :
    ∃ result final, (syncServiceDir s.jvm s.barnConf s.serviceDir).Yields clock world result
      final ∧ Escapes result := by
  have hselects : Escapes (s.selectAt (s.lookup world) (sortedFiles listing) clock) →
      ∃ throwable final, (selectCandidates s.jvm s.barnConf s.serviceDir s.serviceInfo).Yields clock
        world (.error (.thrown throwable)) final := by
    intro h
    obtain ⟨throwable, hthrown⟩ := h
    obtain ⟨final, hselect⟩ := selectCandidates_can_yield s clock hlists.localDirs_eq
    exact ⟨throwable, final, hthrown ▸ hselect⟩
  have huncountable : ∀ infos, s.Finds (s.lookup world) (s.timeOf clock .planNextShip)
      (s.lookBackAt clock minFileDate) infos → ¬s.LastCountable clock infos →
      Escapes (s.selectAt (s.lookup world) (sortedFiles listing) clock) := by
    intro infos hfinds hnot
    exact escapes_selectAt_iff.2 ⟨minFileDate, hdate,
      .inl ((escapes_planAt_iff rfl).2 (.inr ⟨infos, hfinds, hnot⟩))⟩
  rw [syncServiceDir_escapes_iff]
  -- One case for each kind of harm, in the order in which a round comes to them.
  cases h with
  | uncached hfs huncached =>
      exact .inl
        (selectCandidates_can_throw hlists.localDirs_eq ⟨hfs, minFileDate, hdate, huncached⟩)
  | midnight hpasses hcount =>
      exact .inl (hselects (escapes_selectAt_iff.2 ⟨minFileDate, hdate,
        .inl ((escapes_planAt_iff rfl).2 (.inl ⟨_, _, hpasses, hcount⟩))⟩))
  | lastShipped hfinds hnot => exact .inl (hselects (huncountable _ hfinds hnot))
  | @undecodable infos before file after hfinds hship hsplit hbefore hfile =>
      -- The throttle fails first where it cannot count the label.
      by_cases hcountable : s.LastCountable clock infos
      · refine .inl (hselects (escapes_selectAt_iff.2 ⟨minFileDate, hdate, .inr ⟨_,
          planAt_eq_ok_iff.2 ⟨_, hfinds, hcountable, ?_, rfl⟩, ?_⟩⟩))
        · rw [sumFileSizes_eq]
          exact hship
        · exact escapes_outstandingAt_iff.2 ⟨_, _, _, hsplit, hbefore, hfile⟩
      · exact .inl (hselects (huncountable _ hfinds hcountable))
  | @lastCandidate infos before file after last hfinds hship hsplit hbefore hfile hlast hnot =>
      by_cases hcountable : s.LastCountable clock infos
      · by_cases hdisconnected : s.Disconnected clock world (sortedFiles listing)
        · exact .inl (selectCandidates_can_throw hlists.localDirs_eq hdisconnected)
        · obtain ⟨middle, hselect⟩ := selectCandidates_can_yield s clock hlists.localDirs_eq
          have hselected : s.selectAt (s.lookup world) (sortedFiles listing) clock =
              .ok (⟨s.hdfsDir (s.timeOf clock .planNextShip), s.tempDir,
                getLastShippedTaistamp infos⟩, file :: after) :=
            selectAt_eq_ok_iff.2 ⟨minFileDate, infos, hdate, hfinds, hcountable, hship,
              outstandingAt_eq_ok_iff.2 ⟨before, file, after, hsplit, hbefore, hfile, rfl⟩, rfl⟩
          rw [hselected] at hselect
          refine .inr ⟨_, middle, hselect, ?_⟩
          rcases selectCandidates_yields hlists.localDirs_eq hselect with
            ⟨_, hprepared, hfs⟩ | ⟨⟨_, hleft⟩, _⟩ | ⟨⟨_, hthrown⟩, _⟩
          · have hfiles := hprepared.candidates_mem hlists hsplit
            refine shipCandidates_can_throw hfiles (lastCandidate_of_suffix hsplit hlast) ?_
            -- The last candidate has no date, or there is no file system yet and it cannot be
            -- created.
            rcases not_and_or.1 hnot with hundated | hunconnected
            · exact .inr hundated
            · refine .inl fun hconnected => ?_
              exact (hfs hconnected).elim hunconnected hdisconnected
          · simp at hleft
          · simp at hthrown
      · exact .inl (hselects (huncountable _ hfinds hcountable))

/-- A round lets no exception escape exactly if there is no harm in the way. -/
theorem actOnServiceDir_returns (hlists : world.Lists s.serviceDir listing) :
    (∀ result final, (actOnServiceDir s.jvm s.barnConf s.serviceDir).Yields clock world result
      final → ¬Escapes result) ↔
    ∀ minFileDate, earliestFileDate s.jvm (sortedFiles listing) = .ok minFileDate →
      ¬s.Harm clock world (sortedFiles listing) (s.lookBackAt clock minFileDate) := by
  constructor
  · intro h minFileDate hdate hharm
    obtain ⟨result, final, hyields, hescapes⟩ :=
      actOnServiceDir_escapes_iff.2 (escapes_of_harm hlists hdate hharm)
    exact h result final hyields hescapes
  · intro h result final hyields hescapes
    obtain ⟨synced, middle, hsync, hthrown⟩ :=
      actOnServiceDir_escapes_iff.1 ⟨result, final, hyields, hescapes⟩
    obtain ⟨minFileDate, hdate, hharm⟩ := harm_of_escapes hlists hsync hthrown
    exact h minFileDate hdate hharm

end Round

section Sample

/-- A file of svlogd from May 2014 in the service directory. -/
def recentFile : File :=
  ⟨Setting.hourly.serviceDir, text "@4000000053724e0000000000.s", false, 10⟩

/-- A file that svlogd has not written. -/
def strayFile : File :=
  ⟨Setting.hourly.serviceDir, text "zzz", false, 10⟩

/-- The service directory holds these files, and there is nothing on HDFS; the file systems have
been created or not. -/
def World.serving (files : List File) (connected : Bool) : World :=
  { World.initial 0 with
    localDirs := Function.update (World.initial 0).localDirs Setting.hourly.serviceDir (some files)
    fileSystems := fun _ => connected }

/-- The clock stands still in May 2014. -/
def mayClock : ClockUse → ℤ :=
  fun _ => 1400000000000

theorem lists_serving {files : List File} {connected : Bool}
    (hparents : ∀ file ∈ files, file.parent = Setting.hourly.serviceDir)
    (hnames : (files.map File.getName).Nodup) :
    (World.serving files connected).Lists Setting.hourly.serviceDir files :=
  ⟨by simp [World.serving], hparents, hnames⟩

theorem fileTime_recentFile : fileTime .utc recentFile = .ok ⟨1399999965000, .utc⟩ :=
  convertTai64ToTime_of_millis (show _ = some 1399999965000 by decide)

/-- A round that ships one file lets no exception escape. -/
theorem actOnServiceDir_returns_recent :
    (World.serving [recentFile] true).Lists Setting.hourly.serviceDir [recentFile] ∧
      ∀ result final, (actOnServiceDir Setting.hourly.jvm Setting.hourly.barnConf
        Setting.hourly.serviceDir).Yields mayClock (World.serving [recentFile] true) result final →
        ¬Escapes result := by
  have hlists : (World.serving [recentFile] true).Lists Setting.hourly.serviceDir [recentFile] :=
    lists_serving (by decide) (by decide)
  refine ⟨hlists, (actOnServiceDir_returns hlists).2 ?_⟩
  have hsorted : sortedFiles [recentFile] = [recentFile] := rfl
  have hstamp : svlogdFileTimestamp .utc recentFile = .ok ⟨1399999965000, .utc⟩ := by
    rw [svlogdFileTimestamp, fileTime_recentFile]
    rfl
  rw [hsorted]
  intro minFileDate hdate hharm
  have hlook : Setting.hourly.lookBackAt mayClock minFileDate = ⟨1399999965000, .utc⟩ := by
    rw [earliestFileDate] at hdate
    replace hdate : (svlogdFileTimestamp .utc recentFile).map some = .ok minFileDate := hdate
    rw [hstamp] at hdate
    rw [← Except.ok.inj hdate]
    rfl
  rw [hlook] at hharm
  have hempty : Setting.hourly.searchWith (Setting.hourly.lookup (World.serving [recentFile] true))
      (Setting.hourly.timeOf mayClock .planNextShip) ⟨1399999965000, .utc⟩
      (targetDirsBound (Setting.hourly.timeOf mayClock .planNextShip) ⟨1399999965000, .utc⟩) 0 =
        .ok none := by
    decide
  have hnone : ∀ infos, Setting.hourly.Finds
      (Setting.hourly.lookup (World.serving [recentFile] true))
      (Setting.hourly.timeOf mayClock .planNextShip) ⟨1399999965000, .utc⟩ infos → infos = [] := by
    intro infos h
    obtain ⟨found, hfound, hinfos⟩ := h
    rw [hempty, Except.ok.injEq] at hfound
    rw [← hfound] at hinfos
    exact (Except.ok.inj hinfos).symm
  have hfresh : ∀ before file after,
      [recentFile] = before ++ file :: after → file = recentFile := by
    intro before file after hsplit
    exact (List.mem_singleton.1 (hsplit ▸ by simp : file ∈ [recentFile]))
  cases hharm with
  | uncached hfs => simp [World.serving] at hfs
  | @midnight count throwable _ hcount =>
      cases count with
      | zero => simp [Setting.searched, targetDir, pure, Except.pure] at hcount
      | succ days =>
          rw [Setting.searched, targetDir_succ (show Setting.hourly.jvm.zone = .forOffsetMillis 0
            from rfl) rfl] at hcount
          simp at hcount
  | lastShipped hfinds hnot =>
      rw [hnone _ hfinds] at hnot
      exact hnot fun taistamp hlast => by simp [getLastShippedTaistamp] at hlast
  | @undecodable infos before file after hfinds _ hsplit _ hfile =>
      rw [hnone _ hfinds, hfresh _ _ _ hsplit] at hfile
      have hsettled : isSettled .utc none (oldestMidnight ⟨1400000000000, .utc⟩) recentFile =
          .ok false := by decide
      exact hfile false hsettled
  | lastCandidate _ _ _ _ _ hlast hnot =>
      rw [← Option.some.inj hlast] at hnot
      exact hnot ⟨⟨_, fileTime_recentFile⟩, rfl⟩

/-- One stray file is enough to let an exception escape, in a round that begins as rounds do,
without a file system. -/
theorem actOnServiceDir_throws :
    ∃ result final, (actOnServiceDir Setting.hourly.jvm Setting.hourly.barnConf
      Setting.hourly.serviceDir).Yields mayClock (World.serving [recentFile, strayFile] false)
      result final ∧ Escapes result := by
  have hrun : (execute (timed mayClock) [.ok, .reads 1400000000000, .reads 1400000000000, .ok, .ok,
      .ok, .ok, .reads 1400000000000, .named []] (actOnServiceDir Setting.hourly.jvm
        Setting.hourly.barnConf Setting.hourly.serviceDir)
      (World.serving [recentFile, strayFile] false)).map Prod.fst =
        some (.error (.thrown .stringIndexOutOfBounds)) := by
    decide
  obtain ⟨⟨result, final⟩, hexecute, rfl⟩ := Option.map_eq_some_iff.1 hrun
  exact ⟨_, final, runs_of_execute hexecute, _, rfl⟩

end Sample

end Barn.Hdfs
