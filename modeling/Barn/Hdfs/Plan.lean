import Barn.Hdfs.Search
import Barn.Hdfs.Yields

/-!
# What planning computes

Run alone, planning is a function of the listings it looks at and of the times at which it reads
the clock: `planAt`. `Passes` describes how far the search goes; `planNextShip_yields` connects the
function with `planNextShip`. Both hold whatever is cached already.
-/

namespace Barn.Hdfs

open Interaction

namespace Setting

variable (s : Setting)

/-- What listing a directory tells, in the form in which it is cached. -/
def listing (world : World) (path : HdfsDir) : CachedListing :=
  match world.listingFault path, world.hdfs path with
  | some description, _ =>
      .error (caught s.jvm (text "Can't get list of files on HDFS dir: " ++ path) (.io description))
  | none, none => .error (.fileNotFound (text "Path " ++ path ++ text " doesn't exist to list"))
  | none, some entries => .ok (collapseValidate (((entries.filter fun entry => !entry.isDir).map
      fun entry => (⟨path, entry.getName⟩ : HdfsFile)).map getPlacedFileInfo))

/-- What looking a directory up tells: what is cached, or else its listing. -/
def lookup (world : World) (path : HdfsDir) : CachedListing :=
  (world.hdfsListCache path).getD (s.listing world path)

/-- The directories that are searched. -/
def searched (base lookBack : DateTime) : ℕ → Throws (Option HdfsDir) :=
  targetDir s.jvm base s.barnConf.hdfsLogDir lookBack

/-- The search, as a function of what the lookups tell. -/
def searchWith (lookup : HdfsDir → CachedListing) (base lookBack : DateTime) :
    ℕ → ℕ → Attempt (Option Listing)
  | 0, _ => .ok none
  | fuel + 1, daysBefore =>
      match s.searched base lookBack daysBefore with
      | .error throwable => .error (.thrown throwable)
      | .ok none => .ok none
      | .ok (some path) =>
          match relevantFiles s.serviceInfo (lookup path) with
          | some relevant => .ok (some relevant)
          | none => searchWith lookup base lookBack fuel (daysBefore + 1)

/-- The throttle, as a function of the time at which it reads the clock. -/
def throttleAt (lastShippedTimestamp : Option DateTime) (totalReadySize maxReadySize : ℤ)
    (now : DateTime) : Attempt Unit :=
  match lastShippedTimestamp with
  | none => .ok ()
  | some lastTimestamp =>
      match intervalSeconds lastTimestamp now with
      | .error throwable => .error (.thrown throwable)
      | .ok seconds =>
          if s.barnConf.shipInterval ≤ seconds ∨ maxReadySize < totalReadySize then .ok ()
          else .error (.left (.syncThrottled (text "I synced not long ago.")))

/-- The plan, as a function of what the search has found and of the times at which it reads the
clock. -/
def planFrom (found : Option Listing) (totalReadySize maxReadySize : ℤ) (base now : DateTime) :
    Attempt ShippingPlan := do
  let infos ← ofListing (found.getD (.ok []))
  let lastShippedTimestamp ← bare (lastShippedTime s.jvm (getLastShippedTaistamp infos))
  s.throttleAt lastShippedTimestamp totalReadySize maxReadySize now
  return ⟨s.hdfsDir base, s.tempDir, getLastShippedTaistamp infos⟩

/-- The plan, as a function of what the lookups tell and of the times at which it reads the
clock. -/
def planAt (lookup : HdfsDir → CachedListing) (totalReadySize maxReadySize : ℤ)
    (lookBack base now : DateTime) : Attempt ShippingPlan := do
  let found ← s.searchWith lookup base lookBack (targetDirsBound base lookBack) 0
  s.planFrom found totalReadySize maxReadySize base now

/-- The time at which the clock is read. -/
def timeOf (clock : ClockUse → ℤ) (use : ClockUse) : DateTime :=
  ⟨clock use, s.jvm.zone⟩

/-- The search goes on after this directory. -/
def Passes (lookup : HdfsDir → CachedListing) (base lookBack : DateTime) (daysBefore : ℕ) : Prop :=
  ∃ path, s.searched base lookBack daysBefore = .ok (some path) ∧
    relevantFiles s.serviceInfo (lookup path) = none

/-- The search comes to a directory that is not cached. -/
def Uncached (world : World) (base lookBack : DateTime) (first : ℕ) : Prop :=
  ∃ count path, (∀ before, first ≤ before → before < count →
      s.Passes (s.lookup world) base lookBack before) ∧ first ≤ count ∧
    s.searched base lookBack count = .ok (some path) ∧ world.hdfsListCache path = none

/-- Only the clock, the cache and the file systems have changed, and lookups tell the same. -/
structure Prepared (world world' : World) : Prop where
  rest_eq : world' = { world with
    clock := world'.clock
    hdfsListCache := world'.hdfsListCache
    fileSystems := world'.fileSystems }
  lookup_eq : s.lookup world' = s.lookup world
  connected : world.fileSystems s.serviceDir = true → world'.fileSystems s.serviceDir = true

end Setting

section Lookups

variable {s : Setting} {clock : ClockUse → ℤ} {world world' world'' : World} {path : HdfsDir}

theorem Setting.Prepared.refl (world : World) : s.Prepared world world :=
  ⟨rfl, rfl, id⟩

theorem Setting.Prepared.trans (h : s.Prepared world world') (h' : s.Prepared world' world'') :
    s.Prepared world world'' := by
  refine ⟨?_, h'.lookup_eq.trans h.lookup_eq, fun hconnected => ?_⟩
  · rw [h'.rest_eq, h.rest_eq]
  · exact h'.connected (h.connected hconnected)

/-- A listing that succeeds is that of the world. -/
theorem Setting.listing_of_answer {outcome : Outcome} {reply : Command.Reply (.listStatus path)}
    (h : answer (.listStatus path) outcome world = some (reply, world')) :
    world' = world ∧
      cachedListing (validate s.jvm (text "Can't get list of files on HDFS dir: " ++ path)
        (listedFiles path (bare reply))) = .ok (s.listing world path) := by
  cases outcome <;> simp only [answer] at h
  case ok =>
    cases hfault : world.listingFault path with
    | some description =>
        rw [hfault] at h
        obtain ⟨rfl, rfl⟩ := answer_parts h
        simp [Setting.listing, hfault, bare, listedFiles, validate, cachedListing]
    | none =>
        cases hentries : world.hdfs path with
        | none =>
            rw [hfault, hentries] at h
            obtain ⟨rfl, rfl⟩ := answer_parts h
            simp [Setting.listing, hfault, hentries, bare, listedFiles, validate, cachedListing]
        | some entries =>
            rw [hfault, hentries] at h
            obtain ⟨rfl, rfl⟩ := answer_parts h
            simp [Setting.listing, hfault, hentries, bare, listedFiles, validate, cachedListing]
  case refused =>
    obtain ⟨hnone, hparts⟩ := Option.ite_none_right_eq_some.1 h
    obtain ⟨rfl, rfl⟩ := answer_parts hparts
    simp [Setting.listing, hnone.1, hnone.2, bare, listedFiles, validate, cachedListing]
  all_goals simp at h

/-- What a lookup of a directory that is not cached leaves behind. -/
def Setting.cached (s : Setting) (world : World) (path : HdfsDir) : World :=
  { world with
    fileSystems := Function.update world.fileSystems s.serviceDir true
    hdfsListCache := Function.update world.hdfsListCache path (some (s.listing world path)) }

/-- Afterwards lookups tell the same. -/
theorem Setting.prepared_cached (hcache : world.hdfsListCache path = none) :
    s.Prepared world (s.cached world path) := by
  refine ⟨rfl, funext fun other => ?_, fun _ => by simp [Setting.cached]⟩
  by_cases heq : other = path
  · rw [heq, Setting.lookup, Setting.lookup, hcache]
    simp [Setting.cached]
  · simp [Setting.lookup, Setting.cached, Setting.listing, heq]

/-- Creating the file system can fail only the first time. -/
theorem yields_unboxLazy_iff {value : Attempt Unit} :
    (Action.unboxLazy s.serviceDir).Yields clock world value world' ↔
      (value = .ok () ∧ world' = { world with
        fileSystems := Function.update world.fileSystems s.serviceDir true }) ∨
      (∃ throwable, value = .error (.thrown throwable)) ∧
        world.fileSystems s.serviceDir = false ∧ world' = world := by
  refine (yields_request_iff (by simp)).trans ?_
  constructor
  · rintro ⟨outcome, reply, h, rfl⟩
    cases outcome <;> simp only [answer] at h
    case ok =>
      obtain ⟨rfl, rfl⟩ := answer_parts h
      exact .inl ⟨rfl, rfl⟩
    case fails throwable =>
      split at h
      · simp at h
      · next hdisconnected =>
          obtain ⟨rfl, rfl⟩ := answer_parts h
          exact .inr ⟨⟨throwable, rfl⟩, by simpa using hdisconnected, rfl⟩
    all_goals simp at h
  · rintro (⟨rfl, rfl⟩ | ⟨⟨throwable, rfl⟩, hdisconnected, rfl⟩)
    · exact ⟨.ok, .ok (), rfl, rfl⟩
    · refine ⟨.fails throwable, .error throwable, ?_, rfl⟩
      simp [answer, hdisconnected]

/-- A lookup in the cache yields what is there. -/
@[simp] theorem yields_cacheGet_iff {value : Attempt (Option CachedListing)} :
    (Action.cacheGet path).Yields clock world value world' ↔
      value = .ok (world.hdfsListCache path) ∧ world' = world := by
  refine (yields_request_iff (by simp)).trans ?_
  constructor
  · rintro ⟨outcome, reply, h, rfl⟩
    obtain ⟨rfl, rfl⟩ := answer_cacheGet h
    exact ⟨rfl, rfl⟩
  · rintro ⟨rfl, rfl⟩
    exact ⟨.ok, _, rfl, rfl⟩

/-- A write to the cache. -/
@[simp] theorem yields_cachePut_iff {listing : CachedListing} {value : Attempt Unit} :
    (Action.cachePut path listing).Yields clock world value world' ↔
      value = .ok () ∧ world' = { world with
        hdfsListCache := Function.update world.hdfsListCache path (some listing) } := by
  refine (yields_request_iff (by simp)).trans ?_
  constructor
  · rintro ⟨outcome, reply, h, rfl⟩
    exact ⟨rfl, answer_cachePut h⟩
  · rintro ⟨rfl, rfl⟩
    exact ⟨.ok, (), rfl, rfl⟩

/-- Listing a directory yields its listing. -/
@[simp] theorem yields_listPlacedFiles_iff {value : Attempt CachedListing} :
    (listPlacedFiles s.jvm path).Yields clock world value world' ↔
      value = .ok (s.listing world path) ∧ world' = world := by
  refine (yields_request_iff (show ∀ use, Command.listStatus path ≠ .now use by simp)).trans ?_
  constructor
  · rintro ⟨outcome, reply, h, rfl⟩
    obtain ⟨rfl, hlisting⟩ := Setting.listing_of_answer (s := s) h
    exact ⟨hlisting, rfl⟩
  · rintro ⟨rfl, rfl⟩
    obtain ⟨reply, h⟩ : ∃ reply, answer (.listStatus path) .ok world' = some (reply, world') := by
      simp only [answer]
      split <;> exact ⟨_, rfl⟩
    exact ⟨.ok, reply, h, (Setting.listing_of_answer h).2.symm⟩

/-- Looking up a directory yields what is cached, or else its listing, which is then cached. -/
theorem yields_cachingLs_iff {value : Attempt CachedListing} :
    (cachingLs s.jvm s.serviceDir path).Yields clock world value world' ↔
      (value = .ok (s.lookup world path) ∧
        world' = if world.hdfsListCache path = none then s.cached world path else world) ∨
      (∃ throwable, value = .error (.thrown throwable)) ∧ world.hdfsListCache path = none ∧
        world.fileSystems s.serviceDir = false ∧ world' = world := by
  unfold cachingLs
  rw [yields_bind_iff]
  cases hcache : world.hdfsListCache path with
  | some listing => simp [Setting.lookup, hcache]
  | none =>
      simp [Setting.lookup, hcache, yields_bind_iff, yields_unboxLazy_iff,
        yields_listPlacedFiles_iff]
      refine or_congr Iff.rfl ?_
      rw [and_comm]

/-- Looking up a directory that is not cached needs the file system; nothing else changes. -/
theorem Setting.prepared_lookup (s : Setting) (world : World) (path : HdfsDir) :
    let middle := if world.hdfsListCache path = none then s.cached world path else world
    s.Prepared world middle ∧
      (middle.fileSystems s.serviceDir = true →
        world.fileSystems s.serviceDir = true ∨ world.hdfsListCache path = none) ∧
      ∀ other, middle.hdfsListCache other = none → world.hdfsListCache other = none := by
  dsimp only
  split
  · next hnone =>
      refine ⟨Setting.prepared_cached hnone, fun _ => .inr hnone, fun other hother => ?_⟩
      by_cases heq : other = path
      · rw [heq, hnone]
      · simpa [Setting.cached, heq] using hother
  · exact ⟨.refl _, .inl, fun _ h => h⟩

/-- The search begins with a directory that is not cached. -/
theorem Setting.Uncached.of_first {base lookBack : DateTime} {first : ℕ}
    (hsearched : s.searched base lookBack first = .ok (some path))
    (hnone : world.hdfsListCache path = none) : s.Uncached world base lookBack first :=
  ⟨first, path, fun _ hle hlt => absurd hlt hle.not_gt, le_rfl, hsearched, hnone⟩

/-- The search comes to one later. -/
theorem Setting.Uncached.of_next {base lookBack : DateTime} {first : ℕ}
    (hsearched : s.searched base lookBack first = .ok (some path))
    (hrelevant : relevantFiles s.serviceInfo (s.lookup world path) = none)
    (hlookup : s.lookup world' = s.lookup world)
    (hcache : ∀ other, world'.hdfsListCache other = none → world.hdfsListCache other = none)
    (h : s.Uncached world' base lookBack (first + 1)) : s.Uncached world base lookBack first := by
  obtain ⟨count, found, hpasses, hle, hfound, hnone⟩ := h
  refine ⟨count, found, fun before hfirst hlt => ?_, by omega, hfound, hcache found hnone⟩
  rcases hfirst.eq_or_lt with rfl | hlater
  · exact ⟨path, hsearched, hrelevant⟩
  · rw [← hlookup]
    exact hpasses before hlater hlt

/-- The search yields what `searchWith` says, unless the file system cannot be created. -/
theorem searchDirs_yields {base lookBack : DateTime} {fuel first : ℕ}
    {value : Attempt (Option Listing)}
    (h : (searchDirs s.jvm s.serviceDir s.serviceInfo (s.searched base lookBack) fuel first).Yields
      clock world value world') :
    (value = s.searchWith (s.lookup world) base lookBack fuel first ∧ s.Prepared world world' ∧
      (world'.fileSystems s.serviceDir = true → world.fileSystems s.serviceDir = true ∨
        s.Uncached world base lookBack first)) ∨
    (∃ throwable, value = .error (.thrown throwable)) ∧
      world.fileSystems s.serviceDir = false ∧ s.Uncached world base lookBack first := by
  -- On the directories left to search; the world changes on the way by what the lookups cache.
  induction fuel generalizing world first with
  | zero =>
      obtain ⟨rfl, rfl⟩ := yields_pure_iff.1 h
      exact .inl ⟨rfl, .refl _, .inl⟩
  | succ fuel ih =>
      rw [searchDirs, yields_bind_iff] at h
      simp only [yields_attempt_iff] at h
      rw [Setting.searchWith]
      cases hsearched : s.searched base lookBack first with
      | error throwable =>
          simp only [hsearched, bare, reduceCtorEq, false_and, exists_false, false_or] at h
          obtain ⟨failure, ⟨hfailure, rfl⟩, rfl⟩ := h
          rw [Except.error.inj hfailure]
          exact .inl ⟨rfl, .refl _, .inl⟩
      | ok found =>
          simp only [hsearched, bare, reduceCtorEq, false_and, exists_false, or_false,
            Except.ok.injEq] at h
          obtain ⟨other, start, ⟨hother, hstart⟩, h⟩ := h
          rw [hother, hstart] at h
          cases found with
          | none =>
              obtain ⟨rfl, rfl⟩ := yields_pure_iff.1 h
              exact .inl ⟨rfl, .refl _, .inl⟩
          | some path =>
              rcases yields_bind_iff.1 h with
                ⟨listing, middle, hlookup, h⟩ | ⟨failure, hlookup, rfl⟩
              · obtain ⟨hlisting, hmiddle⟩ | ⟨⟨throwable, hthrown⟩, _⟩ :=
                  yields_cachingLs_iff.1 hlookup
                · rw [Except.ok.inj hlisting] at h
                  obtain ⟨hprepared, hconnected, hcache⟩ := Setting.prepared_lookup s world path
                  rw [← hmiddle] at hprepared hconnected hcache
                  dsimp only at h ⊢
                  cases hrelevant : relevantFiles s.serviceInfo (s.lookup world path) with
                  | some relevant =>
                      -- The first directory with a relevant file ends the search.
                      simp only [hrelevant, yields_pure_iff] at h
                      obtain ⟨rfl, rfl⟩ := h
                      refine .inl ⟨rfl, hprepared, fun htrue => (hconnected htrue).imp_right ?_⟩
                      exact fun hnone => .of_first hsearched hnone
                  | none =>
                      simp only [hrelevant] at h
                      -- Nothing of this service here: what the rest of the search needs, it needs
                      -- from `first` on.
                      have huncached : s.Uncached middle base lookBack (first + 1) →
                          s.Uncached world base lookBack first :=
                        .of_next hsearched hrelevant hprepared.lookup_eq hcache
                      rcases ih h with ⟨hvalue, hrest, htrue⟩ | ⟨hthrown, hfs, hnext⟩
                      · rw [hprepared.lookup_eq] at hvalue
                        refine .inl ⟨hvalue, hprepared.trans hrest, fun hconnected' => ?_⟩
                        rcases htrue hconnected' with hmiddle | hnext
                        · exact (hconnected hmiddle).imp_right fun hnone =>
                            .of_first hsearched hnone
                        · exact .inr (huncached hnext)
                      · refine .inr ⟨hthrown, ?_, huncached hnext⟩
                        by_contra hnot
                        rw [hprepared.connected (by simpa using hnot)] at hfs
                        simp at hfs
                · simp at hthrown
              · obtain ⟨hlisting, rfl⟩ | ⟨⟨throwable, hthrown⟩, hnone, hfs, rfl⟩ :=
                  yields_cachingLs_iff.1 hlookup
                · simp at hlisting
                · rw [Except.error.inj hthrown]
                  exact .inr ⟨⟨throwable, rfl⟩, hfs, .of_first hsearched hnone⟩

/-- It can yield that. -/
theorem searchDirs_can_yield {base lookBack : DateTime} (fuel first : ℕ) (world : World) :
    ∃ final, (searchDirs s.jvm s.serviceDir s.serviceInfo (s.searched base lookBack) fuel
      first).Yields clock world (s.searchWith (s.lookup world) base lookBack fuel first) final := by
  induction fuel generalizing world first with
  | zero => exact ⟨world, yields_pure_iff.2 ⟨rfl, rfl⟩⟩
  | succ fuel ih =>
      rw [searchDirs, Setting.searchWith]
      cases hsearched : s.searched base lookBack first with
      | error throwable =>
          refine ⟨world, yields_bind_iff.2 (.inr ⟨.thrown throwable, ?_, rfl⟩)⟩
          exact yields_attempt_iff.2 ⟨rfl, rfl⟩
      | ok found =>
          have hstart : (Action.attempt (bare (.ok found))).Yields clock world (.ok found) world :=
            yields_attempt_iff.2 ⟨rfl, rfl⟩
          cases found with
          | none =>
              exact ⟨world, yields_bind_iff.2 (.inl ⟨none, world, hstart,
                yields_pure_iff.2 ⟨rfl, rfl⟩⟩)⟩
          | some path =>
              have hlookup : (cachingLs s.jvm s.serviceDir path).Yields clock world
                  (.ok (s.lookup world path))
                  (if world.hdfsListCache path = none then s.cached world path else world) :=
                yields_cachingLs_iff.2 (.inl ⟨rfl, rfl⟩)
              have hprepared := (Setting.prepared_lookup s world path).1
              cases hrelevant : relevantFiles s.serviceInfo (s.lookup world path) with
              | some relevant =>
                  refine ⟨if world.hdfsListCache path = none then s.cached world path else world,
                    yields_bind_iff.2 (.inl ⟨some path, world, hstart,
                      yields_bind_iff.2 (.inl ⟨_, _, hlookup, ?_⟩)⟩)⟩
                  simp only [hrelevant, yields_pure_iff]
                  trivial
              | none =>
                  obtain ⟨final, hrest⟩ := ih (first + 1)
                    (if world.hdfsListCache path = none then s.cached world path else world)
                  rw [hprepared.lookup_eq] at hrest
                  refine ⟨final, yields_bind_iff.2 (.inl ⟨some path, world, hstart,
                    yields_bind_iff.2 (.inl ⟨_, _, hlookup, ?_⟩)⟩)⟩
                  simp only [hrelevant]
                  exact hrest

/-- If it comes to a directory that is not cached and the file system has yet to be created, an
exception can escape. -/
theorem searchDirs_can_throw {base lookBack : DateTime} (hzone : base.zone = s.jvm.zone)
    (fuel first : ℕ) (world : World) (henough : targetDirsBound base lookBack ≤ first + fuel)
    (hconnected : world.fileSystems s.serviceDir = false)
    (huncached : s.Uncached world base lookBack first) :
    ∃ throwable final, (searchDirs s.jvm s.serviceDir s.serviceInfo (s.searched base lookBack) fuel
      first).Yields clock world (.error (.thrown throwable)) final := by
  obtain ⟨count, path, hpasses, hle, hsearched, hnone⟩ := huncached
  induction fuel generalizing first with
  | zero =>
      have hbound := targetDir_bound hzone hsearched
      omega
  | succ fuel ih =>
      rw [searchDirs]
      rcases hle.eq_or_lt with rfl | hlt
      · refine ⟨.nullPointer, world, yields_bind_iff.2 (.inl ⟨some path, world, ?_,
          yields_bind_iff.2 (.inr ⟨.thrown .nullPointer, ?_, rfl⟩)⟩)⟩
        · rw [hsearched]
          exact yields_attempt_iff.2 ⟨rfl, rfl⟩
        · exact yields_cachingLs_iff.2 (.inr ⟨⟨_, rfl⟩, hnone, hconnected, rfl⟩)
      · obtain ⟨passed, hpassed, hrelevant⟩ := hpasses first le_rfl hlt
        have hstart : (Action.attempt (bare (s.searched base lookBack first))).Yields clock world
            (.ok (some passed)) world := by
          rw [hpassed]
          exact yields_attempt_iff.2 ⟨rfl, rfl⟩
        by_cases hcache : world.hdfsListCache passed = none
        · refine ⟨.nullPointer, world, yields_bind_iff.2 (.inl ⟨some passed, world, hstart,
            yields_bind_iff.2 (.inr ⟨.thrown .nullPointer, ?_, rfl⟩)⟩)⟩
          exact yields_cachingLs_iff.2 (.inr ⟨⟨_, rfl⟩, hcache, hconnected, rfl⟩)
        · obtain ⟨throwable, final, hrest⟩ := ih (first + 1) (by omega)
            (fun before hfirst => hpasses before (by omega)) (by omega)
          refine ⟨throwable, final, yields_bind_iff.2 (.inl ⟨some passed, world, hstart,
            yields_bind_iff.2 (.inl ⟨s.lookup world passed, world, ?_, ?_⟩)⟩)⟩
          · exact yields_cachingLs_iff.2 (.inl ⟨rfl, by rw [if_neg hcache]⟩)
          · simp only [hrelevant]
            exact hrest

/-- Nothing but the clock has changed. -/
def World.Ticked (world world' : World) : Prop :=
  world' = { world with clock := world'.clock }

/-- Comparing with the time that has passed reads the clock. -/
theorem enoughTimePast_yields {base : DateTime} {enoughSeconds : ℤ} {value : Attempt Bool}
    (h : (enoughTimePast s.jvm base enoughSeconds).Yields clock world value world') :
    value = (bare (intervalSeconds base (s.timeOf clock .enoughTimePast))).map
      (fun seconds => decide (enoughSeconds ≤ seconds)) ∧ world.Ticked world' := by
  rw [enoughTimePast, yields_bind_iff] at h
  simp only [yields_now_iff, reduceCtorEq, false_and, exists_false, or_false, Except.ok.injEq] at h
  obtain ⟨now, start, ⟨rfl, rfl⟩, h⟩ := h
  rw [yields_bind_iff] at h
  simp only [yields_attempt_iff, yields_pure_iff] at h
  rcases h with ⟨seconds, _, ⟨hseconds, rfl⟩, rfl, rfl⟩ | ⟨failure, ⟨hseconds, rfl⟩, rfl⟩
  · rw [Setting.timeOf, ← hseconds]
    exact ⟨rfl, rfl⟩
  · rw [Setting.timeOf, ← hseconds]
    exact ⟨rfl, rfl⟩

/-- The throttle yields what `throttleAt` says. -/
theorem isShippingTime_yields {lastShippedTimestamp : Option DateTime}
    {totalReadySize maxReadySize : ℤ} {value : Attempt Unit}
    (h : (isShippingTime s.jvm lastShippedTimestamp s.barnConf.shipInterval totalReadySize
      maxReadySize).Yields clock world value world') :
    value = s.throttleAt lastShippedTimestamp totalReadySize maxReadySize
      (s.timeOf clock .enoughTimePast) ∧ world.Ticked world' := by
  unfold isShippingTime at h
  unfold Setting.throttleAt
  cases lastShippedTimestamp with
  | none =>
      obtain ⟨rfl, rfl⟩ := yields_pure_iff.1 h
      exact ⟨rfl, rfl⟩
  | some lastTimestamp =>
      rw [yields_bind_iff] at h
      dsimp only
      rcases h with ⟨enough, middle, htime, h⟩ | ⟨failure, htime, rfl⟩
      · obtain ⟨henough, hticked⟩ := enoughTimePast_yields htime
        cases hseconds : intervalSeconds lastTimestamp (s.timeOf clock .enoughTimePast) with
        | error throwable => simp [hseconds, bare, Except.map] at henough
        | ok seconds =>
            simp only [hseconds, bare, Except.map, Except.ok.injEq] at henough
            simp only [henough, Bool.or_eq_true, decide_eq_true_eq] at h
            dsimp only
            split at h
            · next hdue =>
                obtain ⟨rfl, rfl⟩ := yields_pure_iff.1 h
                exact ⟨by rw [if_pos hdue], hticked⟩
            · next hearly =>
                obtain ⟨rfl, rfl⟩ := yields_attempt_iff.1 h
                exact ⟨by rw [if_neg hearly], hticked⟩
      · obtain ⟨hfailure, hticked⟩ := enoughTimePast_yields htime
        cases hseconds : intervalSeconds lastTimestamp (s.timeOf clock .enoughTimePast) with
        | error throwable =>
            simp only [hseconds, bare, Except.map, Except.error.injEq] at hfailure
            exact ⟨by rw [hfailure], hticked⟩
        | ok seconds => simp [hseconds, bare, Except.map] at hfailure

/-- What is left of planning after the search yields what `planFrom` says. -/
theorem planFrom_yields {found : Option Listing} {totalReadySize maxReadySize : ℤ}
    {base : DateTime} {value : Attempt ShippingPlan}
    (h : Action.Yields clock (do
        let infos ← Action.attempt (ofListing (found.getD (.ok [])))
        let lastShippedTimestamp ←
          Action.attempt (bare (lastShippedTime s.jvm (getLastShippedTaistamp infos)))
        isShippingTime s.jvm lastShippedTimestamp s.barnConf.shipInterval totalReadySize
          maxReadySize
        return ⟨datePath s.barnConf.hdfsLogDir (dateBucket base 0),
          targetTempDir s.barnConf.hdfsLogDir, getLastShippedTaistamp infos⟩) world value world') :
    value = s.planFrom found totalReadySize maxReadySize base (s.timeOf clock .enoughTimePast) ∧
      world.Ticked world' := by
  unfold Setting.planFrom
  rw [yields_bind_iff] at h
  simp only [yields_attempt_iff] at h
  rcases h with ⟨infos, start, ⟨hinfos, rfl⟩, h⟩ | ⟨failure, ⟨hinfos, rfl⟩, rfl⟩
  · rw [← hinfos]
    rw [yields_bind_iff] at h
    simp only [yields_attempt_iff] at h
    rcases h with ⟨timestamp, _, ⟨htimestamp, rfl⟩, h⟩ | ⟨failure, ⟨htimestamp, rfl⟩, rfl⟩
    · simp only [bind, Except.bind, ← htimestamp]
      rw [yields_bind_iff] at h
      rcases h with ⟨_, middle, hthrottle, h⟩ | ⟨failure, hthrottle, rfl⟩
      · obtain ⟨hresult, hticked⟩ := isShippingTime_yields hthrottle
        obtain ⟨rfl, rfl⟩ := yields_pure_iff.1 h
        rw [← hresult]
        exact ⟨rfl, hticked⟩
      · obtain ⟨hresult, hticked⟩ := isShippingTime_yields hthrottle
        rw [← hresult]
        exact ⟨rfl, hticked⟩
    · refine ⟨?_, rfl⟩
      simp only [bind, Except.bind, ← htimestamp]
  · rw [← hinfos]
    exact ⟨rfl, rfl⟩

/-- Ticking prepares. -/
theorem World.Ticked.prepared (h : world.Ticked world') : s.Prepared world world' := by
  rw [h]
  exact ⟨rfl, rfl, id⟩

/-- Planning yields what `planAt` says, unless the file system cannot be created. -/
theorem planNextShip_yields {totalReadySize maxReadySize : ℤ} {lookBack : DateTime}
    {value : Attempt ShippingPlan}
    (h : (planNextShip s.jvm s.serviceDir s.serviceInfo totalReadySize maxReadySize
      s.barnConf.hdfsLogDir s.barnConf.shipInterval lookBack).Yields clock world value world') :
    (value = s.planAt (s.lookup world) totalReadySize maxReadySize lookBack
        (s.timeOf clock .planNextShip) (s.timeOf clock .enoughTimePast) ∧
      s.Prepared world world' ∧
      (world'.fileSystems s.serviceDir = true → world.fileSystems s.serviceDir = true ∨
        s.Uncached world (s.timeOf clock .planNextShip) lookBack 0)) ∨
    (∃ throwable, value = .error (.thrown throwable)) ∧ world.fileSystems s.serviceDir = false ∧
      s.Uncached world (s.timeOf clock .planNextShip) lookBack 0 := by
  rw [planNextShip, yields_bind_iff] at h
  simp only [yields_now_iff, reduceCtorEq, false_and, exists_false, or_false,
    Except.ok.injEq] at h
  obtain ⟨base, start, ⟨rfl, rfl⟩, h⟩ := h
  have hclock : s.Prepared world { world with clock := clock .planNextShip } := ⟨rfl, rfl, id⟩
  unfold Setting.planAt
  rcases yields_bind_iff.1 h with ⟨found, middle, hsearch, h⟩ | ⟨failure, hsearch, rfl⟩
  · rcases searchDirs_yields hsearch with ⟨hfound, hprepared, hconnected⟩ | ⟨⟨_, hthrown⟩, _⟩
    · obtain ⟨rfl, hticked⟩ := planFrom_yields h
      refine .inl ⟨?_, (hclock.trans hprepared).trans hticked.prepared, ?_⟩
      · replace hfound : .ok found = s.searchWith (s.lookup world) (s.timeOf clock .planNextShip)
            lookBack (targetDirsBound (s.timeOf clock .planNextShip) lookBack) 0 := hfound
        rw [← hfound]
        rfl
      · rw [hticked]
        exact hconnected
    · simp at hthrown
  · rcases searchDirs_yields hsearch with ⟨hfound, hprepared, hconnected⟩ |
      ⟨⟨throwable, hthrown⟩, hrest⟩
    · refine .inl ⟨?_, hclock.trans hprepared, hconnected⟩
      replace hfound : .error failure = s.searchWith (s.lookup world) (s.timeOf clock .planNextShip)
          lookBack (targetDirsBound (s.timeOf clock .planNextShip) lookBack) 0 := hfound
      rw [← hfound]
      rfl
    · exact .inr ⟨⟨throwable, by rw [Except.error.inj hthrown]⟩, hrest⟩

/-- Planning can yield that. -/
theorem planNextShip_can_yield (s : Setting) (clock : ClockUse → ℤ)
    (totalReadySize maxReadySize : ℤ) (lookBack : DateTime) (world : World) :
    ∃ final, (planNextShip s.jvm s.serviceDir s.serviceInfo totalReadySize maxReadySize
      s.barnConf.hdfsLogDir s.barnConf.shipInterval lookBack).Yields clock world
        (s.planAt (s.lookup world) totalReadySize maxReadySize lookBack
          (s.timeOf clock .planNextShip) (s.timeOf clock .enoughTimePast)) final := by
  have hnow : (Action.now s.jvm .planNextShip).Yields clock world
      (.ok (s.timeOf clock .planNextShip)) { world with clock := clock .planNextShip } :=
    yields_now_iff.2 ⟨rfl, rfl⟩
  obtain ⟨middle, hsearch⟩ : ∃ middle, (searchDirs s.jvm s.serviceDir s.serviceInfo
      (s.searched (s.timeOf clock .planNextShip) lookBack)
      (targetDirsBound (s.timeOf clock .planNextShip) lookBack) 0).Yields clock
        { world with clock := clock .planNextShip }
        (s.searchWith (s.lookup world) (s.timeOf clock .planNextShip) lookBack
          (targetDirsBound (s.timeOf clock .planNextShip) lookBack) 0) middle :=
    searchDirs_can_yield _ _ _
  unfold Setting.planAt
  cases hfound : s.searchWith (s.lookup world) (s.timeOf clock .planNextShip) lookBack
      (targetDirsBound (s.timeOf clock .planNextShip) lookBack) 0 with
  | error failure =>
      rw [hfound] at hsearch
      exact ⟨middle, yields_bind_iff.2 (.inl ⟨_, _, hnow,
        yields_bind_iff.2 (.inr ⟨failure, hsearch, rfl⟩)⟩)⟩
  | ok found =>
      rw [hfound] at hsearch
      obtain ⟨value, final, hrest⟩ := exists_yields clock (do
        let infos ← Action.attempt (ofListing (found.getD (.ok [])))
        let lastShippedTimestamp ←
          Action.attempt (bare (lastShippedTime s.jvm (getLastShippedTaistamp infos)))
        isShippingTime s.jvm lastShippedTimestamp s.barnConf.shipInterval totalReadySize
          maxReadySize
        return (⟨datePath s.barnConf.hdfsLogDir (dateBucket (s.timeOf clock .planNextShip) 0),
          targetTempDir s.barnConf.hdfsLogDir, getLastShippedTaistamp infos⟩ : ShippingPlan)) middle
      obtain ⟨rfl, _⟩ := planFrom_yields hrest
      exact ⟨final, yields_bind_iff.2 (.inl ⟨_, _, hnow,
        yields_bind_iff.2 (.inl ⟨found, middle, hsearch, hrest⟩)⟩)⟩

/-- If the search comes to a directory that is not cached and the file system has yet to be
created, an exception can escape from planning. -/
theorem planNextShip_can_throw (totalReadySize maxReadySize : ℤ) {lookBack : DateTime}
    (hconnected : world.fileSystems s.serviceDir = false)
    (huncached : s.Uncached world (s.timeOf clock .planNextShip) lookBack 0) :
    ∃ throwable final, (planNextShip s.jvm s.serviceDir s.serviceInfo totalReadySize maxReadySize
      s.barnConf.hdfsLogDir s.barnConf.shipInterval lookBack).Yields clock world
        (.error (.thrown throwable)) final := by
  have hnow : (Action.now s.jvm .planNextShip).Yields clock world
      (.ok (s.timeOf clock .planNextShip)) { world with clock := clock .planNextShip } :=
    yields_now_iff.2 ⟨rfl, rfl⟩
  obtain ⟨throwable, final, hsearch⟩ : ∃ throwable final, (searchDirs s.jvm s.serviceDir
      s.serviceInfo (s.searched (s.timeOf clock .planNextShip) lookBack)
      (targetDirsBound (s.timeOf clock .planNextShip) lookBack) 0).Yields clock
        { world with clock := clock .planNextShip } (.error (.thrown throwable)) final :=
    searchDirs_can_throw rfl _ _ _ (Nat.le_of_eq (Nat.zero_add _).symm) hconnected huncached
  exact ⟨throwable, final, yields_bind_iff.2 (.inl ⟨_, _, hnow,
    yields_bind_iff.2 (.inr ⟨_, hsearch, rfl⟩)⟩)⟩

end Lookups

end Barn.Hdfs
