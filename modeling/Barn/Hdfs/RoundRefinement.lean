import Barn.Hdfs.ActionLogic
import Barn.Hdfs.Round

/-!
# The rounds follow their protocol

Every part of `actOnServiceDir` does what `RoundStep` allows, whatever happens elsewhere meanwhile
and however its requests turn out. Read `actOnServiceDir_follows` last.
-/

namespace Barn.Hdfs

open Interaction Relation

variable {t : Terms} {α : Type}

section Stability

variable {world world' : World}

/-- What concerns the service is the same whatever others do. -/
theorem Interference.sameConcerns (h : Interference t world world') :
    t.SameConcerns world world' := by
  cases h with
  | elsewhere h => exact h.sameConcerns
  | arrival h => exact .of_hdfs_eq rfl

/-- So are the files for temporary use. -/
theorem Interference.temp_eq (h : Interference t world world') :
    world'.localTemp = world.localTemp ∧ world'.entries t.tempDir = world.entries t.tempDir := by
  cases h with
  | elsewhere h => exact ⟨h.localTemp_eq, h.tempEntries_eq⟩
  | arrival h => exact ⟨rfl, rfl⟩

/-- A coherent cache stays coherent. -/
theorem Interference.coherent (h : Interference t world world') (hcoherent : t.Coherent world) :
    t.Coherent world' := by
  have hsame := h.sameConcerns
  cases h with
  | elsewhere h =>
      intro path listing hlisting
      rcases h.cache_coherent path listing hlisting with hold | hnew
      · exact (hcoherent path listing hold).congr hsame
      · exact hnew
  | arrival h => exact fun path listing hlisting => (hcoherent path listing hlisting).congr hsame

/-- A condition on the phase together with one on the world that others cannot destroy. -/
theorem stableIn_and (onPhase : Phase → Prop) {onWorld : World → Prop}
    (h : ∀ world world', Interference t world world' → onWorld world → onWorld world') :
    StableIn (roundContract t) fun phase world => onPhase phase ∧ onWorld world :=
  fun _ _ _ hboth hrely => ⟨hboth.1, h _ _ hrely hboth.2⟩

/-- A condition on the phase alone. -/
theorem stableIn_phase (onPhase : Phase → Prop) :
    StableIn (roundContract t) fun phase _ => onPhase phase :=
  fun _ _ _ h _ => h

/-- In this phase, with a cache that is coherent if it is trusted. -/
def InPhase (t : Terms) (phase current : Phase) (world : World) : Prop :=
  current = phase ∧ (t.trusted → t.Coherent world)

/-- The clock does not matter for it. -/
theorem InPhase.clock {phase current : Phase} {world : World} {millis : ℤ}
    (h : InPhase t phase current world) :
    InPhase t phase current { world with clock := millis } :=
  ⟨h.1, fun htrusted => (h.2 htrusted).congr rfl (.of_hdfs_eq rfl)⟩

/-- Others do not change that. -/
theorem stableIn_inPhase (phase : Phase) : StableIn (roundContract t) (InPhase t phase) :=
  stableIn_and _ fun _ _ hrely h htrusted => hrely.coherent (h htrusted)

end Stability

/-- Moving the clock forward is unobserved. -/
theorem unobserved_clock {world : World} {millis : ℤ} (h : world.clock ≤ millis) :
    Unobserved t.toSetting world { world with clock := millis } :=
  ⟨h, rfl, rfl, fun _ _ => rfl⟩

/-- A change of the cache, the file systems or the temporary files is unobserved. -/
theorem unobserved_of_entries {world world' : World} (hclock : world'.clock = world.clock)
    (hlocal : world'.localDirs = world.localDirs) (hreceived : world'.received = world.received)
    (hentries : ∀ path, path ≠ t.tempDir → world'.entries path = world.entries path) :
    Unobserved t.toSetting world world' :=
  ⟨hclock.ge, hlocal, hreceived, hentries⟩

/-- A request that does nothing a round leaves behind. -/
theorem triple_internal {command : Command} {result : signature.Reply command → Attempt α}
    {pre : Phase → World → Prop} {post : α → Phase → World → Prop}
    (hpre : StableIn (roundContract t) pre)
    (hpost : ∀ value, StableIn (roundContract t) (post value))
    (h : ∀ phase world outcome reply after, pre phase world →
      answer command outcome world = some (reply, after) → Unobserved t.toSetting world after ∧
        ∀ value, result reply = .ok value → post value phase after) :
    Triple (roundContract t) pre
      (Program.request command fun reply => Action.attempt (result reply)) post := by
  refine Triple.request hpre hpost fun phase world outcome reply after hworld _ hanswer => ?_
  obtain ⟨hunobserved, hvalue⟩ := h phase world outcome reply after hworld hanswer
  exact ⟨phase, .single (.internal hunobserved), hvalue⟩

/-- A value taken out of a computation without requests. -/
theorem triple_attempt {result : Attempt α} {pre : Phase → World → Prop}
    (hstable : StableIn (roundContract t) pre) :
    Triple (roundContract t) pre (Action.attempt result)
      fun value phase world => result = .ok value ∧ pre phase world :=
  Triple.attempt (fun _ phase _ _ h hrely => ⟨h.1, hstable phase _ _ h.2 hrely⟩)
    fun _ hresult _ _ hpre => ⟨hresult, hpre⟩

section Planning

/-- Listing the local files at the beginning of a round. -/
theorem triple_listSortedLocalFiles :
    Triple (roundContract t) (InPhase t .ready) (listSortedLocalFiles t.jvm t.serviceDir)
      fun files => InPhase t (.listed files) := by
  have hlist : Triple (roundContract t) (InPhase t .ready) (Action.listFiles t.serviceDir)
      fun listing => InPhase t (.listed (sortedFiles (listing.getD []))) := by
    refine Triple.request (stableIn_inPhase _) (fun _ => stableIn_inPhase _) ?_
    rintro phase world outcome reply after ⟨rfl, hcoherent⟩ _ hanswer
    obtain ⟨rfl, hlisting⟩ := answer_listFiles hanswer
    refine ⟨.listed (sortedFiles (after.localFiles t.serviceDir)), .single .list, ?_⟩
    intro listing hok
    cases reply with
    | error throwable => simp [bare] at hok
    | ok found =>
        rw [← Except.ok.inj hok, hlisting found rfl]
        exact ⟨rfl, hcoherent⟩
  refine Triple.validate (Triple.bind hlist fun listing => ?_) fun _ => stableIn_inPhase _
  cases listing with
  | none => exact Triple.failure
  | some listing => exact Triple.attempt (fun _ => stableIn_inPhase _) (by
      rintro files hfiles phase world hworld
      rw [← Except.ok.inj hfiles]
      exact hworld)

/-- Computing how far back to look. -/
theorem triple_earliestLookbackDate {files : List File} {minFileDate : Option DateTime}
    (hdate : earliestFileDate t.jvm files = .ok minFileDate) :
    Triple (roundContract t) (InPhase t (.listed files))
      (earliestLookbackDate t.jvm minFileDate maxLookBackDays)
      fun lookBack => InPhase t (.looking files lookBack) := by
  have hnow : Triple (roundContract t) (InPhase t (.listed files))
      (Action.now t.jvm .earliestLookbackDate) fun now =>
        InPhase t (.looking files (lookBackDate minFileDate (now.minusDays maxLookBackDays))) := by
    refine Triple.request (stableIn_inPhase _) (fun _ => stableIn_inPhase _) ?_
    rintro phase world outcome reply after ⟨rfl, hcoherent⟩ _ hanswer
    obtain ⟨rfl, hclock, rfl⟩ := answer_now hanswer
    refine ⟨_, .single (.look hclock hdate), fun now hok => ?_⟩
    rw [← Except.ok.inj hok]
    exact InPhase.clock ⟨rfl, hcoherent⟩
  refine Triple.bind hnow fun now => Triple.attempt (fun _ => stableIn_inPhase _) ?_
  rintro lookBack hlookBack phase world hworld
  rw [← Except.ok.inj hlookBack]
  exact hworld

/-- In this phase, with a coherent cache if it is trusted, and with something known about what
concerns the service. -/
def Knowing (t : Terms) (phase : Phase) (known : World → Prop) (current : Phase) (world : World) :
    Prop :=
  InPhase t phase current world ∧ known world

/-- What is known depends only on what concerns the service. -/
def OfConcerns (t : Terms) (known : World → Prop) : Prop :=
  ∀ world world', t.SameConcerns world world' → known world → known world'

/-- Others do not change what is known. -/
theorem stableIn_knowing {known : World → Prop} (hknown : OfConcerns t known) (phase : Phase) :
    StableIn (roundContract t) (Knowing t phase known) :=
  fun _ _ _ h hrely => ⟨stableIn_inPhase _ _ _ _ h.1 hrely, hknown _ _ hrely.sameConcerns h.2⟩

/-- Nor does a change of anything but the clock, the cache and the local disk. -/
theorem Knowing.of_hdfs_eq {known : World → Prop} (hknown : OfConcerns t known)
    {phase current : Phase} {world world' : World} (h : Knowing t phase known current world)
    (hcache : world'.hdfsListCache = world.hdfsListCache) (hhdfs : world'.hdfs = world.hdfs) :
    Knowing t phase known current world' :=
  ⟨⟨h.1.1, fun htrusted => (h.1.2 htrusted).congr hcache (.of_hdfs_eq hhdfs)⟩,
    hknown _ _ (.of_hdfs_eq hhdfs) h.2⟩

/-- A lookup of a directory, in the cache or on HDFS: what it returns is true, if the cache is
trusted. -/
theorem triple_cachingLs {phase : Phase} {known : World → Prop} (hknown : OfConcerns t known)
    (path : HdfsDir) :
    Triple (roundContract t) (Knowing t phase known) (cachingLs t.jvm t.serviceDir path)
      fun listing => Knowing t phase fun world =>
        known world ∧ (t.trusted → t.CoherentListing world path listing) := by
  have hlisting : ∀ listing, OfConcerns t fun world =>
      known world ∧ (t.trusted → t.CoherentListing world path listing) :=
    fun listing world world' hsame h =>
      ⟨hknown _ _ hsame h.1, fun htrusted => (h.2 htrusted).congr hsame⟩
  -- One triple for each step of the lookup: the cache, the file system, the listing, the cache
  -- again.
  have hget : Triple (roundContract t) (Knowing t phase known) (Action.cacheGet path)
      fun cached => Knowing t phase fun world => known world ∧
        ∀ listing, cached = some listing → t.trusted → t.CoherentListing world path listing := by
    refine triple_internal (stableIn_knowing hknown _) (fun cached => stableIn_knowing ?_ _) ?_
    · exact fun world world' hsame h => ⟨hknown _ _ hsame h.1,
        fun listing hcached htrusted => (h.2 listing hcached htrusted).congr hsame⟩
    · rintro current world outcome reply after hworld hanswer
      obtain ⟨hreply, rfl⟩ := answer_cacheGet hanswer
      refine ⟨unobserved_of_entries rfl rfl rfl fun _ _ => rfl, fun cached hok => ?_⟩
      rw [← Except.ok.inj hok]
      refine ⟨hworld.1, hworld.2, fun listing hlisting htrusted =>
        hworld.1.2 htrusted path listing ?_⟩
      rw [← hreply, hlisting]
  have hunbox : Triple (roundContract t) (Knowing t phase known) (Action.unboxLazy t.serviceDir)
      fun _ => Knowing t phase known := by
    refine triple_internal (stableIn_knowing hknown _) (fun _ => stableIn_knowing hknown _) ?_
    rintro current world outcome reply after hworld hanswer
    obtain ⟨fileSystems, rfl⟩ := answer_unboxLazy hanswer
    exact ⟨unobserved_of_entries rfl rfl rfl fun _ _ => rfl,
      fun _ _ => hworld.of_hdfs_eq hknown rfl rfl⟩
  have hlist : Triple (roundContract t) (Knowing t phase known)
      (listPlacedFiles t.jvm path)
      fun listing => Knowing t phase fun world =>
        known world ∧ (t.trusted → t.CoherentListing world path listing) := by
    refine triple_internal (stableIn_knowing hknown _)
      (fun listing => stableIn_knowing (hlisting listing) _) ?_
    rintro current world outcome reply after hworld hanswer
    obtain ⟨rfl, _⟩ := answer_listStatus hanswer
    refine ⟨unobserved_of_entries rfl rfl rfl fun _ _ => rfl, fun listing hok => ?_⟩
    exact ⟨hworld.1, hworld.2, fun _ => Setting.coherent_of_answer hanswer hok⟩
  have hput : ∀ listing, Triple (roundContract t)
      (Knowing t phase fun world =>
        known world ∧ (t.trusted → t.CoherentListing world path listing))
      (Action.cachePut path listing) fun _ => Knowing t phase fun world =>
        known world ∧ (t.trusted → t.CoherentListing world path listing) := by
    intro listing
    refine triple_internal (stableIn_knowing (hlisting listing) _)
      (fun _ => stableIn_knowing (hlisting listing) _) ?_
    rintro current world outcome reply after ⟨hphase, hworld⟩ hanswer
    have hafter := answer_cachePut hanswer
    have hhdfs : after.hdfs = world.hdfs := by rw [hafter]
    refine ⟨by rw [hafter]; exact unobserved_of_entries rfl rfl rfl fun _ _ => rfl,
      fun _ _ => ⟨⟨hphase.1, ?_⟩, hlisting listing _ _ (.of_hdfs_eq hhdfs) hworld⟩⟩
    -- The new entry is what was just listed; the others were true before.
    intro htrusted other found hfound
    rw [hafter] at hfound ⊢
    change Function.update world.hdfsListCache path (some listing) other = some found at hfound
    rw [Function.update_apply] at hfound
    split at hfound
    · next heq =>
        rw [heq, ← Option.some.inj hfound]
        exact (hworld.2 htrusted).congr (.of_hdfs_eq rfl)
    · exact (hphase.2 htrusted other found hfound).congr (.of_hdfs_eq rfl)
  -- A hit ends the lookup, a miss goes on to HDFS.
  refine Triple.bind hget fun cached => ?_
  cases cached with
  | some listing =>
      refine Triple.attempt (fun found => stableIn_knowing (hlisting found) _)
        fun found hfound current world hworld => ?_
      rw [← Except.ok.inj hfound]
      exact ⟨hworld.1, hworld.2.1, hworld.2.2 listing rfl⟩
  | none =>
      refine Triple.bind (hunbox.weaken fun _ _ h => ⟨h.1, h.2.1⟩) fun _ => ?_
      refine Triple.bind hlist fun listing => Triple.bind (hput listing) fun _ => ?_
      refine Triple.attempt (fun found => stableIn_knowing (hlisting found) _)
        fun found hfound current world hworld => ?_
      rw [← Except.ok.inj hfound]
      exact hworld

/-- The search has passed these directories: each is in the stream, and silent if the cache is
trusted. -/
def Passed (t : Terms) (base lookBack : DateTime) (count : ℕ) (world : World) : Prop :=
  ∀ before < count, ∃ path,
    targetDir t.jvm base t.barnConf.hdfsLogDir lookBack before = .ok (some path) ∧
      (t.trusted → t.Silent world path)

/-- That depends only on what concerns the service. -/
theorem ofConcerns_passed (base lookBack : DateTime) (count : ℕ) :
    OfConcerns t (Passed t base lookBack count) := by
  intro world world' hsame h before hlt
  obtain ⟨path, hpath, hsilent⟩ := h before hlt
  exact ⟨path, hpath, fun htrusted => (hsilent htrusted).congr hsame⟩

/-- What the search has found is so, if the cache is trusted. -/
def Found (t : Terms) (base lookBack : DateTime) (found : Option Listing) (world : World) : Prop :=
  ∀ infos, found.getD (.ok []) = .ok infos → t.trusted → t.SearchFound world base lookBack infos

/-- That depends only on what concerns the service. -/
theorem ofConcerns_found (base lookBack : DateTime) (found : Option Listing) :
    OfConcerns t (Found t base lookBack found) :=
  fun _ _ hsame h infos hinfos htrusted => (h infos hinfos htrusted).congr hsame

/-- The search on HDFS finds what `SearchFound` says. -/
theorem triple_searchDirs {phase : Phase} {base lookBack : DateTime}
    (hzone : base.zone = t.jvm.zone) (fuel count : ℕ)
    (henough : targetDirsBound base lookBack ≤ count + fuel) :
    Triple (roundContract t) (Knowing t phase (Passed t base lookBack count))
      (searchDirs t.jvm t.serviceDir t.serviceInfo
        (targetDir t.jvm base t.barnConf.hdfsLogDir lookBack) fuel count)
      fun found => Knowing t phase (Found t base lookBack found) := by
  have hpost : ∀ found, StableIn (roundContract t)
      (Knowing t phase (Found t base lookBack found)) :=
    fun found => stableIn_knowing (ofConcerns_found base lookBack found) phase
  induction fuel generalizing count with
  | zero =>
      -- The stream ends before its bound, so the search never runs out of fuel.
      intro current world h
      obtain ⟨_, hpassed⟩ := h
      have hpositive : 2 ≤ targetDirsBound base lookBack := Nat.le_add_left 2 _
      obtain ⟨path, hpath, _⟩ := hpassed (count - 1) (by omega)
      have hbound := targetDir_bound hzone hpath
      omega
  | succ fuel ih =>
      rw [searchDirs]
      refine Triple.bind (triple_attempt (stableIn_knowing (ofConcerns_passed _ _ _) _))
        fun next => ?_
      cases next with
      | none =>
          refine Triple.attempt hpost fun found hfound current world hworld => ?_
          obtain ⟨hend, hphase, hpassed⟩ := hworld
          rw [← Except.ok.inj hfound]
          refine ⟨hphase, fun infos hinfos htrusted => ⟨count, fun before hlt => ?_, .inl ?_⟩⟩
          · obtain ⟨path, hpath, hsilent⟩ := hpassed before hlt
            exact ⟨path, hpath, hsilent htrusted⟩
          · exact ⟨(Except.ok.inj hinfos).symm, bare_eq_ok_iff.1 hend⟩
      | some path =>
          intro current world h
          obtain ⟨hnext, hworld⟩ := h
          have htarget := bare_eq_ok_iff.1 hnext
          refine Triple.bind (triple_cachingLs (ofConcerns_passed _ _ _) path)
            (fun listing => ?_) current world hworld
          cases hrelevant : relevantFiles t.serviceInfo listing with
          | some relevant =>
              refine Triple.attempt hpost fun found hfound current world hworld => ?_
              obtain ⟨hphase, hpassed, hlisting⟩ := hworld
              rw [← Except.ok.inj hfound]
              refine ⟨hphase, fun infos hinfos htrusted => ⟨count, fun before hlt => ?_, .inr ?_⟩⟩
              · obtain ⟨path, hpath, hsilent⟩ := hpassed before hlt
                exact ⟨path, hpath, hsilent htrusted⟩
              · have htrue := hlisting htrusted
                simp only [Option.getD_some] at hinfos
                rw [Setting.CoherentListing, hrelevant, hinfos] at htrue
                exact ⟨path, htarget, htrue⟩
          | none =>
              refine (ih (count + 1) (by omega)).weaken fun current world hworld => ?_
              obtain ⟨hphase, hpassed, hlisting⟩ := hworld
              refine ⟨hphase, fun before hlt => ?_⟩
              rcases Nat.lt_succ_iff_lt_or_eq.1 hlt with hearlier | rfl
              · exact hpassed before hearlier
              · refine ⟨path, htarget, fun htrusted => ?_⟩
                have htrue := hlisting htrusted
                rwa [Setting.CoherentListing, hrelevant] at htrue

/-- The throttle reads the clock and changes nothing. -/
theorem triple_isShippingTime {phase : Phase} {known : World → Prop} (hknown : OfConcerns t known)
    (lastShippedTimestamp : Option DateTime) (shippingInterval totalReadySize maxReadySize : ℤ) :
    Triple (roundContract t) (Knowing t phase known)
      (isShippingTime t.jvm lastShippedTimestamp shippingInterval totalReadySize maxReadySize)
      fun _ => Knowing t phase known := by
  have hstable := stableIn_knowing hknown phase
  have hnow : Triple (roundContract t) (Knowing t phase known)
      (Action.now t.jvm .enoughTimePast) fun _ => Knowing t phase known := by
    refine triple_internal hstable (fun _ => hstable) ?_
    rintro current world outcome reply after hworld hanswer
    obtain ⟨rfl, hclock, rfl⟩ := answer_now hanswer
    exact ⟨unobserved_clock hclock, fun _ _ => hworld.of_hdfs_eq hknown rfl rfl⟩
  cases lastShippedTimestamp with
  | none => exact Triple.attempt (fun _ => hstable) fun _ _ _ _ h => h
  | some lastTimestamp =>
      have henough : Triple (roundContract t) (Knowing t phase known)
          (enoughTimePast t.jvm lastTimestamp shippingInterval) fun _ => Knowing t phase known :=
        Triple.bind hnow fun now => Triple.bind (triple_attempt hstable) fun seconds =>
          Triple.attempt (fun _ => hstable) fun _ _ _ _ h => h.2
      refine Triple.bind henough fun enough => ?_
      split
      · exact Triple.attempt (fun _ => hstable) fun _ _ _ _ h => h
      · exact Triple.failure

/-- A plan has been made for this base from what the search has found. -/
structure Planned (t : Terms) (base : DateTime) (infos : List PlacedFileInfo)
    (plan : ShippingPlan) : Prop where
  zone : base.zone = t.jvm.zone
  hdfsDir : plan.hdfsDir = t.hdfsDir base
  hdfsTempDir : plan.hdfsTempDir = t.tempDir
  lastTaistamp : plan.lastTaistamp = getLastShippedTaistamp infos

/-- What the search has found depends only on what concerns the service. -/
theorem ofConcerns_searchFound (base lookBack : DateTime) (infos : List PlacedFileInfo) :
    OfConcerns t fun world => t.trusted → t.SearchFound world base lookBack infos :=
  fun _ _ hsame h htrusted => (h htrusted).congr hsame

/-- In the planning phase, with what the search has found. -/
def Planning (t : Terms) (files : List File) (lookBack base : DateTime)
    (infos : List PlacedFileInfo) : Phase → World → Prop :=
  Knowing t (.planning files lookBack base) fun world =>
    t.trusted → t.SearchFound world base lookBack infos

/-- Others do not change that. -/
theorem stableIn_planning (files : List File) (lookBack base : DateTime)
    (infos : List PlacedFileInfo) :
    StableIn (roundContract t) (Planning t files lookBack base infos) :=
  stableIn_knowing (ofConcerns_searchFound base lookBack infos) _

/-- Planning the next ship. -/
theorem triple_planNextShip {files : List File} {lookBack : DateTime}
    (totalReadySize maxReadySize : ℤ) :
    Triple (roundContract t) (InPhase t (.looking files lookBack))
      (planNextShip t.jvm t.serviceDir t.serviceInfo totalReadySize maxReadySize
        t.barnConf.hdfsLogDir t.barnConf.shipInterval lookBack)
      fun plan current world => ∃ index : DateTime × List PlacedFileInfo,
        Planned t index.1 index.2 plan ∧
          Planning t files lookBack index.1 index.2 current world := by
  have hpost : ∀ plan, StableIn (roundContract t) fun current world =>
      ∃ index : DateTime × List PlacedFileInfo, Planned t index.1 index.2 plan ∧
        Planning t files lookBack index.1 index.2 current world :=
    fun plan current world world' ⟨index, hplan, h⟩ hrely =>
      ⟨index, hplan, stableIn_planning _ _ _ _ _ _ _ h hrely⟩
  have hnow : Triple (roundContract t) (InPhase t (.looking files lookBack))
      (Action.now t.jvm .planNextShip) fun base current world => base.zone = t.jvm.zone ∧
        InPhase t (.planning files lookBack base) current world := by
    refine Triple.request (stableIn_inPhase _)
      (fun base current world world' h hrely => ⟨h.1, stableIn_inPhase _ _ _ _ h.2 hrely⟩) ?_
    rintro current world outcome reply after ⟨rfl, hcoherent⟩ _ hanswer
    obtain ⟨rfl, hclock, rfl⟩ := answer_now hanswer
    refine ⟨_, .single (.plan hclock), fun base hok => ?_⟩
    rw [← Except.ok.inj hok]
    exact ⟨rfl, InPhase.clock ⟨rfl, hcoherent⟩⟩
  refine Triple.bind hnow fun base => ?_
  rintro current world ⟨hzone, hworld⟩
  refine Triple.bind (triple_searchDirs hzone (targetDirsBound base lookBack) 0 (by omega))
    (fun found => ?_) current world ⟨hworld, fun before hlt => absurd hlt (by omega)⟩
  refine Triple.bind (triple_attempt (stableIn_knowing (ofConcerns_found _ _ _) _))
    fun infos => ?_
  rintro current world ⟨hinfos, hworld⟩
  have hlisted : found.getD (.ok []) = .ok infos := by
    cases hfound : found.getD (.ok []) with
    | error error => simp [hfound, ofListing] at hinfos
    | ok other =>
        rw [hfound] at hinfos
        exact congrArg _ (Except.ok.inj hinfos)
  have hplanning : Planning t files lookBack base infos current world :=
    ⟨hworld.1, fun htrusted => hworld.2 infos hlisted htrusted⟩
  refine Triple.bind (triple_attempt (stableIn_planning files lookBack base infos))
    (fun time => ?_) current world hplanning
  -- The throttle only reads the clock: that it was passed is not needed below.
  have hshipping : Triple (roundContract t) (Planning t files lookBack base infos)
      (isShippingTime t.jvm time t.barnConf.shipInterval totalReadySize maxReadySize)
      fun _ => Planning t files lookBack base infos :=
    triple_isShippingTime (ofConcerns_searchFound _ _ _) _ _ _ _
  refine Triple.bind (hshipping.weaken fun _ _ h => h.2) fun _ => ?_
  refine Triple.attempt hpost fun plan hplan current world h => ⟨(base, infos), ?_, h⟩
  rw [← Except.ok.inj hplan]
  exact ⟨hzone, rfl, rfl, rfl⟩

/-- Selecting the candidates. -/
theorem triple_outstandingFiles {files : List File} {lookBack base : DateTime}
    {infos : List PlacedFileInfo} :
    Triple (roundContract t) (Planning t files lookBack base infos)
      (outstandingFiles t.jvm files (getLastShippedTaistamp infos))
      fun candidates current _ => current = .selected base candidates := by
  have hnow : Triple (roundContract t) (Planning t files lookBack base infos)
      (Action.now t.jvm .outstandingFiles) fun now current _ => ∀ candidates,
        dropWhileThrows (isSettled t.jvm (getLastShippedTaistamp infos) (oldestMidnight now))
          files = .ok candidates → candidates ≠ [] → current = .selected base candidates := by
    refine Triple.request (stableIn_planning _ _ _ _) (fun now => stableIn_phase _) ?_
    rintro current world outcome reply after ⟨⟨rfl, hcoherent⟩, hfound⟩ hallowed hanswer
    obtain ⟨rfl, hclock, rfl⟩ := answer_now hanswer
    by_cases hselect : ∃ candidates, dropWhileThrows (isSettled t.jvm
        (getLastShippedTaistamp infos) (oldestMidnight ⟨reply, t.jvm.zone⟩)) files =
          .ok candidates ∧ candidates ≠ []
    · obtain ⟨candidates, hcandidates, hne⟩ := hselect
      refine ⟨_, .single (.select hclock (hallowed reply rfl rfl) hfound hcandidates hne), ?_⟩
      intro now hok others hothers _
      rw [← Except.ok.inj hok, hcandidates] at hothers
      rw [Except.ok.inj hothers]
    · refine ⟨_, .single (.internal (unobserved_clock hclock)), fun now hok candidates hc hne => ?_⟩
      rw [← Except.ok.inj hok] at hc
      exact absurd ⟨candidates, hc, hne⟩ hselect
  refine Triple.bind hnow fun now => Triple.bind (triple_attempt (stableIn_phase _))
    fun candidates => ?_
  cases candidates with
  | nil => exact Triple.failure
  | cons first rest =>
      refine Triple.attempt (fun _ => stableIn_phase _) fun found hfound current world h => ?_
      rw [← Except.ok.inj hfound]
      exact h.2 _ (bare_eq_ok_iff.1 h.1) (by simp)

end Planning

section Shipping

/-- Selected candidates, with something known about the temporary files. -/
def Selected (base : DateTime) (candidates : List File) (known : World → Prop) (current : Phase)
    (world : World) : Prop :=
  current = .selected base candidates ∧ known world

/-- What is known depends only on the temporary files. -/
def OfTemp (t : Terms) (known : World → Prop) : Prop :=
  ∀ world world', world'.localTemp = world.localTemp →
    world'.entries t.tempDir = world.entries t.tempDir → known world → known world'

/-- Others do not change what is known about the temporary files. -/
theorem stableIn_selected {known : World → Prop} (hknown : OfTemp t known) (base : DateTime)
    (candidates : List File) :
    StableIn (roundContract t) (Selected base candidates known) :=
  fun _ _ _ h hrely => ⟨h.1, hknown _ _ hrely.temp_eq.1 hrely.temp_eq.2 h.2⟩

/-- The combination of the candidates is in this local file. -/
def Combined (candidates : List File) (path : Text) (world : World) : Prop :=
  world.localTemp path = some (.combined candidates)

/-- The combination of the candidates is in this temporary file on HDFS. -/
def Copied (t : Terms) (candidates : List File) (name : Text) (world : World) : Prop :=
  (world.entries t.tempDir).find? (fun entry => entry.getName = name) =
    some ⟨name, false, .combined candidates⟩

theorem ofTemp_combined (candidates : List File) (path : Text) :
    OfTemp t (Combined candidates path) :=
  fun _ _ htemp _ h => by rwa [Combined, htemp]

theorem ofTemp_copied (candidates : List File) (name : Text) :
    OfTemp t (Copied t candidates name) :=
  fun _ _ _ hentries h => by rwa [Copied, hentries]

variable {base : DateTime} {candidates : List File}

/-- Combining the candidates. -/
theorem triple_concatCandidates (targetDir : Dir) :
    Triple (roundContract t) (fun current _ => current = .selected base candidates)
      (concatCandidates t.jvm candidates targetDir)
      fun path => Selected base candidates (Combined candidates path) := by
  have hstable := fun path => stableIn_selected (ofTemp_combined (t := t) candidates path) base
    candidates
  refine Triple.validate (triple_internal (stableIn_phase _) hstable ?_) hstable
  rintro current world outcome reply after rfl hanswer
  rcases answer_combineIntoSeqFile hanswer with ⟨path, rfl, rfl⟩ | ⟨⟨throwable, rfl⟩, rfl⟩
  · refine ⟨unobserved_of_entries rfl rfl rfl fun _ _ => rfl, fun found hfound => ⟨rfl, ?_⟩⟩
    rw [← Except.ok.inj hfound]
    show Function.update world.localTemp path (some (.combined candidates)) path = _
    rw [Function.update_self]
  · exact ⟨unobserved_of_entries rfl rfl rfl fun _ _ => rfl, fun found hfound => by
      simp [bare] at hfound⟩

/-- Creating the file system. -/
theorem triple_unboxLazy {known : World → Prop} (hknown : OfTemp t known) :
    Triple (roundContract t) (Selected base candidates known) (Action.unboxLazy t.serviceDir)
      fun _ => Selected base candidates known := by
  have hstable := stableIn_selected hknown base candidates
  refine triple_internal hstable (fun _ => hstable) ?_
  rintro current world outcome reply after ⟨hphase, hworld⟩ hanswer
  obtain ⟨fileSystems, rfl⟩ := answer_unboxLazy hanswer
  exact ⟨unobserved_of_entries rfl rfl rfl fun _ _ => rfl,
    fun _ _ => ⟨hphase, hknown world _ rfl rfl hworld⟩⟩

/-- Creating a directory. -/
theorem triple_ensureHdfsDir {known : World → Prop} (hknown : OfTemp t known)
    (hdfsDir : HdfsDir) :
    Triple (roundContract t) (Selected base candidates known)
      (ensureHdfsDir t.jvm t.serviceDir hdfsDir) fun _ => Selected base candidates known := by
  have hstable := stableIn_selected hknown base candidates
  refine Triple.bind (triple_unboxLazy hknown) fun _ => Triple.validate ?_ fun _ => hstable
  refine triple_internal hstable (fun _ => hstable) ?_
  rintro current world outcome reply after ⟨hphase, hworld⟩ hanswer
  rcases answer_mkdirs hanswer with rfl | rfl
  · exact ⟨unobserved_of_entries rfl rfl rfl fun _ _ => rfl, fun _ _ => ⟨hphase, hworld⟩⟩
  · refine ⟨unobserved_of_entries rfl rfl rfl fun path _ => World.entries_makeDirectory path,
      fun _ _ => ⟨hphase, hknown world _ rfl (World.entries_makeDirectory _) hworld⟩⟩

/-- Copying the combination to a temporary file on HDFS. -/
theorem triple_shipToHdfs (path name : Text) :
    Triple (roundContract t) (Selected base candidates (Combined candidates path))
      (shipToHdfs t.jvm path ⟨t.tempDir, name⟩)
      fun _ => Selected base candidates (Copied t candidates name) := by
  have hstable := fun _ : Unit => stableIn_selected (ofTemp_copied (t := t) candidates name) base
    candidates
  refine Triple.validate (triple_internal (stableIn_selected (ofTemp_combined _ _) _ _) hstable ?_)
    hstable
  rintro current world outcome reply after ⟨hphase, hcombined⟩ hanswer
  rcases answer_copyFromLocalFile hanswer with
    ⟨content, localTemp, hcontent, rfl⟩ | ⟨⟨throwable, rfl⟩, hafter⟩
  · rw [Combined, hcontent, Option.some.injEq] at hcombined
    subst hcombined
    refine ⟨unobserved_of_entries rfl rfl rfl fun other hother => World.entries_writeFile hother,
      fun _ _ => ⟨hphase, ?_⟩⟩
    exact World.find?_writeFile ⟨t.tempDir, name⟩ (.combined candidates)
  · refine ⟨?_, fun _ hok => by simp [bare] at hok⟩
    rcases hafter with rfl | rfl
    · exact unobserved_of_entries rfl rfl rfl fun _ _ => rfl
    · exact unobserved_of_entries rfl rfl rfl fun other hother => World.entries_writeFile hother

/-- Renaming the temporary file, which ships it. -/
theorem triple_atomicRenameOnHdfs {last : File} {name target : Text}
    (hlast : candidates.getLast? = some last)
    (htarget : targetName t.jvm (svlogdFileNameToTaiString last.getName) t.serviceInfo =
      .ok target) :
    Triple (roundContract t) (Selected base candidates (Copied t candidates name))
      (atomicRenameOnHdfs t.jvm ⟨t.tempDir, name⟩ (t.hdfsDir base) target)
      fun _ current _ => current = .shipped candidates := by
  have hrename : Triple (roundContract t) (Selected base candidates (Copied t candidates name))
      (Action.rename ⟨t.tempDir, name⟩ ⟨t.hdfsDir base, target⟩)
      fun renamed current _ => renamed = true → current = .shipped candidates := by
    refine Triple.request (stableIn_selected (ofTemp_copied _ _) _ _)
      (fun renamed => stableIn_phase _) ?_
    rintro current world outcome reply after ⟨rfl, hcopied⟩ _ hanswer
    rcases answer_rename hanswer with hmoved | ⟨hreply, rfl⟩
    · obtain ⟨hfresh, hadded, hother, hclock, hlocal, hreceived⟩ :=
        World.moveFile_spec hmoved (t.hdfsDir_ne_tempDir base).symm hcopied
      exact ⟨_, .single (.ship hlast htarget ⟨hfresh, hclock, hlocal, hreceived, hadded, hother⟩),
        fun _ _ _ => rfl⟩
    · refine ⟨_, .refl, fun renamed hok htrue => absurd ?_ hreply⟩
      rw [htrue] at hok
      exact bare_eq_ok_iff.1 hok
  refine Triple.validate (Triple.bind hrename fun renamed => ?_) fun _ => stableIn_phase _
  split
  · next htrue => exact Triple.attempt (fun _ => stableIn_phase _) fun _ _ _ _ h => h htrue
  · exact Triple.failure

/-- Deleting retained files, which never include the last one of the listing. -/
theorem triple_deleteRetained {shipped : Bool} {limit : DateTime} {listed : List File} (minMB : ℤ)
    (files : List File) (hfiles : ∀ file ∈ files, file ∈ listed.rdrop 1)
    (deletedSoFar : ℤ × ℤ) :
    Triple (roundContract t) (fun current _ => current = .cleaning shipped limit listed)
      (deleteRetained t.jvm limit minMB files deletedSoFar)
      fun _ current _ => current = .cleaning shipped limit listed := by
  induction files generalizing deletedSoFar with
  | nil => exact Triple.attempt (fun _ => stableIn_phase _) fun _ _ _ _ h => h
  | cons file files ih =>
      have hrest := ih fun other hother => hfiles other (.tail _ hother)
      rw [deleteRetained]
      refine Triple.bind (triple_attempt (stableIn_phase _)) fun time => ?_
      split
      · next hold =>
          refine Triple.bind ?_ fun _ => hrest _
          refine Triple.request (fun current _ _ h _ => h) (fun _ => stableIn_phase _) ?_
          rintro current world outcome reply after ⟨htime, rfl⟩ _ hanswer
          rcases answer_delete hanswer with rfl | rfl
          · exact ⟨_, .refl, fun _ _ => rfl⟩
          · exact ⟨_, .single (.delete (hfiles file List.mem_cons_self)
              (bare_eq_ok_iff.1 htime) hold.1), fun _ _ => rfl⟩
      · exact (hrest _).weaken fun _ _ h => h.2

/-- Cleaning up, from a phase in which the protocol lets the cleanup begin. -/
theorem triple_cleanupLocal {phase : Phase} {shipped : Bool} {limit : DateTime} (minMB : ℤ)
    (hclean : ∀ world, RoundStep t (phase, world)
      (.cleaning shipped limit (sortedFiles (world.localFiles t.serviceDir)), world)) :
    Triple (roundContract t) (fun current _ => current = phase)
      (cleanupLocal t.jvm t.serviceDir limit minMB)
      fun _ current _ => ∃ listed, current = .cleaning shipped limit listed := by
  have hlist : Triple (roundContract t) (fun current _ => current = phase)
      (Action.listFiles t.serviceDir)
      fun listing current _ =>
        current = .cleaning shipped limit (sortedFiles (listing.getD [])) := by
    refine Triple.request (stableIn_phase _) (fun _ => stableIn_phase _) ?_
    rintro current world outcome reply after rfl _ hanswer
    obtain ⟨rfl, hlisting⟩ := answer_listFiles hanswer
    refine ⟨_, .single (hclean after), fun listing hok => ?_⟩
    cases reply with
    | error throwable => simp [bare] at hok
    | ok found =>
        rw [← Except.ok.inj hok, hlisting found rfl]
        rfl
  have hsorted : Triple (roundContract t) (fun current _ => current = phase)
      (listSortedLocalFiles t.jvm t.serviceDir)
      fun files current _ => current = .cleaning shipped limit files := by
    refine Triple.validate (Triple.bind hlist fun listing => ?_) fun _ => stableIn_phase _
    cases listing with
    | none => exact Triple.failure
    | some listing => exact Triple.attempt (fun _ => stableIn_phase _) (by
        rintro files hfiles current world hworld
        rw [← Except.ok.inj hfiles]
        exact hworld)
  refine Triple.bind hsorted fun files => Triple.validate ?_ fun _ => stableIn_phase _
  exact (triple_deleteRetained minMB _ (fun _ h => h) _).mono fun _ _ _ h => ⟨files, h⟩

/-- Shipping the candidates and cleaning up after it. -/
theorem triple_shipCandidates {plan : ShippingPlan} (hdir : plan.hdfsDir = t.hdfsDir base)
    (htemp : plan.hdfsTempDir = t.tempDir) :
    Triple (roundContract t) (fun current _ => current = .selected base candidates)
      (shipCandidates t.jvm t.barnConf t.serviceDir t.serviceInfo plan candidates)
      fun _ current _ => ∃ limit files, current = .cleaning true limit files := by
  -- The steps before the rename are internal; the rename makes the shipment, and cleaning up
  -- follows.
  refine Triple.bind (triple_concatCandidates _) fun path => ?_
  have hcombined := ofTemp_combined (t := t) candidates path
  have hstable := stableIn_selected hcombined base candidates
  refine Triple.bind (triple_attempt hstable) fun last => ?_
  intro current world h
  obtain ⟨hlast, hworld⟩ := h
  have hlast : candidates.getLast? = some last := by
    have hok := bare_eq_ok_iff.1 hlast
    unfold lastCandidate at hok
    split at hok
    · next file hfile => rw [hfile, Except.ok.inj hok]
    · simp at hok
  refine Triple.bind (triple_attempt hstable) (fun target => ?_) current world hworld
  intro current world h
  obtain ⟨htarget, hworld⟩ := h
  refine Triple.bind (triple_ensureHdfsDir hcombined _) (fun _ => ?_) current world hworld
  refine Triple.bind (triple_ensureHdfsDir hcombined _) fun _ => ?_
  have hname : Triple (roundContract t) (Selected base candidates (Combined candidates path))
      Action.randomName fun _ => Selected base candidates (Combined candidates path) := by
    refine triple_internal hstable (fun _ => hstable) ?_
    rintro current world outcome reply after ⟨hphase, hworld⟩ hanswer
    rw [answer_randomName hanswer]
    exact ⟨unobserved_of_entries rfl rfl rfl fun _ _ => rfl,
      fun _ _ => ⟨hphase, hcombined world _ rfl rfl hworld⟩⟩
  have hship : Triple (roundContract t) (Selected base candidates (Combined candidates path))
      (atomicShipToHdfs t.jvm t.serviceDir path plan.hdfsDir target plan.hdfsTempDir)
      fun _ current _ => current = .shipped candidates := by
    rw [hdir, htemp]
    exact Triple.bind (triple_unboxLazy hcombined) fun _ => Triple.bind hname fun name =>
      Triple.bind (triple_shipToHdfs path name) fun _ =>
        triple_atomicRenameOnHdfs hlast (bare_eq_ok_iff.1 htarget)
  refine Triple.bind hship fun _ => ?_
  refine Triple.bind (triple_attempt (stableIn_phase _)) fun shipped => ?_
  intro current world h
  obtain ⟨hshipped, hworld⟩ := h
  have hlimit := fileTime_of_svlogdFileTimestamp hshipped
  refine Triple.bind (triple_cleanupLocal minMB fun world => .cleanShipped hlast hlimit)
    (fun _ => ?_) current world hworld
  refine Triple.attempt (fun _ _ _ _ h _ => h) fun _ _ current _ ⟨files, h⟩ => ?_
  exact ⟨_, files, h⟩

end Shipping

/-- The part of a round before any cleanup after a failure. -/
theorem triple_syncServiceDir :
    Triple (roundContract t) (InPhase t .ready)
      (syncServiceDir t.jvm t.barnConf t.serviceDir)
      fun _ current _ => ∃ limit files, current = .cleaning true limit files := by
  refine Triple.bind (triple_attempt (stableIn_inPhase _)) fun info => ?_
  intro current world h
  obtain ⟨hinfo, hworld⟩ := h
  have hinfo : info = t.serviceInfo := by
    rw [t.decodes] at hinfo
    exact (Except.ok.inj hinfo).symm
  subst hinfo
  refine Triple.bind triple_listSortedLocalFiles (fun files => ?_) current world hworld
  refine Triple.bind (triple_attempt (stableIn_inPhase _)) fun minFileDate => ?_
  intro current world h
  obtain ⟨hdate, hworld⟩ := h
  refine Triple.bind (triple_earliestLookbackDate hdate) (fun lookBack => ?_) current world hworld
  refine Triple.bind (triple_planNextShip _ _) fun plan => Triple.exists_ fun index => ?_
  intro current world h
  obtain ⟨hplan, hworld⟩ := h
  rw [hplan.lastTaistamp]
  exact Triple.bind triple_outstandingFiles
    (fun candidates => triple_shipCandidates hplan.hdfsDir hplan.hdfsTempDir) current world hworld

/-- The cleanup after a failure, whatever happened before. -/
theorem triple_cleanupAfterError :
    Triple (roundContract t) (fun _ _ => True) (cleanupAfterError t.jvm t.serviceDir)
      fun _ _ _ => True := by
  have hnow : Triple (roundContract t) (fun _ _ => True) (Action.now t.jvm .actOnServiceDir)
      fun now current _ => current = .failed now := by
    refine Triple.request (stableIn_phase _) (fun _ => stableIn_phase _) ?_
    rintro current world outcome reply after _ _ hanswer
    obtain ⟨rfl, hclock, rfl⟩ := answer_now hanswer
    refine ⟨_, .single (.fail hclock), fun now hok => ?_⟩
    rw [← Except.ok.inj hok]
  refine Triple.bind hnow fun now => ?_
  exact (triple_cleanupLocal minMB fun world => .cleanOld).mono fun _ _ _ _ => trivial

/-- A whole round follows the protocol; one that succeeds has shipped. -/
theorem actOnServiceDir_follows {world : World} (h : InPhase t .ready .ready world) :
    Follows (roundContract t)
      (fun result phase _ => result = .ok () → ∃ limit files, phase = .cleaning true limit files)
      (actOnServiceDir t.jvm t.barnConf t.serviceDir) .ready world := by
  have hdone : ∀ (result : Attempt Unit) (phase : Phase) (world : World),
      (result = .ok () → ∃ limit files, phase = .cleaning true limit files) →
      Follows (roundContract t)
        (fun result phase _ => result = .ok () → ∃ limit files, phase = .cleaning true limit files)
        (Action.attempt result) phase world :=
    fun _ _ _ hresult => Follows.done (fun _ _ h _ => h) hresult
  refine (triple_syncServiceDir .ready world h).bind ?_
  intro result phase world hshipped
  cases result with
  | ok value => exact hdone _ phase world fun _ => hshipped value rfl
  | error failure =>
      cases failure with
      | thrown throwable => exact hdone _ phase world (by simp)
      | left error =>
          refine (triple_cleanupAfterError phase world trivial).bind ?_
          exact fun _ phase world _ => hdone _ phase world (by simp)

end Barn.Hdfs
