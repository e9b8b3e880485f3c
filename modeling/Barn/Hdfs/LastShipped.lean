import Barn.Hdfs.NoLoss
import Barn.Hdfs.Solo

/-!
# The search finds the last shipped file

The search on HDFS stops at the first directory that tells something about the service. In a time
zone in which the local date never goes back, what it finds there is the greatest taistamp in all
directories it could have searched, because the rounds of a service ship greater and greater
taistamps on later and later days: `Annals` is that invariant. Read `planNextShip_findsLast` last.
-/

namespace Barn.Hdfs

open Interaction Relation

namespace Setting

variable (s : Setting)

/-- The directory is one of `targetDirs`. -/
def InTargetDirs (base lookBack : DateTime) (path : HdfsDir) : Prop :=
  ∃ index, (∀ before < index, ∃ earlier, s.searched base lookBack before = .ok (some earlier)) ∧
    s.searched base lookBack index = .ok (some path)

/-- The entry is a file of the service with this taistamp: its name reads back so, or it holds
files of the service directory of which the last one has it. -/
def IsServiceFile (entry : Entry) (taistamp : Text) : Prop :=
  entry.isDir = false ∧
    ((∃ info, placedInfo entry.getName = some info ∧ placedMatches info s.serviceInfo = true ∧
      info.taistamp = taistamp) ∨
    ∃ sources last, entry.content = .combined sources ∧ sources.getLast? = some last ∧
      last.parent = s.serviceDir ∧ last.taistamp = taistamp)

/-- The taistamps of the service's files in all directories of `targetDirs`. -/
def shippedIn (world : World) (base lookBack : DateTime) : Set Text :=
  {taistamp | ∃ path, s.InTargetDirs base lookBack path ∧
    ∃ entry ∈ world.entries path, s.IsServiceFile entry taistamp}

/-- However far planning looks back, at whatever time and with whatever is cached as long as it is
true: the last taistamp of the plan is the greatest one in all directories of `targetDirs`, or
there is none in any of them. -/
def FindsLast (world : World) : Prop :=
  ∀ (begun : World) clock totalReadySize maxReadySize lookBack plan final,
    begun.hdfs = world.hdfs → s.Coherent begun →
    (planNextShip s.jvm s.serviceDir s.serviceInfo totalReadySize maxReadySize
      s.barnConf.hdfsLogDir s.barnConf.shipInterval lookBack).Yields clock begun (.ok plan) final →
    let shipped := s.shippedIn world (s.timeOf clock .planNextShip) lookBack
    (plan.lastTaistamp = none → shipped = ∅) ∧
      ∀ taistamp, plan.lastTaistamp = some taistamp → IsGreatest shipped taistamp

/-- Files of svlogd arrive in order, nothing is said about the selection of candidates. -/
def annalsTerms : Terms where
  toSetting := s
  trusted := True
  mayRead := fun _ _ => True
  mayArrive := fun world file => s.IsSvlogdFile file ∧
    (∀ other ∈ world.received, other.taistamp < file.taistamp) ∧ s.ReadsBack file

end Setting

section Invariant

variable (s : Setting) (day : ℤ → ℤ) (shipments : List Shipment) (world : World)

/-- These are the shipments so far, in order: each is not earlier than those before it, in the days
as in the taistamps. -/
structure Annals : Prop where
  entries_iff : ∀ path, path ≠ s.tempDir → ∀ entry, s.Concerns entry →
    (entry ∈ world.entries path ↔
      ∃ shipment ∈ shipments, path = s.dayDir shipment.day ∧ entry = shipment.entry)
  name_eq : ∀ shipment ∈ shipments,
    targetName s.jvm shipment.last.taistamp s.serviceInfo = .ok shipment.name
  last_eq : ∀ shipment ∈ shipments, shipment.sources.getLast? = some shipment.last
  sources_sublist : ∀ shipment ∈ shipments, shipment.sources.Sublist world.received
  day_le : ∀ shipment ∈ shipments, shipment.day ≤ day world.clock
  ordered : shipments.Pairwise fun first second =>
    first.last.taistamp ≤ second.last.taistamp ∧ first.day ≤ second.day

/-- These files arrived, and no shipment is greater than the last of them. -/
structure UpToDate (files : List File) : Prop where
  sublist : files.Sublist world.received
  last_le : ∀ last, files.getLast? = some last → ∀ shipment ∈ shipments,
    shipment.last.taistamp ≤ last.taistamp

/-- This time has come, and no shipment is of a later day. -/
structure Current (base : DateTime) : Prop where
  zone_eq : base.zone = s.jvm.zone
  clock_le : base.millis ≤ world.clock
  day_le : ∀ shipment ∈ shipments, shipment.day ≤ day base.millis

/-- What holds in each phase of a round. -/
def Underway : Phase → Prop
  | .listed files | .looking files _ => UpToDate shipments world files
  | .planning files _ base | .selected base files =>
      UpToDate shipments world files ∧ Current s day shipments world base
  | .cleaning _ _ files => files.Sublist world.received
  | .ready | .shipped _ | .failed _ => True

/-- The invariant of the rounds. In particular the newest file is never deleted. -/
structure Faithful (state : Phase × World) : Prop where
  arrived : s.Arrived state.2
  readsBack : ∀ file ∈ state.2.received, s.ReadsBack file
  newest : ∀ newest, state.2.received.getLast? = some newest →
    newest ∈ state.2.localFiles s.serviceDir
  annals : Annals s day shipments state.2
  underway : Underway s day shipments state.2 state.1

end Invariant

section Preservation

variable {s : Setting} {day : ℤ → ℤ} {shipments : List Shipment} {world world' : World}
  {files : List File} {phase : Phase} {file : File}

theorem Annals.calm (hzone : s.jvm.zone.Advances day) (h : Annals s day shipments world)
    (hcalm : s.Calm world world') : Annals s day shipments world' where
  entries_iff := fun path hpath entry hconcerns =>
    (hcalm.sameConcerns path hpath entry hconcerns).trans (h.entries_iff path hpath entry hconcerns)
  name_eq := h.name_eq
  last_eq := h.last_eq
  sources_sublist := by
    rw [hcalm.received_eq]
    exact h.sources_sublist
  day_le := fun shipment hshipment =>
    (h.day_le shipment hshipment).trans (hzone.day_le hcalm.clock_le)
  ordered := h.ordered

theorem UpToDate.calm (h : UpToDate shipments world files) (hcalm : s.Calm world world') :
    UpToDate shipments world' files where
  sublist := by
    rw [hcalm.received_eq]
    exact h.sublist
  last_le := h.last_le

theorem Current.later {base : DateTime} (h : Current s day shipments world base)
    (hclock : world.clock ≤ world'.clock) : Current s day shipments world' base :=
  ⟨h.zone_eq, h.clock_le.trans hclock, h.day_le⟩

/-- Calm changes keep the invariant. -/
theorem Faithful.calm (hzone : s.jvm.zone.Advances day)
    (h : Faithful s day shipments (phase, world)) (hcalm : s.Calm world world') :
    Faithful s day shipments (phase, world') where
  arrived := h.arrived.calm hcalm
  readsBack := by
    rw [hcalm.received_eq]
    exact h.readsBack
  newest := by
    rw [hcalm.received_eq, hcalm.localFiles_eq]
    exact h.newest
  annals := h.annals.calm hzone hcalm
  underway := by
    have hunderway := h.underway
    cases phase with
    | listed files => exact hunderway.calm hcalm
    | looking files lookBack => exact hunderway.calm hcalm
    | planning files lookBack base =>
        exact ⟨hunderway.1.calm hcalm, hunderway.2.later hcalm.clock_le⟩
    | selected base candidates =>
        exact ⟨hunderway.1.calm hcalm, hunderway.2.later hcalm.clock_le⟩
    | cleaning shipped limit files =>
        show files.Sublist world'.received
        rw [hcalm.received_eq]
        exact hunderway
    | _ => trivial

theorem UpToDate.receive (h : UpToDate shipments world files) (file : File) :
    UpToDate shipments (world.receive file) files :=
  ⟨h.sublist.trans (List.sublist_append_left _ _), h.last_le⟩

/-- A file that arrives in order keeps the invariant. -/
theorem Faithful.receive (h : Faithful s day shipments (phase, world))
    (hfile : s.IsSvlogdFile file)
    (hgreater : ∀ other ∈ world.received, other.taistamp < file.taistamp)
    (hreadsBack : s.ReadsBack file) :
    Faithful s day shipments (phase, world.receive file) where
  arrived := h.arrived.receive hfile hgreater
  readsBack := by
    intro other hother
    rcases List.mem_append.1 hother with hold | hnew
    · exact h.readsBack other hold
    · rw [List.mem_singleton.1 hnew]
      exact hreadsBack
  newest := by
    intro newest hnewest
    rw [show (world.receive file).received = world.received ++ [file] from rfl,
      List.getLast?_concat, Option.some.injEq] at hnewest
    rw [Setting.localFiles_receive hfile.parent_eq, ← hnewest]
    exact List.mem_append_right _ (List.mem_singleton_self _)
  annals := ⟨h.annals.entries_iff, h.annals.name_eq, h.annals.last_eq,
    fun shipment hshipment =>
      (h.annals.sources_sublist shipment hshipment).trans (List.sublist_append_left _ _),
    h.annals.day_le, h.annals.ordered⟩
  underway := by
    have hunderway := h.underway
    cases phase with
    | listed files => exact hunderway.receive file
    | looking files lookBack => exact hunderway.receive file
    | planning files lookBack base => exact ⟨hunderway.1.receive file, hunderway.2.later le_rfl⟩
    | selected base candidates => exact ⟨hunderway.1.receive file, hunderway.2.later le_rfl⟩
    | cleaning shipped limit files => exact hunderway.trans (List.sublist_append_left _ _)
    | _ => trivial

/-- A file that is listed before another one is not the newest. -/
theorem ne_newest_of_mem_rdrop (harrived : s.Arrived world) (hfiles : files.Sublist world.received)
    (hfile : file ∈ files.rdrop 1) {newest : File}
    (hnewest : world.received.getLast? = some newest) : newest ≠ file := by
  obtain rfl | ⟨before, last, rfl⟩ := List.eq_nil_or_concat' files
  · exact absurd hfile (by simp)
  rw [List.rdrop_concat_succ, List.rdrop_zero] at hfile
  have hlast : last ∈ world.received := hfiles.subset (by simp)
  have hlt : file.taistamp < last.taistamp :=
    (List.pairwise_append.1 (harrived.sorted.sublist hfiles)).2.2 file hfile last (by simp)
  intro heq
  rw [← heq] at hlt
  exact absurd (taistamp_le_getLast harrived.sorted hnewest last hlast) hlt.not_ge

/-- So a deletion during the cleanup keeps the invariant. -/
theorem Faithful.removeLocal {shipped : Bool} {limit : DateTime}
    (h : Faithful s day shipments (.cleaning shipped limit files, world))
    (hfile : file ∈ files.rdrop 1) :
    Faithful s day shipments (.cleaning shipped limit files, world.removeLocal file) where
  arrived := h.arrived.removeLocal
  readsBack := h.readsBack
  newest := fun newest hnewest => Setting.mem_removeLocal_iff.2 ⟨h.newest newest hnewest,
    fun _ => ne_newest_of_mem_rdrop h.arrived h.underway hfile hnewest⟩
  annals := ⟨h.annals.entries_iff, h.annals.name_eq, h.annals.last_eq, h.annals.sources_sublist,
    h.annals.day_le, h.annals.ordered⟩
  underway := h.underway

/-- The listing with which a round begins is up to date. -/
theorem Faithful.list (h : Faithful s day shipments (phase, world)) :
    UpToDate shipments world (world.localFiles s.serviceDir) where
  sublist := h.arrived.sublist
  last_le := by
    intro last hlast shipment hshipment
    have hreceived := getLast?_mem_received (h.annals.sources_sublist shipment hshipment)
      (h.annals.last_eq shipment hshipment)
    obtain ⟨newest, hnewest⟩ := Option.isSome_iff_exists.1
      (List.getLast?_isSome.2 (List.ne_nil_of_mem hreceived))
    calc shipment.last.taistamp
        ≤ newest.taistamp := taistamp_le_getLast h.arrived.sorted hnewest _ hreceived
      _ ≤ last.taistamp := taistamp_le_getLast (h.arrived.sorted.sublist h.arrived.sublist) hlast _
        (h.newest newest hnewest)

/-- The end of some files is as up to date as the files. -/
theorem UpToDate.suffix {candidates : List File} (h : UpToDate shipments world files)
    (hsuffix : candidates <:+ files) : UpToDate shipments world candidates where
  sublist := hsuffix.sublist.trans h.sublist
  last_le := by
    intro last hlast
    refine h.last_le last ?_
    obtain ⟨before, rfl⟩ := hsuffix
    rw [List.getLast?_append, hlast]
    rfl

/-- The directory for a time is that of its day. -/
theorem hdfsDir_advances (hzone : s.jvm.zone.Advances day) {base : DateTime}
    (hbase : base.zone = s.jvm.zone) : s.hdfsDir base = s.dayDir (day base.millis) := by
  show datePath _ (dateBucket base 0) = datePath _ _
  rw [dateBucket, DateTime.minusDays, if_pos rfl, DateTime.toLocalDate, hbase, hzone.toLocalDate_eq]

/-- A shipment is entered. -/
theorem Faithful.ship (hzone : s.jvm.zone.Advances day) {base : DateTime} {candidates : List File}
    {last : File} {name : Text} (h : Faithful s day shipments (.selected base candidates, world))
    (hlast : candidates.getLast? = some last)
    (hname : targetName s.jvm last.taistamp s.serviceInfo = .ok name)
    (hadded : Added s (s.hdfsDir base) ⟨name, false, .combined candidates⟩ world world') :
    Faithful s day (shipments ++ [⟨day base.millis, candidates, last, name⟩])
      (.shipped candidates, world') := by
  obtain ⟨hupToDate, hcurrent⟩ := h.underway
  have hannals := h.annals
  have hdir : s.hdfsDir base = s.dayDir (day base.millis) :=
    hdfsDir_advances hzone hcurrent.zone_eq
  have hforall : ∀ {property : Shipment → Prop}, (∀ shipment ∈ shipments, property shipment) →
      property ⟨day base.millis, candidates, last, name⟩ →
      ∀ shipment ∈ shipments ++ [⟨day base.millis, candidates, last, name⟩],
        property shipment := by
    intro property hbefore hnew shipment hshipment
    rcases List.mem_append.1 hshipment with hold | hsingle
    · exact hbefore shipment hold
    · exact List.mem_singleton.1 hsingle ▸ hnew
  have hlocal : world'.localFiles s.serviceDir = world.localFiles s.serviceDir := by
    rw [World.localFiles, World.localFiles, hadded.localDirs_eq]
  have harrived : s.Arrived world' := by
    refine ⟨?_, ?_, ?_⟩
    · rw [hadded.received_eq]
      exact h.arrived.svlogd
    · rw [hadded.received_eq]
      exact h.arrived.sorted
    · rw [hadded.received_eq, hlocal]
      exact h.arrived.sublist
  refine ⟨harrived, ?_, ?_, ⟨?_, hforall hannals.name_eq hname, hforall hannals.last_eq hlast, ?_,
    ?_, ?_⟩, trivial⟩
  · rw [hadded.received_eq]
    exact h.readsBack
  · rw [hadded.received_eq, hlocal]
    exact h.newest
  · intro path htemp entry hconcerns
    simp only [List.mem_append, List.mem_singleton, or_and_right, exists_or, exists_eq_left]
    rw [← hannals.entries_iff path htemp entry hconcerns]
    -- The new entry is the shipment's own; elsewhere the entries are those of before.
    by_cases hpath : path = s.hdfsDir base
    · rw [hpath, hadded.entries_path, List.mem_append, List.mem_singleton, ← hdir]
      simp [Shipment.entry]
    · rw [hadded.entries_eq path hpath htemp, ← hdir]
      simp [hpath]
  · rw [hadded.received_eq]
    exact hforall hannals.sources_sublist hupToDate.sublist
  · rw [hadded.clock_eq]
    exact hforall hannals.day_le (hzone.day_le hcurrent.clock_le)
  · refine List.pairwise_append.2 ⟨hannals.ordered, List.pairwise_singleton _ _, ?_⟩
    intro shipment hshipment other hother
    rw [List.mem_singleton.1 hother]
    exact ⟨hupToDate.last_le last hlast shipment hshipment, hcurrent.day_le shipment hshipment⟩

/-- Every step of a round keeps the invariant; a shipment is added at the end. -/
theorem RoundStep.faithful (hzone : s.jvm.zone.Advances day) {state state' : Phase × World}
    (hstep : RoundStep s.annalsTerms state state') (h : Faithful s day shipments state) :
    ∃ shipments', Faithful s day shipments' state' := by
  cases hstep with
  | internal hunobserved => exact ⟨shipments, h.calm hzone (.of_unobserved hunobserved)⟩
  | @list world =>
      have hsorted : sortedFiles (world.localFiles s.annalsTerms.serviceDir) =
          world.localFiles s.serviceDir := h.arrived.sortedFiles_eq
      refine ⟨shipments, h.arrived, h.readsBack, h.newest, h.annals, ?_⟩
      rw [hsorted]
      exact h.list
  | look hclock _ =>
      have hcalm := h.calm hzone (.clock hclock)
      exact ⟨shipments, hcalm.arrived, hcalm.readsBack, hcalm.newest, hcalm.annals, hcalm.underway⟩
  | plan hclock =>
      have hcalm := h.calm hzone (.clock hclock)
      exact ⟨shipments, hcalm.arrived, hcalm.readsBack, hcalm.newest, hcalm.annals, hcalm.underway,
        rfl, le_rfl, hcalm.annals.day_le⟩
  | select hclock _ _ hcandidates _ =>
      have hcalm := h.calm hzone (.clock hclock)
      exact ⟨shipments, hcalm.arrived, hcalm.readsBack, hcalm.newest, hcalm.annals,
        hcalm.underway.1.suffix (dropWhileThrows_suffix hcandidates), hcalm.underway.2⟩
  | ship hlast hname hadded => exact ⟨_, h.ship hzone hlast hname hadded⟩
  | fail hclock =>
      have hcalm := h.calm hzone (.clock hclock)
      exact ⟨shipments, hcalm.arrived, hcalm.readsBack, hcalm.newest, hcalm.annals, trivial⟩
  | @cleanShipped candidates last limit world _ _ | @cleanOld now world =>
      have hsorted : sortedFiles (world.localFiles s.annalsTerms.serviceDir) =
          world.localFiles s.serviceDir := h.arrived.sortedFiles_eq
      refine ⟨shipments, h.arrived, h.readsBack, h.newest, h.annals, ?_⟩
      rw [hsorted]
      exact h.arrived.sublist
  | delete hfile _ _ => exact ⟨shipments, h.removeLocal hfile⟩

/-- The invariant holds at the beginning. -/
theorem Setting.Untouched.faithful (h : s.Untouched world) :
    Faithful s day [] (.ready, world) where
  arrived := h.arrived
  readsBack := by simp [h.received_eq]
  newest := by simp [h.received_eq]
  annals := by
    refine ⟨fun path _ entry hconcerns => ⟨fun hentry => ?_, by simp⟩, by simp, by simp, by simp,
      by simp, List.Pairwise.nil⟩
    exact absurd hconcerns (h.entries path entry hentry)
  underway := trivial

end Preservation

section Search

variable {s : Setting} {day : ℤ → ℤ} {shipments : List Shipment} {world : World}
  {base lookBack : DateTime}

/-- What a lookup tells is true if what is cached is. -/
theorem Setting.Coherent.lookup (h : s.Coherent world) (path : HdfsDir) :
    s.CoherentListing world path (s.lookup world path) := by
  cases hcache : world.hdfsListCache path with
  | some listing =>
      rw [Setting.lookup, hcache]
      exact h path listing hcache
  | none =>
      rw [Setting.lookup, hcache]
      obtain ⟨reply, hanswer⟩ : ∃ reply, answer (.listStatus path) .ok world =
          some (reply, world) := by
        simp only [answer]
        split <;> exact ⟨_, rfl⟩
      exact Setting.coherent_of_answer hanswer (Setting.listing_of_answer hanswer).2

/-- The search, as a function of lookups that are true, finds what `SearchFound` says. -/
theorem searchWith_found {lookup : HdfsDir → CachedListing}
    (htrue : ∀ path, s.CoherentListing world path (lookup path)) (hzone : base.zone = s.jvm.zone)
    {fuel first : ℕ} (henough : targetDirsBound base lookBack ≤ first + fuel)
    (hpassed : ∀ before < first, ∃ path,
      s.searched base lookBack before = .ok (some path) ∧ s.Silent world path)
    {found : Option Listing} (hfound : s.searchWith lookup base lookBack fuel first = .ok found)
    {infos : List PlacedFileInfo} (hinfos : ofListing (found.getD (.ok [])) = .ok infos) :
    s.SearchFound world base lookBack infos := by
  induction fuel generalizing first with
  | zero =>
      -- The stream ends before its bound, so the search never runs out of fuel.
      have hpositive : 2 ≤ targetDirsBound base lookBack := Nat.le_add_left 2 _
      obtain ⟨path, hpath, _⟩ := hpassed (first - 1) (by omega)
      have hbound := targetDir_bound hzone hpath
      omega
  | succ fuel ih =>
      rw [Setting.searchWith] at hfound
      cases hsearched : s.searched base lookBack first with
      | error throwable => simp [hsearched] at hfound
      | ok next =>
          cases next with
          | none =>
              simp only [hsearched, Except.ok.injEq] at hfound
              rw [← hfound] at hinfos
              exact ⟨first, hpassed, .inl ⟨(Except.ok.inj hinfos).symm, hsearched⟩⟩
          | some path =>
              simp only [hsearched] at hfound
              have hlisting := htrue path
              unfold Setting.CoherentListing at hlisting
              cases hrelevant : relevantFiles s.serviceInfo (lookup path) with
              | some relevant =>
                  simp only [hrelevant, Except.ok.injEq] at hfound hlisting
                  rw [← hfound, Option.getD_some] at hinfos
                  cases relevant with
                  | error error => simp [ofListing] at hinfos
                  | ok others =>
                      obtain rfl : others = infos := Except.ok.inj hinfos
                      exact ⟨first, hpassed, .inr ⟨path, hsearched, hlisting⟩⟩
              | none =>
                  simp only [hrelevant] at hfound hlisting
                  refine ih (by omega) (fun before hlt => ?_) hfound
                  rcases Nat.lt_succ_iff_lt_or_eq.1 hlt with hearlier | rfl
                  · exact hpassed before hearlier
                  · exact ⟨path, hsearched, hlisting⟩

/-- The directories of the stream are those of days that never increase. -/
theorem searched_advances (lookBack : DateTime) (hzone : s.jvm.zone.Advances day)
    (hbase : base.zone = s.jvm.zone) :
    ∃ back : ℕ → ℤ, (∀ first second, first ≤ second → back second ≤ back first) ∧
      ∀ index path, s.searched base lookBack index = .ok (some path) →
        path = s.dayDir (back index) := by
  refine ⟨fun index => day (s.jvm.zone.minusDays base.millis index), fun first second hle => ?_,
    fun index path hpath => ?_⟩
  · induction second, hle using Nat.le_induction with
    | base => exact le_rfl
    | succ second _ ih => exact (hzone.day_le (hzone.minusDays_succ _ second)).trans ih
  · have hbucket : dateBucket base index =
        .ofDays (day (s.jvm.zone.minusDays base.millis index)) := by
      rw [dateBucket, DateTime.toLocalDate, DateTime.minusDays]
      split
      · next hzero =>
          rw [hbase, hzone.toLocalDate_eq, hzero, hzone.minusDays_zero]
      · rw [hbase, hzone.toLocalDate_eq]
    unfold Setting.searched at hpath
    rw [Setting.dayDir, ← hbucket]
    cases index with
    | zero => exact (Option.some.inj (Except.ok.inj hpath)).symm
    | succ days =>
        rw [targetDir, bind_eq_ok_iff] at hpath
        obtain ⟨midnight, _, hpath⟩ := hpath
        split at hpath
        · exact (Option.some.inj (Except.ok.inj hpath)).symm
        · simp [pure, Except.pure] at hpath

/-- If the name of a shipment can be read, then it reads back as one of the service and its last
file. -/
theorem Annals.readsBack (h : Annals s day shipments world)
    (hreadsBack : ∀ file ∈ world.received, s.ReadsBack file) {shipment : Shipment}
    (hshipment : shipment ∈ shipments) {info : PlacedFileInfo}
    (hinfo : Setting.placedInfo shipment.name = some info) :
    placedMatches info s.serviceInfo = true ∧ info.taistamp = shipment.last.taistamp := by
  have hreceived := getLast?_mem_received (h.sources_sublist shipment hshipment)
    (h.last_eq shipment hshipment)
  have hname := h.name_eq shipment hshipment
  have hmatches := hreadsBack _ hreceived _ _ hname hinfo
  have hplaced : getPlacedFileInfo ⟨[], shipment.name⟩ = .ok info :=
    Setting.getPlacedFileInfo_eq_ok_iff.2 hinfo
  exact ⟨hmatches, taistamp_of_placedMatches hname hplaced hmatches⟩

/-- A file of the service concerns it. -/
theorem Setting.IsServiceFile.concerns {entry : Entry} {taistamp : Text}
    (h : s.IsServiceFile entry taistamp) : s.Concerns entry := by
  obtain ⟨hfile, ⟨info, hplaced, hmatches, _⟩ | ⟨sources, last, hcontent, hlast, hparent, _⟩⟩ := h
  · exact ⟨hfile, .inl ⟨info, hplaced, hmatches⟩⟩
  · exact ⟨hfile, .inr ⟨sources, hcontent, last, List.mem_of_getLast? hlast, hparent⟩⟩

/-- A file of the service on HDFS is a shipment. -/
theorem Annals.of_serviceFile (h : Annals s day shipments world)
    (hreadsBack : ∀ file ∈ world.received, s.ReadsBack file) {path : HdfsDir}
    (hpath : path ≠ s.tempDir) {entry : Entry} (hentry : entry ∈ world.entries path)
    {taistamp : Text} (hservice : s.IsServiceFile entry taistamp) :
    ∃ shipment ∈ shipments, path = s.dayDir shipment.day ∧ entry = shipment.entry ∧
      shipment.last.taistamp = taistamp := by
  obtain ⟨shipment, hshipment, hdir, rfl⟩ :=
    (h.entries_iff path hpath entry hservice.concerns).1 hentry
  refine ⟨shipment, hshipment, hdir, rfl, ?_⟩
  obtain ⟨_, ⟨info, hplaced, _, rfl⟩ | ⟨sources, last, hcontent, hlast, _, rfl⟩⟩ := hservice
  · exact (h.readsBack hreadsBack hshipment hplaced).2.symm
  · rw [← Content.combined.inj hcontent, h.last_eq shipment hshipment] at hlast
    rw [Option.some.inj hlast]

/-- Of two shipments one is not later than the other, in the days as in the taistamps. -/
theorem Annals.compare (h : Annals s day shipments world) {first second : Shipment}
    (hfirst : first ∈ shipments) (hsecond : second ∈ shipments) :
    first.last.taistamp ≤ second.last.taistamp ∧ first.day ≤ second.day ∨
      second.last.taistamp ≤ first.last.taistamp ∧ second.day ≤ first.day := by
  have hpairwise : shipments.Pairwise fun first second : Shipment =>
      first.last.taistamp ≤ second.last.taistamp ∧ first.day ≤ second.day ∨
        second.last.taistamp ≤ first.last.taistamp ∧ second.day ≤ first.day :=
    h.ordered.imp fun hordered => .inl hordered
  have hsymm : Std.Symm fun first second : Shipment =>
      first.last.taistamp ≤ second.last.taistamp ∧ first.day ≤ second.day ∨
        second.last.taistamp ≤ first.last.taistamp ∧ second.day ≤ first.day :=
    ⟨fun _ _ => Or.symm⟩
  by_cases heq : first = second
  · rw [heq]
    exact .inl ⟨le_rfl, le_rfl⟩
  · exact hpairwise.forall hfirst hsecond heq

/-- The invariant is all that the search relies on. -/
theorem Faithful.findsLast (hzone : s.jvm.zone.Advances day) {phase : Phase}
    (h : Faithful s day shipments (phase, world)) : s.FindsLast world := by
  intro begun clock totalReadySize maxReadySize lookBack plan final hhdfs hcoherent hyields
  obtain ⟨hplan, _⟩ | ⟨⟨_, hthrown⟩, _⟩ := planNextShip_yields hyields
  swap
  · simp at hthrown
  obtain ⟨infos, ⟨found, hfound, hinfos⟩, _, _, rfl⟩ := planAt_eq_ok_iff.1 hplan.symm
  have hsearch : s.SearchFound begun (s.timeOf clock .planNextShip) lookBack infos :=
    searchWith_found hcoherent.lookup rfl (Nat.le_of_eq (Nat.zero_add _).symm)
      (fun before hlt => absurd hlt before.not_lt_zero) hfound hinfos
  obtain ⟨count, hbefore, hend⟩ := hsearch.congr (.of_hdfs_eq hhdfs.symm)
  obtain ⟨back, hback, hdirs⟩ := searched_advances lookBack hzone
    (show (s.timeOf clock .planNextShip).zone = s.jvm.zone from rfl)
  have htemp : ∀ index path, s.searched (s.timeOf clock .planNextShip) lookBack index =
      .ok (some path) → path ≠ s.tempDir := by
    intro index path hpath
    rw [hdirs index path hpath]
    exact s.dayDir_ne_tempDir _
  -- No file of the service is in a directory that was passed.
  have hpassed : ∀ index path entry taistamp,
      s.searched (s.timeOf clock .planNextShip) lookBack index = .ok (some path) →
      entry ∈ world.entries path → s.IsServiceFile entry taistamp → count ≤ index := by
    intro index path entry taistamp hpath hentry hservice
    by_contra hlt
    obtain ⟨other, hother, hsilent⟩ := hbefore index (not_le.1 hlt)
    obtain rfl : path = other := Option.some.inj (Except.ok.inj (hpath.symm.trans hother))
    obtain ⟨info, hplaced, hnot⟩ := hsilent entry hentry hservice.concerns
    obtain ⟨shipment, hshipment, _, rfl, _⟩ :=
      h.annals.of_serviceFile h.readsBack (htemp index path hpath) hentry hservice
    rw [(h.annals.readsBack h.readsBack hshipment hplaced).1] at hnot
    exact absurd hnot (by simp)
  obtain ⟨rfl, hnone⟩ | ⟨path, hpath, htells⟩ := hend
  · refine ⟨fun _ => ?_, fun taistamp htaistamp => absurd htaistamp (by
      simp [getLastShippedTaistamp])⟩
    rw [Set.eq_empty_iff_forall_notMem]
    intro taistamp h
    obtain ⟨path, ⟨index, hearlier, hpath⟩, entry, hentry, hservice⟩ := h
    rcases (hpassed index path entry taistamp hpath hentry hservice).eq_or_lt with rfl | hlt
    · exact absurd (hpath.symm.trans hnone) (by simp)
    · obtain ⟨other, hother⟩ := hearlier count hlt
      exact absurd (hother.symm.trans hnone) (by simp)
  · obtain ⟨greatest, hgreatest⟩ := getLastShippedTaistamp_isSome htells.ne_nil
    refine ⟨fun hnone => absurd (hgreatest.symm.trans hnone) (by simp),
      fun taistamp htaistamp => ?_⟩
    obtain ⟨⟨info, hinfo, rfl⟩, hbound⟩ := getLastShippedTaistamp_spec htaistamp
    obtain ⟨hmatches, entry, hentry, hfile, hplaced⟩ := htells.sound info hinfo
    have hservice : s.IsServiceFile entry info.taistamp :=
      ⟨hfile, .inl ⟨info, hplaced, hmatches, rfl⟩⟩
    obtain ⟨last, hlast, hlastDir, rfl, hlastEq⟩ :=
      h.annals.of_serviceFile h.readsBack (htemp count path hpath) hentry hservice
    have hlastDay : last.day = back count :=
      s.dayDir_injective (hlastDir.symm.trans (hdirs count path hpath))
    refine ⟨⟨path, ⟨count, fun before hlt => ?_, hpath⟩, _, hentry, hservice⟩, ?_⟩
    · obtain ⟨earlier, hearlier, _⟩ := hbefore before hlt
      exact ⟨earlier, hearlier⟩
    · intro other h
      obtain ⟨otherPath, ⟨index, _, hindex⟩, otherEntry, hotherEntry, hotherService⟩ := h
      obtain ⟨shipment, hshipment, hdir, rfl, rfl⟩ := h.annals.of_serviceFile h.readsBack
        (htemp index otherPath hindex) hotherEntry hotherService
      rcases h.annals.compare hshipment hlast with ⟨hle, _⟩ | ⟨_, hday⟩
      · exact hlastEq ▸ hle
      · -- A shipment of a later day would be in a directory that was passed.
        have hindexDay : shipment.day = back index :=
          s.dayDir_injective (hdir.symm.trans (hdirs index otherPath hindex))
        have hsame : shipment.day = last.day := by
          refine le_antisymm ?_ hday
          rw [hindexDay, hlastDay]
          exact hback count index
            (hpassed index otherPath _ _ hindex hotherEntry hotherService)
        rw [hdir, hsame, ← hlastDir] at hotherEntry
        obtain ⟨otherInfo, hotherPlaced, hlisted⟩ :=
          htells.complete _ hotherEntry hotherService.concerns
        obtain ⟨hotherMatches, hotherTaistamp⟩ :=
          h.annals.readsBack h.readsBack hshipment hotherPlaced
        rw [← hotherTaistamp]
        exact hbound otherInfo (hlisted hotherMatches)

/-- In every world that is reached by files that arrive in order, rounds of which any step can fail,
and what happens elsewhere, the search finds the last shipped file. -/
theorem planNextShip_findsLast (hzone : s.jvm.zone.Advances day) {start : World}
    (hstart : s.Untouched start) {labels : List s.annalsTerms.actRounds.Label}
    {result : Attempt Unit} {config : s.annalsTerms.actRounds.Config}
    (hadmits : s.annalsTerms.actRounds.Admits s.annalsTerms.Meets labels (.done result, start))
    (hrun : s.annalsTerms.actRounds.run labels (.done result, start) = some config) :
    s.FindsLast config.2 := by
  obtain ⟨phase, hsteps⟩ := actRounds_follows hadmits hrun
  have hinvariant : ∃ shipments, Faithful s day shipments (phase, config.2) := by
    refine Rounds.SystemStep.invariant
      (motive := fun state => ∃ shipments, Faithful s day shipments state) ?_ ?_ ?_ hsteps
      ⟨[], hstart.faithful⟩
    · intro phase world world' hhappens hbefore
      obtain ⟨shipments, h⟩ := hbefore
      cases hhappens.interference with
      | elsewhere helsewhere => exact ⟨shipments, h.calm hzone (.of_elsewhere helsewhere)⟩
      | arrival harrives => exact ⟨shipments, h.receive harrives.1 harrives.2.1 harrives.2.2⟩
    · intro state state' hrestart hbefore
      obtain ⟨shipments, h⟩ := hbefore
      rw [hrestart]
      have hcalm := h.calm hzone (.beginRound state.2)
      exact ⟨shipments, hcalm.arrived, hcalm.readsBack, hcalm.newest, hcalm.annals, trivial⟩
    · intro state state' hstep hbefore
      obtain ⟨shipments, h⟩ := hbefore
      exact hstep.faithful hzone h
  obtain ⟨shipments, h⟩ := hinvariant
  exact h.findsLast hzone

end Search

section Sample

/-- In the rounds of two days the search finds the last file that was shipped. -/
theorem planNextShip_findsLast_arrival : ∃ config,
    Setting.sample.annalsTerms.actRounds.run daysRun (.done (.ok ()), .initial 1400000000000) =
      some config ∧ shipsDaily config = true ∧ Setting.sample.FindsLast config.2 := by
  obtain ⟨config, hrun, hships⟩ := (Option.any_eq_true _ _).1 daysRun_ships
  refine ⟨config, hrun, hships, planNextShip_findsLast
    (show Setting.sample.jvm.zone.Advances (dayAt 0) from
      DateTimeZone.forOffsetMillis_advances 0)
    ⟨rfl, rfl, by simp [World.initial, World.entries]⟩ ?_ hrun⟩
  exact Terms.admits_orderly (t := Setting.sample.annalsTerms)
    (fun _ _ h _ _ hgreater => ⟨svlogd_sampleDates h, hgreater, readsBack_sampleDates h⟩)
    (fun _ _ _ => trivial) daysRun_orderly

/-- Files of svlogd arrive in order, and what is placed comes from other services. -/
def Setting.InOrder (s : Setting) : s.actRounds.Label → s.actRounds.Config → Prop
  | .event (.arrive file), (_, world) => s.IsSvlogdFile file ∧
      ∀ other ∈ world.received, other.taistamp < file.taistamp
  | .event (.place _ entry), _ => s.PlacedElsewhere entry
  | _, _ => True

/-- Answers are in order. -/
theorem Setting.inOrder_answers {s : Setting} (outcomes : List Outcome)
    (config : s.actRounds.Config) : s.actRounds.Admits s.InOrder (s.answers outcomes) config := by
  induction outcomes generalizing config with
  | nil => trivial
  | cons outcome outcomes ih => exact ⟨trivial, fun config' _ => ih config'⟩

/-- A value that there is, is the result. -/
theorem ok_of_toOption {ε α : Type} {result : Except ε α} {value : α}
    (h : result.toOption = some value) : result = .ok value := by
  cases result with
  | error failure => simp [Except.toOption] at h
  | ok other => exact congrArg Except.ok (Option.some.inj h)

/-- Planning can be made to find a taistamp that is not the greatest one. -/
theorem Setting.not_findsLast {s : Setting} {world : World} (clock : ClockUse → ℤ)
    {totalReadySize maxReadySize : ℤ} {lookBack : DateTime} {plan : ShippingPlan}
    {taistamp greater : Text}
    (hplan : s.planAt (s.lookup (s.beginRound world)) totalReadySize maxReadySize lookBack
      (s.timeOf clock .planNextShip) (s.timeOf clock .enoughTimePast) = .ok plan)
    (hlast : plan.lastTaistamp = some taistamp)
    (hgreater : greater ∈ s.shippedIn world (s.timeOf clock .planNextShip) lookBack)
    (hlt : taistamp < greater) : ¬ s.FindsLast world := by
  intro h
  obtain ⟨final, hyields⟩ := planNextShip_can_yield s clock totalReadySize maxReadySize lookBack
    (s.beginRound world)
  rw [hplan] at hyields
  have hcoherent : s.Coherent (s.beginRound world) :=
    fun _ _ hlisting => absurd hlisting (by simp [Setting.beginRound])
  have hgreatest :=
    (h (s.beginRound world) clock _ _ _ plan final rfl hcoherent hyields).2 taistamp hlast
  exact absurd (hgreatest.2 hgreater) hlt.not_ge

/-- An earlier file of the service `a` of the host `b,c`, on HDFS. -/
def earlierCommasEntry : Entry :=
  ⟨text "2014,05,13,a,b,c,4000000053724dff00000000.seq", false,
    .combined [⟨text "/local/logs/a@main@b,c", text "@4000000053724dff00000000.s", false, 10⟩]⟩

/-- The service `a,b` of the host `c` ships a file; on the next day the other one is placed. -/
def overtakenRun : List Setting.commas.actRounds.Label :=
  Setting.commas.arrivalRun commasFile
      (smoothOutcomes 1400000000000 1 (text "combined") (text "random")) ++
    [.event (.advance 1400086400000), .event (.place (text "/logs/2014/05-14") earlierCommasEntry)]

/-- The run is one of arrivals in order. -/
theorem overtakenRun_admits : Setting.commas.actRounds.Admits Setting.commas.InOrder overtakenRun
    (.done (.ok ()), .initial 1400000000000) := by
  have hplaced : Setting.commas.PlacedElsewhere earlierCommasEntry := by
    refine ⟨text "/local/logs/a@main@b,c", ⟨text "a", text "b,c"⟩, _, _, by decide, by decide,
      fun source hsource => ?_, rfl, ?_, rfl, rfl⟩
    · rw [List.mem_singleton.1 hsource]
    · have htime : convertTai64ToTime .utc (text "4000000053724dff00000000") =
          .ok ⟨1399999964000, .utc⟩ :=
        convertTai64ToTime_of_millis (show _ = some 1399999964000 by decide)
      show targetName .utc (text "4000000053724dff00000000") _ = _
      rw [targetName, htime]
      decide
  refine ⟨⟨commas_arrives.svlogd, commas_arrives.greater⟩, fun _ _ => ⟨trivial, fun _ _ => ?_⟩⟩
  exact Rounds.admits_append (Setting.inOrder_answers _ _)
    fun _ _ => ⟨trivial, fun _ _ => ⟨hplaced, fun _ _ => trivial⟩⟩

/-- The search finds the file that was placed, though a greater one was shipped before. -/
theorem overtaken_not_found : ∃ config,
    Setting.commas.actRounds.run overtakenRun (.done (.ok ()), .initial 1400000000000) =
      some config ∧ ¬ Setting.commas.FindsLast config.2 := by
  let time : DateTime := ⟨1400086400000, Setting.commas.jvm.zone⟩
  let lookBack : DateTime := ⟨1400000000000, Setting.commas.jvm.zone⟩
  have hrun : (Setting.commas.actRounds.run overtakenRun
      (.done (.ok ()), .initial 1400000000000)).any (fun config =>
        (Setting.commas.planAt (Setting.commas.lookup (Setting.commas.beginRound config.2)) 0 0
          lookBack time time).toOption.map ShippingPlan.lastTaistamp =
            some (some (text "4000000053724dff00000000")) ∧
        (⟨text "2014,05,13,a,b,c,4000000053724e0000000000.seq", false, .combined [commasFile]⟩ ∈
          config.2.entries (text "/logs/2014/05-13"))) = true := by decide
  obtain ⟨config, hrun, hconfig⟩ := (Option.any_eq_true _ _).1 hrun
  obtain ⟨hplan, hentry⟩ := of_decide_eq_true hconfig
  obtain ⟨plan, hplan, hlast⟩ := Option.map_eq_some_iff.1 hplan
  refine ⟨config, hrun, Setting.not_findsLast (fun _ => 1400086400000)
    (ok_of_toOption hplan) hlast ⟨text "/logs/2014/05-13", ⟨1, fun before hlt => ?_, ?_⟩, _, hentry,
      rfl, .inr ⟨_, commasFile, rfl, rfl, rfl, rfl⟩⟩ (by decide)⟩
  · obtain rfl : before = 0 := by omega
    exact ⟨_, rfl⟩
  · exact ok_of_toOption (show (Setting.commas.searched time lookBack 1).toOption = _ by
      decide)

/-- The service `web` of `node1` in a zone in which the date goes back: a minute after midnight on
2010-11-07 it is 23:01 of the day before. -/
def Setting.newfoundland : Setting where
  jvm := { Jvm.utc with
    zone := .fallBack 1289097060000 (-9000000) (-12600000) (by norm_num) (by norm_num) }
  barnConf := Setting.sample.barnConf
  serviceDir := Setting.sample.serviceDir
  serviceInfo := Setting.sample.serviceInfo
  decodes := Setting.sample.decodes

/-- A file is shipped half a minute before the change, and another one half an hour after it. -/
def nightRun : List Setting.newfoundland.actRounds.Label :=
  Setting.newfoundland.arrivalRun (sampleFile (text "@400000004cd60f4a00000000.s"))
      (smoothOutcomes 1289097030000 2 (text "combined") (text "random")) ++
    Setting.newfoundland.arrivalRun (sampleFile (text "@400000004cd6161600000000.s"))
      (smoothOutcomes 1289098800000 1 (text "combined2") (text "random2"))

/-- The run is one of arrivals in order. -/
theorem nightRun_admits : Setting.newfoundland.actRounds.Admits Setting.newfoundland.InOrder
    nightRun (.done (.ok ()), .initial 1289097000000) := by
  have hsvlogd : ∀ label, label.length = 24 → IsHex label →
      Setting.newfoundland.IsSvlogdFile (sampleFile (64 :: (label ++ text ".s"))) :=
    fun label hlength hhex => ⟨rfl, rfl, label, text ".s", rfl, hlength, hhex, rfl⟩
  refine Rounds.admits_append ?_ fun config hrun => ?_
  · exact ⟨⟨hsvlogd (text "400000004cd60f4a00000000") rfl (by decide), by simp [World.initial]⟩,
      fun _ _ => ⟨trivial, fun _ _ => Setting.inOrder_answers _ _⟩⟩
  · have hall : (Setting.newfoundland.actRounds.run
        (Setting.newfoundland.arrivalRun (sampleFile (text "@400000004cd60f4a00000000.s"))
          (smoothOutcomes 1289097030000 2 (text "combined") (text "random")))
        (.done (.ok ()), .initial 1289097000000)).all (fun config =>
          config.2.received = [sampleFile (text "@400000004cd60f4a00000000.s")]) = true := by
      decide
    rw [hrun, Option.all_some, decide_eq_true_eq] at hall
    obtain ⟨program, world⟩ := config
    refine ⟨⟨hsvlogd (text "400000004cd6161600000000") rfl (by decide), fun other hother => ?_⟩,
      fun _ _ => ⟨?_, fun _ _ => Setting.inOrder_answers _ _⟩⟩
    · rw [hall, List.mem_singleton] at hother
      rw [hother]
      decide
    · trivial

/-- The search finds the first of the two files on the following day. -/
theorem night_not_found : ∃ config,
    Setting.newfoundland.actRounds.run nightRun (.done (.ok ()), .initial 1289097000000) =
      some config ∧ ¬ Setting.newfoundland.FindsLast config.2 := by
  let time : DateTime := ⟨1289102400000, Setting.newfoundland.jvm.zone⟩
  let lookBack : DateTime := ⟨1289097000000, .utc⟩
  have hrun : (Setting.newfoundland.actRounds.run nightRun
      (.done (.ok ()), .initial 1289097000000)).any (fun config =>
        (Setting.newfoundland.planAt (Setting.newfoundland.lookup
          (Setting.newfoundland.beginRound config.2)) 0 0 lookBack time time).toOption.map
            ShippingPlan.lastTaistamp = some (some (text "400000004cd60f4a00000000")) ∧
        (⟨text "2010,11,07,web,node1,400000004cd6161600000000.seq", false,
          .combined [sampleFile (text "@400000004cd60f4a00000000.s"),
            sampleFile (text "@400000004cd6161600000000.s")]⟩ ∈
          config.2.entries (text "/logs/2010/11-06"))) = true := by decide +kernel
  obtain ⟨config, hrun, hconfig⟩ := (Option.any_eq_true _ _).1 hrun
  obtain ⟨hplan, hentry⟩ := of_decide_eq_true hconfig
  obtain ⟨plan, hplan, hlast⟩ := Option.map_eq_some_iff.1 hplan
  refine ⟨config, hrun, Setting.not_findsLast (fun _ => 1289102400000)
    (ok_of_toOption hplan) hlast ⟨text "/logs/2010/11-06", ⟨1, fun before hlt => ?_, ?_⟩, _, hentry,
      rfl, .inr ⟨_, sampleFile (text "@400000004cd6161600000000.s"), rfl, rfl, rfl, rfl⟩⟩
    (by decide)⟩
  · obtain rfl : before = 0 := by omega
    exact ⟨_, rfl⟩
  · exact ok_of_toOption (show (Setting.newfoundland.searched time lookBack 1).toOption = _ by
      decide)

/-- The search does not find the last shipped file when names of another service read back as those
of this one, and when the local date goes back. -/
theorem ordinary_search_misses :
    (∃ config, Setting.commas.Untouched (.initial 1400000000000) ∧
      Setting.commas.actRounds.Admits Setting.commas.InOrder overtakenRun
        (.done (.ok ()), .initial 1400000000000) ∧
      Setting.commas.actRounds.run overtakenRun (.done (.ok ()), .initial 1400000000000) =
        some config ∧ ¬ Setting.commas.FindsLast config.2) ∧
    ∃ config, Setting.newfoundland.Untouched (.initial 1289097000000) ∧
      Setting.newfoundland.actRounds.Admits Setting.newfoundland.InOrder nightRun
        (.done (.ok ()), .initial 1289097000000) ∧
      Setting.newfoundland.actRounds.run nightRun (.done (.ok ()), .initial 1289097000000) =
        some config ∧ ¬ Setting.newfoundland.FindsLast config.2 := by
  obtain ⟨config, hrun, hmisses⟩ := overtaken_not_found
  obtain ⟨config', hrun', hmisses'⟩ := night_not_found
  exact ⟨⟨config, ⟨rfl, rfl, by simp [World.initial, World.entries]⟩, overtakenRun_admits, hrun,
    hmisses⟩, config', ⟨rfl, rfl, by simp [World.initial, World.entries]⟩, nightRun_admits, hrun',
    hmisses'⟩

end Sample

end Barn.Hdfs
