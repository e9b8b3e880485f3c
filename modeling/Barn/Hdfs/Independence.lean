import Barn.Hdfs.SharedCache

/-!
# Service directories do not interfere

What a service selects for shipping does not depend on what other directories have shipped, in
earlier rounds or in the same one: two rounds that start from worlds which differ by files of others
only, with the same local files and the same clock, select the same candidates
(`candidates_independent`). What others ship goes to names that are read back as theirs
(`renames_readElsewhere`), so the service sees the same of both worlds. This needs names that can be
told apart: two categories of a service on one host have the same names
(`candidates_depend_on_category`).
-/

namespace Barn.Hdfs

open Interaction

section Independence

variable {ι : Type} [DecidableEq ι] [Fintype ι] {c : Collector ι} {thread : ι} {s : Setting}
  {clock : ClockUse → ℤ} {listing : List File} {world : World}
  {config config' : c.rounds.Config}

/-- What everybody keeps to at all times: the others place files under names of others. -/
def Collector.namings (s : Setting) (thread other : ι) : Discipline signature :=
  s.discipline (fun _ _ => True) (fun name => other ≠ thread → s.ReadsElsewhere name)
    fun command reply => Collector.Meets s thread (fun _ _ => True) other ⟨command, reply⟩

omit [DecidableEq ι] [Fintype ι] in
/-- Everybody keeps to that. -/
theorem Collector.disciplined_namings (hserves : c.Serves thread s) (hapart : c.Apart thread s) :
    c.rounds.Disciplined (namings s thread) (fun _ => True)
      (Meets s thread fun _ _ => True) where
  event := fun _ _ _ _ _ _ => trivial
  answer := by
    intro other command outcome world reply world' _ hmeets _ _
    refine ⟨trivial, hmeets, ?_⟩
    cases command <;> first | trivial | exact fun _ _ => trivial
  begin := fun _ _ => trivial
  body := by
    intro other
    have hobeys : (actOnServiceDir s.jvm s.barnConf (c.serviceDir other)).Obeys
        (namings s thread other) fun _ => True := by
      have hlists : ∀ listing, Meets s thread (fun _ _ => True) other
          ⟨.listFiles (c.serviceDir other), .ok (some listing)⟩ →
            ∀ file ∈ listing, other ≠ thread → Datable s.jvm file :=
        fun listing hmeets file hfile hother => hmeets.2 hother _ _ rfl file hfile
      refine actOnServiceDir_obeys _ hlists fun info hinfo file hfile name hname hother => ?_
      exact (hapart other hother info hinfo).readsElsewhere (hfile hother) hname
    rw [hserves.jvm_eq, hserves.barnConf_eq] at hobeys
    exact hobeys

/-- In every run the others ask for names of others. -/
theorem renames_readElsewhere (hserves : c.Serves thread s) (hapart : c.Apart thread s)
    {labels : List c.rounds.Label} {results : ι → Attempt Unit}
    (hrun : c.rounds.run labels ⟨fun other => .done (results other), world, []⟩ = some config)
    (hothers : OthersDatable s.jvm thread config.log) {other : ι} {source target : HdfsFile}
    {reply : Throws Bool} (hother : other ≠ thread)
    (hrename : (other, ⟨.rename source target, reply⟩) ∈ config.log) :
    s.ReadsElsewhere target.getName := by
  have hstart : Threads.Everyone (Collector.namings s thread) (fun _ => True)
      (⟨fun other => .done (results other), world, []⟩ : c.rounds.Config) :=
    ⟨trivial, fun _ => trivial⟩
  have hmeets : ∀ entry ∈ config.log,
      Collector.Meets s thread (fun _ _ => True) entry.1 entry.2 := by
    intro entry hentry
    obtain ⟨other, command, reply⟩ := entry
    refine ⟨fun _ => trivial, fun hother dir listing heq => ?_⟩
    dsimp only at heq
    rw [heq] at hentry
    exact hothers other dir listing hother hentry
  obtain ⟨_, hmay⟩ := hstart.run (Collector.disciplined_namings hserves hapart) hrun
    (List.nil_append _).symm hmeets
  exact (hmay _ hrename).1 hother

/-- HDFS without some files that threads other than this one have placed according to the log. -/
structure Purged (s : Setting) (thread : ι) (log : List (ι × Exchange signature))
    (world purged : World) : Prop where
  listingFault : purged.listingFault = world.listingFault
  entries : ∀ path, path ≠ s.tempDir → ∃ keeps : Entry → Bool,
    purged.entries path = (world.entries path).filter keeps ∧
      ∀ entry ∈ world.entries path, keeps entry = false →
        ∃ other source reply, other ≠ thread ∧
          (other, ⟨.rename source ⟨path, entry.getName⟩, reply⟩) ∈ log

/-- The request was to place a file of this name in the directory. -/
def placesAt (path : HdfsDir) (name : Text) : Exchange signature → Bool
  | ⟨.rename _ target, _⟩ => target = ⟨path, name⟩
  | _ => false

/-- HDFS without all files that threads other than this one have placed according to the log. -/
def World.purge (thread : ι) (log : List (ι × Exchange signature)) (world : World) : World :=
  { world with
    hdfs := fun path => (world.hdfs path).map fun entries => entries.filter fun entry =>
      log.all fun logged => logged.1 = thread || !placesAt path entry.getName logged.2 }

omit [Fintype ι] in
theorem purged_purge (s : Setting) (thread : ι) (log : List (ι × Exchange signature))
    (world : World) : Purged s thread log world (world.purge thread log) where
  listingFault := rfl
  entries := by
    intro path _
    refine ⟨fun entry => log.all fun logged =>
      logged.1 = thread || !placesAt path entry.getName logged.2, ?_, fun entry _ hplaced => ?_⟩
    · simp only [World.entries, World.purge]
      cases world.hdfs path <;> rfl
    · obtain ⟨⟨other, command, reply⟩, hlogged, hplaces⟩ := List.all_eq_false.1 hplaced
      simp only [Bool.or_eq_true, decide_eq_true_eq, Bool.not_eq_true', not_or,
        Bool.not_eq_false] at hplaces
      obtain ⟨hother, hplaces⟩ := hplaces
      unfold placesAt at hplaces
      split at hplaces
      · next source target reply heq =>
          obtain ⟨rfl, heq⟩ := Sigma.mk.inj heq
          obtain rfl := of_decide_eq_true hplaces
          exact ⟨other, source, _, hother, hlogged⟩
      · simp at hplaces

/-- In a round that starts here the service selects these candidates, with this clock and these
local files, while others act in any order and it does not change whether a directory can be
listed. -/
structure Collector.Selects (c : Collector ι) (thread : ι) (s : Setting) (clock : ClockUse → ℤ)
    (listing : List File) (config : c.rounds.Config) (value : Attempt (ShippingPlan × List File)) :
    Prop where
  round : ∃ labels begun config' exchanges, c.rounds.step .start config = some begun ∧
    c.rounds.callRun thread labels
        (selectCandidates s.jvm s.barnConf s.serviceDir s.serviceInfo, begun) =
      some (Action.attempt value, config') ∧ c.Steady labels ∧
    config'.log = begun.log ++ exchanges ∧ OthersDatable s.jvm thread exchanges ∧
    Answers thread clock exchanges ∧
    ∀ dir (reply : Throws (Option (List File))),
      (thread, ⟨.listFiles dir, reply⟩) ∈ exchanges → reply = .ok (some listing)

/-- They are those that are selected by the listings of HDFS at the start. -/
theorem Collector.Selects.eq (hserves : c.Serves thread s) (hapart : c.Apart thread s)
    {value : Attempt (ShippingPlan × List File)}
    (h : c.Selects thread s clock listing config value) :
    value = s.selectAt (s.listing config.world) (sortedFiles listing) clock := by
  obtain ⟨labels, begun, config', exchanges, hstart, hcall, hsteady, hlog, hothers, hanswers,
    hlists⟩ := h.round
  obtain rfl : begun = ⟨c.rounds.body, beginRound config.world, config.log⟩ :=
    (Option.some.inj (Option.ite_none_right_eq_some.1 hstart).2).symm
  have hobeys : (selectCandidates s.jvm s.barnConf s.serviceDir s.serviceInfo).Obeys
      (Collector.disciplines s (s.view config.world) thread (expects clock (· = .ok (some listing)))
        thread)
      (· = s.selectAt (s.listing config.world) (sortedFiles listing) clock) :=
    selectCandidates_obeys (fun _ _ => rfl) (fun _ _ h => h.1 rfl) (fun _ h => h.1 rfl)
      fun _ h => h.1 rfl
  have hobserved := Collector.observed_begin hserves hapart hobeys config.log
  exact (hobserved.run (Collector.keeps c s _ thread _) hsteady hcall hlog fun entry hentry =>
    meets_of_answers hothers hanswers hlists hentry).call

/-- Two rounds that start from worlds which differ by files of others only select the same
candidates, whatever the others do in them. -/
theorem candidates_independent (hserves : c.Serves thread s) (hapart : c.Apart thread s)
    {labels : List c.rounds.Label} {results : ι → Attempt Unit}
    (hrun : c.rounds.run labels ⟨fun other => .done (results other), world, []⟩ = some config)
    (hothers : OthersDatable s.jvm thread config.log)
    (hpurged : Purged s thread config.log config.world config'.world)
    {value value' : Attempt (ShippingPlan × List File)}
    (h : c.Selects thread s clock listing config value)
    (h' : c.Selects thread s clock listing config' value') : value' = value := by
  have hview : s.Agrees (s.view config.world) (s.listing config'.world) := by
    intro path hpath
    refine view_eq_of_counted (congrFun hpurged.listingFault path) ?_
    obtain ⟨keeps, hentries, hplaced⟩ := hpurged.entries path hpath
    rw [hentries, List.filter_filter]
    refine List.filter_congr fun entry hentry => ?_
    cases hkeeps : keeps entry with
    | true => rw [Bool.and_true]
    | false =>
        obtain ⟨other, source, reply, hother, hrename⟩ := hplaced entry hentry hkeeps
        have helsewhere : s.ReadsElsewhere entry.getName :=
          renames_readElsewhere hserves hapart hrun hothers hother hrename
        rw [helsewhere.counts, Bool.and_false]
  rw [h.eq hserves hapart, h'.eq hserves hapart]
  exact selectAt_congr (fun _ _ => rfl) hview _ _

end Independence

section Sample

/-- The local files are listed. -/
def lists (listing : List File) : Exchange signature → Bool
  | ⟨.listFiles _, reply⟩ => (show Throws (Option (List File)) from reply) = .ok (some listing)
  | _ => true

/-- A round starts, and the observed directory selects its candidates, after it has looked up one
day directory. -/
def Collector.selectsAt (c : Collector Bool) (s : Setting) (listing : List File)
    (outcomes : List Outcome) (value : Attempt (ShippingPlan × List File))
    (config : c.rounds.Config) : Bool :=
  match c.rounds.step .start config with
  | some begun =>
      match c.rounds.callRun true (c.answers true ([.ok, .reads 1400000000000,
            .reads 1400000000000] ++ lookupOutcomes ++ outcomes))
          (selectCandidates s.jvm s.barnConf s.serviceDir s.serviceInfo, begun) with
      | some (.done found, config') =>
          (config'.log.drop begun.log.length).all (fun entry =>
            entry.1 ≠ true || repliesAt 1400000000000 entry.2) &&
          (config'.log.drop begun.log.length).all (fun entry =>
            entry.1 = true || listsDatable s.jvm entry.2) &&
          (config'.log.drop begun.log.length).all (fun entry =>
            entry.1 ≠ true || lists listing entry.2) && found = value
      | _ => false
  | none => false

/-- Such a round can be checked. -/
theorem selects_of_selectsAt {c : Collector Bool} {s : Setting} {listing : List File}
    {outcomes : List Outcome} {value : Attempt (ShippingPlan × List File)}
    {config : c.rounds.Config} (h : c.selectsAt s listing outcomes value config = true) :
    c.Selects true s (fun _ => 1400000000000) listing config value := by
  unfold Collector.selectsAt at h
  split at h
  · next begun hstart =>
      split at h
      · next found config' hcall =>
          simp only [Bool.and_eq_true, decide_eq_true_eq] at h
          obtain ⟨⟨⟨hanswers, hothers⟩, hlists⟩, rfl⟩ := h
          obtain ⟨exchanges, hlog⟩ := Threads.log_prefix_callRun hcall
          rw [← hlog, List.drop_left] at hanswers hothers hlists
          refine ⟨_, begun, config', exchanges, hstart, hcall, c.steady_answers _ _, hlog.symm,
            othersDatable_of_all hothers, answers_of_all hanswers, fun dir reply hreply => ?_⟩
          have hlisted := List.all_eq_true.1 hlists _ hreply
          simpa [lists] using hlisted
      · simp at h
  · simp at h

/-- The other directory ships a file while the observed one is empty, and then a file arrives
there. -/
def Collector.shipsBefore (c : Collector Bool) : List c.rounds.Label :=
  .start :: c.answers false
      (smoothOutcomes 1400000000000 1 (text "combined") (text "random")) ++
    c.answers true ([.ok, .reads 1400000000000, .reads 1400000000000] ++
      (List.replicate 13 .ok ++ [.reads 1400000000000, .reads 1400000000000, .ok])) ++
    [.event (.arrive (minuteFile (c.serviceDir true)))]

/-- The world before that. -/
def Collector.worldBefore (c : Collector Bool) : World :=
  (World.initial 1400000000000).receive (minuteFile (c.serviceDir false))

/-- The file is selected. -/
def selectedMinute : Attempt (ShippingPlan × List File) :=
  .ok (⟨text "/logs/2014/05-13", text "/logs/tmp", none⟩, [minuteFile Setting.sample.serviceDir])

/-- The state without the file that was shipped, and with idle threads. -/
def Collector.purgedConfig (c : Collector Bool) (config : c.rounds.Config) : c.rounds.Config :=
  ⟨fun _ => .done (.ok ()), config.world.purge true config.log, []⟩

/-- The round is one that is looked at, one file was shipped, and with or without it the selection
is the same. -/
def selectsAnyway (config : nodesPair.rounds.Config) : Bool :=
  config.log.all (fun entry => entry.1 = true || listsDatable Setting.sample.jvm entry.2) &&
    (config.world.entries (text "/logs/2014/05-13")).length = 1 &&
    ((nodesPair.purgedConfig config).world.entries (text "/logs/2014/05-13")).length = 0 &&
    nodesPair.selectsAt .sample [minuteFile Setting.sample.serviceDir] [.reads 1400000000000]
      selectedMinute config &&
    nodesPair.selectsAt .sample [minuteFile Setting.sample.serviceDir] [.reads 1400000000000]
      selectedMinute (nodesPair.purgedConfig config)

/-- The directory of `node1` selects the same with and without the file of `node2`. -/
theorem candidates_independent_nodes : ∃ config value value',
    nodesPair.rounds.run nodesPair.shipsBefore
        ⟨fun _ => .done (.ok ()), nodesPair.worldBefore, []⟩ = some config ∧
      (config.world.entries (text "/logs/2014/05-13")).length = 1 ∧
      ((nodesPair.purgedConfig config).world.entries (text "/logs/2014/05-13")).length = 0 ∧
      nodesPair.Selects true .sample (fun _ => 1400000000000)
        [minuteFile Setting.sample.serviceDir] config value ∧
      nodesPair.Selects true .sample (fun _ => 1400000000000)
        [minuteFile Setting.sample.serviceDir] (nodesPair.purgedConfig config) value' ∧
      value' = value := by
  have hexecuted : ((nodesPair.rounds.run nodesPair.shipsBefore
      ⟨fun _ => .done (.ok ()), nodesPair.worldBefore, []⟩).any selectsAnyway) = true := rfl
  obtain ⟨config, hrun, hcheck⟩ := Option.any_eq_true _ _ |>.1 hexecuted
  simp only [selectsAnyway, Bool.and_eq_true, decide_eq_true_eq] at hcheck
  obtain ⟨⟨⟨⟨hothers, hplaced⟩, hpurged⟩, hselects⟩, hselects'⟩ := hcheck
  have hserves : nodesPair.Serves true .sample := ⟨rfl, rfl, rfl⟩
  refine ⟨config, _, _, hrun, hplaced, hpurged, selects_of_selectsAt hselects,
    selects_of_selectsAt hselects', ?_⟩
  exact candidates_independent hserves apart_nodesPair hrun (othersDatable_of_all hothers)
    (purged_purge .sample true config.log config.world) (selects_of_selectsAt hselects)
    (selects_of_selectsAt hselects')

/-- The categories `main` and `errors` of the service `web` of `node1`. -/
def categoriesPair : Collector Bool :=
  .pair Setting.sample.serviceDir (text "/local/logs/web@errors@node1")

/-- Nothing is selected. -/
def selectedNothing : Attempt (ShippingPlan × List File) :=
  .error (.left (.nothingToSync (text "No local files left to sync.")))

/-- Without the file that was shipped the other file is selected, and with it nothing is. -/
def selectsOtherwise (config : categoriesPair.rounds.Config) : Bool :=
  categoriesPair.selectsAt .sample [minuteFile Setting.sample.serviceDir]
      [.reads 1400000000000, .reads 1400000000000] selectedNothing config &&
    categoriesPair.selectsAt .sample [minuteFile Setting.sample.serviceDir] [.reads 1400000000000]
      selectedMinute (categoriesPair.purgedConfig config)

/-- Two directories of different categories are one service on HDFS: what was shipped for `errors`
counts as shipped for `main`. -/
theorem candidates_depend_on_category :
    categoriesPair.serviceDir true ≠ categoriesPair.serviceDir false ∧
    decodeServiceInfo (categoriesPair.serviceDir true) = .ok ⟨text "web", text "node1"⟩ ∧
    decodeServiceInfo (categoriesPair.serviceDir false) = .ok ⟨text "web", text "node1"⟩ ∧
    ∃ config, categoriesPair.rounds.run categoriesPair.shipsBefore
        ⟨fun _ => .done (.ok ()), categoriesPair.worldBefore, []⟩ = some config ∧
      Purged .sample true config.log config.world (categoriesPair.purgedConfig config).world ∧
      categoriesPair.Selects true .sample (fun _ => 1400000000000)
        [minuteFile Setting.sample.serviceDir] config selectedNothing ∧
      categoriesPair.Selects true .sample (fun _ => 1400000000000)
        [minuteFile Setting.sample.serviceDir] (categoriesPair.purgedConfig config)
        selectedMinute := by
  have hexecuted : ((categoriesPair.rounds.run categoriesPair.shipsBefore
      ⟨fun _ => .done (.ok ()), categoriesPair.worldBefore, []⟩).any selectsOtherwise) = true := rfl
  obtain ⟨config, hrun, hcheck⟩ := Option.any_eq_true _ _ |>.1 hexecuted
  rw [selectsOtherwise, Bool.and_eq_true] at hcheck
  exact ⟨by decide, by decide, by decide, config, hrun, purged_purge _ _ _ _,
    selects_of_selectsAt hcheck.1, selects_of_selectsAt hcheck.2⟩

end Sample

end Barn.Hdfs
