import Barn.Hdfs.Shipping
import Barn.Hdfs.View
import Barn.Interaction.Pool

/-!
# All service directories of a collector

The rounds of any number of service directories that share HDFS and the listing cache of a round,
with their requests interleaved in any order: `Collector.rounds`. For the service of one directory
all others keep what it sees of HDFS (`Collector.keeps`) as long as the names under which they place
files read back as names of others, and its own search finds what is seen (`searchDirs_obeys`).
-/

namespace Barn.Hdfs

open Interaction

/-- What happens around the rounds of a collector: time passes, files arrive, and listing a
directory on HDFS begins to fail or can be done again. -/
inductive LocalEvent where
  | advance (millis : ℤ)
  | arrive (file : File)
  | setFault (path : HdfsDir) (fault : Option Text)

/-- What such an event does to the world, if it can happen. -/
def LocalEvent.occurs : LocalEvent → World → Option World
  | .advance millis, world =>
      if world.clock ≤ millis then some { world with clock := millis } else none
  | .arrive file, world => some (world.receive file)
  | .setFault path fault, world => some { world with
      listingFault := Function.update world.listingFault path fault }

/-- Listing a directory fails as it did before. -/
def LocalEvent.Steady : LocalEvent → Prop
  | .setFault _ _ => False
  | _ => True

/-- The service directories of a collector and the configuration its rounds run in. -/
structure Collector (ι : Type) where
  jvm : Jvm
  barnConf : BarnConf
  serviceDir : ι → Dir

namespace Collector

variable {ι : Type} (c : Collector ι)

/-- A round begins with an empty cache and without any file system. -/
def beginRound (world : World) : World :=
  { world with
    hdfsListCache := fun _ => none
    fileSystems := fun _ => false }

/-- `syncRootLogDir`, again and again: every service directory is acted on in a round, one after
the other or in parallel. -/
def rounds : Threads machine ι (Attempt Unit) where
  Event := LocalEvent
  occurs := LocalEvent.occurs
  begin := beginRound
  body := fun thread => actOnServiceDir c.jvm c.barnConf (c.serviceDir thread)

/-- This is the setting of one of the directories. -/
structure Serves (thread : ι) (s : Setting) : Prop where
  jvm_eq : s.jvm = c.jvm
  barnConf_eq : s.barnConf = c.barnConf
  serviceDir_eq : s.serviceDir = c.serviceDir thread

/-- All the while listing a directory fails or not as it did before. -/
def Steady (labels : List c.rounds.Label) : Prop :=
  ∀ label ∈ labels, label.Within LocalEvent.Steady

instance : DecidablePred (Threads.Label.Within LocalEvent.Steady : c.rounds.Label → Prop)
  | .event (.setFault _ _) => .isFalse id
  | .event (.advance _) | .event (.arrive _) | .start | .answer _ _ => .isTrue trivial

instance (labels : List c.rounds.Label) : Decidable (c.Steady labels) :=
  List.decidableBAll (Threads.Label.Within LocalEvent.Steady : c.rounds.Label → Prop) labels

/-- The requests of a directory are answered. -/
def answers (thread : ι) (outcomes : List Outcome) : List c.rounds.Label :=
  outcomes.map fun outcome => .answer thread outcome

theorem steady_answers (thread : ι) (outcomes : List Outcome) :
    c.Steady (c.answers thread outcomes) := by
  intro label hlabel
  obtain ⟨outcome, _, rfl⟩ := List.mem_map.1 hlabel
  trivial

end Collector

section Obeys

variable {d : Discipline signature} {α β : Type}

/-- The action obeys a discipline, with a postcondition on its result. -/
def Action.Obeys (d : Discipline signature) (post : Attempt α → Prop) (action : Action α) : Prop :=
  Program.Obeys d post action

variable {action : Action α} {post : Attempt α → Prop}

/-- A computation makes no requests. -/
theorem Action.obeys_attempt {result : Attempt α} (h : post result) :
    (Action.attempt result).Obeys d post :=
  h

/-- A sequence obeys if its parts do. -/
theorem Action.obeys_bind {rest : α → Action β} {final : Attempt β → Prop}
    (h : action.Obeys d post) (hok : ∀ value, post (.ok value) → (rest value).Obeys d final)
    (herror : ∀ failure, post (.error failure) → final (.error failure)) :
    (action >>= rest).Obeys d final := by
  refine Program.Obeys.bind h fun result hresult => ?_
  cases result with
  | ok value => exact hok value hresult
  | error failure => exact herror failure hresult

/-- A sequence of actions with these results has the result of their sequence. -/
theorem Action.obeys_bind_eq {rest : α → Action β} {first : Attempt α} {second : α → Attempt β}
    (h : action.Obeys d (· = first))
    (hrest : ∀ value, first = .ok value → (rest value).Obeys d (· = second value)) :
    (action >>= rest).Obeys d (· = first >>= second) := by
  refine Action.obeys_bind h (fun value hvalue => ?_) fun failure hfailure => ?_
  · rw [← hvalue]
    exact hrest value hvalue.symm
  · rw [← hfailure]
    rfl

/-- A part that returns this value is followed by what goes on with it. -/
theorem Action.obeys_bind_ok {rest : α → Action β} {final : Attempt β → Prop} {value : α}
    (h : action.Obeys d (· = .ok value)) (hrest : (rest value).Obeys d final) :
    (action >>= rest).Obeys d final := by
  refine Action.obeys_bind h (fun other hother => ?_) fun failure hfailure => ?_
  · rw [Except.ok.inj hother]
    exact hrest
  · simp at hfailure

/-- A single request. -/
theorem Action.obeys_request {command : Command} {made : command.Reply → Attempt α}
    (hmay : d.may command) (h : ∀ reply, d.permits command reply → post (made reply)) :
    Action.Obeys d post (Program.request command fun reply => Action.attempt (made reply)) :=
  ⟨hmay, h⟩

/-- What is validated returns the same value. -/
theorem Action.obeys_validate_ok {jvm : Jvm} {detail : Text} {value : α}
    (h : action.Obeys d (· = .ok value)) :
    (Action.validate jvm detail action).Obeys d (· = .ok value) := by
  refine Program.Obeys.bind h fun result hresult => ?_
  rw [hresult]
  exact Action.obeys_attempt rfl

/-- What is validated returns what it returned before. -/
theorem eq_ok_of_validate {jvm : Jvm} {detail : Text} {result : Attempt α} {value : α}
    (h : validate jvm detail result = .ok value) : result = .ok value := by
  unfold validate at h
  split at h
  · simp at h
  · exact h

/-- So what is said about the values remains true. -/
theorem Action.obeys_validate {jvm : Jvm} {detail : Text} {property : α → Prop}
    (h : action.Obeys d fun result => ∀ value, result = .ok value → property value) :
    (Action.validate jvm detail action).Obeys d fun result =>
      ∀ value, result = .ok value → property value :=
  Program.Obeys.bind h fun _ hresult value hvalue => hresult value (eq_ok_of_validate hvalue)

/-- A sequence of parts with nothing to be said about their results. -/
theorem Action.obeys_bind_any {rest : α → Action β} (h : action.Obeys d fun _ => True)
    (hrest : ∀ value, (rest value).Obeys d fun _ => True) :
    (action >>= rest).Obeys d fun _ => True :=
  Action.obeys_bind h (fun value _ => hrest value) fun _ _ => trivial

/-- An action whose requests may always be made obeys. -/
theorem Action.Asks.obeys (h : action.Asks d.may) : action.Obeys d fun _ => True :=
  Program.Asks.obeys h

end Obeys

/-- The listing of a day directory shows to the service what is seen of it. -/
def Setting.Seen (s : Setting) (seen : HdfsDir → Option Listing) (path : HdfsDir)
    (listing : CachedListing) : Prop :=
  path ≠ s.tempDir → relevantFiles s.serviceInfo listing = seen path

/-- HDFS and the cache show this to the service. -/
structure Setting.Shows (s : Setting) (seen : HdfsDir → Option Listing) (world : World) : Prop where
  listing : s.Agrees seen (s.listing world)
  cached : ∀ path listing, world.hdfsListCache path = some listing → s.Seen seen path listing

/-- What everybody keeps to who keeps what listings show: they are cached only if they show it,
files are copied to temporary names and, under the names that may be placed, moved to the day
directories. In return lookups show it; the replies are `counted` on. -/
def Setting.discipline (s : Setting) (shows : HdfsDir → CachedListing → Prop)
    (places : Text → Prop) (counted : (command : Command) → command.Reply → Prop) :
    Discipline signature where
  may
    | .cachePut path listing => shows path listing
    | .copyFromLocalFile _ target => target.parent = s.tempDir
    | .rename source target =>
        places target.getName ∧ source.parent = s.tempDir ∧ target.parent ≠ s.tempDir
    | _ => True
  permits command reply := counted command reply ∧ match command, reply with
    | .cacheGet path, reply => ∀ listing, reply = some listing → shows path listing
    | .listStatus path, reply => ∀ listing, cachedListing (validate s.jvm
        (text "Can't get list of files on HDFS dir: " ++ path) (listedFiles path (bare reply))) =
          .ok listing → shows path listing
    | _, _ => True

section Discipline

variable {s : Setting} {shows : HdfsDir → CachedListing → Prop} {places : Text → Prop}
  {seen : HdfsDir → Option Listing}
  {counted : (command : Command) → command.Reply → Prop} {clock : ClockUse → ℤ}

/-- Every listing can be cached. -/
theorem exists_cachedListing (jvm : Jvm) (detail : Text) (files : Attempt (List HdfsFile)) :
    ∃ listing, cachedListing (validate jvm detail files) = .ok listing := by
  cases files with
  | ok files => exact ⟨_, rfl⟩
  | error failure => cases failure <;> exact ⟨_, rfl⟩

/-- Making a listing obeys. -/
theorem listPlacedFiles_obeys (path : HdfsDir) :
    (listPlacedFiles s.jvm path).Obeys (s.discipline shows places counted) fun result =>
      ∃ listing, result = .ok listing ∧ shows path listing := by
  refine ⟨trivial, fun reply hreply => ?_⟩
  obtain ⟨listing, hlisting⟩ := exists_cachedListing s.jvm
    (text "Can't get list of files on HDFS dir: " ++ path) (listedFiles path (bare reply))
  exact ⟨listing, hlisting, hreply.2 listing hlisting⟩

/-- A lookup of a directory obeys; only the creation of the file system can make it fail. -/
theorem cachingLs_obeys (dir : Dir) (path : HdfsDir) :
    (cachingLs s.jvm dir path).Obeys (s.discipline shows places counted) fun result =>
      (∃ listing, result = .ok listing ∧ shows path listing) ∨
      ∃ throwable, result = .error (.thrown throwable) ∧
        counted (.unboxLazy dir) (.error throwable) := by
  refine ⟨trivial, fun cached hcached => ?_⟩
  cases cached with
  | some listing => exact .inl ⟨listing, rfl, hcached.2 listing rfl⟩
  | none =>
      refine ⟨trivial, fun reply hreply => ?_⟩
      cases reply with
      | error throwable => exact .inr ⟨throwable, rfl, hreply.1⟩
      | ok _ =>
          refine Action.obeys_bind (listPlacedFiles_obeys path) (fun listing hlisting => ?_)
            fun failure hfailure => ?_
          · obtain ⟨_, hsame, hseen⟩ := hlisting
            obtain rfl := Except.ok.inj hsame
            exact ⟨hseen, fun _ _ => .inl ⟨listing, rfl, hseen⟩⟩
          · obtain ⟨_, hfailure, _⟩ := hfailure
            simp at hfailure

/-- The search of the service obeys and finds what is seen, if the file system can be created. -/
theorem searchDirs_obeys {lookup : HdfsDir → CachedListing} (hlookup : s.Agrees seen lookup)
    (hconnects : ∀ reply, counted (.unboxLazy s.serviceDir) reply → reply = .ok ())
    (base lookBack : DateTime) (fuel first : ℕ) :
    (searchDirs s.jvm s.serviceDir s.serviceInfo (s.searched base lookBack) fuel first).Obeys
      (s.discipline (s.Seen seen) places counted)
      fun result => result = s.searchWith lookup base lookBack fuel first := by
  induction fuel generalizing first with
  | zero => exact Action.obeys_attempt rfl
  | succ fuel ih =>
      rw [searchDirs, Setting.searchWith]
      cases hsearched : s.searched base lookBack first with
      | error throwable => exact Action.obeys_attempt rfl
      | ok found =>
          cases found with
          | none => exact Action.obeys_attempt rfl
          | some path =>
              have hpath := searched_ne_tempDir hsearched
              simp only [bare, Action.attempt_ok_bind, hlookup path hpath]
              refine Action.obeys_bind (cachingLs_obeys s.serviceDir path) (fun listing h => ?_)
                fun failure h => ?_
              · obtain ⟨_, hsame, hseen⟩ | ⟨_, hthrown, _⟩ := h
                · rw [← Except.ok.inj hsame] at hseen
                  simp only [hseen hpath]
                  cases seen path with
                  | some relevant => exact Action.obeys_attempt rfl
                  | none => exact ih (first + 1)
                · simp at hthrown
              · obtain ⟨_, hsame, _⟩ | ⟨throwable, _, hcounted⟩ := h
                · simp at hsame
                · exact absurd (hconnects _ hcounted) (by simp)

/-- An action that only reads the clock obeys, with what it yields at these clock times. -/
theorem obeys_of_yields {α : Type} {action : Action α} {post : Attempt α → Prop} (world : World)
    (hclock : ∀ use reply, counted (.now use) reply → reply = clock use)
    (hasks : action.Asks fun command => ∃ use, command = .now use)
    (h : ∀ result final, action.Yields clock world result final → post result) :
    action.Obeys (s.discipline shows places counted) post := by
  unfold Action.Obeys
  unfold Action.Asks at hasks
  unfold Action.Yields at h
  unfold Action at action
  induction action generalizing world with
  | done result => exact h result world (.done _ _)
  | request command next ih =>
      obtain ⟨⟨use, rfl⟩, hnext⟩ := hasks
      refine ⟨trivial, fun reply hreply => ?_⟩
      obtain rfl := hclock use reply hreply.1
      refine ih (clock use) { world with clock := clock use } (hnext _)
        fun result final hyields => h result final (runs_request_iff.2
          ⟨.reads (clock use), clock use, { world with clock := clock use }, ?_, hyields⟩)
      simp only [timed, if_true]

/-- The clock reads one of these times. -/
theorem now_obeys (hclock : ∀ use reply, counted (.now use) reply → reply = clock use)
    (use : ClockUse) :
    (Action.now s.jvm use).Obeys (s.discipline shows places counted)
      (· = .ok (s.timeOf clock use)) := by
  refine Action.obeys_request trivial fun reply hreply => ?_
  rw [hclock use reply hreply.1]
  rfl

/-- Planning the next ship of the service obeys, with the plan that is made of what is seen. -/
theorem planNextShip_obeys {lookup : HdfsDir → CachedListing} (hlookup : s.Agrees seen lookup)
    (hclock : ∀ use reply, counted (.now use) reply → reply = clock use)
    (hconnects : ∀ reply, counted (.unboxLazy s.serviceDir) reply → reply = .ok ())
    (totalReadySize maxReadySize : ℤ) (lookBack : DateTime) :
    (planNextShip s.jvm s.serviceDir s.serviceInfo totalReadySize maxReadySize s.barnConf.hdfsLogDir
      s.barnConf.shipInterval lookBack).Obeys (s.discipline (s.Seen seen) places counted)
        (· = s.planAt lookup totalReadySize maxReadySize lookBack (s.timeOf clock .planNextShip)
          (s.timeOf clock .enoughTimePast)) := by
  refine Action.obeys_bind_ok (now_obeys hclock .planNextShip) ?_
  refine Action.obeys_bind_eq (searchDirs_obeys hlookup hconnects _ lookBack _ 0) fun found _ => ?_
  refine obeys_of_yields (.initial 0) hclock ?_ fun result final hyields =>
    (planFrom_yields hyields).1
  exact Action.asks_bind (Action.asks_attempt _) fun infos => Action.asks_bind
    (Action.asks_attempt _) fun last => Action.asks_bind
      (asks_isShippingTime _ _ _ _ _ ⟨_, rfl⟩) fun _ => Action.asks_attempt _

/-- The files of the service directory are those that are listed. -/
theorem listSortedLocalFiles_obeys {listing : List File}
    (hlists : ∀ reply, counted (.listFiles s.serviceDir) reply → reply = .ok (some listing)) :
    (listSortedLocalFiles s.jvm s.serviceDir).Obeys (s.discipline shows places counted)
      (· = .ok (sortedFiles listing)) := by
  have hfound : (Action.listFiles s.serviceDir).Obeys (s.discipline shows places counted)
      (· = .ok (some listing)) := by
    refine Action.obeys_request trivial fun reply hreply => ?_
    rw [hlists reply hreply.1]
    rfl
  exact Action.obeys_validate_ok (Action.obeys_bind_ok hfound (Action.obeys_attempt rfl))

/-- Selecting candidates obeys, with those that are selected among these files. -/
theorem selectCandidates_obeys {lookup : HdfsDir → CachedListing} {listing : List File}
    (hlookup : s.Agrees seen lookup)
    (hclock : ∀ use reply, counted (.now use) reply → reply = clock use)
    (hconnects : ∀ reply, counted (.unboxLazy s.serviceDir) reply → reply = .ok ())
    (hlists : ∀ reply, counted (.listFiles s.serviceDir) reply → reply = .ok (some listing)) :
    (selectCandidates s.jvm s.barnConf s.serviceDir s.serviceInfo).Obeys
      (s.discipline (s.Seen seen) places counted)
      (· = s.selectAt lookup (sortedFiles listing) clock) := by
  unfold selectCandidates Setting.selectAt
  refine Action.obeys_bind_ok (listSortedLocalFiles_obeys hlists) ?_
  refine Action.obeys_bind_eq (Action.obeys_attempt rfl) fun minFileDate _ => ?_
  have hlookBack : (earliestLookbackDate s.jvm minFileDate maxLookBackDays).Obeys
      (s.discipline (s.Seen seen) places counted) (· = .ok (s.lookBackAt clock minFileDate)) :=
    Action.obeys_bind_ok (now_obeys hclock .earliestLookbackDate) (Action.obeys_attempt rfl)
  refine Action.obeys_bind_ok hlookBack ?_
  refine Action.obeys_bind_eq (planNextShip_obeys hlookup hclock hconnects _ _ _) fun plan _ => ?_
  have houtstanding : (outstandingFiles s.jvm (sortedFiles listing) plan.lastTaistamp).Obeys
      (s.discipline (s.Seen seen) places counted) (· = outstandingAt s.jvm (sortedFiles listing)
        plan.lastTaistamp (s.timeOf clock .outstandingFiles)) :=
    obeys_of_yields (.initial 0) hclock (asks_outstandingFiles _ _ _ ⟨_, rfl⟩)
      fun result final hyields => (yields_outstandingFiles_iff.1 hyields).1
  exact Action.obeys_bind_eq houtstanding fun candidates _ => Action.obeys_attempt rfl

/-- Every search obeys. -/
theorem searchDirs_obeys_any (dir : Dir) (serviceInfo : LocalServiceInfo)
    (targetDirs : ℕ → Throws (Option HdfsDir)) (fuel first : ℕ) :
    (searchDirs s.jvm dir serviceInfo targetDirs fuel first).Obeys
      (s.discipline shows places counted) fun _ => True := by
  induction fuel generalizing first with
  | zero => exact Action.obeys_attempt trivial
  | succ fuel ih =>
      rw [searchDirs]
      refine Action.obeys_bind_any (Action.asks_attempt _).obeys fun found => ?_
      cases found with
      | none => exact Action.obeys_attempt trivial
      | some path =>
          refine Action.obeys_bind_any ((cachingLs_obeys dir path).mono fun _ _ => trivial)
            fun listing => ?_
          split
          · exact Action.obeys_attempt trivial
          · exact ih (first + 1)

/-- So does all planning, and a plan is to ship through the temporary directory. -/
theorem planNextShip_obeys_any (dir : Dir) (serviceInfo : LocalServiceInfo)
    (totalReadySize maxReadySize shipInterval : ℤ) (lookBack : DateTime) :
    (planNextShip s.jvm dir serviceInfo totalReadySize maxReadySize s.barnConf.hdfsLogDir
      shipInterval lookBack).Obeys (s.discipline shows places counted) fun result =>
        ∀ plan, result = .ok plan → plan.hdfsTempDir = s.tempDir ∧ plan.hdfsDir ≠ s.tempDir := by
  have hfailed : ∀ {failure : Failure} (plan : ShippingPlan), Except.error failure = .ok plan →
      plan.hdfsTempDir = s.tempDir ∧ plan.hdfsDir ≠ s.tempDir := fun plan h => by simp at h
  have hnow : (Action.now s.jvm .planNextShip).Obeys (s.discipline shows places counted)
      fun _ => True := Action.obeys_request trivial fun _ _ => trivial
  refine Action.obeys_bind hnow (fun base _ => ?_) fun _ _ => hfailed
  refine Action.obeys_bind (searchDirs_obeys_any _ _ _ _ _) (fun found _ => ?_) fun _ _ => hfailed
  refine Action.obeys_bind (Action.asks_attempt _).obeys (fun infos _ => ?_) fun _ _ => hfailed
  refine Action.obeys_bind (Action.asks_attempt _).obeys (fun last _ => ?_) fun _ _ => hfailed
  refine Action.obeys_bind (asks_isShippingTime _ _ _ _ _ trivial).obeys (fun _ _ => ?_)
    fun _ _ => hfailed
  refine Action.obeys_attempt fun plan hplan => ?_
  rw [← Except.ok.inj hplan]
  exact ⟨rfl, s.datePath_ne_tempDir _⟩

/-- Creating a directory obeys. -/
theorem ensureHdfsDir_obeys (dir : Dir) (path : HdfsDir) :
    (ensureHdfsDir s.jvm dir path).Obeys (s.discipline shows places counted) fun _ => True :=
  (Action.asks_bind (Action.asks_request trivial) fun _ =>
    Action.asks_validate (Action.asks_request trivial)).obeys

/-- The last candidate is a candidate. -/
theorem mem_of_lastCandidate {candidates : List File} {last : File}
    (h : lastCandidate candidates = .ok last) : last ∈ candidates := by
  unfold lastCandidate at h
  split at h
  · next file hlast =>
      rw [← Except.ok.inj h]
      exact List.mem_of_getLast? hlast
  · simp at h

theorem eq_ok_of_ofListing {α : Type} {result : Except BarnError α} {value : α}
    (h : ofListing result = .ok value) : result = .ok value := by
  cases result with
  | ok found => exact congrArg _ (Except.ok.inj h)
  | error error => simp [ofListing] at h

/-- Shipping obeys, for those who may place a file under the name of the last candidate. -/
theorem shipCandidates_obeys (dir : Dir) {serviceInfo : LocalServiceInfo}
    {plan : ShippingPlan} (htemp : plan.hdfsTempDir = s.tempDir) (hdir : plan.hdfsDir ≠ s.tempDir)
    {candidates : List File} (hplaces : ∀ file ∈ candidates, ∀ name,
      targetName s.jvm file.taistamp serviceInfo = .ok name → places name) :
    (shipCandidates s.jvm s.barnConf dir serviceInfo plan candidates).Obeys
      (s.discipline shows places counted) fun _ => True := by
  have hship : ∀ src name, places name →
      (atomicShipToHdfs s.jvm dir src plan.hdfsDir name plan.hdfsTempDir).Obeys
        (s.discipline shows places counted) fun _ => True := by
    intro src name hname
    refine Action.obeys_bind_any (Action.asks_request trivial).obeys fun _ => ?_
    refine Action.obeys_bind_any (Action.asks_request trivial).obeys fun tempName => ?_
    refine Action.obeys_bind_any
      (Action.asks_validate (Action.asks_request (show _ = s.tempDir from htemp))).obeys fun _ => ?_
    refine (Action.asks_validate (Action.asks_bind
      (Action.asks_request ⟨hname, htemp, hdir⟩) fun renamed => ?_)).obeys
    cases renamed <;> exact Action.asks_attempt _
  refine Action.obeys_bind_any (Action.asks_validate (Action.asks_request trivial)).obeys
    fun concatted => ?_
  refine Action.obeys_bind (Action.obeys_attempt rfl) (fun last hlast => ?_) fun _ _ => trivial
  refine Action.obeys_bind (Action.obeys_attempt rfl) (fun name hname => ?_) fun _ _ => trivial
  refine Action.obeys_bind_any (ensureHdfsDir_obeys dir _) fun _ => ?_
  refine Action.obeys_bind_any (ensureHdfsDir_obeys dir _) fun _ => ?_
  have hallowed : places name :=
    hplaces last (mem_of_lastCandidate (bare_eq_ok_iff.1 hlast)) name
      (bare_eq_ok_iff.1 hname)
  refine Action.obeys_bind_any (hship concatted name hallowed) fun _ => ?_
  refine Action.obeys_bind_any (Action.asks_attempt _).obeys fun shippedTS => ?_
  exact Action.obeys_bind_any (asks_cleanupLocal _ _ _ _ trivial fun _ => trivial).obeys
    fun _ => Action.obeys_attempt trivial

/-- The files that are listed are those of a reply. -/
theorem listSortedLocalFiles_obeys_all {dir : Dir} {property : File → Prop}
    (hlists : ∀ listing, counted (.listFiles dir) (.ok (some listing)) →
      ∀ file ∈ listing, property file) :
    (listSortedLocalFiles s.jvm dir).Obeys (s.discipline shows places counted) fun result =>
      ∀ files, result = .ok files → ∀ file ∈ files, property file := by
  have hfound : (Action.listFiles dir).Obeys (s.discipline shows places counted) fun result =>
      ∀ listing, result = .ok (some listing) → ∀ file ∈ listing, property file := by
    refine Action.obeys_request trivial fun reply hreply listing hlisting => ?_
    rw [bare_eq_ok_iff.1 hlisting] at hreply
    exact hlists listing hreply.1
  refine Action.obeys_validate (Action.obeys_bind hfound (fun found hall => ?_)
    fun _ _ files hfiles => by simp at hfiles)
  cases found with
  | none => exact Action.obeys_attempt fun files hfiles => by simp at hfiles
  | some listing =>
      refine Action.obeys_attempt fun files hfiles file hfile => ?_
      rw [← Except.ok.inj hfiles] at hfile
      exact hall listing rfl file (mem_of_mem_sortedFiles hfile)

/-- The candidates are files of the directory. -/
theorem outstandingFiles_obeys_sublist (files : List File) (lastTaistamp : Option Text) :
    (outstandingFiles s.jvm files lastTaistamp).Obeys (s.discipline shows places counted)
      fun result => ∀ candidates, result = .ok candidates → candidates.Sublist files := by
  rw [outstandingFiles_eq]
  have hnow : (Action.now s.jvm .outstandingFiles).Obeys (s.discipline shows places counted)
      fun _ => True := Action.obeys_request trivial fun _ _ => trivial
  refine Action.obeys_bind hnow (fun now _ => ?_) fun _ _ candidates hnone => by simp at hnone
  refine Action.obeys_attempt fun candidates hcandidates => ?_
  exact (dropWhileThrows_suffix (outstandingOf_eq_ok hcandidates).1).sublist

/-- A whole round obeys, for those who may place files that are listed. -/
theorem actOnServiceDir_obeys (dir : Dir) {property : File → Prop}
    (hlists : ∀ listing, counted (.listFiles dir) (.ok (some listing)) →
      ∀ file ∈ listing, property file)
    (hplaces : ∀ info, decodeServiceInfo dir = .ok info → ∀ file, property file → ∀ name,
      targetName s.jvm file.taistamp info = .ok name → places name) :
    (actOnServiceDir s.jvm s.barnConf dir).Obeys (s.discipline shows places counted)
      fun _ => True := by
  have hsync : (syncServiceDir s.jvm s.barnConf dir).Obeys (s.discipline shows places counted)
      fun _ => True := by
    refine Action.obeys_bind (Action.obeys_attempt rfl) (fun info hinfo => ?_) fun _ _ => trivial
    refine Action.obeys_bind (listSortedLocalFiles_obeys_all hlists) (fun files hfiles => ?_)
      fun _ _ => trivial
    refine Action.obeys_bind_any (Action.asks_attempt _).obeys fun minFileDate => ?_
    refine Action.obeys_bind_any (asks_earliestLookbackDate _ _ _ trivial).obeys fun lookBack => ?_
    refine Action.obeys_bind (planNextShip_obeys_any _ _ _ _ _ _) (fun plan hplan => ?_)
      fun _ _ => trivial
    obtain ⟨htemp, hdir⟩ := hplan plan rfl
    refine Action.obeys_bind (outstandingFiles_obeys_sublist _ _) (fun candidates hcandidates => ?_)
      fun _ _ => trivial
    refine shipCandidates_obeys dir htemp hdir fun file hfile => ?_
    exact hplaces info (eq_ok_of_ofListing hinfo) file
      (hfiles files rfl file ((hcandidates candidates rfl).subset hfile))
  refine Program.Obeys.bind hsync fun result _ => ?_
  match result with
  | .error (.left error) =>
      exact Program.Obeys.bind (asks_cleanupAfterError _ _ trivial trivial fun _ => trivial).obeys
        fun _ _ => trivial
  | .error (.thrown throwable) => exact Action.obeys_attempt trivial
  | .ok _ => exact Action.obeys_attempt trivial

end Discipline

section Shows

variable {s : Setting} {seen : HdfsDir → Option Listing} {places : Text → Prop}
  {counted : (command : Command) → command.Reply → Prop} {world world' : World}

/-- Changes that are not seen. -/
theorem Setting.Shows.unseen (h : s.Shows seen world)
    (hview : ∀ path, path ≠ s.tempDir → s.view world' path = s.view world path)
    (hcache : world'.hdfsListCache = world.hdfsListCache) : s.Shows seen world' where
  listing := fun path hpath => (hview path hpath).trans (h.listing path hpath)
  cached := by
    rw [hcache]
    exact h.cached

/-- Changes of nothing but what is not looked at neither. -/
theorem Setting.Shows.of_eq (h : s.Shows seen world) (hhdfs : world'.hdfs = world.hdfs)
    (hfault : world'.listingFault = world.listingFault)
    (hcache : world'.hdfsListCache = world.hdfsListCache) : s.Shows seen world' := by
  refine h.unseen (fun path _ => view_eq_of_counted (by rw [hfault]) ?_) hcache
  rw [World.entries, World.entries, hhdfs]

/-- When a round begins, the service sees what is there. -/
theorem Setting.shows_beginRound (s : Setting) (world : World) :
    s.Shows (s.view world) (Collector.beginRound world) where
  listing := fun _ _ => rfl
  cached := fun _ _ h => by simp [Collector.beginRound] at h

/-- Requests of the discipline keep what is seen, if files are placed under names of others, and
lookups show it. -/
theorem Setting.Shows.answer {command : Command} {outcome : Outcome} {reply : command.Reply}
    (h : s.Shows seen world) (hmay : (s.discipline (s.Seen seen) places counted).may command)
    (hname : ∀ name, places name → s.ReadsElsewhere name) (hcounted : counted command reply)
    (hanswer : Hdfs.answer command outcome world = some (reply, world')) :
    s.Shows seen world' ∧ (s.discipline (s.Seen seen) places counted).permits command reply := by
  cases command with
  | now use =>
      obtain ⟨_, _, rfl⟩ := answer_now hanswer
      exact ⟨h.of_eq rfl rfl rfl, hcounted, trivial⟩
  | listFiles dir => exact ⟨(answer_listFiles hanswer).1 ▸ h, hcounted, trivial⟩
  | delete file =>
      rcases answer_delete hanswer with rfl | rfl
      · exact ⟨h, hcounted, trivial⟩
      · exact ⟨h.of_eq rfl rfl rfl, hcounted, trivial⟩
  | unboxLazy dir =>
      obtain ⟨_, rfl⟩ := answer_unboxLazy hanswer
      exact ⟨h.of_eq rfl rfl rfl, hcounted, trivial⟩
  | cacheGet path =>
      obtain ⟨rfl, rfl⟩ := answer_cacheGet hanswer
      exact ⟨h, hcounted, h.cached path⟩
  | cachePut path listing =>
      obtain rfl := answer_cachePut hanswer
      refine ⟨⟨h.listing, fun other found hfound hother => ?_⟩, hcounted, trivial⟩
      -- Only the entry that is put changes, and the discipline has it show what was listed.
      change Function.update world.hdfsListCache path (some listing) other = some found at hfound
      rw [Function.update_apply] at hfound
      split at hfound
      · next heq =>
          subst heq
          rw [← Option.some.inj hfound]
          exact hmay hother
      · exact h.cached other found hfound hother
  | listStatus path =>
      obtain ⟨rfl, hlisting⟩ := Setting.listing_of_answer (s := s) hanswer
      refine ⟨h, hcounted, fun listing hmade hpath => ?_⟩
      rw [← Except.ok.inj (hlisting.symm.trans hmade)]
      exact h.listing path hpath
  | mkdirs path =>
      rcases answer_mkdirs hanswer with rfl | rfl
      · exact ⟨h, hcounted, trivial⟩
      · exact ⟨h.unseen (fun _ _ => view_makeDirectory path) rfl, hcounted, trivial⟩
  | combineIntoSeqFile candidates dir =>
      rcases answer_combineIntoSeqFile hanswer with ⟨_, _, rfl⟩ | ⟨_, rfl⟩
      · exact ⟨h.of_eq rfl rfl rfl, hcounted, trivial⟩
      · exact ⟨h, hcounted, trivial⟩
  | randomName =>
      obtain rfl := answer_randomName hanswer
      exact ⟨h.of_eq rfl rfl rfl, hcounted, trivial⟩
  | copyFromLocalFile source target =>
      -- A copy goes to the temporary directory, which nothing reads; an interrupted one leaves a
      -- part.
      have hwritten : ∀ content, s.Shows seen (world.writeFile target content) := fun content =>
        h.unseen (fun path hpath => view_writeFile fun heq => hpath (heq.trans hmay)) rfl
      rcases answer_copyFromLocalFile hanswer with ⟨content, _, _, rfl⟩ | ⟨_, rfl | rfl⟩
      · exact ⟨(hwritten content).of_eq rfl rfl rfl, hcounted, trivial⟩
      · exact ⟨h, hcounted, trivial⟩
      · exact ⟨hwritten .fragment, hcounted, trivial⟩
  | rename source target =>
      obtain ⟨hplaces, hsource, htarget⟩ := hmay
      rcases answer_rename hanswer with hmoved | ⟨_, rfl⟩
      · -- The rename is the one step that others see, and its name reads back as another service's.
        have hview : ∀ path, path ≠ s.tempDir → s.view world' path = s.view world path :=
          fun path => view_moveFile hmoved hsource htarget (hname _ hplaces)
        obtain ⟨_, rfl⟩ := World.rest_moveFile hmoved
        exact ⟨h.unseen hview rfl, hcounted, trivial⟩
      · exact ⟨h, hcounted, trivial⟩

end Shows

namespace Collector

variable {ι : Type} {c : Collector ι} {thread : ι} {s : Setting}

/-- The other directories are of services or hosts that can be told from the service. -/
def Apart (c : Collector ι) (thread : ι) (s : Setting) : Prop :=
  ∀ other, other ≠ thread → ∀ info, decodeServiceInfo (c.serviceDir other) = .ok info →
    s.Foreign info

/-- The replies to the service are those that are counted on, and the others list files that can be
dated. -/
def Meets (s : Setting) (thread : ι) (counted : (command : Command) → command.Reply → Prop)
    (other : ι) (exchange : Exchange signature) : Prop :=
  (other = thread → counted exchange.1 exchange.2) ∧
    (other ≠ thread → ∀ dir listing, exchange = ⟨.listFiles dir, .ok (some listing)⟩ →
      ∀ file ∈ listing, Datable s.jvm file)

/-- What the others keep to, and what the service keeps to and counts on until it ships. -/
def disciplines (s : Setting) (seen : HdfsDir → Option Listing) (thread : ι)
    (counted : (command : Command) → command.Reply → Prop) (other : ι) : Discipline signature :=
  s.discipline (s.Seen seen) (fun name => other ≠ thread ∧ s.ReadsElsewhere name)
    fun command reply => Meets s thread counted other ⟨command, reply⟩

/-- Then what is seen by the service is kept. -/
theorem keeps (c : Collector ι) (s : Setting) (seen : HdfsDir → Option Listing) (thread : ι)
    (counted : (command : Command) → command.Reply → Prop) :
    Threads.Keeps c.rounds LocalEvent.Steady (disciplines s seen thread counted) (s.Shows seen)
      (Meets s thread counted) where
  event := by
    intro event world world' hsteady hoccurs hshows
    cases event with
    | setFault path fault => exact hsteady.elim
    | advance millis =>
        simp only [rounds, LocalEvent.occurs] at hoccurs
        split at hoccurs
        · rw [← Option.some.inj hoccurs]
          exact hshows.of_eq rfl rfl rfl
        · simp at hoccurs
    | arrive file =>
        rw [← Option.some.inj hoccurs]
        exact hshows.of_eq rfl rfl rfl
  answer := by
    intro other command outcome world reply world' hmay hmeets hanswer hshows
    exact hshows.answer hmay (fun _ h => h.2) hmeets hanswer

/-- The others obey when a round begins. -/
theorem body_obeys (hserves : c.Serves thread s) (hapart : c.Apart thread s)
    (seen : HdfsDir → Option Listing) (counted : (command : Command) → command.Reply → Prop)
    {other : ι} (hother : other ≠ thread) :
    (c.rounds.body other).Obeys (disciplines s seen thread counted other) fun _ => True := by
  have hobeys : (actOnServiceDir s.jvm s.barnConf (c.serviceDir other)).Obeys
      (disciplines s seen thread counted other) fun _ => True := by
    have hlists : ∀ listing, Meets s thread counted other
        ⟨.listFiles (c.serviceDir other), .ok (some listing)⟩ →
          ∀ file ∈ listing, Datable s.jvm file :=
      fun listing hmeets => hmeets.2 hother _ _ rfl
    refine actOnServiceDir_obeys _ hlists fun info hinfo file hfile name hname => ?_
    exact ⟨hother, (hapart other hother info hinfo).readsElsewhere hfile hname⟩
  rw [hserves.jvm_eq, hserves.barnConf_eq] at hobeys
  exact hobeys

/-- When a round begins, the service sees what is there. -/
theorem observed_begin (hserves : c.Serves thread s) (hapart : c.Apart thread s)
    {counted : (command : Command) → command.Reply → Prop} {α : Type} {action : Action α}
    {post : Attempt α → Prop} {world : World}
    (hobeys : action.Obeys (disciplines s (s.view world) thread counted thread) post)
    (log : List (ι × Exchange signature)) :
    Threads.Observed (disciplines s (s.view world) thread counted) (s.Shows (s.view world)) thread
      post ((action, ⟨c.rounds.body, beginRound world, log⟩) : c.rounds.CallState (Attempt α)) where
  world := s.shows_beginRound world
  others := fun _ hother => body_obeys hserves hapart _ counted hother
  call := hobeys

end Collector

end Barn.Hdfs
