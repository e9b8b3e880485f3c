import Barn.Agent.Delivery

/-!
# Catching up

What a round of the agent achieves if nothing fails: `round_catchesUp` says that everything that
was in the source directory when the round began has been delivered when it ends, or deleted by
svlogd. Whatever failed in rounds before does not matter.
-/

namespace Barn.Agent.Delivery

open Interaction Relation

variable {place : Place} {world world' after : World} {goal candidates : List Text}

variable (place) in
/-- Outcomes that are no failures: the channel in use leads to the target, shipping is not stopped,
the output of the dry run counts, and a file that is there can be shipped. -/
def Succeeds : Command → Outcome → World → Prop
  | .pickChannel, .reads now, world =>
      (world.selector.pickChannel now).current.rsyncTarget = place.rsyncTarget
  | .listLogDirectory _, _, world =>
      FileOps.emergencyStopFilename ∉ world.otherFiles ∧ world.feed.kept.length < 2 ^ 31
  | .logFilesNotOnTarget _ _ _, .rsync code _, _ => FileOps.accepts code
  | .shipFile path _, .transfer code _, world =>
      (∃ name ∈ world.fileNames, joinPath place.sourceDir name = path) → code = 0
  | _, _, _ => True

variable (place) in
/-- An agent whose requests succeed, amid the events of the rounds. -/
abbrev smoothContract : Contract (machine place) Unit where
  rely := (contract place).rely
  allowed := Succeeds place
  step := fun _ _ => True

variable (place) in
/-- Everything is in order, these files are left to ship, and they cover the goal. -/
structure Due (goal candidates : List Text) (world : World) : Prop where
  sound : world.Sound place
  pending : world.feed.Pending candidates
  covers : world.feed.Covers goal candidates

section Follows

variable {channel : AgentChannel} {phase : Unit}

theorem stable_due (goal candidates : List Text) :
    (smoothContract place).Stable (Due place goal candidates) := by
  intro world world' h hrely
  obtain ⟨hsound, hlater⟩ := tolerable_occurs world world' h.sound hrely
  exact ⟨hsound, h.pending.later hsound.feed hlater, h.covers.later hlater⟩

/-- A harmless request leaves what is due. -/
theorem Due.harmless {command : Command} {outcome : Outcome} {reply : command.Reply}
    (h : Due place goal candidates world) (hharmless : Harmless place command)
    (hanswer : answer place command outcome world = some (reply, after)) :
    Due place goal candidates after := by
  rcases answer_harmless hharmless hanswer with rfl | ⟨selector, hreads, rfl⟩
  · exact h
  · exact ⟨{ h.sound with selector := hreads h.sound.selector }, h.pending, h.covers⟩

/-- So does a program that makes no other requests. -/
theorem follows_due_of_asks {α : Type} {program : Routine α}
    (hasks : program.Asks (Harmless place)) (h : Due place goal candidates world) :
    Follows (smoothContract place) (fun _ _ world => Due place goal candidates world) program
      phase world := by
  induction program generalizing world with
  | done value => exact Follows.done (stable_due goal candidates) h
  | request command next ih =>
      refine Follows.request (stable_due goal candidates) h ?_
      intro world h outcome reply after _ hanswer
      exact ⟨phase, .single trivial, ih reply (hasks.2 reply) (h.harmless hasks.1 hanswer)⟩

/-- A ship that succeeds fails only if the file is not there. -/
theorem notMem_of_shipFile {el : Text} {outcome : Outcome}
    (hsucceeds : Succeeds place (.shipFile (joinPath place.sourceDir el) place.rsyncTarget) outcome
      world)
    (hanswer : answer place (.shipFile (joinPath place.sourceDir el) place.rsyncTarget) outcome
      world = some (false, after)) : el ∉ world.fileNames := by
  cases outcome <;> simp only [answer, reduceCtorEq] at hanswer
  case transfer code arrived =>
    intro hmem
    have hcode : code = 0 := hsucceeds ⟨el, hmem, rfl⟩
    rw [if_neg (not_not.2 rfl)] at hanswer
    cases arrived with
    | none =>
        obtain ⟨hne, _⟩ := Option.ite_none_left_eq_some.1 hanswer
        exact hne hcode
    | some length =>
        obtain ⟨name, _, hparts⟩ := Option.map_eq_some_iff.1 hanswer
        exact of_decide_eq_false (Prod.mk.inj hparts).1 hcode

/-- A file that is not there is found missing. -/
theorem fileExists_of_notMem {el : Text} {outcome : Outcome} {present : Bool}
    (habsent : el ∉ world.fileNames)
    (hanswer : answer place (.fileExists (joinPath place.sourceDir el)) outcome world =
      some (present, after)) : present = false := by
  cases outcome <;> simp only [answer, reduceCtorEq] at hanswer
  case ok =>
    obtain ⟨rfl, rfl⟩ := answer_parts hanswer
    refine decide_eq_false ?_
    rintro ⟨name, hname, hpath⟩
    exact habsent (joinPath_inj hpath ▸ hname)

/-- A log file that svlogd has deleted is not there. -/
theorem World.Sound.notMem_fileNames {el : Text} (h : world.Sound place)
    (hcreated : el ∈ world.feed.created) (hgone : el ∉ world.feed.kept) :
    el ∉ world.fileNames := by
  intro hmem
  rcases List.mem_append.1 hmem with hkept | hother
  · exact hgone hkept
  · exact h.otherFiles el hother (h.svlogd el hcreated)

/-- The loop ships all that is due. -/
theorem follows_shipEach_due (hsource : channel.sourceDir = place.sourceDir)
    (htarget : channel.rsyncTarget = place.rsyncTarget) (counters : Counters)
    (h : Due place goal candidates world) :
    Follows (smoothContract place) (fun _ _ world => Due place goal [] world)
      (shipEach channel counters candidates) phase world := by
  induction candidates generalizing counters world with
  | nil => exact Follows.done (stable_due goal []) h
  | cons el rest ih =>
      rw [shipEach, hsource, htarget]
      refine Follows.request (stable_due goal _) h ?_
      intro world h outcome shipped after hsucceeds hanswer
      have hcreated := h.pending.created el List.mem_cons_self
      refine ⟨phase, .single trivial, ?_⟩
      cases shipped with
      | true =>
          rcases answer_shipFile hanswer with ⟨hfalse, _⟩ | ⟨length, hmem, rfl⟩
          · exact absurd hfalse (by simp)
          · have hkept : el ∈ world.feed.kept := by
              by_contra hgone
              exact h.sound.notMem_fileNames hcreated hgone hmem
            exact ih _ ⟨h.sound.deliver (h.pending.next hkept) length, h.pending.delivered,
              h.covers.delivered⟩
      | false =>
          have habsent := notMem_of_shipFile hsucceeds hanswer
          have hgone : el ∉ world.feed.kept := fun hkept =>
            habsent (List.mem_append_left _ hkept)
          rcases answer_shipFile hanswer with ⟨_, rfl⟩ | ⟨length, hmem, _⟩
          · have hlost : (smoothContract place).Stable fun world =>
                Due place goal rest world ∧ el ∈ world.feed.created ∧ el ∉ world.feed.kept := by
              intro world world' h hrely
              obtain ⟨_, hlater⟩ := tolerable_occurs world world' h.1.sound hrely
              exact ⟨stable_due goal rest world world' h.1 hrely,
                hlater.created_prefix.subset h.2.1, hlater.forgotten el h.2.1 h.2.2⟩
            refine Follows.request hlost
              ⟨⟨h.sound, h.pending.lost hgone, h.covers.lost hgone⟩, hcreated, hgone⟩ ?_
            intro world h outcome present after _ hanswer
            obtain rfl := fileExists_of_notMem (h.1.sound.notMem_fileNames h.2.1 h.2.2) hanswer
            have hharmless : Harmless place (.fileExists (joinPath place.sourceDir el)) := trivial
            exact ⟨phase, .single trivial, ih _ (h.1.harmless hharmless hanswer)⟩
          · exact absurd hmem habsent

/-- So does shipping the candidates of a round, if they can be counted. -/
theorem follows_shipCandidates_due (hsource : channel.sourceDir = place.sourceDir)
    (htarget : channel.rsyncTarget = place.rsyncTarget) (hlength : candidates.length < 2 ^ 31)
    (h : Due place goal candidates world) :
    Follows (smoothContract place) (fun _ _ world => Due place goal [] world)
      (shipCandidates channel candidates) phase world := by
  have hsize : toInt candidates.length = candidates.length :=
    toInt_of_range (by omega) (by omega)
  rw [shipCandidates, hsize]
  by_cases hnone : (candidates.length : Int) = 0
  · rw [if_pos hnone]
    obtain rfl := List.length_eq_zero_iff.1 (Int.natCast_eq_zero.1 hnone)
    exact Follows.done (stable_due goal []) h
  · rw [if_neg hnone, List.mergeSort_eq_self (· ≤ ·) (h.pending.sorted.imp le_of_lt)]
    refine (follows_shipEach_due hsource htarget _ h).bind fun counters _ world h => ?_
    refine follows_due_of_asks ?_ h
    refine ⟨trivial, fun _ => ⟨trivial, fun _ => ⟨trivial, fun currentLogs => ?_⟩⟩⟩
    have hreturn : (if counters.numShipped = 0 then
        pure (.error (text "Failed to ship any logs")) else pure (.ok counters.numShipped) :
        Routine (Validation Int)).Asks (Harmless place) := by
      split <;> exact trivial
    have hrotated : ∀ number (rest : Unit → Routine (Validation Int)),
        (∀ value, (rest value).Asks (Harmless place)) →
        (if number ≠ 0 then sendMetric rotatedDuringShip number >>= rest
          else rest ()).Asks (Harmless place) := by
      intro number rest hrest
      split
      · exact ⟨trivial, hrest⟩
      · exact hrest ()
    exact hrotated _ _ fun _ => hreturn

/-- All files that svlogd keeps are listed. -/
theorem listing_eq_kept {directory : Text} {outcome : Outcome} {listing : List Text}
    (h : world.Sound place) (hgoes : FileOps.emergencyStopFilename ∉ world.otherFiles)
    (hanswer : answer place (.listLogDirectory directory) outcome world = some (listing, after)) :
    listing = world.feed.kept := by
  cases outcome <;> simp only [answer, reduceCtorEq] at hanswer
  case ok =>
    obtain ⟨_, hparts⟩ := Option.ite_none_right_eq_some.1 hanswer
    obtain ⟨rfl, rfl⟩ := answer_parts hparts
    exact FileOps.listLogDirectory_of_notMem
      (h.feed.created_sorted.sublist h.feed.kept_suffix.sublist)
      (fun name hname => h.svlogd name (h.feed.kept_suffix.subset hname)) h.otherFiles hgoes

/-- What the dry run does not find missing need not be shipped. -/
theorem covers_tailIntersection {directory : Text} {outcome : Outcome} {listing : List Text}
    {filesNotOnServer : Validation (List Text)} (h : world.Sound place)
    (hlisted : world.feed.Listed listing) (hcovers : world.feed.Covers goal listing)
    (hsucceeds : Succeeds place (.logFilesNotOnTarget directory listing place.rsyncTarget) outcome
      world)
    (hanswer : answer place (.logFilesNotOnTarget directory listing place.rsyncTarget) outcome
      world = some (filesNotOnServer, after)) :
    ∃ missing, filesNotOnServer = .ok missing ∧
      world.feed.Covers goal (tailIntersection listing missing) := by
  cases outcome <;> simp only [answer, reduceCtorEq] at hanswer
  case rsync code output =>
    have haccepts : FileOps.accepts code := hsucceeds
    obtain ⟨hprints, hparts⟩ := Option.ite_none_right_eq_some.1 hanswer
    obtain ⟨rfl, rfl⟩ := answer_parts hparts
    rw [FileOps.logFilesNotOnTarget]
    split
    · next hnone =>
        obtain rfl := List.length_eq_zero_iff.1 hnone
        exact ⟨[], rfl, hcovers⟩
    · have hsorted := h.feed.created_sorted.sublist hlisted.sublist
      have hmissing := FileOps.insertionSort_eq_of_perm (hprints trivial haccepts)
        (hsorted.filter _)
      refine ⟨_, rfl, hcovers.created, fun item hitem => ?_⟩
      generalize (FileOps.getRsyncCandidates output).insertionSort (· ≤ ·) = missing at hmissing ⊢
      have hsublist : missing.Sublist listing := hmissing ▸ List.filter_sublist
      have hcounts : ∀ name ∈ listing, name ∈ missing ↔
          name ∈ after.feed.kept ∧ name ∉ after.placedNames place := by
        intro name hname
        have hlog := h.svlogd name (hlisted.sublist.subset hname)
        have hother : name ∉ after.otherFiles := fun hmem => h.otherFiles name hmem hlog
        simp [hmissing, World.fileNames, hname, hother]
      have hitems : ∀ name ∈ listing, name ∈ tailIntersection listing missing ↔
          ∀ placed ∈ listing, placed ∉ missing → placed < name := by
        intro name hname
        rw [tailIntersection_eq_filter hsorted hsublist, List.mem_filter, decide_eq_true_eq]
        exact and_iff_right hname
      -- A file that the tail drops is on the target or older than one that is.
      rcases hcovers.settled item hitem with hmem | hdone
      · by_cases hleft : item ∈ tailIntersection listing missing
        · exact .inl hleft
        · exact .inr (hlisted.settled h.feed (fun name hname => h.placed.subset hname) hcounts
            hitems hmem hleft)
      · exact .inr hdone

/-- A metric is sent on the way. -/
theorem follows_sendMetric_due {α : Type} {key : Text} {value : Int} {rest : Unit → Routine α}
    {post : α → Unit → World → Prop} (h : Due place goal candidates world)
    (hrest : ∀ world, Due place goal candidates world →
      Follows (smoothContract place) post (rest ()) phase world) :
    Follows (smoothContract place) post ((sendMetric key value).bind rest) phase world := by
  have hasks : (sendMetric key value).Asks (Harmless place) := ⟨trivial, fun _ => trivial⟩
  exact (follows_due_of_asks hasks h).bind fun _ _ world h => hrest world h

variable (place) in
/-- The query has found what is due, and that can be counted. -/
def Found (goal : List Text) (result : Validation (List Text)) (world : World) : Prop :=
  ∃ candidates, result = .ok candidates ∧ candidates.length < 2 ^ 31 ∧
    Due place goal candidates world

theorem stable_found (goal : List Text) (result : Validation (List Text)) :
    (smoothContract place).Stable (Found place goal result) := by
  intro world world' h hrely
  obtain ⟨candidates, hresult, hlength, hdue⟩ := h
  exact ⟨candidates, hresult, hlength, stable_due goal candidates world world' hdue hrely⟩

variable (place) in
/-- Everything is in order, and svlogd has created the goal. -/
def Aimed (goal : List Text) (world : World) : Prop :=
  world.Sound place ∧ ∀ name ∈ goal, name ∈ world.feed.created

theorem stable_aimed (goal : List Text) : (smoothContract place).Stable (Aimed place goal) := by
  intro world world' h hrely
  obtain ⟨hsound, hlater⟩ := tolerable_occurs world world' h.1 hrely
  exact ⟨hsound, fun name hname => hlater.created_prefix.subset (h.2 name hname)⟩

/-- The query of a round that ships to the target finds all that is due. -/
theorem follows_queryCandidates_due (htarget : channel.rsyncTarget = place.rsyncTarget)
    (h : Aimed place goal world) :
    Follows (smoothContract place) (fun result _ world => Found place goal result world)
      (queryCandidates channel) phase world := by
  refine Follows.request (stable_aimed goal) h ?_
  intro world h outcome existingFiles after hsucceeds hanswer
  obtain ⟨hgoes, hcount⟩ := hsucceeds
  obtain ⟨rfl, hlisted⟩ := answer_listLogDirectory h.1 hanswer
  obtain rfl := listing_eq_kept h.1 hgoes hanswer
  have hcovers : after.feed.Covers goal after.feed.kept := ⟨h.2, fun name _ => by tauto⟩
  refine ⟨phase, .refl, ?_⟩
  generalize after.feed.kept = existingFiles at hlisted hcovers hcount
  have hbetween : (smoothContract place).Stable fun world =>
      world.Sound place ∧ world.feed.Listed existingFiles ∧
        world.feed.Covers goal existingFiles := by
    intro world world' h hrely
    obtain ⟨hsound, hlater⟩ := tolerable_occurs world world' h.1 hrely
    exact ⟨hsound, h.2.1.after h.1.feed hsound.feed hlater, h.2.2.later hlater⟩
  rw [htarget]
  refine Follows.request hbetween ⟨h.1, hlisted, hcovers⟩ ?_
  intro world h outcome filesNotOnServer after hsucceeds hanswer
  obtain ⟨missing, rfl, hleft⟩ := covers_tailIntersection h.1 h.2.1 h.2.2 hsucceeds hanswer
  obtain ⟨rfl, hpending⟩ := answer_logFilesNotOnTarget h.1 h.2.1 hanswer
  -- At most as many as the files listed, so the `int` does not overflow.
  have hlength : (tailIntersection existingFiles missing).length < 2 ^ 31 := by
    obtain ⟨as, bs, hA, _⟩ := tailIntersection_spec existingFiles missing
    rw [hA, List.length_append] at hcount
    omega
  have hdue : Due place goal (tailIntersection existingFiles missing) after :=
    ⟨h.1, hpending rfl missing rfl, hleft⟩
  refine ⟨phase, .refl, ?_⟩
  dsimp only
  split
  · next hnone =>
      obtain rfl := List.length_eq_zero_iff.1 hnone
      exact Follows.done (stable_found goal _) ⟨_, rfl, hlength, hdue⟩
  · have hdone : ∀ world, Due place goal (tailIntersection existingFiles missing) world →
        Follows (smoothContract place) (fun result _ world => Found place goal result world)
          (.done (.ok (tailIntersection existingFiles missing))) phase world :=
      fun world h => Follows.done (stable_found goal _) ⟨_, rfl, hlength, h⟩
    refine follows_sendMetric_due hdue fun world h => ?_
    split
    · exact follows_sendMetric_due h hdone
    · exact hdone world h

attribute [local irreducible] shipCandidates

/-- A round whose requests succeed ships all that is due. -/
theorem follows_dispatchNewLogs_due (barnConf : BarnConf) (h : Aimed place goal world) :
    Follows (smoothContract place) (fun _ _ world => Due place goal [] world)
      (dispatchNewLogs barnConf) phase world := by
  refine Follows.request (stable_aimed goal) h ?_
  intro world h outcome channel after hsucceeds hanswer
  obtain ⟨hsource, selector, hselector, rfl⟩ := answer_pickChannel h.1 hanswer
  have htarget : channel.rsyncTarget = place.rsyncTarget := by
    cases outcome <;> simp only [answer, reduceCtorEq] at hanswer
    case reads now =>
      obtain ⟨rfl, _⟩ := answer_parts hanswer
      exact hsucceeds
  have haimed : Aimed place goal { world with selector := selector } :=
    ⟨{ h.1 with selector := hselector }, h.2⟩
  refine ⟨phase, .single trivial, ?_⟩
  refine (follows_queryCandidates_due htarget haimed).bind fun logsToShip phase world h => ?_
  obtain ⟨candidates, rfl, hlength, hdue⟩ := h
  dsimp only
  rw [Program.bind_eq]
  refine (follows_shipCandidates_due hsource htarget hlength hdue).bind
    fun numShipped _ world h => ?_
  cases numShipped with
  | error err => exact follows_due_of_asks (asks_sleepIt barnConf) h
  | ok numShipped =>
      refine follows_due_of_asks ?_ h
      simp only
      split
      · exact (asks_sleepIt barnConf).bind fun _ => ⟨trivial, fun _ => trivial⟩
      · exact ⟨trivial, fun _ => ⟨trivial, fun _ => trivial⟩⟩

end Follows

section Runs

variable {barnConf : BarnConf}

variable (place) in
/-- The answers to the requests of rounds are no failures. -/
def Smooth : (rounds place barnConf).Label → (rounds place barnConf).Config → Prop
  | .answer outcome, (.request command _, world) => Succeeds place command outcome world
  | _, _ => True

/-- Whatever happened before, at the end of a round in which nothing fails all files that were
there at its beginning have been delivered, unless svlogd has deleted them. -/
theorem round_catchesUp {first second : List (rounds place barnConf).Label} {middle : World}
    (hinitial : Initial place world)
    (hfirst : (rounds place barnConf).run first (.done (), world) = some (.done (), middle))
    (hsmooth : (rounds place barnConf).Admits (Smooth place) (.start :: second)
      (.done (), middle))
    (hsecond : (rounds place barnConf).run (.start :: second) (.done (), middle) =
      some (.done (), after)) :
    ∀ file ∈ middle.feed.kept, file ∈ after.feed.kept → file ∈ after.feed.delivered := by
  have hsound : middle.Sound place := sound_of_run hinitial hfirst
  have haimed : Aimed place middle.feed.kept middle :=
    ⟨hsound, fun name hname => hsound.feed.kept_suffix.subset hname⟩
  have hevent : ∀ event (program : Routine Unit) world world',
      Smooth place (.event event : (rounds place barnConf).Label) (program, world) →
      (rounds place barnConf).occurs event world = some world' →
      (smoothContract place).rely world world' ∧ (smoothContract place).rely world world' :=
    fun event _ _ _ _ hoccurs => ⟨⟨event, hoccurs⟩, ⟨event, hoccurs⟩⟩
  have hbegin : ∀ (value : Unit) phase world,
      Smooth place (.start : (rounds place barnConf).Label) (.done value, world) →
      Due place middle.feed.kept [] world →
      ∃ phase', (phase', (rounds place barnConf).begin world) = (phase, world) ∧
        Follows (smoothContract place) (fun _ _ world => Due place middle.feed.kept [] world)
          (rounds place barnConf).body phase' ((rounds place barnConf).begin world) :=
    fun _ _ _ _ h => ⟨(), rfl, follows_dispatchNewLogs_due barnConf ⟨h.sound, h.covers.created⟩⟩
  have hbody : Follows (smoothContract place)
      (fun _ _ world => Due place middle.feed.kept [] world) (dispatchNewLogs barnConf) () middle :=
    follows_dispatchNewLogs_due barnConf haimed
  obtain ⟨config, hstep, hrest⟩ := Option.bind_eq_some_iff.1 hsecond
  have hadmits := hsmooth.2 config hstep
  rw [← Option.some.inj hstep] at hrest hadmits
  obtain ⟨phase, _, hfollows⟩ := Rounds.run_follows hevent
    (fun _ _ _ _ hsucceeds => hsucceeds) hbegin hadmits hbody hrest
  have hdue : Due place middle.feed.kept [] after := hfollows after .refl
  intro file hfile hkept
  rcases hdue.covers.settled file hfile with hnone | hdelivered | hgone
  · exact absurd hnone List.not_mem_nil
  · exact hdelivered
  · exact absurd hkept hgone

end Runs

section Sample

/-- The first file is created, but a dry run fails. -/
def failedRound : List (rounds Place.sample ⟨0⟩).Label :=
  [.event (.create sampleName), .start, .answer (.reads 0), .answer .ok, .answer (.rsync 12 []),
    .answer .ok]

/-- The next round finds the file. -/
def laterQuery : List (rounds Place.sample ⟨0⟩).Label :=
  [.start, .answer (.reads 0), .answer .ok,
    .answer (.rsync 0 (text "sending incremental file list\n" ++ sampleName)), .answer .ok,
    .answer .ok]

/-- The file is shipped, and svlogd still keeps it afterwards. -/
def laterShip : List (rounds Place.sample ⟨0⟩).Label :=
  [.answer (.transfer 0 (some 1)), .answer .ok, .answer .ok, .answer .ok, .answer (.reads 1)]

/-- The world after the round that failed. -/
def World.created : World :=
  { World.sample with feed := ⟨[sampleName], [sampleName], []⟩ }

/-- Shipping a file that is there afterwards. -/
theorem shipCandidates_sample : ∃ next rest,
    shipCandidates sampleChannel [sampleName] = @Program.request signature _
      (.shipFile (joinPath Place.sample.sourceDir sampleName) Place.sample.rsyncTarget) next ∧
    next true = @Program.request signature _ (.sendMetric (numFilesShipped, 1)) (fun _ =>
      @Program.request signature _ (.sendMetric (lostDuringShip, 0)) fun _ =>
        @Program.request signature _ (.listLogDirectory Place.sample.sourceDir) rest) ∧
    rest [sampleName] = .done (.ok 1) := by
  have hcount : countMissing [sampleName] [sampleName] = 0 := by
    simp [countMissing, countMissingLoop]
  rw [shipCandidates, List.mergeSort_singleton]
  refine ⟨_, _, rfl, rfl, ?_⟩
  show (if countMissing [sampleName] [sampleName] ≠ 0 then _ else _) = _
  rw [hcount]
  rfl

/-- Nothing fails while the file is found. -/
theorem admits_laterQuery :
    (rounds Place.sample ⟨0⟩).Admits (Smooth Place.sample) laterQuery (.done (), .created) := by
  refine Rounds.admits_cons trivial rfl ?_
  refine Rounds.admits_cons (show _ = _ from rfl) rfl ?_
  refine Rounds.admits_cons ⟨by decide, by decide⟩ rfl ?_
  refine Rounds.admits_cons (show FileOps.accepts 0 from by decide) rfl ?_
  exact Rounds.admits_cons trivial rfl (Rounds.admits_cons trivial rfl trivial)

/-- The world after the round that ships the file. -/
def World.caughtUp : World :=
  { World.sample with
    feed := ⟨[sampleName], [sampleName], [sampleName]⟩
    collector :=
      World.sample.collector.receive ⟨Place.sample.targetDir, sampleName, false, 1⟩ }

/-- In the second round the file is delivered. -/
theorem round_catchesUp_sample :
    (rounds Place.sample ⟨0⟩).run failedRound (.done (), .sample) = some (.done (), .created) ∧
    (rounds Place.sample ⟨0⟩).run (laterQuery ++ laterShip) (.done (), .created) =
      some (.done (), .caughtUp) ∧
    sampleName ∈ World.caughtUp.feed.delivered := by
  have hfailed : (rounds Place.sample ⟨0⟩).run failedRound (.done (), .sample) =
      some (.done (), .created) := rfl
  have hquery : ∃ rest, (rounds Place.sample ⟨0⟩).run laterQuery (.done (), .created) =
      some ((shipCandidates sampleChannel [sampleName]).bind rest, .created) ∧
      ∃ last, rest (.ok 1) = @Program.request signature _ .heartbeat last ∧
        last () = .done () :=
    ⟨_, rfl, _, rfl, rfl⟩
  obtain ⟨rest, hquery, last, hrest, hlast⟩ := hquery
  obtain ⟨next, final, hship, hnext, hfinal⟩ := shipCandidates_sample
  have hrun : (rounds Place.sample ⟨0⟩).run laterShip
      ((shipCandidates sampleChannel [sampleName]).bind rest, .created) =
        some (.done (), .caughtUp) := by
    rw [hship]
    show (rounds Place.sample ⟨0⟩).run laterShip.tail ((next true).bind rest, _) = _
    rw [hnext]
    show (rounds Place.sample ⟨0⟩).run [.answer (.reads 1)] ((final [sampleName]).bind rest, _) = _
    rw [hfinal]
    show (rounds Place.sample ⟨0⟩).run [.answer (.reads 1)] (rest (.ok 1), _) = _
    rw [hrest]
    show some (last (), _) = _
    rw [hlast]
    rfl
  have hadmits : (rounds Place.sample ⟨0⟩).Admits (Smooth Place.sample) laterShip
      ((shipCandidates sampleChannel [sampleName]).bind rest, .created) := by
    rw [hship]
    refine Rounds.admits_cons (fun _ => rfl) rfl ?_
    show (rounds Place.sample ⟨0⟩).Admits _ laterShip.tail ((next true).bind rest, _)
    rw [hnext]
    refine Rounds.admits_cons trivial rfl (Rounds.admits_cons trivial rfl ?_)
    refine Rounds.admits_cons ⟨by decide, by decide⟩ rfl ?_
    show (rounds Place.sample ⟨0⟩).Admits _ [.answer (.reads 1)] ((final [sampleName]).bind rest, _)
    rw [hfinal]
    show (rounds Place.sample ⟨0⟩).Admits _ [.answer (.reads 1)] (rest (.ok 1), _)
    rw [hrest]
    exact Rounds.admits_cons trivial rfl trivial
  have hsecond : (rounds Place.sample ⟨0⟩).run (laterQuery ++ laterShip) (.done (), .created) =
      some (.done (), .caughtUp) := by
    rw [Rounds.run_append, hquery]
    exact hrun
  have hsmooth : (rounds Place.sample ⟨0⟩).Admits (Smooth Place.sample)
      (laterQuery ++ laterShip) (.done (), .created) := by
    refine Rounds.admits_append admits_laterQuery fun config hconfig => ?_
    rw [hquery] at hconfig
    obtain rfl := Option.some.inj hconfig
    exact hadmits
  refine ⟨hfailed, hsecond, ?_⟩
  exact round_catchesUp initial_sample hfailed hsmooth hsecond sampleName (by decide) (by decide)

end Sample

end Barn.Agent.Delivery
