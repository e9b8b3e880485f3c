import Barn.Hdfs.RoundRefinement

/-!
# Rounds in their surroundings

The rounds of one service directory as they are started again and again, amid what happens around
them: time passes, files arrive, and other services ship and fill the listing cache. The main
result is `actRounds_follows`: every such run is a run of the protocol in which rounds restart.
-/

namespace Barn.Hdfs

open Interaction Relation

/-- What happens around the rounds of a service directory. -/
inductive Event where
  | advance (millis : ℤ)
  | arrive (file : File)
  | place (path : HdfsDir) (entry : Entry)
  | ensureDir (path : HdfsDir)
  | setFault (path : HdfsDir) (fault : Option Text)
  | relist (path : HdfsDir)

/-- The listing that `cachingLs` makes of a reply. -/
def replyListing (jvm : Jvm) (path : HdfsDir) (reply : Throws (Option (List Entry))) :
    Attempt CachedListing :=
  cachedListing (validate jvm (text "Can't get list of files on HDFS dir: " ++ path)
    (listedFiles path (bare reply)))

/-- Another service lists a directory and caches the listing. -/
def relist (jvm : Jvm) (path : HdfsDir) (world : World) : Option World :=
  match answer (.listStatus path) .ok world with
  | some (reply, after) =>
      match replyListing jvm path reply with
      | .ok listing => some { after with
          hdfsListCache := Function.update after.hdfsListCache path (some listing) }
      | .error _ => none
  | none => none

namespace Setting

variable (s : Setting)

/-- What an event does to the world, if it can happen: the clock never goes back, and no name is
placed twice in a directory. -/
def occurs : Event → World → Option World
  | .advance millis, world =>
      if world.clock ≤ millis then some { world with clock := millis } else none
  | .arrive file, world => if file.parent = s.serviceDir then some (world.receive file) else none
  | .place path entry, world =>
      if path = s.tempDir ∨ ∃ other ∈ world.entries path, other.getName = entry.getName then none
      else some (world.setEntries path (world.entries path ++ [entry]))
  | .ensureDir path, world => some (world.makeDirectory path)
  | .setFault path fault, world =>
      some { world with listingFault := Function.update world.listingFault path fault }
  | .relist path, world => relist s.jvm path world

/-- A round of the whole collector begins with an empty cache and without a file system. -/
def beginRound (world : World) : World :=
  { world with
    hdfsListCache := fun _ => none
    fileSystems := Function.update world.fileSystems s.serviceDir false }

/-- The rounds of the service directory. -/
def actRounds : Rounds machine (Attempt Unit) where
  Event := Event
  occurs := s.occurs
  begin := s.beginRound
  body := actOnServiceDir s.jvm s.barnConf s.serviceDir

end Setting

namespace Terms

variable (t : Terms)

/-- The events that are looked at: arrivals as agreed, and nothing of the service placed by
others. -/
def Permits : Event → World → Prop
  | .arrive file, world => t.mayArrive world file
  | .place _ entry, _ => ¬ t.Concerns entry
  | _, _ => True

/-- The runs that are looked at. -/
def Meets : t.actRounds.Label → t.actRounds.Config → Prop
  | .event event, (_, world) => t.Permits event world
  | .answer outcome, (.request command _, world) =>
      ∀ millis, command = .now .outstandingFiles → outcome = .reads millis → t.mayRead world millis
  | _, _ => True

/-- Something that is looked at happens around the rounds. -/
def Happens (world world' : World) : Prop :=
  ∃ event, t.Permits event world ∧ t.occurs event world = some world'

/-- A new round starts. -/
def Restarts (state state' : Phase × World) : Prop :=
  state' = (.ready, t.beginRound state.2)

/-- The protocol of the rounds, started again and again, amid what happens around them. -/
abbrev SystemStep : Phase × machine.World → Phase × machine.World → Prop :=
  Rounds.SystemStep t.Happens t.Restarts (RoundStep t)

end Terms

variable {t : Terms} {world world' : World}

/-- Another service's listing is true of its directory. -/
theorem relist_spec {path : HdfsDir} (h : relist t.jvm path world = some world') :
    ∃ listing, t.CoherentListing world path listing ∧ world' = { world with
      hdfsListCache := Function.update world.hdfsListCache path (some listing) } := by
  unfold relist at h
  cases hanswer : answer (.listStatus path) .ok world with
  | none => simp [hanswer] at h
  | some answered =>
      obtain ⟨reply, after⟩ := answered
      simp only [hanswer] at h
      obtain ⟨rfl, _⟩ := answer_listStatus hanswer
      cases hlisting : replyListing t.jvm path reply with
      | error failure => simp [hlisting] at h
      | ok listing =>
          simp only [hlisting, Option.some.injEq] at h
          exact ⟨listing, Setting.coherent_of_answer hanswer hlisting, h.symm⟩

/-- What happens around the rounds only interferes with them as their protocol expects. -/
theorem Terms.Happens.interference (h : t.Happens world world') : Interference t world world' := by
  obtain ⟨event, hpermits, hoccurs⟩ := h
  cases event with
  | advance millis =>
      simp only [Setting.occurs] at hoccurs
      split at hoccurs
      · next hclock =>
          rw [Option.some.injEq] at hoccurs
          subst hoccurs
          exact .elsewhere ⟨hclock, rfl, rfl, rfl, rfl, .of_hdfs_eq rfl, fun _ _ h => .inl h⟩
      · simp at hoccurs
  | arrive file =>
      simp only [Setting.occurs] at hoccurs
      split at hoccurs
      · rw [← Option.some.inj hoccurs]
        exact .arrival hpermits
      · simp at hoccurs
  | place path entry =>
      simp only [Setting.occurs] at hoccurs
      split at hoccurs
      · simp at hoccurs
      · next hfresh =>
          rw [Option.some.injEq] at hoccurs
          subst hoccurs
          -- Others place files outside the temporary directory, under names that are not this
          -- service's.
          have htemp : t.tempDir ≠ path := fun heq => hfresh (.inl heq.symm)
          refine .elsewhere ⟨le_rfl, rfl, rfl, rfl, ?_, ?_, fun _ _ h => .inl h⟩
          · rw [World.entries_setEntries, if_neg htemp]
          · intro other found hconcerns
            rw [World.entries_setEntries]
            split
            · next heq =>
                rw [heq, List.mem_append, List.mem_singleton]
                refine or_iff_left fun hfound => hpermits ?_
                rw [← hfound]
                exact hconcerns
            · rfl
  | ensureDir path =>
      rw [Setting.occurs, Option.some.injEq] at hoccurs
      subst hoccurs
      refine .elsewhere ⟨le_rfl, rfl, rfl, rfl, ?_, ?_, fun _ _ h => .inl h⟩
      · rw [World.entries_makeDirectory]
      · intro other found _
        rw [World.entries_makeDirectory]
  | setFault path fault =>
      rw [Setting.occurs, Option.some.injEq] at hoccurs
      subst hoccurs
      exact .elsewhere ⟨le_rfl, rfl, rfl, rfl, rfl, .of_hdfs_eq rfl, fun _ _ h => .inl h⟩
  | relist path =>
      -- Another directory's round lists a path and caches what it saw, which is true of it.
      obtain ⟨listing, hcoherent, rfl⟩ := relist_spec hoccurs
      refine .elsewhere ⟨le_rfl, rfl, rfl, rfl, rfl, .of_hdfs_eq rfl, fun other found hfound => ?_⟩
      change Function.update world.hdfsListCache path (some listing) other = some found at hfound
      rw [Function.update_apply] at hfound
      split at hfound
      · next heq =>
          rw [heq, ← Option.some.inj hfound]
          exact .inr (hcoherent.congr (.of_hdfs_eq rfl))
      · exact .inl hfound

/-- A round that begins finds nothing cached. -/
theorem inPhase_beginRound (world : World) : InPhase t .ready .ready (t.beginRound world) :=
  ⟨rfl, fun _ _ _ hlisting => absurd hlisting (by simp [Setting.beginRound])⟩

/-- Every run of the rounds amid what is looked at is a run of the protocol. -/
theorem actRounds_follows {labels : List t.actRounds.Label} {config : t.actRounds.Config}
    {result : Attempt Unit}
    (hadmits : t.actRounds.Admits t.Meets labels (.done result, world))
    (hrun : t.actRounds.run labels (.done result, world) = some config) :
    ∃ phase, ReflTransGen t.SystemStep (.ready, world) (phase, config.2) := by
  have hevent : ∀ event program before after, t.Meets (.event event) (program, before) →
      t.actRounds.occurs event before = some after →
      t.Happens before after ∧ Interference t before after := by
    intro event program before after hpermits hoccurs
    have hhappens : t.Happens before after := ⟨event, hpermits, hoccurs⟩
    exact ⟨hhappens, hhappens.interference⟩
  have hbegin : ∀ value phase before, t.Meets .start (.done value, before) → True →
      ∃ phase', t.Restarts (phase, before) (phase', t.actRounds.begin before) ∧
        Follows (roundContract t) (fun _ _ _ => True) t.actRounds.body phase'
          (t.actRounds.begin before) :=
    fun _ _ before _ _ => ⟨.ready, rfl,
      (actOnServiceDir_follows (inPhase_beginRound before)).mono fun _ _ _ _ => trivial⟩
  have hdone : Follows (roundContract t) (fun _ _ _ => True) (Action.attempt result) .ready world :=
    Follows.done (fun _ _ _ _ => trivial) trivial
  obtain ⟨program, final⟩ := config
  obtain ⟨phase, hsteps, _⟩ :=
    Rounds.run_follows hevent (fun _ _ _ _ h => h) hbegin hadmits hdone hrun
  exact ⟨phase, hsteps⟩

section Sample

/-- The service `web` of `node1`, shipped as often as possible. -/
def Setting.sample : Setting where
  jvm := .utc
  barnConf := ⟨text "/local/tmp", text "/logs", 0⟩
  serviceDir := text "/local/logs/web@main@node1"
  serviceInfo := ⟨text "web", text "node1"⟩
  decodes := decodeServiceInfo_web

/-- A small file of that service. -/
def sampleFile (name : Text) : File :=
  ⟨Setting.sample.serviceDir, name, false, 10⟩

/-- The answers to a lookup of a directory that is not cached yet. -/
def lookupOutcomes : List Outcome :=
  [.ok, .ok, .ok, .ok]

/-- The answers when candidates are selected and shipped, nothing fails and nothing is deleted; the
names are those of the temporary files. -/
def shipOutcomes (millis : ℤ) (localName hdfsName : Text) : List Outcome :=
  [.reads millis, .named localName, .ok, .ok, .ok, .ok, .ok, .named hdfsName, .ok, .ok, .ok]

/-- The answers in such a round that looks into some directories on HDFS and finds nothing there. -/
def smoothOutcomes (millis : ℤ) (directories : ℕ) (localName hdfsName : Text) : List Outcome :=
  [.ok, .reads millis, .reads millis] ++ (List.replicate directories lookupOutcomes).flatten ++
    shipOutcomes millis localName hdfsName

/-- The round is about to select its candidates. -/
def selects : Program signature (Attempt Unit) → Bool
  | .request (.now .outstandingFiles) _ => true
  | _ => false

/-- The round has ended without an error. -/
def succeeds : Program signature (Attempt Unit) → Bool
  | .done (.ok ()) => true
  | _ => false

theorem succeeds_iff {program : Program signature (Attempt Unit)} :
    succeeds program = true ↔ program = .done (.ok ()) := by
  cases program with
  | request command next => simp [succeeds]
  | done result =>
      cases result with
      | error failure => simp [succeeds]
      | ok value => simp [succeeds]

/-- The requests of a round are answered. -/
def Setting.answers (s : Setting) (outcomes : List Outcome) : List s.actRounds.Label :=
  outcomes.map .answer

/-- A file arrives, and a round starts and gets answers. -/
def Setting.arrivalRun (s : Setting) (file : File) (outcomes : List Outcome) :
    List s.actRounds.Label :=
  .event (.arrive file) :: .start :: s.answers outcomes

/-- Entries of a run that can be checked: files of a list arrive in the order of their taistamps and
not before they are dated, nothing is placed by others, and candidates are selected only if this is
said. -/
def Setting.orderly (s : Setting) (dates : List (File × ℤ)) (selecting : Bool) :
    s.actRounds.Label → s.actRounds.Config → Bool
  | .event (.arrive file), (_, world) =>
      dates.any (fun dated => dated.1 = file && dated.2 ≤ world.clock) &&
        world.received.all fun other => other.taistamp < file.taistamp
  | .event (.place _ _), _ => false
  | .answer _, (program, _) => selecting || !selects program
  | _, _ => true

/-- Such a run is one that is looked at, if these files may arrive and the clock may be read. -/
theorem Terms.admits_orderly {dates : List (File × ℤ)} {selecting : Bool}
    {labels : List t.actRounds.Label} {config : t.actRounds.Config}
    (harrives : ∀ file millis, (file, millis) ∈ dates → ∀ world : World, millis ≤ world.clock →
      (∀ other ∈ world.received, other.taistamp < file.taistamp) → t.mayArrive world file)
    (hreads : selecting = true → ∀ world millis, t.mayRead world millis)
    (h : t.actRounds.passes (t.orderly dates selecting) labels config = true) :
    t.actRounds.Admits t.Meets labels config := by
  refine Rounds.admits_of_passes (fun label config hcheck => ?_) h
  obtain ⟨program, world⟩ := config
  match label, program with
  | .event (.arrive file), _ =>
      simp only [Setting.orderly, Bool.and_eq_true, List.any_eq_true, List.all_eq_true,
        decide_eq_true_eq] at hcheck
      obtain ⟨⟨⟨known, millis⟩, hdated, rfl, hclock⟩, hgreater⟩ := hcheck
      exact harrives _ _ hdated world hclock hgreater
  | .event (.place _ _), _ => simp [Setting.orderly] at hcheck
  | .event (.advance _), _ | .event (.ensureDir _), _ | .event (.setFault _ _), _ |
    .event (.relist _), _ | .start, _ | .answer _, .done _ => trivial
  | .answer _, .request command next =>
      rintro millis rfl _
      refine hreads ?_ world millis
      simpa [Setting.orderly, selects] using hcheck

end Sample

end Barn.Hdfs
