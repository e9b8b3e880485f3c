import Barn.Hdfs.NoLoss

/-!
# The collector catches up

What a round of the collector achieves if it succeeds: `collector_catchesUp` says that every file
that had arrived when the round began is on HDFS when it ends, or too old for it. Whatever the
rounds before have left behind does not matter.
-/

namespace Barn.Hdfs

open Interaction Relation

section Invariant

variable (s : Setting) (goal : List File)

/-- What a round has to do for the files of the goal: in the beginning they are in its listing, then
among its candidates, and in the end they are on HDFS. -/
def Reaches (world : World) : Phase → Prop
  | .listed files | .looking files _ | .planning files _ _ | .selected _ files =>
      ∀ file ∈ goal, s.Done world file ∨ file ∈ files
  | .shipped _ | .cleaning true _ _ => ∀ file ∈ goal, s.Done world file
  | .ready | .failed _ | .cleaning false _ _ => True

/-- Everything is in order, and the files of the goal have arrived. A round that has `begun` since
then ships them. -/
structure Pursues (begun : Prop) (state : Phase × World) : Prop where
  safe : Safe s state
  received : ∀ file ∈ goal, file ∈ state.2.received
  reaches : begun → Reaches s goal state.2 state.1

end Invariant

section Steps

variable {s : Setting} {offset : ℤ} {goal : List File} {begun : Prop} {world world' : World}
  {phase : Phase}

/-- A change after which no file of the goal is needed that was not needed before. -/
theorem Reaches.mono (h : Reaches s goal world phase)
    (hdone : ∀ file ∈ goal, s.Done world file → s.Done world' file) :
    Reaches s goal world' phase := by
  have hfiles : ∀ files : List File, (∀ file ∈ goal, s.Done world file ∨ file ∈ files) →
      ∀ file ∈ goal, s.Done world' file ∨ file ∈ files :=
    fun files h file hfile => (h file hfile).imp_left (hdone file hfile)
  have hall : (∀ file ∈ goal, s.Done world file) → ∀ file ∈ goal, s.Done world' file :=
    fun h file hfile => hdone file hfile (h file hfile)
  cases phase with
  | listed files => exact hfiles files h
  | looking files lookBack => exact hfiles files h
  | planning files lookBack base => exact hfiles files h
  | selected base candidates => exact hfiles candidates h
  | shipped candidates => exact hall h
  | cleaning shipped limit files =>
      cases shipped with
      | true => exact hall h
      | false => trivial
  | ready => trivial
  | failed now => trivial

/-- A file that need not be kept is not needed after a calm change either. -/
theorem Pursues.done_calm (hzone : s.jvm.zone = .forOffsetMillis offset)
    (h : Pursues s goal begun (phase, world)) (hcalm : s.Calm world world') :
    ∀ file ∈ goal, s.Done world file → s.Done world' file := by
  intro file hfile hdone
  exact hdone.calm hzone hcalm (h.safe.arrived.svlogd file (h.received file hfile)).parent_eq

/-- Calm changes keep the invariant. -/
theorem Pursues.calm (hzone : s.jvm.zone = .forOffsetMillis offset)
    (h : Pursues s goal begun (phase, world)) (hcalm : s.Calm world world') :
    Pursues s goal begun (phase, world') where
  safe := h.safe.calm hzone hcalm
  received := by
    intro file hfile
    rw [hcalm.received_eq]
    exact h.received file hfile
  reaches := fun hbegun => (h.reaches hbegun).mono (h.done_calm hzone hcalm)

/-- A file that arrives in order keeps it. -/
theorem Pursues.receive (hzone : s.jvm.zone = .forOffsetMillis offset) {file : File}
    (h : Pursues s goal begun (phase, world)) (hfile : s.ArrivesInOrder offset world file) :
    Pursues s goal begun (phase, world.receive file) where
  safe := h.safe.receive hzone hfile
  received := fun other hother => List.mem_append_left _ (h.received other hother)
  reaches := fun hbegun => (h.reaches hbegun).mono fun _ _ hdone => hdone

/-- What interferes with a round keeps it. -/
theorem Pursues.interference (hzone : s.jvm.zone = .forOffsetMillis offset)
    (h : Pursues s goal begun (phase, world))
    (hinterference : Interference (s.orderTerms offset) world world') :
    Pursues s goal begun (phase, world') := by
  cases hinterference with
  | elsewhere helsewhere => exact h.calm hzone (.of_elsewhere helsewhere)
  | arrival harrives => exact h.receive hzone harrives

/-- With a new round the pursuit begins. -/
theorem Pursues.begin (hzone : s.jvm.zone = .forOffsetMillis offset)
    (h : Pursues s goal begun (phase, world)) (anew : Prop) :
    Pursues s goal anew (.ready, s.beginRound world) := by
  have hcalm := h.calm hzone (.beginRound world)
  have hsafe := hcalm.safe
  exact ⟨⟨hsafe.arrived, hsafe.dated, hsafe.wellFormed, hsafe.marks, hsafe.kept, trivial⟩,
    hcalm.received, fun _ => trivial⟩

/-- A file that was listed and must be kept is a candidate. -/
theorem mem_candidates {files candidates : List File} {file : File}
    (hsorted : files.Pairwise fun first second => first.taistamp < second.taistamp)
    (hsuffix : candidates <:+ files) (hne : candidates ≠ []) (hfile : file ∈ files)
    (hlater : ∀ candidate ∈ candidates, candidate.taistamp < file.taistamp) :
    file ∈ candidates := by
  obtain ⟨dropped, rfl⟩ := hsuffix
  rcases List.mem_append.1 hfile with hdropped | hcandidate
  · obtain ⟨candidate, hcandidate⟩ := List.exists_mem_of_ne_nil _ hne
    have hearlier := (List.pairwise_append.1 hsorted).2.2 file hdropped candidate hcandidate
    exact absurd (hlater candidate hcandidate) hearlier.not_gt
  · exact hcandidate

/-- Every step of a round keeps the invariant. -/
theorem RoundStep.pursues (hzone : s.jvm.zone = .forOffsetMillis offset)
    {state state' : Phase × World} (hstep : RoundStep (s.orderTerms offset) state state')
    (h : Pursues s goal begun state) : Pursues s goal begun state' := by
  have hsafe := hstep.safe hzone h.safe
  cases hstep with
  | internal hunobserved => exact h.calm hzone (.of_unobserved hunobserved)
  | @list world =>
      refine ⟨hsafe, h.received, fun _ file hfile => ?_⟩
      -- What has arrived by now is done or still there, and then it is listed.
      refine (h.safe.kept file (h.received file hfile)).imp_right fun hkept => ?_
      have hsorted : sortedFiles (world.localFiles (s.orderTerms offset).serviceDir) =
          world.localFiles s.serviceDir := h.safe.arrived.sortedFiles_eq
      rw [hsorted]
      exact hkept.1
  | look hclock _ =>
      have hcalm := h.calm hzone (.clock hclock)
      exact ⟨hsafe, hcalm.received, hcalm.reaches⟩
  | plan hclock =>
      have hcalm := h.calm hzone (.clock hclock)
      exact ⟨hsafe, hcalm.received, hcalm.reaches⟩
  | @select files lookBack base world millis infos candidates hclock _ _ hcandidates hne =>
      have hcalm := h.calm hzone (.clock hclock)
      refine ⟨hsafe, hcalm.received, fun hbegun file hfile => ?_⟩
      have hselects : Selects s { world with clock := millis } candidates := hsafe.covered
      -- The selection drops only what is done or what is not later than a mark: the rest is
      -- selected.
      rcases hselects.covers file (hcalm.received file hfile) with hdone | hcandidate | hlater
      · exact .inl hdone
      · exact .inr hcandidate
      · have hcovers : Covers s world files := h.safe.covered.1
        refine (hcalm.reaches hbegun file hfile).imp_right fun hlisted => ?_
        exact mem_candidates (h.safe.arrived.sorted.sublist hcovers.sublist)
          (dropWhileThrows_suffix hcandidates) hne hlisted hlater
  | @ship base candidates last name world world' hlast hname hadded =>
      refine ⟨hsafe, fun file hfile => ?_, fun hbegun file hfile => ?_⟩
      · rw [hadded.received_eq]
        exact h.received file hfile
      · rcases h.reaches hbegun file hfile with hdone | hcandidate
        · exact hdone.added hadded
        · have hentries : world'.entries (s.hdfsDir base) =
              world.entries (s.hdfsDir base) ++ [⟨name, false, .combined candidates⟩] :=
            hadded.entries_path
          have hentry : ⟨name, false, .combined candidates⟩ ∈ world'.entries (s.hdfsDir base) := by
            rw [hentries]
            exact List.mem_append_right _ (List.mem_singleton.2 rfl)
          exact .inl ⟨_, _, s.hdfsDir_ne_tempDir base, hentry, rfl, candidates, rfl, hcandidate⟩
  | fail hclock =>
      have hcalm := h.calm hzone (.clock hclock)
      exact ⟨hsafe, hcalm.received, fun _ => trivial⟩
  | cleanShipped _ _ => exact ⟨hsafe, h.received, h.reaches⟩
  | cleanOld => exact ⟨hsafe, h.received, fun _ => trivial⟩
  | delete _ _ _ =>
      exact ⟨hsafe, h.received, fun hbegun => (h.reaches hbegun).mono fun _ _ hdone => hdone⟩

end Steps

section Runs

variable {s : Setting} {offset : ℤ} {goal : List File} {begun : Prop} {start middle final : World}

/-- What is known of a round that has `begun` and returns: if it succeeds, it was cleaning up. -/
def Returned (begun : Prop) (result : Attempt Unit) (phase : Phase) (_ : World) : Prop :=
  begun → result = .ok () → ∃ limit files, phase = .cleaning true limit files

/-- A whole round follows the protocol. -/
theorem follows_actOnServiceDir (begun : Prop) (world : World) :
    Follows (roundContract (s.orderTerms offset)) (Returned begun)
      (actOnServiceDir s.jvm s.barnConf s.serviceDir) .ready (s.beginRound world) :=
  (actOnServiceDir_follows (t := s.orderTerms offset) (inPhase_beginRound world)).mono
    fun _ _ _ hreturned _ => hreturned

/-- Before the next round begins nothing need be known. -/
theorem follows_result {result : Attempt Unit} {phase : Phase} {world : World} :
    Follows (roundContract (s.orderTerms offset)) (Returned False) (Action.attempt result) phase
      world :=
  Follows.done (fun _ _ h _ => h) False.elim

/-- The rounds and what happens around them keep the invariant. -/
theorem Pursues.run (hzone : s.jvm.zone = .forOffsetMillis offset) {phase : Phase}
    {program program' : Program signature (Attempt Unit)} {world world' : World}
    {labels : List (s.orderTerms offset).actRounds.Label}
    (h : Pursues s goal begun (phase, world))
    (hfollows : Follows (roundContract (s.orderTerms offset)) (Returned begun) program phase world)
    (hadmits : (s.orderTerms offset).actRounds.Admits (s.orderTerms offset).Meets labels
      (program, world))
    (hrun : (s.orderTerms offset).actRounds.run labels (program, world) =
      some (program', world')) :
    ∃ phase', Pursues s goal begun (phase', world') ∧
      Follows (roundContract (s.orderTerms offset)) (Returned begun) program' phase' world' := by
  have hevent : ∀ event (program : Program signature (Attempt Unit)) before after,
      (s.orderTerms offset).Meets (.event event) (program, before) →
      (s.orderTerms offset).actRounds.occurs event before = some after →
      (s.orderTerms offset).Happens before after ∧
        Interference (s.orderTerms offset) before after := by
    intro event program before after hpermits hoccurs
    have hhappens : (s.orderTerms offset).Happens before after := ⟨event, hpermits, hoccurs⟩
    exact ⟨hhappens, hhappens.interference⟩
  have hbegin : ∀ value phase before, (s.orderTerms offset).Meets .start (.done value, before) →
      Returned begun value phase before →
      ∃ phase', (s.orderTerms offset).Restarts (phase, before)
          (phase', (s.orderTerms offset).actRounds.begin before) ∧
        Follows (roundContract (s.orderTerms offset)) (Returned begun)
          (s.orderTerms offset).actRounds.body phase'
          ((s.orderTerms offset).actRounds.begin before) :=
    fun _ _ before _ _ => ⟨.ready, rfl, follows_actOnServiceDir begun before⟩
  obtain ⟨phase', hsteps, hfinal⟩ :=
    Rounds.run_follows hevent (fun _ _ _ _ h => h) hbegin hadmits hfollows hrun
  refine ⟨phase', ?_, hfinal⟩
  refine Rounds.SystemStep.invariant (motive := fun state => Pursues s goal begun state) ?_ ?_ ?_
    hsteps h
  · exact fun _ _ _ hhappens h => h.interference hzone hhappens.interference
  · intro state state' hrestart h
    rw [hrestart]
    exact h.begin hzone begun
  · exact fun _ _ hstep h => hstep.pursues hzone h

/-- At the end of a round that succeeds, all files that had arrived when it began are on HDFS or
dated more than `maxLookBackDays` ago, whatever happened in the rounds before. -/
theorem collector_catchesUp (hzone : s.jvm.zone = .forOffsetMillis offset)
    (hstart : s.Untouched start) {first second : List (s.orderTerms offset).actRounds.Label}
    {result result' : Attempt Unit}
    (hadmits : (s.orderTerms offset).actRounds.Admits (s.orderTerms offset).Meets
      (first ++ .start :: second) (.done result, start))
    (hfirst : (s.orderTerms offset).actRounds.run first (.done result, start) =
      some (.done result', middle))
    (hsecond : (s.orderTerms offset).actRounds.run (.start :: second) (.done result', middle) =
      some (.done (.ok ()), final)) :
    ∀ file ∈ middle.received, s.Stored final file ∨ s.Aged final file := by
  have hidle : Pursues s [] False (.ready, start) := ⟨hstart.safe, by simp, False.elim⟩
  obtain ⟨phase, hmiddle, _⟩ := hidle.run hzone follows_result (Rounds.admits_left hadmits) hfirst
  have hgoal : Pursues s middle.received False (phase, middle) :=
    ⟨hmiddle.safe, fun _ hfile => hfile, False.elim⟩
  have hrest : (s.orderTerms offset).actRounds.run second
      (actOnServiceDir s.jvm s.barnConf s.serviceDir, s.beginRound middle) =
        some (.done (.ok ()), final) := hsecond
  have hadmitsRest := (Rounds.admits_right hadmits hfirst).2 _ rfl
  obtain ⟨phase', hfinal, hreturned⟩ := (hgoal.begin hzone True).run hzone
    (follows_actOnServiceDir True middle) hadmitsRest hrest
  obtain ⟨limit, files, rfl⟩ := hreturned final .refl trivial rfl
  exact hfinal.reaches trivial

end Runs

section Sample

/-- The run of two days up to the end of the round that fails. -/
def failedDays : List Setting.sample.actRounds.Label :=
  firstPlan ++ firstShip ++ failedShip

/-- A round has ended with an error, and all files have arrived. -/
def failsLate (config : Setting.sample.actRounds.Config) : Bool :=
  config.2.received = sampleDates.map Prod.fst && match config.1 with
    | .done (.error _) => true
    | _ => false

theorem failsLate_spec {program : Program signature (Attempt Unit)} {world : World}
    (h : failsLate (program, world) = true) :
    world.received = sampleDates.map Prod.fst ∧ ∃ result, program = .done result := by
  obtain ⟨hreceived, hdone⟩ := Bool.and_eq_true_iff.1 h
  refine ⟨of_decide_eq_true hreceived, ?_⟩
  cases program with
  | done result => exact ⟨result, rfl⟩
  | request command next => simp at hdone

/-- That round comes before the last one. -/
theorem daysRun_eq : daysRun = failedDays ++ (secondPlan ++ secondShip) := by
  simp only [daysRun, failedDays, List.append_assoc]

/-- After a round that fails, the next one puts on HDFS all files that have arrived. -/
theorem collector_catchesUp_days : ∃ result' middle final,
    (Setting.sample.orderTerms 0).actRounds.run failedDays (.done (.ok ()),
        .initial 1400000000000) = some (.done result', middle) ∧
      (Setting.sample.orderTerms 0).actRounds.run (secondPlan ++ secondShip)
        (.done result', middle) = some (.done (.ok ()), final) ∧
      middle.received = sampleDates.map Prod.fst ∧
      ∀ file ∈ middle.received,
        Setting.sample.Stored final file ∨ Setting.sample.Aged final file := by
  have hfailed : (Setting.sample.actRounds.run failedDays
      (.done (.ok ()), .initial 1400000000000)).any failsLate = true := by decide +kernel
  obtain ⟨⟨program, middle⟩, hfirst, hfails⟩ := (Option.any_eq_true _ _).1 hfailed
  obtain ⟨hreceived, result', rfl⟩ := failsLate_spec hfails
  obtain ⟨⟨program, final⟩, hrun, hships⟩ := (Option.any_eq_true _ _).1 daysRun_ships
  simp only [shipsDaily, Bool.and_eq_true] at hships
  obtain rfl := succeeds_iff.1 hships.1.1.1
  have hadmits : (Setting.sample.orderTerms 0).actRounds.Admits (Setting.sample.orderTerms 0).Meets
      daysRun (.done (.ok ()), .initial 1400000000000) :=
    Terms.admits_orderly (t := Setting.sample.orderTerms 0)
      (fun _ _ h _ _ hgreater => arrivesInOrder_sampleDates h hgreater) (fun _ _ _ => trivial)
      daysRun_orderly
  rw [daysRun_eq] at hrun hadmits
  have hsecond : Setting.sample.actRounds.run (secondPlan ++ secondShip)
      (.done result', middle) = some (.done (.ok ()), final) := by
    rwa [Rounds.run_append, hfirst, Option.bind_some] at hrun
  exact ⟨result', middle, final, hfirst, hsecond, hreceived, collector_catchesUp
    (show Setting.sample.jvm.zone = .forOffsetMillis 0 from rfl)
    ⟨rfl, rfl, by simp [World.initial, World.entries]⟩ hadmits hfirst hsecond⟩

end Sample

end Barn.Hdfs
