import Barn.Hdfs.World
import Mathlib.Data.Fintype.EquivFin

/-!
# What an action yields on its own

The rounds of one service without interference: `Action.Yields` runs an action alone with a clock
that reads given times. There is one rule for each way of building an action, and every action
yields something (`exists_yields`).
-/

namespace Barn.Hdfs

open Interaction

/-- The surroundings of a round in which the clock reads these times. -/
def timed (clock : ClockUse → ℤ) : Machine signature where
  World := World
  Outcome := Outcome
  answer := fun command outcome world =>
    match command with
    | .now use =>
        if outcome = .reads (clock use) then some (clock use, { world with clock := clock use })
        else none
    | command => answer command outcome world

/-- Alone, with a clock that reads these times, the action can yield this result. -/
def Action.Yields {α : Type} (clock : ClockUse → ℤ) (action : Action α) (world : World)
    (result : Attempt α) (final : World) : Prop :=
  Runs (timed clock) action world result final

section Yields

variable {α β : Type} {clock : ClockUse → ℤ} {world final : World}

/-- A computation without requests yields its result. -/
@[simp] theorem yields_attempt_iff {result result' : Attempt α} :
    (Action.attempt result).Yields clock world result' final ↔ result' = result ∧ final = world :=
  runs_done_iff

/-- So does a value. -/
@[simp] theorem yields_pure_iff {value : α} {result : Attempt α} :
    (pure value : Action α).Yields clock world result final ↔ result = .ok value ∧ final = world :=
  runs_done_iff

/-- A sequence yields what its last part does, unless one before it fails. -/
theorem yields_bind_iff {action : Action α} {rest : α → Action β} {result : Attempt β} :
    (action >>= rest).Yields clock world result final ↔
      (∃ value middle, action.Yields clock world (.ok value) middle ∧
        (rest value).Yields clock middle result final) ∨
      ∃ failure, action.Yields clock world (.error failure) final ∧ result = .error failure := by
  refine runs_bind_iff.trans ?_
  constructor
  · intro h
    obtain ⟨result, middle, haction, hrest⟩ := h
    cases result with
    | error failure =>
        obtain ⟨rfl, rfl⟩ := runs_done_iff.1 hrest
        exact .inr ⟨failure, haction, rfl⟩
    | ok value => exact .inl ⟨value, middle, haction, hrest⟩
  · rintro (⟨value, middle, haction, hrest⟩ | ⟨failure, haction, rfl⟩)
    · exact ⟨.ok value, middle, haction, hrest⟩
    · exact ⟨.error failure, final, haction, .done _ _⟩

/-- What is validated yields the validated result. -/
theorem yields_validate_iff {jvm : Jvm} {detail : Text} {action : Action α} {result : Attempt α} :
    (Action.validate jvm detail action).Yields clock world result final ↔
      ∃ inner, action.Yields clock world inner final ∧ result = validate jvm detail inner := by
  refine runs_bind_iff.trans ?_
  constructor
  · intro h
    obtain ⟨inner, middle, haction, hrest⟩ := h
    obtain ⟨rfl, rfl⟩ := runs_done_iff.1 hrest
    exact ⟨inner, haction, rfl⟩
  · rintro ⟨inner, haction, rfl⟩
    exact ⟨inner, final, haction, .done _ _⟩

/-- Reading the clock yields the time it reads. -/
@[simp] theorem yields_now_iff {jvm : Jvm} {use : ClockUse} {result : Attempt DateTime} :
    (Action.now jvm use).Yields clock world result final ↔
      result = .ok ⟨clock use, jvm.zone⟩ ∧ final = { world with clock := clock use } := by
  refine runs_request_iff.trans ?_
  constructor
  · rintro ⟨outcome, reply, after, hanswer, hrest⟩
    have hrest := runs_done_iff.1 hrest
    simp only [timed] at hanswer
    split at hanswer
    · obtain ⟨rfl, rfl⟩ := answer_parts hanswer
      exact hrest
    · simp at hanswer
  · rintro ⟨rfl, rfl⟩
    refine ⟨.reads (clock use), clock use, _, ?_, .done _ _⟩
    simp only [timed, if_true]

/-- Any other request yields what is made of a reply to it. -/
theorem yields_request_iff {command : Command} (hcommand : ∀ use, command ≠ .now use)
    {made : command.Reply → Attempt α} {result : Attempt α} :
    Action.Yields clock (Program.request command fun reply => Program.done (made reply)) world
        result final ↔
      ∃ outcome reply, answer command outcome world = some (reply, final) ∧
        result = made reply := by
  have hanswer : (timed clock).answer command = answer command := by
    cases command with
    | now use => exact absurd rfl (hcommand use)
    | _ => rfl
  refine runs_request_iff.trans ?_
  rw [hanswer]
  constructor
  · rintro ⟨outcome, reply, after, h, hrest⟩
    obtain ⟨rfl, rfl⟩ := runs_done_iff.1 hrest
    exact ⟨outcome, reply, h, rfl⟩
  · rintro ⟨outcome, reply, h, rfl⟩
    exact ⟨outcome, reply, final, h, .done _ _⟩

/-- Every request has an answer. -/
theorem exists_answer (clock : ClockUse → ℤ) (command : Command) (world : World) :
    ∃ outcome reply after, (timed clock).answer command outcome world = some (reply, after) := by
  cases command with
  | now use =>
      refine ⟨.reads (clock use), clock use, { world with clock := clock use }, ?_⟩
      simp only [timed, if_true]
  | listFiles dir => exact ⟨.ok, _, _, rfl⟩
  | delete file => exact ⟨.ok, _, _, rfl⟩
  | unboxLazy dir => exact ⟨.ok, _, _, rfl⟩
  | cacheGet path => exact ⟨.ok, _, _, rfl⟩
  | cachePut path listing => exact ⟨.ok, _, _, rfl⟩
  | listStatus path =>
      refine ⟨.ok, ?_⟩
      simp only [timed, answer]
      split <;> exact ⟨_, _, rfl⟩
  | mkdirs path => exact ⟨.ok, _, _, rfl⟩
  | combineIntoSeqFile candidates dir => exact ⟨.fails .nullPointer, _, _, rfl⟩
  | randomName =>
      obtain ⟨name, hname⟩ := Infinite.exists_notMem_finset world.drawnNames.toFinset
      refine ⟨.named name, name, { world with drawnNames := name :: world.drawnNames }, ?_⟩
      simp only [timed, answer]
      rw [if_neg (by simpa using hname)]
  | copyFromLocalFile source target => exact ⟨.fails .nullPointer, _, _, rfl⟩
  | rename source target => exact ⟨.refused, _, _, rfl⟩

/-- Every action yields something. -/
theorem exists_yields (clock : ClockUse → ℤ) (action : Action α) (world : World) :
    ∃ result final, action.Yields clock world result final := by
  unfold Action.Yields
  unfold Action at action
  induction action generalizing world with
  | done result => exact ⟨result, world, .done _ _⟩
  | request command next ih =>
      obtain ⟨outcome, reply, after, hanswer⟩ := exists_answer clock command world
      obtain ⟨result, final, hrest⟩ := ih reply after
      exact ⟨result, final, .request hanswer hrest⟩

end Yields

end Barn.Hdfs
