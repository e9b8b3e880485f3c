import Barn.Hdfs.World

/-!
# Rules for executed actions

What an action returns when it is executed alone with given outcomes of its requests, for each way
of building an action.
-/

namespace Barn.Hdfs

open Interaction

variable {α β : Type} {outcomes : List Outcome} {world final : World}

/-- A computation without requests returns its result. -/
theorem execute_attempt_iff {result result' : Attempt α} :
    execute machine outcomes (Action.attempt result) world = some (result', final) ↔
      outcomes = [] ∧ result' = result ∧ final = world := by
  cases outcomes with
  | nil => simp [Action.attempt, execute, eq_comm]
  | cons outcome outcomes => simp [Action.attempt, execute]

/-- A request needs one outcome. -/
theorem execute_request_iff {command : Command} {made : command.Reply → Attempt α}
    {result : Attempt α} :
    execute machine outcomes (Program.request command fun reply => Action.attempt (made reply))
        world = some (result, final) ↔
      ∃ outcome reply, outcomes = [outcome] ∧
        answer command outcome world = some (reply, final) ∧ result = made reply := by
  cases outcomes with
  | nil => simp [execute]
  | cons outcome outcomes =>
      have hexecute : execute machine (outcome :: outcomes)
          (Program.request command fun reply => Action.attempt (made reply)) world =
          (answer command outcome world).bind fun answered =>
            execute machine outcomes (Action.attempt (made answered.1)) answered.2 := rfl
      rw [hexecute, Option.bind_eq_some_iff]
      constructor
      · intro h
        obtain ⟨⟨reply, middle⟩, hanswer, hrest⟩ := h
        obtain ⟨rfl, rfl, rfl⟩ := execute_attempt_iff.1 hrest
        exact ⟨outcome, reply, rfl, hanswer, rfl⟩
      · intro h
        obtain ⟨_, reply, houtcomes, hanswer, hresult⟩ := h
        obtain ⟨rfl, rfl⟩ := List.cons.inj houtcomes
        exact ⟨(reply, final), hanswer, execute_attempt_iff.2 ⟨rfl, hresult, rfl⟩⟩

/-- A sequence returns what its last part does, unless one before it fails. -/
theorem execute_andThen_iff {action : Action α} {rest : α → Action β} {result : Attempt β} :
    execute machine outcomes (action >>= rest : Action β) world = some (result, final) ↔
      (∃ first second value middle, outcomes = first ++ second ∧
        execute machine first action world = some (.ok value, middle) ∧
        execute machine second (rest value) middle = some (result, final)) ∨
      ∃ failure, execute machine outcomes action world = some (.error failure, final) ∧
        result = .error failure := by
  refine execute_bind_iff.trans ?_
  constructor
  · intro h
    obtain ⟨first, second, inner, middle, houtcomes, haction, hrest⟩ := h
    cases inner with
    | ok value => exact .inl ⟨first, second, value, middle, houtcomes, haction, hrest⟩
    | error failure =>
        obtain ⟨rfl, rfl, rfl⟩ := execute_attempt_iff.1 hrest
        rw [List.append_nil] at houtcomes
        exact .inr ⟨failure, houtcomes ▸ haction, rfl⟩
  · intro h
    rcases h with
      ⟨first, second, value, middle, houtcomes, haction, hrest⟩ | ⟨failure, haction, rfl⟩
    · exact ⟨first, second, .ok value, middle, houtcomes, haction, hrest⟩
    · exact ⟨outcomes, [], .error failure, final, (List.append_nil _).symm, haction,
        execute_attempt_iff.2 ⟨rfl, rfl, rfl⟩⟩

/-- What is validated returns the validated result. -/
theorem execute_validate_iff {jvm : Jvm} {detail : Text} {action : Action α} {result : Attempt α} :
    execute machine outcomes (Action.validate jvm detail action) world = some (result, final) ↔
      ∃ inner, execute machine outcomes action world = some (inner, final) ∧
        result = validate jvm detail inner := by
  refine execute_bind_iff.trans ?_
  constructor
  · intro h
    obtain ⟨first, second, inner, middle, houtcomes, haction, hrest⟩ := h
    obtain ⟨rfl, rfl, rfl⟩ := execute_attempt_iff.1 hrest
    rw [List.append_nil] at houtcomes
    exact ⟨inner, houtcomes ▸ haction, rfl⟩
  · intro h
    obtain ⟨inner, haction, hresult⟩ := h
    exact ⟨outcomes, [], inner, final, (List.append_nil _).symm, haction,
      execute_attempt_iff.2 ⟨rfl, hresult, rfl⟩⟩

/-- Reading the clock returns a time that is not before the last one. -/
theorem execute_now_iff {jvm : Jvm} {use : ClockUse} {result : Attempt DateTime} :
    execute machine outcomes (Action.now jvm use) world = some (result, final) ↔
      ∃ millis, outcomes = [.reads millis] ∧ world.clock ≤ millis ∧
        result = .ok ⟨millis, jvm.zone⟩ ∧ final = { world with clock := millis } := by
  refine Iff.trans execute_request_iff ?_
  constructor
  · intro h
    obtain ⟨outcome, reply, houtcomes, hanswer, hresult⟩ := h
    obtain ⟨rfl, hclock, rfl⟩ := answer_now hanswer
    exact ⟨reply, houtcomes, hclock, hresult, rfl⟩
  · rintro ⟨millis, rfl, hclock, rfl, rfl⟩
    exact ⟨.reads millis, millis, rfl, if_pos hclock, rfl⟩

end Barn.Hdfs
