import Mathlib.Logic.Relation

/-!
# Programs that talk to a world

A `Program` makes requests of a signature, receives a reply to each, and finally returns a value.
A `Machine` answers requests: given a request, an outcome chosen by the surroundings and a world,
`answer` yields the reply and the next world, or `none` where that outcome cannot happen. `Runs`
executes a program on its own; read `runs_bind_iff` first. Interleaved execution is in
`Barn.Interaction.Refinement`.
-/

namespace Interaction

/-- The requests a program can make and the type of the reply to each. -/
structure Signature where
  Request : Type
  Reply : Request → Type

/-- A program over a signature: done with a value, or waiting for the reply to a request. -/
inductive Program (sig : Signature) (α : Type) where
  | done (value : α)
  | request (command : sig.Request) (next : sig.Reply command → Program sig α)

variable {sig : Signature} {α β γ : Type}

namespace Program

/-- Run the first program, then the one its value selects. -/
def bind : Program sig α → (α → Program sig β) → Program sig β
  | .done value, rest => rest value
  | .request command next, rest => .request command fun reply => (next reply).bind rest

instance : Monad (Program sig) where
  pure := .done
  bind := bind

@[simp] theorem done_bind (value : α) (rest : α → Program sig β) :
    (Program.done value).bind rest = rest value := rfl

@[simp] theorem request_bind (command : sig.Request)
    (next : sig.Reply command → Program sig α) (rest : α → Program sig β) :
    (Program.request command next).bind rest =
      .request command fun reply => (next reply).bind rest := rfl

/-- Returning what the program returns changes nothing. -/
@[simp] theorem bind_done (program : Program sig α) : program.bind .done = program := by
  induction program with
  | done value => rfl
  | request command next ih => simp only [request_bind, ih]

/-- Sequencing is associative. -/
theorem bind_assoc (program : Program sig α) (first : α → Program sig β)
    (second : β → Program sig γ) :
    (program.bind first).bind second = program.bind fun value => (first value).bind second := by
  induction program with
  | done value => rfl
  | request command next ih => simp only [request_bind, ih]

@[simp] theorem bind_eq (program : Program sig α) (rest : α → Program sig β) :
    program >>= rest = program.bind rest := rfl

@[simp] theorem pure_eq (value : α) : (pure value : Program sig α) = .done value := rfl

/-- Every request that the program can make is among these. -/
def Asks (among : sig.Request → Prop) : Program sig α → Prop
  | .done _ => True
  | .request command next => among command ∧ ∀ reply, (next reply).Asks among

/-- A sequence makes the requests of its parts. -/
theorem Asks.bind {among : sig.Request → Prop} {program : Program sig α}
    {rest : α → Program sig β} (h : program.Asks among) (hrest : ∀ value, (rest value).Asks among) :
    (program.bind rest).Asks among := by
  induction program with
  | done value => exact hrest value
  | request command next ih => exact ⟨h.1, fun reply => ih reply (h.2 reply)⟩

/-- Being among more requests is a weaker condition. -/
theorem Asks.mono {among among' : sig.Request → Prop} {program : Program sig α}
    (h : program.Asks among) (himp : ∀ command, among command → among' command) :
    program.Asks among' := by
  induction program with
  | done value => trivial
  | request command next ih => exact ⟨himp command h.1, fun reply => ih reply (h.2 reply)⟩

end Program

/-- What answers the requests of a signature. -/
structure Machine (sig : Signature) where
  World : Type
  Outcome : Type
  answer : (command : sig.Request) → Outcome → World → Option (sig.Reply command × World)

/-- The parts of an answer. -/
theorem answer_parts {World : Type} {reply reply' : α} {world world' : World}
    (h : some (reply, world) = some (reply', world')) : reply' = reply ∧ world' = world := by
  obtain ⟨hreply, hworld⟩ := Prod.mk.inj (Option.some.inj h)
  exact ⟨hreply.symm, hworld.symm⟩

variable {machine : Machine sig}

/-- `Runs program w value w'` says the program, alone from world `w`, can return `value` in `w'`. -/
inductive Runs (machine : Machine sig) :
    Program sig α → machine.World → α → machine.World → Prop where
  | done (value world) : Runs machine (.done value) world value world
  | request {command next world outcome reply middle value final} :
      machine.answer command outcome world = some (reply, middle) →
      Runs machine (next reply) middle value final →
      Runs machine (.request command next) world value final

/-- A finished program returns its value without touching the world. -/
@[simp] theorem runs_done_iff {value result : α} {world final : machine.World} :
    Runs machine (.done value) world result final ↔ result = value ∧ final = world := by
  constructor
  · intro h
    cases h
    exact ⟨rfl, rfl⟩
  · rintro ⟨rfl, rfl⟩
    exact .done _ _

/-- A pending program takes one answer and goes on with the reply. -/
theorem runs_request_iff {command : sig.Request} {next : sig.Reply command → Program sig α}
    {world final : machine.World} {value : α} :
    Runs machine (.request command next) world value final ↔
      ∃ outcome reply middle, machine.answer command outcome world = some (reply, middle) ∧
        Runs machine (next reply) middle value final := by
  constructor
  · intro h
    cases h with
    | request hanswer hrest => exact ⟨_, _, _, hanswer, hrest⟩
  · rintro ⟨outcome, reply, middle, hanswer, hrest⟩
    exact .request hanswer hrest

/-- A sequence runs by running its two parts one after the other. -/
theorem runs_bind_iff {program : Program sig α} {rest : α → Program sig β}
    {world final : machine.World} {result : β} :
    Runs machine (program.bind rest) world result final ↔
      ∃ value middle, Runs machine program world value middle ∧
        Runs machine (rest value) middle result final := by
  induction program generalizing world with
  | done value =>
      simp only [Program.done_bind, runs_done_iff]
      constructor
      · intro h
        exact ⟨value, world, ⟨rfl, rfl⟩, h⟩
      · rintro ⟨_, _, ⟨rfl, rfl⟩, h⟩
        exact h
  | request command next ih =>
      simp only [Program.request_bind, runs_request_iff, ih]
      constructor
      · rintro ⟨outcome, reply, start, hanswer, value, middle, hfirst, hrest⟩
        exact ⟨value, middle, ⟨outcome, reply, start, hanswer, hfirst⟩, hrest⟩
      · rintro ⟨value, middle, ⟨outcome, reply, start, hanswer, hfirst⟩, hrest⟩
        exact ⟨outcome, reply, start, hanswer, value, middle, hfirst, hrest⟩

/-- What none of its requests destroys holds at the end of a program. -/
theorem Runs.preserves {among : sig.Request → Prop} {property : machine.World → Prop}
    (hanswer : ∀ command outcome world reply after, among command →
      machine.answer command outcome world = some (reply, after) → property world → property after)
    {program : Program sig α} {world final : machine.World} {value : α}
    (hasks : program.Asks among) (h : Runs machine program world value final)
    (hworld : property world) : property final := by
  induction h with
  | done value world => exact hworld
  | request hfirst _ ih => exact ih (hasks.2 _) (hanswer _ _ _ _ _ hasks.1 hfirst hworld)

/-- Run a program on its own with these outcomes, which have to be just as many as it needs. -/
def execute (machine : Machine sig) :
    List machine.Outcome → Program sig α → machine.World → Option (α × machine.World)
  | [], .done value, world => some (value, world)
  | outcome :: outcomes, .request command next, world =>
      (machine.answer command outcome world).bind fun answered =>
        execute machine outcomes (next answered.1) answered.2
  | _, _, _ => none

/-- What is executed is a run of the program. -/
theorem runs_of_execute {outcomes : List machine.Outcome} {program : Program sig α}
    {world final : machine.World} {value : α}
    (h : execute machine outcomes program world = some (value, final)) :
    Runs machine program world value final := by
  induction outcomes generalizing program world with
  | nil =>
      cases program with
      | done result =>
          obtain ⟨rfl, rfl⟩ := Prod.mk.inj (Option.some.inj h)
          exact .done _ _
      | request command next => simp [execute] at h
  | cons outcome outcomes ih =>
      cases program with
      | done result => simp [execute] at h
      | request command next =>
          rw [execute, Option.bind_eq_some_iff] at h
          obtain ⟨⟨reply, middle⟩, hanswer, hrest⟩ := h
          exact .request hanswer (ih hrest)

/-- A sequence is executed by executing its two parts one after the other. -/
theorem execute_bind_iff {outcomes : List machine.Outcome} {program : Program sig α}
    {rest : α → Program sig β} {world final : machine.World} {result : β} :
    execute machine outcomes (program.bind rest) world = some (result, final) ↔
      ∃ first second value middle, outcomes = first ++ second ∧
        execute machine first program world = some (value, middle) ∧
        execute machine second (rest value) middle = some (result, final) := by
  induction program generalizing outcomes world with
  | done value =>
      rw [Program.done_bind]
      constructor
      · intro h
        exact ⟨[], outcomes, value, world, rfl, rfl, h⟩
      · intro h
        obtain ⟨first, second, value', middle, houtcomes, hfirst, hrest⟩ := h
        cases first with
        | nil =>
            obtain ⟨rfl, rfl⟩ := Prod.mk.inj (Option.some.inj hfirst)
            rwa [houtcomes]
        | cons outcome first => simp [execute] at hfirst
  | request command next ih =>
      rw [Program.request_bind]
      constructor
      · intro h
        cases outcomes with
        | nil => simp [execute] at h
        | cons outcome outcomes =>
            rw [execute, Option.bind_eq_some_iff] at h
            obtain ⟨answered, hanswer, h⟩ := h
            obtain ⟨first, second, value, middle, rfl, hfirst, hrest⟩ := (ih answered.1).1 h
            refine ⟨outcome :: first, second, value, middle, rfl, ?_, hrest⟩
            rw [execute, hanswer]
            exact hfirst
      · intro h
        obtain ⟨first, second, value, middle, houtcomes, hfirst, hrest⟩ := h
        cases first with
        | nil => simp [execute] at hfirst
        | cons outcome first =>
            rw [execute, Option.bind_eq_some_iff] at hfirst
            obtain ⟨answered, hanswer, hfirst⟩ := hfirst
            rw [houtcomes, List.cons_append, execute, hanswer]
            exact (ih answered.1).2 ⟨first, second, value, middle, rfl, hfirst, hrest⟩

end Interaction
