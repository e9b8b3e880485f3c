import Barn.Interaction.Program

/-!
# Refinement of an abstract protocol under interference

A `Contract` fixes what the surroundings may do between two requests of a program (`rely`), which
outcomes a request can have in which worlds (`allowed`), and the abstract protocol the program has
to follow: a step relation on phases and worlds. `Follows` says that every request of a program,
whatever its outcome and whatever the surroundings did before it, is matched by steps of the
protocol. The rules below build `Follows` along the program text; `Rounds.run_follows` lifts it to
every interleaved run of a program that is started again and again.
-/

namespace Interaction

open Relation

variable {sig : Signature} {machine : Machine sig} {Phase : Type} {α β : Type}

/-- The surroundings a program runs in and the abstract protocol it has to follow. -/
structure Contract (machine : Machine sig) (Phase : Type) where
  rely : machine.World → machine.World → Prop
  allowed : sig.Request → machine.Outcome → machine.World → Prop
  step : Phase × machine.World → Phase × machine.World → Prop

namespace Contract

variable (contract : Contract machine Phase)

/-- Finitely many steps of the surroundings. -/
abbrev Interferes : machine.World → machine.World → Prop :=
  ReflTransGen contract.rely

/-- A property of worlds that the surroundings cannot destroy. -/
def Stable (property : machine.World → Prop) : Prop :=
  ∀ world world', property world → contract.rely world world' → property world'

variable {contract}

/-- A stable property survives any number of steps of the surroundings. -/
theorem Stable.interferes {property : machine.World → Prop} (hstable : contract.Stable property)
    {world world' : machine.World} (h : property world)
    (hrely : contract.Interferes world world') : property world' := by
  induction hrely with
  | refl => exact h
  | tail _ hstep ih => exact hstable _ _ ih hstep

end Contract

/-- Every request of the program is matched by protocol steps, and a final value satisfies `post`
in every world the surroundings can still reach. -/
def Follows (contract : Contract machine Phase) (post : α → Phase → machine.World → Prop) :
    Program sig α → Phase → machine.World → Prop
  | .done value, phase, world => ∀ world', contract.Interferes world world' →
      post value phase world'
  | .request command next, phase, world => ∀ world', contract.Interferes world world' →
      ∀ outcome reply after, contract.allowed command outcome world' →
        machine.answer command outcome world' = some (reply, after) →
        ∃ phase', ReflTransGen contract.step (phase, world') (phase', after) ∧
          Follows contract post (next reply) phase' after

namespace Follows

variable {contract : Contract machine Phase} {post post' : α → Phase → machine.World → Prop}
  {program : Program sig α} {phase : Phase} {world world' : machine.World}

/-- What the surroundings do before the next request does not matter. -/
theorem interferes (h : Follows contract post program phase world)
    (hrely : contract.Interferes world world') : Follows contract post program phase world' := by
  cases program with
  | done value => exact fun final hfinal => h final (hrely.trans hfinal)
  | request command next => exact fun final hfinal => h final (hrely.trans hfinal)

/-- The postcondition can be weakened. -/
theorem mono (h : Follows contract post program phase world)
    (himp : ∀ value phase world, post value phase world → post' value phase world) :
    Follows contract post' program phase world := by
  induction program generalizing phase world with
  | done value => exact fun final hfinal => himp _ _ _ (h final hfinal)
  | request command next ih =>
      intro final hfinal outcome reply after hallowed hanswer
      obtain ⟨phase', hsteps, hrest⟩ := h final hfinal outcome reply after hallowed hanswer
      exact ⟨phase', hsteps, ih reply hrest⟩

/-- A finished program satisfies a postcondition the surroundings cannot destroy. -/
theorem done {value : α} (hstable : contract.Stable (post value phase))
    (h : post value phase world) : Follows contract post (.done value) phase world :=
  fun _ hfinal => hstable.interferes h hfinal

/-- Sequencing: the second program starts where the first one's postcondition holds. -/
theorem bind {rest : α → Program sig β} {final : β → Phase → machine.World → Prop}
    (h : Follows contract post program phase world)
    (hrest : ∀ value phase world, post value phase world →
      Follows contract final (rest value) phase world) :
    Follows contract final (program.bind rest) phase world := by
  induction program generalizing phase world with
  | done value => exact hrest value phase world (h world .refl)
  | request command next ih =>
      intro middle hmiddle outcome reply after hallowed hanswer
      obtain ⟨phase', hsteps, hnext⟩ := h middle hmiddle outcome reply after hallowed hanswer
      exact ⟨phase', hsteps, ih reply hnext⟩

/-- One request, from a precondition the surroundings cannot destroy. -/
theorem request {command : sig.Request} {next : sig.Reply command → Program sig α}
    {pre : machine.World → Prop} (hstable : contract.Stable pre) (hpre : pre world)
    (h : ∀ world, pre world → ∀ outcome reply after, contract.allowed command outcome world →
      machine.answer command outcome world = some (reply, after) →
      ∃ phase', ReflTransGen contract.step (phase, world) (phase', after) ∧
        Follows contract post (next reply) phase' after) :
    Follows contract post (.request command next) phase world :=
  fun middle hmiddle => h middle (hstable.interferes hpre hmiddle)

/-- A program that runs on its own, where every outcome is allowed, ends as it should. -/
theorem runs {value : α} {final : machine.World}
    (h : Follows contract post program phase world)
    (hallowed : ∀ command outcome world, contract.allowed command outcome world)
    (hruns : Runs machine program world value final) :
    ∃ phase', ReflTransGen contract.step (phase, world) (phase', final) ∧
      post value phase' final := by
  induction hruns generalizing phase with
  | done value world => exact ⟨phase, .refl, h world .refl⟩
  | request hanswer _ ih =>
      obtain ⟨middle, hsteps, hrest⟩ := h _ .refl _ _ _ (hallowed _ _ _) hanswer
      obtain ⟨phase', hsteps', hpost⟩ := ih hrest
      exact ⟨phase', hsteps.trans hsteps', hpost⟩

end Follows

/-- A program that is started again whenever it is done, amid events of its surroundings. -/
structure Rounds (machine : Machine sig) (α : Type) where
  Event : Type
  occurs : Event → machine.World → Option machine.World
  begin : machine.World → machine.World
  body : Program sig α

namespace Rounds

variable (rounds : Rounds machine α)

/-- One entry of an interleaved run: an event, the start of a round, or an answered request. -/
inductive Label (rounds : Rounds machine α) where
  | event (event : rounds.Event)
  | start
  | answer (outcome : machine.Outcome)

/-- What is left of the current round, together with the world. -/
abbrev Config (_rounds : Rounds machine α) := Program sig α × machine.World

/-- Perform one entry of a run, if it can happen here. -/
def step : rounds.Label → rounds.Config → Option rounds.Config
  | .event event, (program, world) => (rounds.occurs event world).map (program, ·)
  | .start, (.done _, world) => some (rounds.body, rounds.begin world)
  | .start, (.request _ _, _) => none
  | .answer _, (.done _, _) => none
  | .answer outcome, (.request command next, world) =>
      (machine.answer command outcome world).map fun answered => (next answered.1, answered.2)

/-- Perform the entries of a run in order. -/
def run : List rounds.Label → rounds.Config → Option rounds.Config
  | [], config => some config
  | label :: labels, config => (rounds.step label config).bind (run labels)

/-- Every entry of the run meets a condition where it is performed. -/
def Admits (condition : rounds.Label → rounds.Config → Prop) :
    List rounds.Label → rounds.Config → Prop
  | [], _ => True
  | label :: labels, config =>
      condition label config ∧
        ∀ config', rounds.step label config = some config' → Admits condition labels config'

/-- Every entry of the run passes a check where it is performed. -/
def passes (check : rounds.Label → rounds.Config → Bool) :
    List rounds.Label → rounds.Config → Bool
  | [], _ => true
  | label :: labels, config =>
      check label config && (rounds.step label config).all (passes check labels)

variable {rounds}

/-- A condition that can be checked is met along a run that passes. -/
theorem admits_of_passes {condition : rounds.Label → rounds.Config → Prop}
    {check : rounds.Label → rounds.Config → Bool} {labels : List rounds.Label}
    {config : rounds.Config}
    (hcheck : ∀ label config, check label config = true → condition label config)
    (h : rounds.passes check labels config = true) : rounds.Admits condition labels config := by
  induction labels generalizing config with
  | nil => trivial
  | cons label labels ih =>
      obtain ⟨hfirst, hrest⟩ := Bool.and_eq_true_iff.1 h
      refine ⟨hcheck label config hfirst, fun config' hstep => ih ?_⟩
      rw [hstep, Option.all_some] at hrest
      exact hrest

/-- A run of two parts is the first part followed by the second. -/
theorem run_append (first second : List rounds.Label) (config : rounds.Config) :
    rounds.run (first ++ second) config = (rounds.run first config).bind (rounds.run second) := by
  induction first generalizing config with
  | nil => rfl
  | cons label labels ih =>
      simp only [List.cons_append, run]
      cases rounds.step label config with
      | none => rfl
      | some middle => exact ih middle

/-- A condition is met along a run if it is met at its first entry and along the others. -/
theorem admits_cons {condition : rounds.Label → rounds.Config → Prop} {label : rounds.Label}
    {labels : List rounds.Label} {config config' : rounds.Config}
    (hfirst : condition label config) (hstep : rounds.step label config = some config')
    (hrest : rounds.Admits condition labels config') :
    rounds.Admits condition (label :: labels) config := by
  refine ⟨hfirst, fun other hother => ?_⟩
  rw [hstep] at hother
  obtain rfl := Option.some.inj hother
  exact hrest

/-- A condition is met along a run of two parts if it is met along each of them. -/
theorem admits_append {condition : rounds.Label → rounds.Config → Prop}
    {first second : List rounds.Label} {config : rounds.Config}
    (hfirst : rounds.Admits condition first config)
    (hsecond : ∀ config', rounds.run first config = some config' →
      rounds.Admits condition second config') :
    rounds.Admits condition (first ++ second) config := by
  induction first generalizing config with
  | nil => exact hsecond config rfl
  | cons label labels ih =>
      refine ⟨hfirst.1, fun middle hstep => ih (hfirst.2 middle hstep) fun config' hrun => ?_⟩
      refine hsecond config' ?_
      rw [run, hstep]
      exact hrun

/-- A condition that is met along a run of two parts is met along the first. -/
theorem admits_left {condition : rounds.Label → rounds.Config → Prop}
    {first second : List rounds.Label} {config : rounds.Config}
    (h : rounds.Admits condition (first ++ second) config) :
    rounds.Admits condition first config := by
  induction first generalizing config with
  | nil => trivial
  | cons label labels ih => exact ⟨h.1, fun middle hstep => ih (h.2 middle hstep)⟩

/-- And along the second. -/
theorem admits_right {condition : rounds.Label → rounds.Config → Prop}
    {first second : List rounds.Label} {config config' : rounds.Config}
    (h : rounds.Admits condition (first ++ second) config)
    (hrun : rounds.run first config = some config') :
    rounds.Admits condition second config' := by
  induction first generalizing config with
  | nil =>
      obtain rfl := Option.some.inj hrun
      exact h
  | cons label labels ih =>
      obtain ⟨middle, hstep, hrest⟩ := Option.bind_eq_some_iff.1 hrun
      exact ih (h.2 middle hstep) hrest

/-- A condition on the entries alone is met along the whole run. -/
theorem admits_of_forall {condition : rounds.Label → Prop} {labels : List rounds.Label}
    (h : ∀ label ∈ labels, condition label) (config : rounds.Config) :
    rounds.Admits (fun label _ => condition label) labels config := by
  induction labels generalizing config with
  | nil => trivial
  | cons label labels ih =>
      exact ⟨h label List.mem_cons_self,
        fun config' _ => ih (fun other hother => h other (.tail _ hother)) config'⟩

/-- A step of the system that the rounds and their surroundings make up: something `happens` around
a round, a new round starts, or the protocol makes a step. -/
inductive SystemStep (happens : machine.World → machine.World → Prop)
    (restart step : Phase × machine.World → Phase × machine.World → Prop) :
    Phase × machine.World → Phase × machine.World → Prop where
  | event {phase world world'} :
      happens world world' → SystemStep happens restart step (phase, world) (phase, world')
  | restart {state state'} :
      restart state state' → SystemStep happens restart step state state'
  | step {state state'} : step state state' → SystemStep happens restart step state state'

/-- Steps of the protocol are steps of the system it runs in. -/
theorem SystemStep.steps {happens : machine.World → machine.World → Prop}
    {restart step : Phase × machine.World → Phase × machine.World → Prop}
    {state state' : Phase × machine.World} (h : ReflTransGen step state state') :
    ReflTransGen (SystemStep happens restart step) state state' := by
  induction h with
  | refl => exact .refl
  | tail _ hstep ih => exact ih.tail (.step hstep)

/-- What every step preserves holds in every state a system reaches. -/
theorem SystemStep.invariant {happens : machine.World → machine.World → Prop}
    {restart step : Phase × machine.World → Phase × machine.World → Prop}
    {motive : Phase × machine.World → Prop}
    (hevent : ∀ phase world world', happens world world' → motive (phase, world) →
      motive (phase, world'))
    (hrestart : ∀ state state', restart state state' → motive state → motive state')
    (hstep : ∀ state state', step state state' → motive state → motive state')
    {state state' : Phase × machine.World}
    (h : ReflTransGen (SystemStep happens restart step) state state') (hstart : motive state) :
    motive state' := by
  induction h with
  | refl => exact hstart
  | tail _ hlast ih =>
      cases hlast with
      | event hhappens => exact hevent _ _ _ hhappens ih
      | restart hagain => exact hrestart _ _ hagain ih
      | step hnext => exact hstep _ _ hnext ih

/-- Every interleaved run of a program that follows its protocol is a run of the protocol. -/
theorem run_follows {contract : Contract machine Phase}
    {post : α → Phase → machine.World → Prop} {condition : rounds.Label → rounds.Config → Prop}
    {happens : machine.World → machine.World → Prop}
    {restart : Phase × machine.World → Phase × machine.World → Prop}
    (hevent : ∀ event program world world', condition (.event event) (program, world) →
      rounds.occurs event world = some world' →
      happens world world' ∧ contract.rely world world')
    (hallowed : ∀ outcome command next world,
      condition (.answer outcome) (.request command next, world) →
        contract.allowed command outcome world)
    (hbegin : ∀ value phase world, condition .start (.done value, world) →
      post value phase world → ∃ phase', restart (phase, world) (phase', rounds.begin world) ∧
        Follows contract post rounds.body phase' (rounds.begin world))
    {labels : List rounds.Label} {program program' : Program sig α} {phase : Phase}
    {world world' : machine.World}
    (hadmits : rounds.Admits condition labels (program, world))
    (hfollows : Follows contract post program phase world)
    (hrun : rounds.run labels (program, world) = some (program', world')) :
    ∃ phase', ReflTransGen (SystemStep happens restart contract.step) (phase, world)
        (phase', world') ∧
      Follows contract post program' phase' world' := by
  -- On the labels of the run: what carries it is that the rest of the program follows the protocol
  -- from the phase reached.
  induction labels generalizing program phase world with
  | nil =>
      simp only [run, Option.some.injEq, Prod.mk.injEq] at hrun
      obtain ⟨rfl, rfl⟩ := hrun
      exact ⟨phase, .refl, hfollows⟩
  | cons label labels ih =>
      simp only [run, Option.bind_eq_some_iff] at hrun
      obtain ⟨⟨middle, between⟩, hstep, hrun⟩ := hrun
      have hrest := hadmits.2 _ hstep
      cases label with
      | event event =>
          simp only [step, Option.map_eq_some_iff, Prod.mk.injEq] at hstep
          obtain ⟨_, hoccurs, rfl, rfl⟩ := hstep
          -- An event leaves the program where it is; following is stable under what may be relied
          -- on.
          obtain ⟨hhappens, hrely⟩ := hevent event _ _ _ hadmits.1 hoccurs
          obtain ⟨phase', hsteps, hfinal⟩ := ih hrest (hfollows.interferes (.single hrely)) hrun
          exact ⟨phase', .head (.event hhappens) hsteps, hfinal⟩
      | start =>
          cases program with
          | request command next => simp [step] at hstep
          | done value =>
              simp only [step, Option.some.injEq, Prod.mk.injEq] at hstep
              obtain ⟨rfl, rfl⟩ := hstep
              obtain ⟨phase', hrestart, hbody⟩ := hbegin _ _ _ hadmits.1 (hfollows world .refl)
              obtain ⟨phase'', hsteps, hfinal⟩ := ih hrest hbody hrun
              exact ⟨phase'', .head (.restart hrestart) hsteps, hfinal⟩
      | answer outcome =>
          cases program with
          | done value => simp [step] at hstep
          | request command next =>
              simp only [step, Option.map_eq_some_iff, Prod.mk.injEq] at hstep
              obtain ⟨⟨reply, after⟩, hanswer, rfl, rfl⟩ := hstep
              obtain ⟨phase', hmatch, hnext⟩ := hfollows world .refl outcome reply after
                (hallowed outcome command next world hadmits.1) hanswer
              obtain ⟨phase'', hsteps, hfinal⟩ := ih hrest hnext hrun
              exact ⟨phase'', (SystemStep.steps hmatch).trans hsteps, hfinal⟩

end Rounds

end Interaction
