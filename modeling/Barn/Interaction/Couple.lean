import Barn.Interaction.Refinement

/-!
# Two programs that share a world

A `Couple` runs the rounds of two programs side by side, in any order of their requests; the second
program sees only a part of the world. A `Coupling` is the rule of parallel composition: what one of
them does, and what happens around it, is among what the other one has to reckon with, as long as an
invariant holds that all of them keep. Then both follow their protocols in every run
(`Coupling.run_follows`).
-/

namespace Interaction

open Relation

variable {sig sig' : Signature} {α β : Type} {machine : Machine sig} {part : Machine sig'}

/-- The rounds of two programs. The world of the inner one is a part of the world of the outer
one. -/
structure Couple (machine : Machine sig) (part : Machine sig') (α β : Type) where
  outer : Rounds machine α
  inner : Rounds part β
  get : machine.World → part.World
  put : part.World → machine.World → machine.World
  get_put : ∀ inside world, get (put inside world) = inside
  put_put : ∀ inside inside' world, put inside' (put inside world) = put inside' world
  put_get : ∀ world, put (get world) world = world

namespace Couple

variable (couple : Couple machine part α β)

/-- One entry of a run of both. -/
inductive Label (couple : Couple machine part α β) where
  | outer (label : couple.outer.Label)
  | inner (label : couple.inner.Label)

/-- What is left of the current rounds, and the world. -/
structure Config (couple : Couple machine part α β) where
  outer : Program sig α
  inner : Program sig' β
  world : machine.World

/-- Perform one entry of a run, if it can happen here. -/
def step : couple.Label → couple.Config → Option couple.Config
  | .outer label, config =>
      (couple.outer.step label (config.outer, config.world)).map fun next =>
        ⟨next.1, config.inner, next.2⟩
  | .inner label, config =>
      (couple.inner.step label (config.inner, couple.get config.world)).map fun next =>
        ⟨config.outer, next.1, couple.put next.2 config.world⟩

/-- Perform the entries of a run in order. -/
def run : List couple.Label → couple.Config → Option couple.Config
  | [], config => some config
  | label :: labels, config => (couple.step label config).bind (run labels)

/-- Every entry of the run meets a condition where it is performed. -/
def Admits (condition : couple.Label → machine.World → Prop) :
    List couple.Label → couple.Config → Prop
  | [], _ => True
  | label :: labels, config =>
      condition label config.world ∧
        ∀ config', couple.step label config = some config' → Admits condition labels config'

variable {couple}

/-- A run of two parts is the first part followed by the second. -/
theorem run_append (first second : List couple.Label) (config : couple.Config) :
    couple.run (first ++ second) config = (couple.run first config).bind (couple.run second) := by
  induction first generalizing config with
  | nil => rfl
  | cons label labels ih =>
      simp only [List.cons_append, run]
      cases couple.step label config with
      | none => rfl
      | some middle => exact ih middle

/-- A run of the outer program alone. -/
theorem run_outer (labels : List couple.outer.Label) (config : couple.Config) :
    couple.run (labels.map .outer) config =
      (couple.outer.run labels (config.outer, config.world)).map fun next =>
        ⟨next.1, config.inner, next.2⟩ := by
  induction labels generalizing config with
  | nil => rfl
  | cons label labels ih =>
      simp only [List.map_cons, run, Rounds.run, step]
      cases couple.outer.step label (config.outer, config.world) with
      | none => rfl
      | some middle => exact ih ⟨middle.1, config.inner, middle.2⟩

/-- A run of the inner program alone. -/
theorem run_inner (labels : List couple.inner.Label) (config : couple.Config) :
    couple.run (labels.map .inner) config =
      (couple.inner.run labels (config.inner, couple.get config.world)).map fun next =>
        ⟨config.outer, next.1, couple.put next.2 config.world⟩ := by
  induction labels generalizing config with
  | nil =>
      show some config =
        some ⟨config.outer, config.inner, couple.put (couple.get config.world) config.world⟩
      rw [couple.put_get]
  | cons label labels ih =>
      simp only [List.map_cons, run, Rounds.run, step]
      cases couple.inner.step label (config.inner, couple.get config.world) with
      | none => rfl
      | some middle =>
          refine (ih ⟨config.outer, middle.1, couple.put middle.2 config.world⟩).trans ?_
          simp only [couple.get_put, couple.put_put, Option.bind_some]

/-- A condition is met along a run if it is met at its first entry and along the rest. -/
theorem admits_cons {condition : couple.Label → machine.World → Prop} {label : couple.Label}
    {labels : List couple.Label} {config config' : couple.Config}
    (hfirst : condition label config.world) (hstep : couple.step label config = some config')
    (hrest : couple.Admits condition labels config') :
    couple.Admits condition (label :: labels) config := by
  refine ⟨hfirst, fun other hother => ?_⟩
  rw [hstep] at hother
  obtain rfl := Option.some.inj hother
  exact hrest

/-- A condition on the entries alone is met along the whole run. -/
theorem admits_of_forall {condition : couple.Label → machine.World → Prop}
    {labels : List couple.Label} (h : ∀ label ∈ labels, ∀ world, condition label world)
    (config : couple.Config) : couple.Admits condition labels config := by
  induction labels generalizing config with
  | nil => trivial
  | cons label labels ih =>
      exact ⟨h label List.mem_cons_self config.world,
        fun config' _ => ih (fun other hother => h other (.tail _ hother)) config'⟩

end Couple

section Coupling

variable {Phase Phase' : Type} {couple : Couple machine part α β}
  {contract : Contract machine Phase} {contract' : Contract part Phase'}
  {post : α → Phase → machine.World → Prop} {post' : β → Phase' → part.World → Prop}
  {condition : couple.Label → machine.World → Prop}
  {invariant : Phase → Phase' → machine.World → Prop}

/-- The protocols of the two programs fit together: an invariant is kept by their steps and by what
happens around them, and none of it goes beyond what the programs reckon with. -/
structure Coupling (couple : Couple machine part α β) (contract : Contract machine Phase)
    (contract' : Contract part Phase') (post : α → Phase → machine.World → Prop)
    (post' : β → Phase' → part.World → Prop)
    (condition : couple.Label → machine.World → Prop)
    (invariant : Phase → Phase' → machine.World → Prop) : Prop where
  allowed : ∀ command outcome world, contract.allowed command outcome world
  allowed' : ∀ command outcome inside, contract'.allowed command outcome inside
  outerEvent : ∀ {event phase phase' world world'}, condition (.outer (.event event)) world →
    invariant phase phase' world → couple.outer.occurs event world = some world' →
    invariant phase phase' world' ∧ contract.Interferes world world' ∧
      contract'.Interferes (couple.get world) (couple.get world')
  innerEvent : ∀ {event phase phase' world inside}, condition (.inner (.event event)) world →
    invariant phase phase' world → couple.inner.occurs event (couple.get world) = some inside →
    invariant phase phase' (couple.put inside world) ∧
      contract.Interferes world (couple.put inside world) ∧
      contract'.Interferes (couple.get world) inside
  outerStep : ∀ {phase phase' world next world'}, invariant phase phase' world →
    contract.step (phase, world) (next, world') →
    invariant next phase' world' ∧ contract'.Interferes (couple.get world) (couple.get world')
  innerStep : ∀ {phase phase' world next inside}, invariant phase phase' world →
    contract'.step (phase', couple.get world) (next, inside) →
    invariant phase next (couple.put inside world) ∧
      contract.Interferes world (couple.put inside world)
  outerStart : ∀ {value phase phase' world}, invariant phase phase' world →
    post value phase world → ∃ next, invariant next phase' (couple.outer.begin world) ∧
      contract'.Interferes (couple.get world) (couple.get (couple.outer.begin world)) ∧
      Follows contract post couple.outer.body next (couple.outer.begin world)
  innerStart : ∀ {value phase phase' world}, invariant phase phase' world →
    post' value phase' (couple.get world) → ∃ next,
      invariant phase next (couple.put (couple.inner.begin (couple.get world)) world) ∧
      contract.Interferes world (couple.put (couple.inner.begin (couple.get world)) world) ∧
      Follows contract' post' couple.inner.body next (couple.inner.begin (couple.get world))

namespace Coupling

/-- Both programs follow their protocols, and the invariant holds. -/
structure Together (couple : Couple machine part α β) (contract : Contract machine Phase)
    (contract' : Contract part Phase') (post : α → Phase → machine.World → Prop)
    (post' : β → Phase' → part.World → Prop) (invariant : Phase → Phase' → machine.World → Prop)
    (phase : Phase) (phase' : Phase') (config : couple.Config) : Prop where
  invariant : invariant phase phase' config.world
  outer : Follows contract post config.outer phase config.world
  inner : Follows contract' post' config.inner phase' (couple.get config.world)

variable (h : Coupling couple contract contract' post post' condition invariant)
include h

/-- The inner program reckons with any number of steps of the outer one. -/
theorem outerSteps {phase next : Phase} {phase' : Phase'} {world world' : machine.World}
    (hinvariant : invariant phase phase' world)
    (hsteps : ReflTransGen contract.step (phase, world) (next, world')) :
    invariant next phase' world' ∧
      contract'.Interferes (couple.get world) (couple.get world') := by
  suffices hall : ∀ state, ReflTransGen contract.step (phase, world) state →
      invariant state.1 phase' state.2 ∧
        contract'.Interferes (couple.get world) (couple.get state.2) from hall _ hsteps
  intro state hreach
  induction hreach with
  | refl => exact ⟨hinvariant, .refl⟩
  | tail _ hstep ih =>
      obtain ⟨hafter, hrely⟩ := h.outerStep ih.1 hstep
      exact ⟨hafter, ih.2.trans hrely⟩

/-- The outer program reckons with any number of steps of the inner one. -/
theorem innerSteps {phase : Phase} {phase' next : Phase'} {world : machine.World}
    {inside : part.World} (hinvariant : invariant phase phase' world)
    (hsteps : ReflTransGen contract'.step (phase', couple.get world) (next, inside)) :
    invariant phase next (couple.put inside world) ∧
      contract.Interferes world (couple.put inside world) := by
  suffices hall : ∀ state, ReflTransGen contract'.step (phase', couple.get world) state →
      invariant phase state.1 (couple.put state.2 world) ∧
        contract.Interferes world (couple.put state.2 world) from hall _ hsteps
  intro state hreach
  induction hreach with
  | refl =>
      rw [couple.put_get]
      exact ⟨hinvariant, .refl⟩
  | @tail middle final _ hstep ih =>
      have hmiddle : contract'.step (middle.1, couple.get (couple.put middle.2 world)) final := by
        rw [couple.get_put]
        exact hstep
      obtain ⟨hafter, hrely⟩ := h.innerStep ih.1 hmiddle
      rw [couple.put_put] at hafter hrely
      exact ⟨hafter, ih.2.trans hrely⟩

/-- An entry of the outer program keeps both in step. -/
theorem step_outer {label : couple.outer.Label} {phase : Phase} {phase' : Phase'}
    {config config' : couple.Config}
    (htogether : Together couple contract contract' post post' invariant phase phase' config)
    (hcondition : condition (.outer label) config.world)
    (hinto : couple.step (.outer label) config = some config') :
    ∃ next, Together couple contract contract' post post' invariant next phase' config' := by
  obtain ⟨outer, inner, world⟩ := config
  obtain ⟨hinvariant, houter, hinner⟩ := htogether
  obtain ⟨⟨program, after⟩, hstep, rfl⟩ := Option.map_eq_some_iff.1 hinto
  cases label with
  | event event =>
      simp only [Rounds.step, Option.map_eq_some_iff, Prod.mk.injEq] at hstep
      obtain ⟨_, hoccurs, rfl, rfl⟩ := hstep
      obtain ⟨hafter, hrely, hrely'⟩ := h.outerEvent hcondition hinvariant hoccurs
      exact ⟨phase, hafter, houter.interferes hrely, hinner.interferes hrely'⟩
  | start =>
      cases outer with
      | request command next => simp [Rounds.step] at hstep
      | done value =>
          simp only [Rounds.step, Option.some.injEq, Prod.mk.injEq] at hstep
          obtain ⟨rfl, rfl⟩ := hstep
          obtain ⟨next, hafter, hrely, hbody⟩ := h.outerStart hinvariant (houter world .refl)
          exact ⟨next, hafter, hbody, hinner.interferes hrely⟩
  | answer outcome =>
      cases outer with
      | done value => simp [Rounds.step] at hstep
      | request command next =>
          simp only [Rounds.step, Option.map_eq_some_iff, Prod.mk.injEq] at hstep
          obtain ⟨⟨reply, _⟩, hanswer, rfl, rfl⟩ := hstep
          obtain ⟨phase', hsteps, hnext⟩ :=
            houter world .refl outcome reply _ (h.allowed _ _ _) hanswer
          obtain ⟨hafter, hrely⟩ := h.outerSteps hinvariant hsteps
          exact ⟨phase', hafter, hnext, hinner.interferes hrely⟩

/-- So does an entry of the inner program. -/
theorem step_inner {label : couple.inner.Label} {phase : Phase} {phase' : Phase'}
    {config config' : couple.Config}
    (htogether : Together couple contract contract' post post' invariant phase phase' config)
    (hcondition : condition (.inner label) config.world)
    (hinto : couple.step (.inner label) config = some config') :
    ∃ next, Together couple contract contract' post post' invariant phase next config' := by
  obtain ⟨outer, inner, world⟩ := config
  obtain ⟨hinvariant, houter, hinner⟩ := htogether
  obtain ⟨⟨program, after⟩, hstep, rfl⟩ := Option.map_eq_some_iff.1 hinto
  dsimp only at hinvariant houter hinner
  -- The inner world is what was put there.
  have hget : ∀ {next : Phase'}, Follows contract' post' program next after →
      Follows contract' post' program next (couple.get (couple.put after world)) := by
    intro next hfollows
    rw [couple.get_put]
    exact hfollows
  cases label with
  | event event =>
      simp only [Rounds.step, Option.map_eq_some_iff, Prod.mk.injEq] at hstep
      obtain ⟨_, hoccurs, rfl, rfl⟩ := hstep
      obtain ⟨hafter, hrely, hrely'⟩ := h.innerEvent hcondition hinvariant hoccurs
      exact ⟨phase', hafter, houter.interferes hrely, hget (hinner.interferes hrely')⟩
  | start =>
      cases inner with
      | request command next => simp [Rounds.step] at hstep
      | done value =>
          simp only [Rounds.step, Option.some.injEq, Prod.mk.injEq] at hstep
          obtain ⟨rfl, rfl⟩ := hstep
          obtain ⟨next, hafter, hrely, hbody⟩ := h.innerStart hinvariant (hinner _ .refl)
          exact ⟨next, hafter, houter.interferes hrely, hget hbody⟩
  | answer outcome =>
      cases inner with
      | done value => simp [Rounds.step] at hstep
      | request command next =>
          simp only [Rounds.step, Option.map_eq_some_iff, Prod.mk.injEq] at hstep
          obtain ⟨⟨reply, _⟩, hanswer, rfl, rfl⟩ := hstep
          obtain ⟨final, hsteps, hnext⟩ :=
            hinner _ .refl outcome reply _ (h.allowed' _ _ _) hanswer
          obtain ⟨hafter, hrely⟩ := h.innerSteps hinvariant hsteps
          exact ⟨final, hafter, houter.interferes hrely, hget hnext⟩

/-- Both programs follow their protocols in every run. -/
theorem run_follows {labels : List couple.Label} {phase : Phase} {phase' : Phase'}
    {config config' : couple.Config}
    (htogether : Together couple contract contract' post post' invariant phase phase' config)
    (hadmits : couple.Admits condition labels config)
    (hrun : couple.run labels config = some config') :
    ∃ final final',
      Together couple contract contract' post post' invariant final final' config' := by
  induction labels generalizing config phase phase' with
  | nil =>
      rw [← Option.some.inj hrun]
      exact ⟨phase, phase', htogether⟩
  | cons label labels ih =>
      obtain ⟨middle, hstep, hrest⟩ := Option.bind_eq_some_iff.1 hrun
      have hadmitsRest := hadmits.2 middle hstep
      cases label with
      | outer label =>
          obtain ⟨next, hmiddle⟩ := h.step_outer htogether hadmits.1 hstep
          exact ih hmiddle hadmitsRest hrest
      | inner label =>
          obtain ⟨next, hmiddle⟩ := h.step_inner htogether hadmits.1 hstep
          exact ih hmiddle hadmitsRest hrest

end Coupling

end Coupling

end Interaction
