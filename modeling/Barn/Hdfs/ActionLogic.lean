import Barn.Hdfs.World
import Barn.Interaction.Refinement

/-!
# Rules for the actions of a round

`Triple contract pre action post`: started where `pre` holds of the phase and the world, the action
follows the protocol, and where it returns a value, `post` holds. There is one rule for each way of
building an action; the surroundings may interfere anywhere, so conditions have to be stable.
-/

namespace Barn.Hdfs

open Interaction Relation

variable {Phase : Type} {α β : Type}

/-- What an action does when it is started with a precondition. Failures satisfy every
postcondition. -/
def Triple (contract : Contract machine Phase) (pre : Phase → World → Prop) (action : Action α)
    (post : α → Phase → World → Prop) : Prop :=
  ∀ phase world, pre phase world → Follows contract
    (fun result after world' => ∀ value, result = .ok value → post value after world')
    action phase world

/-- Conditions that the surroundings cannot destroy in any phase. -/
def StableIn (contract : Contract machine Phase) (condition : Phase → World → Prop) : Prop :=
  ∀ phase, contract.Stable (condition phase)

namespace Triple

variable {contract : Contract machine Phase} {pre pre' : Phase → World → Prop}
  {post post' : α → Phase → World → Prop} {final : β → Phase → World → Prop}
  {action : Action α} {rest : α → Action β}

/-- The precondition can be strengthened. -/
theorem weaken (h : Triple contract pre action post)
    (hpre : ∀ phase world, pre' phase world → pre phase world) :
    Triple contract pre' action post :=
  fun phase world hworld => h phase world (hpre phase world hworld)

/-- The postcondition can be weakened. -/
theorem mono (h : Triple contract pre action post)
    (hpost : ∀ value phase world, post value phase world → post' value phase world) :
    Triple contract pre action post' := by
  intro phase world hworld
  refine (h phase world hworld).mono fun result after world' hresult value hvalue => ?_
  exact hpost _ _ _ (hresult value hvalue)

/-- A parameter of the precondition may be fixed. -/
theorem exists_ {ι : Type} {family : ι → Phase → World → Prop}
    (h : ∀ index, Triple contract (family index) action post) :
    Triple contract (fun phase world => ∃ index, family index phase world) action post :=
  fun phase world ⟨index, hworld⟩ => h index phase world hworld

/-- A computation without requests. -/
theorem attempt {result : Attempt α} (hstable : ∀ value, StableIn contract (post value))
    (h : ∀ value, result = .ok value → ∀ phase world, pre phase world → post value phase world) :
    Triple contract pre (Action.attempt result) post := by
  intro phase world hworld
  refine Follows.done ?_ (fun value hvalue => h value hvalue phase world hworld)
  intro world world' hvalue hrely value hresult
  exact hstable value phase _ _ (hvalue value hresult) hrely

/-- An action that fails satisfies every postcondition. -/
theorem failure {error : Failure} : Triple contract pre (Action.attempt (.error error)) post := by
  intro phase world hworld
  refine Follows.done ?_ (fun value h => by simp at h)
  intro world world' hvalue hrely value hresult
  simp at hresult

/-- Sequencing: what follows starts where the postcondition of the value holds. -/
theorem bind (h : Triple contract pre action post)
    (hrest : ∀ value, Triple contract (post value) (rest value) final) :
    Triple contract pre (action >>= rest) final := by
  intro phase world hworld
  refine (h phase world hworld).bind fun result after world' hresult => ?_
  cases result with
  | ok value => exact hrest value after world' (hresult value rfl)
  | error failure =>
      refine Follows.done ?_ (fun value h => by simp at h)
      intro first second hvalue hrely value hresult
      simp at hresult

/-- An exception that becomes a `Left` is still a failure. -/
theorem validate {jvm : Jvm} {detail : Text} (h : Triple contract pre action post)
    (hstable : ∀ value, StableIn contract (post value)) :
    Triple contract pre (Action.validate jvm detail action) post := by
  intro phase world hworld
  refine (h phase world hworld).bind fun result after world' hresult => ?_
  refine Follows.done ?_ ?_
  · intro first second hvalue hrely value hvalidated
    exact hstable value after _ _ (hvalue value hvalidated) hrely
  · intro value hvalidated
    cases result with
    | ok other => exact hresult value hvalidated
    | error failure => cases failure <;> simp [Hdfs.validate] at hvalidated

/-- One request: whatever its outcome, the protocol allows what it does to the world. -/
theorem request {command : Command} {result : signature.Reply command → Attempt α}
    (hpre : StableIn contract pre) (hpost : ∀ value, StableIn contract (post value))
    (h : ∀ phase world outcome reply after, pre phase world →
      contract.allowed command outcome world → answer command outcome world = some (reply, after) →
      ∃ next, ReflTransGen contract.step (phase, world) (next, after) ∧
        ∀ value, result reply = .ok value → post value next after) :
    Triple contract pre
      (Program.request command fun reply => Action.attempt (result reply)) post := by
  intro phase world hworld
  refine Follows.request (hpre phase) hworld
    fun middle hmiddle outcome reply after hallowed hanswer => ?_
  obtain ⟨next, hsteps, hresult⟩ := h phase middle outcome reply after hmiddle hallowed hanswer
  refine ⟨next, hsteps, Follows.done ?_ hresult⟩
  intro first second hvalue hrely value hok
  exact hpost value next _ _ (hvalue value hok) hrely

end Triple

end Barn.Hdfs
