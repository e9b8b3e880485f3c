import Barn.Interaction.Pool
import Barn.Interaction.Refinement

/-!
# Implementations of requests

`Program.implement` replaces every request of a program by a program over another signature. The
implementation of a request `Realizes` it if all replies that it gets leave the abstract world as it
is, except the last one, at which the request is answered. A program that follows a protocol then
follows it with its requests implemented, amid surroundings that may act between any two requests
of the implementations: `Follows.implement`.
-/

namespace Interaction

open Relation

variable {sig low : Signature} {α : Type}

/-- The program with all its requests implemented. -/
def Program.implement (impl : (command : sig.Request) → Program low (sig.Reply command)) :
    Program sig α → Program low α
  | .done value => .done value
  | .request command next => (impl command).bind fun reply => (next reply).implement impl

/-- A program obeys with its requests implemented if the implementations of the requests that it
may make obey, and return replies that it can count on. -/
theorem Program.Obeys.implement {d : Discipline sig} {d' : Discipline low}
    {impl : (command : sig.Request) → Program low (sig.Reply command)} {program : Program sig α}
    {post : α → Prop} (h : program.Obeys d post)
    (himpl : ∀ command, d.may command → (impl command).Obeys d' (d.permits command)) :
    (program.implement impl).Obeys d' post := by
  induction program with
  | done value => exact h
  | request command next ih =>
      exact (himpl command h.1).bind fun reply hreply => ih reply (h.2 reply hreply)

variable {machine : Machine sig} {machine' : Machine low}

/-- What is left of a round obeys if the rounds do and the machine gives the replies that are
counted on. -/
theorem Rounds.obeys_step {rounds : Rounds machine α} {d : Discipline sig}
    (hbody : rounds.body.Obeys d fun _ => True)
    (hpermits : ∀ command outcome world reply after, d.may command →
      machine.answer command outcome world = some (reply, after) → d.permits command reply)
    {label : rounds.Label} {config config' : rounds.Config}
    (h : config.1.Obeys d fun _ => True) (hstep : rounds.step label config = some config') :
    config'.1.Obeys d fun _ => True := by
  obtain ⟨program, world⟩ := config
  cases label with
  | event event =>
      obtain ⟨after, _, rfl⟩ := Option.map_eq_some_iff.1 hstep
      exact h
  | start =>
      cases program with
      | request command next => simp [Rounds.step] at hstep
      | done value =>
          rw [← Option.some.inj hstep]
          exact hbody
  | answer outcome =>
      cases program with
      | done value => simp [Rounds.step] at hstep
      | request command next =>
          obtain ⟨⟨reply, after⟩, hanswer, rfl⟩ := Option.map_eq_some_iff.1 hstep
          exact h.2 reply (hpermits command outcome world reply after h.1 hanswer)

/-- As long as the abstract world is as it should be, what is left of the implementation of a
request changes nothing there until its last reply, and answers the request with that. It may also
answer without making a request, if that changes nothing. -/
def Program.Realizes (abs : machine'.World → machine.World) (inv : machine.World → Prop)
    (command : sig.Request) : Program low (sig.Reply command) → Prop
  | .done value => ∀ world, inv (abs world) →
      ∃ outcome, machine.answer command outcome (abs world) = some (value, abs world)
  | .request asked next => ∀ world, inv (abs world) → ∀ outcome reply after,
      machine'.answer asked outcome world = some (reply, after) →
        (abs after = abs world ∧ (next reply).Realizes abs inv command) ∨
          ∃ value outcome', next reply = .done value ∧
            machine.answer command outcome' (abs world) = some (value, abs after)

variable {Phase : Type} {contract : Contract machine Phase}
  {abs : machine'.World → machine.World} {rely : machine'.World → machine'.World → Prop}

/-- The contract for an implementation: a request takes any number of steps of the protocol. -/
abbrev Contract.below (contract : Contract machine Phase) (abs : machine'.World → machine.World)
    (rely : machine'.World → machine'.World → Prop) : Contract machine' Phase where
  rely := rely
  allowed := fun _ _ _ => True
  step := fun state state' =>
    ReflTransGen contract.step (state.1, abs state.2) (state'.1, abs state'.2)

/-- The surroundings act on the abstract world too. -/
theorem Contract.interferes_below
    (hrely : ∀ world world', rely world world' → contract.Interferes (abs world) (abs world'))
    {world world' : machine'.World} (h : (contract.below abs rely).Interferes world world') :
    contract.Interferes (abs world) (abs world') := by
  induction h with
  | refl => exact .refl
  | tail _ hstep ih => exact ih.trans (hrely _ _ hstep)

namespace Follows

variable [Subsingleton Phase] {inv : machine.World → Prop}
  (hrely : ∀ world world', rely world world' → contract.Interferes (abs world) (abs world'))
  (hinv : contract.Stable inv)
include hrely hinv

/-- What holds after every answer to a request holds after a program that realizes it. -/
theorem realized {command : sig.Request} {program : Program low (sig.Reply command)}
    (post : sig.Reply command → Phase → machine.World → Prop) {phase : Phase}
    {world : machine'.World} (hprogram : program.Realizes abs inv command)
    (hworld : inv (abs world))
    (hpost : ∀ middle, contract.Interferes (abs world) middle → inv middle →
      ∀ outcome reply after, machine.answer command outcome middle = some (reply, after) →
        ∃ phase', ReflTransGen contract.step (phase, middle) (phase', after) ∧
          ∀ final, contract.Interferes after final → post reply phase' final) :
    Follows (contract.below abs rely) (fun reply phase world => post reply phase (abs world))
      program phase world := by
  induction program generalizing world with
  | done value =>
      intro final hfinal
      have hreach := Contract.interferes_below hrely hfinal
      have hinvariant := hinv.interferes hworld hreach
      obtain ⟨outcome, hanswer⟩ := hprogram final hinvariant
      obtain ⟨phase', _, hholds⟩ := hpost _ hreach hinvariant _ _ _ hanswer
      rw [Subsingleton.elim phase phase']
      exact hholds _ .refl
  | request asked next ih =>
      intro middle hmiddle outcome reply after _ hanswer
      have hreach := Contract.interferes_below hrely hmiddle
      have hinvariant := hinv.interferes hworld hreach
      rcases hprogram middle hinvariant outcome reply after hanswer with ⟨hsame, hnext⟩ |
          ⟨value, outcome', hdone, hanswer'⟩
      · refine ⟨phase, .single ?_, ih reply hnext (hsame ▸ hinvariant) ?_⟩
        · show ReflTransGen contract.step (phase, abs middle) (phase, abs after)
          rw [hsame]
        · intro later hlater
          rw [hsame] at hlater
          exact hpost later (hreach.trans hlater)
      · obtain ⟨phase', hsteps, hholds⟩ := hpost _ hreach hinvariant _ _ _ hanswer'
        refine ⟨phase', .single hsteps, ?_⟩
        rw [hdone]
        exact fun final hfinal => hholds _ (Contract.interferes_below hrely hfinal)

/-- A program that obeys a discipline follows its protocol with its requests implemented, if the
requests of the discipline are realized. -/
theorem implement {d : Discipline sig}
    (hallowed : ∀ command outcome world, contract.allowed command outcome world)
    {impl : (command : sig.Request) → Program low (sig.Reply command)}
    (himpl : ∀ command, d.may command → (impl command).Realizes abs inv command)
    (hanswer : ∀ command outcome world reply after, d.may command → inv world →
      machine.answer command outcome world = some (reply, after) →
        d.permits command reply ∧ inv after)
    {program : Program sig α} {post : α → Phase → machine.World → Prop} {obeyed : α → Prop}
    {phase : Phase} {world : machine'.World} (hobeys : program.Obeys d obeyed)
    (hworld : inv (abs world)) (h : Follows contract post program phase (abs world)) :
    Follows (contract.below abs rely) (fun value phase world => post value phase (abs world))
      (program.implement impl) phase world := by
  induction program generalizing phase world with
  | done value => exact fun final hfinal => h _ (Contract.interferes_below hrely hfinal)
  | request command next ih =>
      refine (realized hrely hinv (fun reply phase world =>
        Follows contract post (next reply) phase world ∧ d.permits command reply ∧ inv world)
        (himpl command hobeys.1) hworld ?_).bind fun reply phase world hreply => ?_
      · intro middle hreach hinvariant outcome reply after hanswered
        obtain ⟨hpermits, hafter⟩ := hanswer _ _ _ _ _ hobeys.1 hinvariant hanswered
        obtain ⟨phase', hsteps, hnext⟩ := h middle hreach _ _ _ (hallowed _ _ _) hanswered
        exact ⟨phase', hsteps, fun final hfinal =>
          ⟨hnext.interferes hfinal, hpermits, hinv.interferes hafter hfinal⟩⟩
      · exact ih reply (hobeys.2 reply hreply.2.1) hreply.2.2 hreply.1

end Follows

end Interaction
