import Barn.Interaction.Program

/-!
# Traces of programs

`Performs program trace value` says that the program can make the requests of the trace, get the
replies there, and return the value. Nothing is assumed about what answers the requests.
-/

namespace Interaction

variable {sig : Signature} {α β : Type}

/-- A request with the reply to it. -/
abbrev Exchange (sig : Signature) := (command : sig.Request) × sig.Reply command

/-- The program exchanges these requests and replies and returns this value. -/
inductive Performs : Program sig α → List (Exchange sig) → α → Prop where
  | done (value) : Performs (.done value) [] value
  | request {command next reply trace value} :
      Performs (next reply) trace value →
      Performs (.request command next) (⟨command, reply⟩ :: trace) value

/-- A finished program exchanges nothing. -/
@[simp] theorem performs_done_iff {value result : α} {trace : List (Exchange sig)} :
    Performs (.done value) trace result ↔ trace = [] ∧ result = value := by
  constructor
  · intro h
    cases h
    exact ⟨rfl, rfl⟩
  · rintro ⟨rfl, rfl⟩
    exact .done _

/-- So does a choice between two finished programs. -/
theorem performs_ite_pure_iff {condition : Prop} [Decidable condition] {first second result : α}
    {trace : List (Exchange sig)} :
    Performs (if condition then pure first else pure second) trace result ↔
      trace = [] ∧ result = if condition then first else second := by
  by_cases hcondition : condition
  · rw [if_pos hcondition, if_pos hcondition]
    exact performs_done_iff
  · rw [if_neg hcondition, if_neg hcondition]
    exact performs_done_iff

/-- A pending program gets some reply to its request and goes on with it. -/
theorem performs_request_iff {command : sig.Request} {next : sig.Reply command → Program sig α}
    {trace : List (Exchange sig)} {value : α} :
    Performs (.request command next) trace value ↔
      ∃ reply rest, trace = ⟨command, reply⟩ :: rest ∧ Performs (next reply) rest value := by
  constructor
  · intro h
    cases h with
    | request hrest => exact ⟨_, _, rfl, hrest⟩
  · rintro ⟨reply, rest, rfl, hrest⟩
    exact .request hrest

/-- A sequence exchanges what its parts do, one after the other. -/
theorem performs_bind_iff {program : Program sig α} {rest : α → Program sig β}
    {trace : List (Exchange sig)} {result : β} :
    Performs (program >>= rest) trace result ↔
      ∃ first second value, trace = first ++ second ∧ Performs program first value ∧
        Performs (rest value) second result := by
  rw [Program.bind_eq]
  induction program generalizing trace with
  | done value =>
      constructor
      · intro h
        exact ⟨[], trace, value, rfl, .done _, h⟩
      · rintro ⟨first, second, value', rfl, hfirst, hrest⟩
        obtain ⟨rfl, rfl⟩ := performs_done_iff.1 hfirst
        exact hrest
  | request command next ih =>
      rw [Program.request_bind, performs_request_iff]
      constructor
      · rintro ⟨reply, later, rfl, hlater⟩
        obtain ⟨first, second, value, rfl, hfirst, hrest⟩ := (ih reply).1 hlater
        exact ⟨⟨command, reply⟩ :: first, second, value, rfl, .request hfirst, hrest⟩
      · rintro ⟨first, second, value, rfl, hfirst, hrest⟩
        obtain ⟨reply, later, rfl, hlater⟩ := performs_request_iff.1 hfirst
        exact ⟨reply, later ++ second, rfl, (ih reply).2 ⟨later, second, value, rfl, hlater, hrest⟩⟩

end Interaction
