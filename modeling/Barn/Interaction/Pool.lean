import Barn.Interaction.Trace
import Mathlib.Data.Fintype.Defs
import Mathlib.Logic.Function.Basic

/-!
# Pools of threads

`Threads` runs any number of programs side by side, one request of one thread at a time, and starts
them all again when they are done. A `Discipline` says which requests may be made and which replies
can then be counted on; a program `Obeys` it if it keeps to these requests as long as it gets these
replies. One thread is observed during a part of its program, a call, in a `callRun`; the main
result is `Observed.run`.
-/

namespace Interaction

variable {sig : Signature} {α β γ : Type}

/-- Requests that may be made and the replies that are given to them. -/
structure Discipline (sig : Signature) where
  may : sig.Request → Prop
  permits : (command : sig.Request) → sig.Reply command → Prop

namespace Program

variable {d : Discipline sig} {program : Program sig α} {post post' : α → Prop}

/-- As long as it gets the replies of the discipline, the program makes only requests of the
discipline, and a value it returns satisfies `post`. -/
def Obeys (d : Discipline sig) (post : α → Prop) : Program sig α → Prop
  | .done value => post value
  | .request command next =>
      d.may command ∧ ∀ reply, d.permits command reply → (next reply).Obeys d post

/-- The postcondition can be weakened. -/
theorem Obeys.mono (h : program.Obeys d post) (himp : ∀ value, post value → post' value) :
    program.Obeys d post' := by
  induction program with
  | done value => exact himp value h
  | request command next ih => exact ⟨h.1, fun reply hreply => ih reply (h.2 reply hreply)⟩

/-- A sequence obeys if its parts do. -/
theorem Obeys.bind {rest : α → Program sig β} {final : β → Prop} (h : program.Obeys d post)
    (hrest : ∀ value, post value → (rest value).Obeys d final) :
    (program.bind rest).Obeys d final := by
  induction program with
  | done value => exact hrest value h
  | request command next ih => exact ⟨h.1, fun reply hreply => ih reply (h.2 reply hreply)⟩

/-- A program that makes no other requests whatever the replies obeys. -/
theorem Asks.obeys (h : program.Asks d.may) : program.Obeys d fun _ => True := by
  induction program with
  | done value => trivial
  | request command next ih => exact ⟨h.1, fun reply _ => ih reply (h.2 reply)⟩

/-- What the program has returned, if it has. -/
def returned : Program sig α → Option α
  | .done value => some value
  | .request _ _ => none

end Program

/-- Programs that are started together again and again, amid events of their surroundings. -/
structure Threads (machine : Machine sig) (ι α : Type) where
  Event : Type
  occurs : Event → machine.World → Option machine.World
  begin : machine.World → machine.World
  body : ι → Program sig α

namespace Threads

variable {machine : Machine sig} {ι : Type} [DecidableEq ι] (threads : Threads machine ι α)

/-- One entry of an interleaved run: an event, the start of all threads, or an answer to the request
of one. -/
inductive Label (threads : Threads machine ι α) where
  | event (event : threads.Event)
  | start
  | answer (thread : ι) (outcome : machine.Outcome)

/-- The entry is no event but one of these. -/
def Label.Within {threads : Threads machine ι α} (events : threads.Event → Prop) :
    threads.Label → Prop
  | .event happened => events happened
  | .start | .answer _ _ => True

/-- What is left of every thread, the world, and the requests made so far with the replies. -/
structure Config (threads : Threads machine ι α) where
  pool : ι → Program sig α
  world : machine.World
  log : List (ι × Exchange sig)

/-- Answer the next request of a program, if it has one and the outcome is possible. -/
def advance (outcome : machine.Outcome) (world : machine.World) :
    Program sig β → Option (Exchange sig × Program sig β × machine.World)
  | .done _ => none
  | .request command next =>
      (machine.answer command outcome world).map fun answered =>
        (⟨command, answered.1⟩, next answered.1, answered.2)

/-- A thread gets an answer. -/
def answerThread (thread : ι) (outcome : machine.Outcome) (config : threads.Config) :
    Option threads.Config :=
  (advance outcome config.world (config.pool thread)).map fun next =>
    ⟨Function.update config.pool thread next.2.1, next.2.2, config.log ++ [(thread, next.1)]⟩

/-- Perform one entry of a run, if it can happen here. -/
def step [Fintype ι] : threads.Label → threads.Config → Option threads.Config
  | .event event, config =>
      (threads.occurs event config.world).map fun world => { config with world := world }
  | .start, config =>
      if ∀ thread, (config.pool thread).returned.isSome then
        some { config with pool := threads.body, world := threads.begin config.world }
      else none
  | .answer thread outcome, config => threads.answerThread thread outcome config

/-- Perform the entries of a run in order. -/
def run [Fintype ι] : List threads.Label → threads.Config → Option threads.Config
  | [], config => some config
  | label :: labels, config => (threads.step label config).bind (run labels)

/-- What is left of the call of one thread, and everything else. -/
abbrev CallState (threads : Threads machine ι α) (β : Type) := Program sig β × threads.Config

/-- The call gets an answer. -/
def answerCall (thread : ι) (outcome : machine.Outcome) (state : threads.CallState β) :
    Option (threads.CallState β) :=
  (advance outcome state.2.world state.1).map fun next =>
    (next.2.1, { state.2 with world := next.2.2, log := state.2.log ++ [(thread, next.1)] })

/-- One entry of a run during a call of a thread. -/
def callStep (thread : ι) :
    threads.Label → threads.CallState β → Option (threads.CallState β)
  | .event event, (call, config) =>
      (threads.occurs event config.world).map fun world => (call, { config with world := world })
  | .start, _ => none
  | .answer other outcome, (call, config) =>
      if other = thread then threads.answerCall thread outcome (call, config)
      else (threads.answerThread other outcome config).map (call, ·)

/-- Perform the entries of a run during the call. -/
def callRun (thread : ι) :
    List threads.Label → threads.CallState β → Option (threads.CallState β)
  | [], state => some state
  | label :: labels, state => (threads.callStep thread label state).bind (callRun thread labels)

variable {threads} {config config' : threads.Config} {state state' : threads.CallState β}
  {world world' : machine.World} {thread : ι} {outcome : machine.Outcome}
  {label : threads.Label} {labels : List threads.Label}

/-- A program is advanced by an answer to its request. -/
theorem advance_eq_some {program program' : Program sig β} {exchange : Exchange sig} :
    advance outcome world program = some (exchange, program', world') ↔
      ∃ command next reply, program = .request command next ∧ exchange = ⟨command, reply⟩ ∧
        program' = next reply ∧ machine.answer command outcome world = some (reply, world') := by
  cases program with
  | done value => simp [advance]
  | request command next =>
      rw [advance, Option.map_eq_some_iff]
      constructor
      · rintro ⟨⟨reply, after⟩, hanswer, hparts⟩
        obtain ⟨hexchange, hrest⟩ := Prod.mk.inj hparts
        obtain ⟨rfl, rfl⟩ := Prod.mk.inj hrest
        subst hexchange
        exact ⟨command, next, reply, rfl, rfl, rfl, hanswer⟩
      · rintro ⟨_, _, reply, hprogram, rfl, rfl, hanswer⟩
        cases hprogram
        exact ⟨(reply, world'), hanswer, rfl⟩

/-- A thread that gets an answer goes on with the reply. -/
theorem answerThread_eq_some (h : threads.answerThread thread outcome config = some config') :
    ∃ command next reply after, config.pool thread = .request command next ∧
      machine.answer command outcome config.world = some (reply, after) ∧
      config' = ⟨Function.update config.pool thread (next reply), after,
        config.log ++ [(thread, ⟨command, reply⟩)]⟩ := by
  obtain ⟨⟨exchange, program, after⟩, hadvance, rfl⟩ := Option.map_eq_some_iff.1 h
  obtain ⟨command, next, reply, hprogram, rfl, rfl, hanswer⟩ := advance_eq_some.1 hadvance
  exact ⟨command, next, reply, after, hprogram, hanswer, rfl⟩

omit [DecidableEq ι] in
/-- So does a call. -/
theorem answerCall_eq_some (h : threads.answerCall thread outcome state = some state') :
    ∃ command next reply after, state.1 = .request command next ∧
      machine.answer command outcome state.2.world = some (reply, after) ∧
      state' = (next reply, ⟨state.2.pool, after,
        state.2.log ++ [(thread, ⟨command, reply⟩)]⟩) := by
  obtain ⟨⟨exchange, program, after⟩, hadvance, rfl⟩ := Option.map_eq_some_iff.1 h
  obtain ⟨command, next, reply, hprogram, rfl, rfl, hanswer⟩ := advance_eq_some.1 hadvance
  exact ⟨command, next, reply, after, hprogram, hanswer, rfl⟩

/-- What was logged remains in the log. -/
theorem log_prefix_callStep (h : threads.callStep thread label state = some state') :
    state.2.log <+: state'.2.log := by
  obtain ⟨call, config⟩ := state
  cases label with
  | event event =>
      obtain ⟨after, _, rfl⟩ := Option.map_eq_some_iff.1 h
      exact List.prefix_rfl
  | start => simp [callStep] at h
  | answer other outcome =>
      rw [callStep] at h
      split at h
      · obtain ⟨_, _, _, _, _, _, rfl⟩ := answerCall_eq_some h
        exact List.prefix_append _ _
      · obtain ⟨config', hconfig, rfl⟩ := Option.map_eq_some_iff.1 h
        obtain ⟨_, _, _, _, _, _, rfl⟩ := answerThread_eq_some hconfig
        exact List.prefix_append _ _

/-- So it does during a whole call. -/
theorem log_prefix_callRun (h : threads.callRun thread labels state = some state') :
    state.2.log <+: state'.2.log := by
  induction labels generalizing state with
  | nil => exact Option.some.inj h ▸ List.prefix_rfl
  | cons label labels ih =>
      obtain ⟨middle, hstep, hrest⟩ := Option.bind_eq_some_iff.1 h
      exact (log_prefix_callStep hstep).trans (ih hrest)

/-- A run of two parts is the first part followed by the second. -/
theorem callRun_append (first second : List threads.Label) (state : threads.CallState β) :
    threads.callRun thread (first ++ second) state =
      (threads.callRun thread first state).bind (threads.callRun thread second) := by
  induction first generalizing state with
  | nil => rfl
  | cons label labels ih =>
      simp only [List.cons_append, callRun]
      cases threads.callStep thread label state with
      | none => rfl
      | some middle => exact ih middle

/-- So is a run of all threads. -/
theorem run_append [Fintype ι] (first second : List threads.Label) (config : threads.Config) :
    threads.run (first ++ second) config =
      (threads.run first config).bind (threads.run second) := by
  induction first generalizing config with
  | nil => rfl
  | cons label labels ih =>
      simp only [List.cons_append, run]
      cases threads.step label config with
      | none => rfl
      | some middle => exact ih middle

section Resume

variable {rest : β → Program sig α}

/-- The threads, where the one with the call goes on with `rest` after it. -/
def resume (thread : ι) (rest : β → Program sig α) (state : threads.CallState β) :
    threads.Config :=
  { state.2 with pool := Function.update state.2.pool thread (state.1.bind rest) }

/-- A thread that begins with the call is one that goes on after it. -/
theorem resume_eq_self {call : Program sig β} (h : config.pool thread = call.bind rest) :
    resume thread rest (call, config) = config := by
  rw [resume, ← h, Function.update_eq_self]

/-- A thread that has done a call goes on with the next one. -/
theorem resume_done {value : β} {call : Program sig γ} {next : γ → Program sig α}
    (h : rest value = call.bind next) :
    resume thread rest (.done value, config) = resume thread next (call, config) := by
  rw [resume, resume, Program.bind, h]

/-- An entry of a run during the call is an entry of a run of the threads. -/
theorem step_resume [Fintype ι] (h : threads.callStep thread label state = some state') :
    threads.step label (resume thread rest state) = some (resume thread rest state') := by
  obtain ⟨call, config⟩ := state
  cases label with
  | event event =>
      obtain ⟨after, hoccurs, rfl⟩ := Option.map_eq_some_iff.1 h
      rw [step, resume, hoccurs]
      rfl
  | start => simp [callStep] at h
  | answer other outcome =>
      rw [callStep] at h
      rw [step, answerThread, Option.map_eq_some_iff]
      split at h
      · next heq =>
          subst heq
          obtain ⟨command, next, reply, after, rfl, hanswer, rfl⟩ := answerCall_eq_some h
          refine ⟨(_, (next reply).bind rest, after), advance_eq_some.2
            ⟨command, fun reply => (next reply).bind rest, reply, ?_, rfl, rfl, hanswer⟩, ?_⟩
          · exact Function.update_self _ _ _
          · simp only [resume, Function.update_idem]
      · next hother =>
          obtain ⟨config', hconfig, rfl⟩ := Option.map_eq_some_iff.1 h
          obtain ⟨command, next, reply, after, hprogram, hanswer, rfl⟩ :=
            answerThread_eq_some hconfig
          refine ⟨(_, next reply, after), advance_eq_some.2
            ⟨command, next, reply, ?_, rfl, rfl, hanswer⟩, ?_⟩
          · exact (Function.update_of_ne hother _ _).trans hprogram
          · simp only [resume, Function.update_comm hother]

/-- A run during the call is a run of the threads. -/
theorem run_resume [Fintype ι] (h : threads.callRun thread labels state = some state') :
    threads.run labels (resume thread rest state) = some (resume thread rest state') := by
  induction labels generalizing state with
  | nil =>
      rw [← Option.some.inj h]
      rfl
  | cons label labels ih =>
      obtain ⟨middle, hstep, hrest⟩ := Option.bind_eq_some_iff.1 h
      rw [run, step_resume hstep]
      exact ih hrest

end Resume

section Observed

variable {events : threads.Event → Prop} {d : ι → Discipline sig}
  {invariant : machine.World → Prop} {condition : ι → Exchange sig → Prop} {post : β → Prop}

/-- These events keep the invariant; requests of the disciplines, with replies that meet a
condition, keep it and get the replies that are counted on. -/
structure Keeps (threads : Threads machine ι α) (events : threads.Event → Prop)
    (d : ι → Discipline sig) (invariant : machine.World → Prop)
    (condition : ι → Exchange sig → Prop) : Prop where
  event : ∀ event world world', events event → threads.occurs event world = some world' →
    invariant world → invariant world'
  answer : ∀ thread command outcome world reply world', (d thread).may command →
    condition thread ⟨command, reply⟩ →
    machine.answer command outcome world = some (reply, world') → invariant world →
    invariant world' ∧ (d thread).permits command reply

/-- During a call the invariant holds and all threads obey. -/
structure Observed (d : ι → Discipline sig) (invariant : machine.World → Prop) (thread : ι)
    (post : β → Prop) (state : threads.CallState β) : Prop where
  world : invariant state.2.world
  others : ∀ other, other ≠ thread → (state.2.pool other).Obeys (d other) fun _ => True
  call : state.1.Obeys (d thread) post

/-- One entry of a run during the call keeps this. -/
theorem Observed.step (hkeeps : Keeps threads events d invariant condition)
    (h : Observed d invariant thread post state) (hevent : label.Within events)
    (hstep : threads.callStep thread label state = some state') {new : List (ι × Exchange sig)}
    (hlog : state'.2.log = state.2.log ++ new)
    (hcondition : ∀ entry ∈ new, condition entry.1 entry.2) :
    Observed d invariant thread post state' := by
  obtain ⟨call, config⟩ := state
  cases label with
  | event event =>
      obtain ⟨after, hoccurs, rfl⟩ := Option.map_eq_some_iff.1 hstep
      exact ⟨hkeeps.event event _ _ hevent hoccurs h.world, h.others, h.call⟩
  | start => simp [callStep] at hstep
  | answer other outcome =>
      rw [callStep] at hstep
      split at hstep
      · next heq =>
          obtain ⟨command, next, reply, after, rfl, hanswer, rfl⟩ := answerCall_eq_some hstep
          obtain rfl := List.append_cancel_left hlog
          obtain ⟨hafter, hpermits⟩ := hkeeps.answer thread command outcome _ reply after h.call.1
            (hcondition _ List.mem_cons_self) hanswer h.world
          exact ⟨hafter, h.others, h.call.2 reply hpermits⟩
      · next hother =>
          obtain ⟨config', hconfig, rfl⟩ := Option.map_eq_some_iff.1 hstep
          obtain ⟨command, next, reply, after, hprogram, hanswer, rfl⟩ :=
            answerThread_eq_some hconfig
          obtain rfl := List.append_cancel_left hlog
          have hobeys := h.others other hother
          dsimp only at hobeys
          rw [hprogram] at hobeys
          obtain ⟨hafter, hpermits⟩ := hkeeps.answer other command outcome _ reply after hobeys.1
            (hcondition _ List.mem_cons_self) hanswer h.world
          refine ⟨hafter, fun third hthird => ?_, h.call⟩
          by_cases heq : third = other
          · rw [heq]
            dsimp only
            rw [Function.update_self]
            exact hobeys.2 reply hpermits
          · dsimp only
            rw [Function.update_of_ne heq]
            exact h.others third hthird

/-- So does the whole run, if the condition is met by what was logged during it. -/
theorem Observed.run (hkeeps : Keeps threads events d invariant condition)
    (h : Observed d invariant thread post state)
    (hevents : ∀ label ∈ labels, label.Within events)
    (hrun : threads.callRun thread labels state = some state') {new : List (ι × Exchange sig)}
    (hlog : state'.2.log = state.2.log ++ new)
    (hcondition : ∀ entry ∈ new, condition entry.1 entry.2) :
    Observed d invariant thread post state' := by
  induction labels generalizing state new with
  | nil =>
      rw [← Option.some.inj hrun]
      exact h
  | cons label labels ih =>
      obtain ⟨middle, hstep, hrest⟩ := Option.bind_eq_some_iff.1 hrun
      obtain ⟨first, hfirst⟩ := log_prefix_callStep hstep
      obtain ⟨second, hsecond⟩ := log_prefix_callRun hrest
      have hnew : new = first ++ second := by
        rw [← hsecond, ← hfirst, List.append_assoc] at hlog
        exact (List.append_cancel_left hlog).symm
      subst hnew
      obtain ⟨hevent, hlater⟩ := List.forall_mem_cons.1 hevents
      refine ih (h.step hkeeps hevent hstep hfirst.symm fun entry hentry => ?_) hlater hrest
        hsecond.symm fun entry hentry => hcondition entry (List.mem_append_right _ hentry)
      exact hcondition entry (List.mem_append_left _ hentry)

/-- So it does if the condition is met by everything that was logged. -/
theorem Observed.run_of_log (hkeeps : Keeps threads events d invariant condition)
    (h : Observed d invariant thread post state)
    (hevents : ∀ label ∈ labels, label.Within events)
    (hrun : threads.callRun thread labels state = some state')
    (hcondition : ∀ entry ∈ state'.2.log, condition entry.1 entry.2) :
    Observed d invariant thread post state' := by
  obtain ⟨new, hnew⟩ := log_prefix_callRun hrun
  refine h.run hkeeps hevents hrun hnew.symm fun entry hentry => hcondition entry ?_
  rw [← hnew]
  exact List.mem_append_right _ hentry

end Observed

section Everyone

variable [Fintype ι] {d : ι → Discipline sig} {invariant : machine.World → Prop}
  {condition : ι → Exchange sig → Prop}

/-- What was logged remains in the log of a run of all threads. -/
theorem log_prefix_step (h : threads.step label config = some config') :
    config.log <+: config'.log := by
  cases label with
  | event event =>
      obtain ⟨after, _, rfl⟩ := Option.map_eq_some_iff.1 h
      exact List.prefix_rfl
  | start =>
      rw [step] at h
      split at h
      · exact Option.some.inj h ▸ List.prefix_rfl
      · simp at h
  | answer thread outcome =>
      obtain ⟨_, _, _, _, _, _, rfl⟩ := answerThread_eq_some h
      exact List.prefix_append _ _

theorem log_prefix_run (h : threads.run labels config = some config') :
    config.log <+: config'.log := by
  induction labels generalizing config with
  | nil => exact Option.some.inj h ▸ List.prefix_rfl
  | cons label labels ih =>
      obtain ⟨middle, hstep, hrest⟩ := Option.bind_eq_some_iff.1 h
      exact (log_prefix_step hstep).trans (ih hrest)

omit [DecidableEq ι] [Fintype ι] in
variable (threads) in
/-- The disciplines hold for everybody, from one start to the next. -/
structure Disciplined (d : ι → Discipline sig) (invariant : machine.World → Prop)
    (condition : ι → Exchange sig → Prop) : Prop
    extends Keeps threads (fun _ => True) d invariant condition where
  begin : ∀ world, invariant world → invariant (threads.begin world)
  body : ∀ thread, (threads.body thread).Obeys (d thread) fun _ => True

/-- The invariant holds and all threads obey. -/
structure Everyone (d : ι → Discipline sig) (invariant : machine.World → Prop)
    (config : threads.Config) : Prop where
  world : invariant config.world
  threads : ∀ thread, (config.pool thread).Obeys (d thread) fun _ => True

/-- One entry of a run keeps this, and a request that is made is one that may be made. -/
theorem Everyone.step (hall : threads.Disciplined d invariant condition)
    (h : Everyone d invariant config) (hstep : threads.step label config = some config')
    {new : List (ι × Exchange sig)} (hlog : config'.log = config.log ++ new)
    (hcondition : ∀ entry ∈ new, condition entry.1 entry.2) :
    Everyone d invariant config' ∧ ∀ entry ∈ new, (d entry.1).may entry.2.1 := by
  have hnone : config'.log = config.log → ∀ entry ∈ new, (d entry.1).may entry.2.1 := by
    intro hsame entry hentry
    rw [hsame] at hlog
    rw [List.self_eq_append_right.1 hlog] at hentry
    exact absurd hentry List.not_mem_nil
  cases label with
  | event event =>
      obtain ⟨after, hoccurs, rfl⟩ := Option.map_eq_some_iff.1 hstep
      exact ⟨⟨hall.event event _ _ trivial hoccurs h.world, h.threads⟩, hnone rfl⟩
  | start =>
      rw [Threads.step] at hstep
      split at hstep
      · rw [← Option.some.inj hstep] at hnone ⊢
        exact ⟨⟨hall.begin _ h.world, hall.body⟩, hnone rfl⟩
      · simp at hstep
  | answer thread outcome =>
      obtain ⟨command, next, reply, after, hprogram, hanswer, rfl⟩ := answerThread_eq_some hstep
      obtain rfl := List.append_cancel_left hlog
      have hobeys := h.threads thread
      rw [hprogram] at hobeys
      obtain ⟨hafter, hpermits⟩ := hall.answer thread command outcome _ reply after hobeys.1
        (hcondition _ List.mem_cons_self) hanswer h.world
      refine ⟨⟨hafter, fun other => ?_⟩, fun entry hentry => ?_⟩
      · by_cases heq : other = thread
        · rw [heq]
          dsimp only
          rw [Function.update_self]
          exact hobeys.2 reply hpermits
        · dsimp only
          rw [Function.update_of_ne heq]
          exact h.threads other
      · rw [List.mem_singleton.1 hentry]
        exact hobeys.1

/-- So does a whole run, if the condition is met by what was logged during it. -/
theorem Everyone.run (hall : threads.Disciplined d invariant condition)
    (h : Everyone d invariant config) (hrun : threads.run labels config = some config')
    {new : List (ι × Exchange sig)} (hlog : config'.log = config.log ++ new)
    (hcondition : ∀ entry ∈ new, condition entry.1 entry.2) :
    Everyone d invariant config' ∧ ∀ entry ∈ new, (d entry.1).may entry.2.1 := by
  induction labels generalizing config new with
  | nil =>
      obtain rfl := Option.some.inj hrun
      rw [List.self_eq_append_right.1 hlog]
      exact ⟨h, fun entry hentry => absurd hentry List.not_mem_nil⟩
  | cons label labels ih =>
      obtain ⟨middle, hstep, hrest⟩ := Option.bind_eq_some_iff.1 hrun
      obtain ⟨first, hfirst⟩ := log_prefix_step hstep
      obtain ⟨second, hsecond⟩ := log_prefix_run hrest
      have hnew : new = first ++ second := by
        rw [← hsecond, ← hfirst, List.append_assoc] at hlog
        exact (List.append_cancel_left hlog).symm
      subst hnew
      obtain ⟨hmiddle, hmay⟩ := h.step hall hstep hfirst.symm
        fun entry hentry => hcondition entry (List.mem_append_left _ hentry)
      obtain ⟨hfinal, hmay'⟩ := ih hmiddle hrest hsecond.symm
        fun entry hentry => hcondition entry (List.mem_append_right _ hentry)
      exact ⟨hfinal, fun entry hentry =>
        (List.mem_append.1 hentry).elim (hmay entry) (hmay' entry)⟩

end Everyone

end Threads

end Interaction
