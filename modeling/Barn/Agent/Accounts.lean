import Barn.Agent.Dispatch
import Barn.Agent.Monitor
import Barn.Interaction.Trace
import Barn.Platform.Java

/-!
# The accounts of a dispatch round

What a round attempts, reports and decides, read off its exchanges with its surroundings.
`dispatchNewLogs_accounts` compares the three for every reply that a round can get. The counters
of the source are `int`s, and from `2 ^ 32` candidates on a round can believe it has none:
`dispatchNewLogs_overflow`.
-/

namespace Barn.Agent

open Interaction

/-- How the attempt to ship a file ended: it is shipped, it vanished, or it is still there. -/
inductive ShipOutcome where
  | shipped
  | lost
  | stopped
  deriving DecidableEq

/-- An attempt to ship the file of a path. -/
abbrev Attempt := Text × ShipOutcome

/-- The outcome of a failed ship, by whether the file still exists. -/
def failedOutcome (present : Bool) : ShipOutcome :=
  if present then .stopped else .lost

/-- What the exchange after a failed ship says about the file. -/
def outcomeAfter : List (Exchange signature) → ShipOutcome
  | ⟨.fileExists _, reply⟩ :: _ => failedOutcome reply
  | _ => .stopped

/-- The outcome of an attempt, given the reply to the ship and the exchanges after it. -/
def shipOutcome (shipped : Bool) (rest : List (Exchange signature)) : ShipOutcome :=
  if shipped then .shipped else outcomeAfter rest

/-- The attempts of a round to ship a file. -/
def attempts : List (Exchange signature) → List Attempt
  | [] => []
  | ⟨.shipFile path _, reply⟩ :: rest =>
      (path, shipOutcome reply rest) :: attempts rest
  | _ :: rest => attempts rest

/-- The metrics a round sends. -/
def reports : List (Exchange signature) → List Report
  | [] => []
  | ⟨.sendMetric report, _⟩ :: rest => report :: reports rest
  | _ :: rest => reports rest

/-- How often a round calls `heartbeat`. -/
def heartbeats : List (Exchange signature) → ℕ
  | [] => 0
  | ⟨.heartbeat, _⟩ :: rest => heartbeats rest + 1
  | _ :: rest => heartbeats rest

/-- The attempts with a given outcome. -/
def attemptsWith (outcome : ShipOutcome) (attempted : List Attempt) : ℕ :=
  (attempted.filter fun attempt => attempt.2 = outcome).length

/-- The accounts of what follows a successful query with these candidates. -/
structure Accounted (channel : AgentChannel) (candidates : List Text)
    (trace : List (Exchange signature)) : Prop where
  attempted : (attempts trace).map Prod.fst =
    (candidates.mergeSort.take (attempts trace).length).map (joinPath channel.sourceDir)
  goesOn : ∀ attempt ∈ (attempts trace).dropLast, attempt.2 ≠ .stopped
  goesThrough : (∀ attempt ∈ attempts trace, attempt.2 ≠ .stopped) →
    (attempts trace).length = candidates.length
  numFilesShipped :
    received (reports trace) numFilesShipped = attemptsWith .shipped (attempts trace)
  lostDuringShip : received (reports trace) lostDuringShip = attemptsWith .lost (attempts trace)
  remaining : candidates ≠ [] →
    ((attemptsWith .stopped (attempts trace) + (candidates.length - (attempts trace).length) : ℕ) :
      Int) = received (reports trace) filesToShip -
        received (reports trace) Agent.numFilesShipped -
        received (reports trace) Agent.lostDuringShip
  heartbeat : heartbeats trace =
    if candidates = [] ∨ ∃ attempt ∈ attempts trace, attempt.2 = .shipped then 1 else 0

/-- The exchanges of an attempt. -/
def exchanges (channel : AgentChannel) : Attempt → List (Exchange signature)
  | (path, .shipped) => [⟨.shipFile path channel.rsyncTarget, true⟩]
  | (path, .lost) => [⟨.shipFile path channel.rsyncTarget, false⟩, ⟨.fileExists path, false⟩]
  | (path, .stopped) => [⟨.shipFile path channel.rsyncTarget, false⟩, ⟨.fileExists path, true⟩]

/-- What the loop of `ship_candidates` can do with the rest of the candidates. -/
inductive Attempting (channel : AgentChannel) : List Text → List Attempt → Prop where
  | through : Attempting channel [] []
  | shipped {el rest attempted} : Attempting channel rest attempted →
      Attempting channel (el :: rest) ((joinPath channel.sourceDir el, .shipped) :: attempted)
  | lost {el rest attempted} : Attempting channel rest attempted →
      Attempting channel (el :: rest) ((joinPath channel.sourceDir el, .lost) :: attempted)
  | stopped {el rest} :
      Attempting channel (el :: rest) [(joinPath channel.sourceDir el, .stopped)]

section Exchanges

variable {channel : AgentChannel} {attempted : List Attempt}
  {rest : List (Exchange signature)}

/-- Exchanges of attempts are read back as these attempts. -/
theorem attempts_exchanges (attempted : List Attempt) :
    attempts (attempted.flatMap (exchanges channel) ++ rest) = attempted ++ attempts rest := by
  induction attempted with
  | nil => rfl
  | cons attempt attempted ih =>
      obtain ⟨path, outcome⟩ := attempt
      rw [List.flatMap_cons, List.append_assoc, List.cons_append, ← ih]
      cases outcome <;> rfl

/-- Attempts send no metric. -/
theorem reports_exchanges (attempted : List Attempt) :
    reports (attempted.flatMap (exchanges channel) ++ rest) = reports rest := by
  induction attempted with
  | nil => rfl
  | cons attempt attempted ih =>
      obtain ⟨path, outcome⟩ := attempt
      rw [List.flatMap_cons, List.append_assoc, ← ih]
      cases outcome <;> rfl

/-- Attempts do not call `heartbeat`. -/
theorem heartbeats_exchanges (attempted : List Attempt) :
    heartbeats (attempted.flatMap (exchanges channel) ++ rest) = heartbeats rest := by
  induction attempted with
  | nil => rfl
  | cons attempt attempted ih =>
      obtain ⟨path, outcome⟩ := attempt
      rw [List.flatMap_cons, List.append_assoc, ← ih]
      cases outcome <;> rfl

end Exchanges

/-- A request followed by something is exchanged first. -/
theorem performs_request_bind_iff {α : Type} {command : Command}
    {next : command.Reply → Routine α} {trace : List (Exchange signature)} {value : α} :
    Performs (request command >>= next) trace value ↔
      ∃ reply rest, trace = ⟨command, reply⟩ :: rest ∧ Performs (next reply) rest value :=
  performs_request_iff

/-- A sent metric is one exchange. -/
def sent (key : Text) (value : Int) : Exchange signature :=
  ⟨.sendMetric (key, value), ()⟩

/-- Sleeping exchanges at most a random number and the sleep itself. -/
theorem sleepIt_performs {barnConf : BarnConf} {trace : List (Exchange signature)} {value : Unit}
    (h : Performs (sleepIt barnConf) trace value) :
    trace = [] ∨ ∃ random seconds, trace = [⟨.rand, random⟩, ⟨.sleep seconds, ()⟩] := by
  rw [sleepIt] at h
  by_cases hpos : 0 < barnConf.sleepSeconds
  · rw [if_pos hpos] at h
    obtain ⟨random, rest, rfl, hsleep⟩ := performs_request_bind_iff.1 h
    obtain ⟨reply, rest, rfl, hdone⟩ := performs_request_iff.1 hsleep
    obtain ⟨rfl, -⟩ := performs_done_iff.1 hdone
    exact .inr ⟨random, _, rfl⟩
  · rw [if_neg hpos] at h
    exact .inl (performs_done_iff.1 h).1

/-- What the query exchanges, for each reply of the dry run. -/
theorem queryCandidates_performs {channel : AgentChannel} {trace : List (Exchange signature)}
    {result : Validation (List Text)} (h : Performs (queryCandidates channel) trace result) :
    ∃ existingFiles reply rest,
      trace = ⟨.listLogDirectory channel.sourceDir, existingFiles⟩ ::
        ⟨.logFilesNotOnTarget channel.sourceDir existingFiles channel.rsyncTarget, reply⟩ :: rest ∧
      ((∃ err, reply = .error err ∧ result = .error err ∧ rest = [sent failedToGetSyncList 1]) ∨
        ∃ missing, reply = .ok missing ∧ result = .ok (tailIntersection existingFiles missing) ∧
          (rest = [] ∧ tailIntersection existingFiles missing = [] ∨
            ∃ full, rest =
              sent filesToShip (toInt (tailIntersection existingFiles missing).length) :: full ∧
                (full = [] ∨ full = [sent fullDirectoryShip 1]))) := by
  obtain ⟨existingFiles, afterList, rfl, hlisted⟩ := performs_request_bind_iff.1 h
  obtain ⟨reply, rest, rfl, hreplied⟩ := performs_request_bind_iff.1 hlisted
  refine ⟨existingFiles, reply, rest, rfl, ?_⟩
  cases reply with
  | error err =>
      obtain ⟨_, rest, rfl, hsent⟩ := performs_request_bind_iff.1 hreplied
      obtain ⟨rfl, rfl⟩ := performs_done_iff.1 hsent
      exact .inl ⟨err, rfl, rfl, rfl⟩
  | ok missing =>
      refine .inr ⟨missing, rfl, ?_⟩
      by_cases hnone : existingFiles.length = 0
      · obtain rfl : existingFiles = [] := List.length_eq_zero_iff.1 hnone
        obtain ⟨rfl, rfl⟩ := performs_done_iff.1 hreplied
        exact ⟨rfl, .inl ⟨rfl, rfl⟩⟩
      · simp only [if_neg hnone] at hreplied
        obtain ⟨_, rest, rfl, hsent⟩ := performs_request_bind_iff.1 hreplied
        by_cases hall : (tailIntersection existingFiles missing).length = existingFiles.length
        · simp only [if_pos hall] at hsent
          obtain ⟨_, rest, rfl, hfull⟩ := performs_request_bind_iff.1 hsent
          obtain ⟨rfl, rfl⟩ := performs_done_iff.1 hfull
          exact ⟨rfl, .inr ⟨_, rfl, .inr rfl⟩⟩
        · simp only [if_neg hall] at hsent
          obtain ⟨rfl, rfl⟩ := performs_done_iff.1 hsent
          exact ⟨rfl, .inr ⟨_, rfl, .inl rfl⟩⟩

/-- One more attempt with this outcome. -/
@[simp] theorem attemptsWith_cons (outcome : ShipOutcome) (attempt : Attempt)
    (attempted : List Attempt) :
    attemptsWith outcome (attempt :: attempted) =
      (if attempt.2 = outcome then 1 else 0) + attemptsWith outcome attempted := by
  by_cases heq : attempt.2 = outcome
  · simp [attemptsWith, heq, Nat.add_comm]
  · simp [attemptsWith, heq]

theorem attemptsWith_nil (outcome : ShipOutcome) : attemptsWith outcome [] = 0 := rfl

/-- The loop exchanges what its attempts do and counts their outcomes. -/
theorem shipEach_performs {channel : AgentChannel} {candidates : List Text}
    {counters final : Counters} {trace : List (Exchange signature)}
    (h : Performs (shipEach channel counters candidates) trace final)
    (hshipped : 0 ≤ counters.numShipped ∧ counters.numShipped + candidates.length < 2 ^ 31)
    (hlost : 0 ≤ counters.numLostDuringShip ∧
      counters.numLostDuringShip + candidates.length < 2 ^ 31) :
    ∃ attempted, Attempting channel candidates attempted ∧
      trace = attempted.flatMap (exchanges channel) ∧
      final.numShipped = counters.numShipped + attemptsWith .shipped attempted ∧
      final.numLostDuringShip = counters.numLostDuringShip + attemptsWith .lost attempted := by
  induction candidates generalizing counters trace with
  | nil =>
      obtain ⟨rfl, rfl⟩ := performs_done_iff.1 h
      exact ⟨[], .through, rfl, by simp [attemptsWith_nil], by simp [attemptsWith_nil]⟩
  | cons el rest ih =>
      rw [List.length_cons] at hshipped hlost
      obtain ⟨reply, later, rfl, hreplied⟩ := performs_request_bind_iff.1 h
      cases reply with
      | true =>
          have hnext : toInt (counters.numShipped + 1) = counters.numShipped + 1 :=
            toInt_of_range (by omega) (by omega)
          simp only [if_true, hnext] at hreplied
          obtain ⟨attempted, hattempted, rfl, hcount, hcountLost⟩ := ih hreplied
            (show 0 ≤ counters.numShipped + 1 ∧ counters.numShipped + 1 + rest.length < 2 ^ 31 by
              omega)
            (show 0 ≤ counters.numLostDuringShip ∧
              counters.numLostDuringShip + rest.length < 2 ^ 31 by omega)
          refine ⟨_, .shipped hattempted, rfl, ?_, ?_⟩
          · rw [hcount, attemptsWith_cons, if_pos rfl, Nat.cast_add, Nat.cast_one, ← add_assoc]
          · simpa using hcountLost
      | false =>
          simp only [Bool.false_eq_true, if_false] at hreplied
          obtain ⟨present, later, rfl, hchecked⟩ := performs_request_bind_iff.1 hreplied
          cases present with
          | true =>
              simp only [if_true] at hchecked
              obtain ⟨rfl, rfl⟩ := performs_done_iff.1 hchecked
              exact ⟨_, .stopped, rfl, by simp [attemptsWith_nil], by simp [attemptsWith_nil]⟩
          | false =>
              have hnext : toInt (counters.numLostDuringShip + 1) =
                  counters.numLostDuringShip + 1 := toInt_of_range (by omega) (by omega)
              simp only [Bool.false_eq_true, if_false, hnext] at hchecked
              obtain ⟨attempted, hattempted, rfl, hcount, hcountLost⟩ := ih hchecked
                (show 0 ≤ counters.numShipped ∧ counters.numShipped + rest.length < 2 ^ 31 by omega)
                (show 0 ≤ counters.numLostDuringShip + 1 ∧
                  counters.numLostDuringShip + 1 + rest.length < 2 ^ 31 by omega)
              refine ⟨_, .lost hattempted, rfl, ?_, ?_⟩
              · simpa using hcount
              · rw [hcountLost, attemptsWith_cons, if_pos rfl, Nat.cast_add, Nat.cast_one,
                  ← add_assoc]

/-- What shipping the candidates exchanges and returns. -/
theorem shipCandidates_performs {channel : AgentChannel} {candidates : List Text}
    {trace : List (Exchange signature)} {result : Validation Int}
    (h : Performs (shipCandidates channel candidates) trace result)
    (hsize : candidates.length < 2 ^ 31) :
    candidates = [] ∧ trace = [] ∧ result = .ok 0 ∨
      candidates ≠ [] ∧ ∃ attempted currentLogs rotated,
        Attempting channel candidates.mergeSort attempted ∧
        trace = attempted.flatMap (exchanges channel) ++
          sent numFilesShipped (attemptsWith .shipped attempted) ::
          sent lostDuringShip (attemptsWith .lost attempted) ::
          ⟨.listLogDirectory channel.sourceDir, currentLogs⟩ :: rotated ∧
        (rotated = [] ∨ ∃ value, rotated = [sent rotatedDuringShip value]) ∧
        result = if (attemptsWith .shipped attempted : Int) = 0 then
          .error (text "Failed to ship any logs")
          else .ok (attemptsWith .shipped attempted : Int) := by
  have hexact : toInt candidates.length = candidates.length :=
    toInt_of_range (by omega) (by omega)
  rw [shipCandidates] at h
  simp only [hexact] at h
  by_cases hnone : (candidates.length : Int) = 0
  · rw [if_pos hnone] at h
    obtain ⟨rfl, rfl⟩ := performs_done_iff.1 h
    exact .inl ⟨List.length_eq_zero_iff.1 (by omega), rfl, rfl⟩
  · rw [if_neg hnone] at h
    obtain ⟨loop, afterLoop, counters, rfl, hloop, hrest⟩ := performs_bind_iff.1 h
    have hroom : (0 : Int) ≤ 0 ∧ (0 : Int) + candidates.mergeSort.length < 2 ^ 31 := by
      rw [List.length_mergeSort]
      omega
    obtain ⟨attempted, hattempted, rfl, hshipped, hlost⟩ := shipEach_performs hloop hroom hroom
    rw [Int.zero_add] at hshipped hlost
    obtain ⟨_, afterShipped, rfl, hsent⟩ := performs_request_bind_iff.1 hrest
    obtain ⟨_, afterLost, rfl, hlisting⟩ := performs_request_bind_iff.1 hsent
    obtain ⟨currentLogs, rotated, rfl, hrotated⟩ := performs_request_bind_iff.1 hlisting
    rw [hshipped, hlost]
    refine .inr ⟨fun hnil => hnone (by simp [hnil]), attempted, currentLogs, rotated, hattempted,
      rfl, ?_⟩
    rw [hshipped] at hrotated
    by_cases hsome : countMissing candidates.mergeSort currentLogs ≠ 0
    · simp only [if_pos hsome] at hrotated
      obtain ⟨_, final, rfl, hfinal⟩ := performs_request_bind_iff.1 hrotated
      obtain ⟨rfl, rfl⟩ := performs_ite_pure_iff.1 hfinal
      exact ⟨.inr ⟨_, rfl⟩, rfl⟩
    · simp only [if_neg hsome] at hrotated
      obtain ⟨rfl, rfl⟩ := performs_ite_pure_iff.1 hrotated
      exact ⟨.inl rfl, rfl⟩

/-- The keys of the metrics that the accounts are about. -/
def accountKeys : List Text :=
  [filesToShip, numFilesShipped, lostDuringShip]

/-- Exchanges that are no attempt, no heartbeat and no metric of the accounts. -/
structure Aside (aside : List (Exchange signature)) : Prop where
  attempts : ∀ rest, attempts (aside ++ rest) = attempts rest
  heartbeats : ∀ rest, heartbeats (aside ++ rest) = heartbeats rest
  received : ∀ rest, ∀ key ∈ accountKeys,
    received (reports (aside ++ rest)) key = received (reports rest) key

/-- Nothing is aside. -/
theorem Aside.nil : Aside [] :=
  ⟨fun _ => rfl, fun _ => rfl, fun _ _ _ => rfl⟩

/-- A metric adds to the sum of its key. -/
theorem received_sent (key : Text) (value : Int) (rest : List (Exchange signature)) (other : Text) :
    received (reports (sent key value :: rest)) other =
      (if key = other then value else 0) + received (reports rest) other :=
  received_cons (key, value) (reports rest) other

/-- Other metrics are aside, and so is a zero. -/
theorem Aside.sent {key : Text} {value : Int} (hkey : key ∉ accountKeys ∨ value = 0) :
    Aside [sent key value] := by
  refine ⟨fun _ => rfl, fun _ => rfl, fun rest other hother => ?_⟩
  have hzero : (if key = other then value else 0) = 0 := by
    rcases hkey with hkey | rfl
    · have hne : key ≠ other := fun heq => hkey (heq ▸ hother)
      rw [if_neg hne]
    · rw [ite_self]
  rw [List.singleton_append, received_sent, hzero, Int.zero_add]

/-- What is aside twice is aside. -/
theorem Aside.append {first second : List (Exchange signature)} (hfirst : Aside first)
    (hsecond : Aside second) : Aside (first ++ second) := by
  refine ⟨fun rest => ?_, fun rest => ?_, fun rest key hkey => ?_⟩
  · rw [List.append_assoc, hfirst.attempts, hsecond.attempts]
  · rw [List.append_assoc, hfirst.heartbeats, hsecond.heartbeats]
  · rw [List.append_assoc, hfirst.received _ key hkey, hsecond.received _ key hkey]

/-- Sleeping is aside. -/
theorem Aside.sleepIt {barnConf : BarnConf} {trace : List (Exchange signature)} {value : Unit}
    (h : Performs (sleepIt barnConf) trace value) : Aside trace := by
  obtain rfl | ⟨random, seconds, rfl⟩ := sleepIt_performs h
  · exact .nil
  · exact ⟨fun _ => rfl, fun _ => rfl, fun _ _ _ => rfl⟩

/-- What a round exchanges after picking its channel. -/
theorem dispatchNewLogs_performs {barnConf : BarnConf} {trace : List (Exchange signature)}
    {value : Unit} (h : Performs (dispatchNewLogs barnConf) trace value) :
    ∃ channel queried logsToShip rest, trace = ⟨.pickChannel, channel⟩ :: (queried ++ rest) ∧
      Performs (queryCandidates channel) queried logsToShip ∧
      ((∃ err, logsToShip = .error err ∧ Aside rest) ∨
        ∃ candidates shipping numShipped final, logsToShip = .ok candidates ∧
          rest = shipping ++ final ∧
          Performs (shipCandidates channel candidates) shipping numShipped ∧
          ((∃ err, numShipped = .error err ∧ Aside final) ∨
            ∃ number aside, numShipped = .ok number ∧ final = aside ++ [⟨.heartbeat, ()⟩] ∧
              Aside aside)) := by
  obtain ⟨channel, afterPick, rfl, hquery⟩ := performs_request_bind_iff.1 h
  obtain ⟨queried, rest, logsToShip, rfl, hqueried, hrest⟩ := performs_bind_iff.1 hquery
  refine ⟨channel, queried, logsToShip, rest, rfl, hqueried, ?_⟩
  cases logsToShip with
  | error err => exact .inl ⟨err, rfl, .sleepIt hrest⟩
  | ok candidates =>
      obtain ⟨shipping, final, numShipped, rfl, hshipping, hfinal⟩ := performs_bind_iff.1 hrest
      refine .inr ⟨candidates, shipping, numShipped, final, rfl, rfl, hshipping, ?_⟩
      cases numShipped with
      | error err => exact .inl ⟨err, rfl, .sleepIt hfinal⟩
      | ok number =>
          refine .inr ⟨number, ?_⟩
          by_cases hpos : 0 < number
          · simp only [if_pos hpos] at hfinal
            obtain ⟨aside, beat, slept, rfl, hslept, hbeat⟩ := performs_bind_iff.1 hfinal
            obtain ⟨reply, rest, rfl, hdone⟩ := performs_request_iff.1 hbeat
            obtain ⟨rfl, -⟩ := performs_done_iff.1 hdone
            exact ⟨aside, rfl, rfl, .sleepIt hslept⟩
          · simp only [if_neg hpos] at hfinal
            obtain ⟨_, beat, rfl, hbeat⟩ := performs_request_bind_iff.1 hfinal
            obtain ⟨reply, rest, rfl, hdone⟩ := performs_request_iff.1 hbeat
            obtain ⟨rfl, -⟩ := performs_done_iff.1 hdone
            exact ⟨[_], rfl, rfl, ⟨fun _ => rfl, fun _ => rfl, fun _ _ _ => rfl⟩⟩

namespace Attempting

variable {channel : AgentChannel} {candidates : List Text} {attempted : List Attempt}

/-- The attempts are a prefix of the candidates. -/
theorem map_fst (h : Attempting channel candidates attempted) : attempted.map Prod.fst =
    (candidates.take attempted.length).map (joinPath channel.sourceDir) := by
  induction h with
  | through => rfl
  | shipped _ ih | lost _ ih => simpa using ih
  | stopped => rfl

/-- Only the last attempt can be the one that stops the loop. -/
theorem goesOn (h : Attempting channel candidates attempted) :
    ∀ attempt ∈ attempted.dropLast, attempt.2 ≠ .stopped := by
  induction h with
  | through => simp
  | stopped => simp
  | @shipped el rest attempted _ ih | @lost el rest attempted _ ih =>
      intro attempt hattempt
      cases attempted with
      | nil => simp at hattempt
      | cons first attempted =>
          rw [List.dropLast_cons_of_ne_nil (List.cons_ne_nil _ _)] at hattempt
          rcases List.mem_cons.1 hattempt with rfl | hattempt
          · simp
          · exact ih attempt hattempt

/-- Without such an attempt the loop gets through. -/
theorem goesThrough (h : Attempting channel candidates attempted)
    (hnone : ∀ attempt ∈ attempted, attempt.2 ≠ .stopped) :
    attempted.length = candidates.length := by
  induction h with
  | through => rfl
  | shipped _ ih | lost _ ih =>
      rw [List.forall_mem_cons] at hnone
      rw [List.length_cons, List.length_cons, ih hnone.2]
  | stopped => exact absurd rfl (hnone _ (List.mem_singleton_self _))

/-- There are no more attempts than candidates. -/
theorem length_le (h : Attempting channel candidates attempted) :
    attempted.length ≤ candidates.length := by
  have hlength := congrArg List.length h.map_fst
  simp only [List.length_map, List.length_take] at hlength
  omega

end Attempting

/-- Every attempt has one of the three outcomes. -/
theorem attemptsWith_total (attempted : List Attempt) :
    attemptsWith .shipped attempted + attemptsWith .lost attempted +
      attemptsWith .stopped attempted = attempted.length := by
  induction attempted with
  | nil => rfl
  | cons attempt attempted ih =>
      obtain ⟨path, outcome⟩ := attempt
      cases outcome <;> simp <;> omega

/-- An outcome is counted when it occurs. -/
theorem attemptsWith_eq_zero_iff {outcome : ShipOutcome} {attempted : List Attempt} :
    attemptsWith outcome attempted = 0 ↔ ¬∃ attempt ∈ attempted, attempt.2 = outcome := by
  rw [attemptsWith, List.length_eq_zero_iff, List.filter_eq_nil_iff]
  simp only [decide_eq_true_eq, not_exists, not_and]

/-- The accounts of a round that has nothing to ship. -/
theorem accounted_nil {channel : AgentChannel} {aside : List (Exchange signature)}
    (haside : Aside aside) :
    Accounted channel [] (aside ++ [⟨.heartbeat, ()⟩]) := by
  have hattempts : attempts (aside ++ [⟨.heartbeat, ()⟩]) = [] := haside.attempts _
  refine ⟨?_, ?_, ?_, ?_, ?_, fun hne => absurd rfl hne, ?_⟩
  · simp [hattempts]
  · simp [hattempts]
  · simp [hattempts]
  · rw [hattempts]
    exact haside.received _ _ (by decide)
  · rw [hattempts]
    exact haside.received _ _ (by decide)
  · rw [haside.heartbeats, if_pos (.inl rfl)]
    rfl

/-- The accounts of a round that ships candidates. -/
theorem accounted_of_attempting {channel : AgentChannel} {candidates currentLogs : List Text}
    {attempted : List Attempt} {full rotated final beats : List (Exchange signature)}
    (hne : candidates ≠ []) (hattempted : Attempting channel candidates.mergeSort attempted)
    (hfull : Aside full) (hrotated : Aside rotated) (hfinal : Aside final)
    (hbeats : beats = if attemptsWith .shipped attempted = 0 then [] else [⟨.heartbeat, ()⟩]) :
    Accounted channel candidates
      (sent filesToShip candidates.length :: (full ++ (attempted.flatMap (exchanges channel) ++
        sent numFilesShipped (attemptsWith .shipped attempted) ::
        sent lostDuringShip (attemptsWith .lost attempted) ::
        ⟨.listLogDirectory channel.sourceDir, currentLogs⟩ :: (rotated ++ (final ++ beats))))) := by
  generalize htail : sent numFilesShipped (attemptsWith .shipped attempted) ::
    sent lostDuringShip (attemptsWith .lost attempted) ::
    ⟨.listLogDirectory channel.sourceDir, currentLogs⟩ :: (rotated ++ (final ++ beats)) = tail
  generalize htrace : sent filesToShip candidates.length ::
    (full ++ (attempted.flatMap (exchanges channel) ++ tail)) = trace
  have hattempts : attempts trace = attempted := by
    -- Only the middle of the trace attempts anything.
    have htailAttempts : attempts tail = [] := by
      rw [← htail]
      show attempts (rotated ++ (final ++ beats)) = []
      rw [hrotated.attempts, hfinal.attempts, hbeats]
      split <;> rfl
    rw [← htrace]
    show attempts (full ++ _) = attempted
    rw [hfull.attempts, attempts_exchanges, htailAttempts, List.append_nil]
  have hheartbeats : heartbeats trace = if attemptsWith .shipped attempted = 0 then 0 else 1 := by
    rw [← htrace]
    show heartbeats (full ++ _) = _
    rw [hfull.heartbeats, heartbeats_exchanges, ← htail]
    show heartbeats (rotated ++ (final ++ beats)) = _
    rw [hrotated.heartbeats, hfinal.heartbeats, hbeats]
    split <;> rfl
  -- Each of the three keys of the accounts is sent once, and the side metrics use other keys.
  have hreceived : ∀ key ∈ accountKeys, received (reports trace) key =
      (if filesToShip = key then (candidates.length : Int) else 0) +
        ((if numFilesShipped = key then (attemptsWith .shipped attempted : Int) else 0) +
          (if lostDuringShip = key then (attemptsWith .lost attempted : Int) else 0)) := by
    intro key hkey
    have hrest : received (reports (rotated ++ (final ++ beats))) key = 0 := by
      rw [hrotated.received _ key hkey, hfinal.received _ key hkey, hbeats]
      split <;> rfl
    rw [← htrace, received_sent, hfull.received _ key hkey, reports_exchanges, ← htail,
      received_sent, received_sent]
    show _ + (_ + (_ + received (reports (rotated ++ (final ++ beats))) key)) = _
    rw [hrest, Int.add_zero]
  have hlength := hattempted.length_le
  have htotal := attemptsWith_total attempted
  rw [List.length_mergeSort] at hlength
  have hshipped : received (reports trace) numFilesShipped = attemptsWith .shipped attempted := by
    rw [hreceived _ (by decide), if_neg (by decide), if_pos rfl, if_neg (by decide)]
    simp
  have hlost : received (reports trace) lostDuringShip = attemptsWith .lost attempted := by
    rw [hreceived _ (by decide), if_neg (by decide), if_neg (by decide), if_pos rfl]
    simp
  have hfiles : received (reports trace) filesToShip = candidates.length := by
    rw [hreceived _ (by decide), if_pos rfl, if_neg (by decide), if_neg (by decide)]
    simp
  refine ⟨?_, ?_, ?_, ?_, ?_, fun _ => ?_, ?_⟩
  · rw [hattempts]
    exact hattempted.map_fst
  · rw [hattempts]
    exact hattempted.goesOn
  · rw [hattempts, ← List.length_mergeSort candidates]
    exact hattempted.goesThrough
  · rw [hattempts]
    exact hshipped
  · rw [hattempts]
    exact hlost
  · rw [hattempts, hfiles, hshipped, hlost]
    omega
  · rw [hheartbeats, hattempts]
    by_cases hnone : attemptsWith .shipped attempted = 0
    · rw [if_pos hnone, if_neg (not_or.2 ⟨hne, attemptsWith_eq_zero_iff.1 hnone⟩)]
    · rw [if_neg hnone, if_pos (.inr (not_not.1 fun hno => hnone (attemptsWith_eq_zero_iff.2 hno)))]

/-- **The accounts of a dispatch round.** Whatever a round gets as replies: after a failed query it
attempts nothing and calls no heartbeat, and after a successful one its attempts, its metrics and
its heartbeat agree. -/
theorem dispatchNewLogs_accounts (barnConf : BarnConf) (trace : List (Exchange signature))
    (h : Performs (dispatchNewLogs barnConf) trace ()) :
    ∃ channel existingFiles reply rest,
      trace = ⟨.pickChannel, channel⟩ ::
        ⟨.listLogDirectory channel.sourceDir, existingFiles⟩ ::
        ⟨.logFilesNotOnTarget channel.sourceDir existingFiles channel.rsyncTarget, reply⟩ :: rest ∧
      (∀ err, reply = .error err → attempts rest = [] ∧ heartbeats rest = 0) ∧
      ∀ missing, reply = .ok missing →
        (tailIntersection existingFiles missing).length < 2 ^ 31 →
        Accounted channel (tailIntersection existingFiles missing) rest := by
  obtain ⟨channel, queried, logsToShip, after, rfl, hqueried, hafter⟩ := dispatchNewLogs_performs h
  obtain ⟨existingFiles, reply, rest, rfl, hreply⟩ := queryCandidates_performs hqueried
  refine ⟨channel, existingFiles, reply, rest ++ after, rfl, fun err herr => ?_,
    fun missing hmissing hsize => ?_⟩
  · subst herr
    -- A failed query: what follows are side metrics only.
    obtain ⟨_, herror, rfl, rfl⟩ | ⟨_, hok, -⟩ := hreply
    · obtain ⟨_, -, haside⟩ | ⟨_, _, _, _, hcandidates, -⟩ := hafter
      · refine ⟨?_, ?_⟩
        · show attempts after = []
          rw [← List.append_nil after, haside.attempts]
          rfl
        · show heartbeats after = 0
          rw [← List.append_nil after, haside.heartbeats]
          rfl
      · cases hcandidates
    · cases hok
  · subst hmissing
    obtain ⟨_, herror, -⟩ | ⟨_, hok, rfl, hquery⟩ := hreply
    · cases herror
    · obtain rfl := Except.ok.inj hok
      obtain ⟨_, herror, -⟩ | ⟨candidates, shipping, numShipped, final, hcandidates, rfl, hship,
        hend⟩ := hafter
      · cases herror
      · obtain rfl := Except.ok.inj hcandidates
        obtain ⟨hnil, rfl, rfl⟩ | ⟨hne, attempted, currentLogs, rotated, hattempted, rfl, hrotated,
          hnumShipped⟩ := shipCandidates_performs hship hsize
        · -- Nothing to ship: the query sent at most a zero and the warning metric.
          have hrest : Aside rest := by
            obtain ⟨rfl, -⟩ | ⟨full, rfl, hfull⟩ := hquery
            · exact .nil
            · rw [hnil]
              refine Aside.append (.sent (.inr rfl)) ?_
              obtain rfl | rfl := hfull
              · exact .nil
              · exact .sent (.inl (by decide))
          obtain ⟨_, herror, -⟩ | ⟨_, aside, -, rfl, haside⟩ := hend
          · cases herror
          · rw [hnil, List.nil_append, ← List.append_assoc]
            exact accounted_nil (hrest.append haside)
        · obtain ⟨-, hnil⟩ | ⟨full, rfl, hfull⟩ := hquery
          · exact absurd hnil hne
          -- The reported size is an `int`: below the bound it is the number of candidates.
          have hexact : toInt (tailIntersection existingFiles missing).length =
              (tailIntersection existingFiles missing).length :=
            toInt_of_range (by omega) (by omega)
          have hfullAside : Aside full := by
            obtain rfl | rfl := hfull
            · exact .nil
            · exact .sent (.inl (by decide))
          have hrotatedAside : Aside rotated := by
            obtain rfl | ⟨value, rfl⟩ := hrotated
            · exact .nil
            · exact .sent (.inl (by decide))
          -- The heartbeat is called exactly if the loop has counted a file.
          obtain ⟨final, beats, rfl, hfinal, hbeats⟩ : ∃ quiet beats, final = quiet ++ beats ∧
              Aside quiet ∧
              beats = if attemptsWith .shipped attempted = 0 then [] else [⟨.heartbeat, ()⟩] := by
            by_cases hnone : attemptsWith .shipped attempted = 0
            · rw [if_pos (by exact_mod_cast hnone)] at hnumShipped
              obtain ⟨_, -, haside⟩ | ⟨_, _, hok, -⟩ := hend
              · exact ⟨final, [], (List.append_nil _).symm, haside, (if_pos hnone).symm⟩
              · rw [hok] at hnumShipped
                cases hnumShipped
            · rw [if_neg (by exact_mod_cast hnone)] at hnumShipped
              obtain ⟨_, herror, -⟩ | ⟨_, aside, -, hfinal, haside⟩ := hend
              · rw [herror] at hnumShipped
                cases hnumShipped
              · exact ⟨aside, _, hfinal, haside, (if_neg hnone).symm⟩
          rw [hexact]
          simpa only [List.append_assoc, List.cons_append] using
            accounted_of_attempting hne hattempted hfullAside hrotatedAside hfinal hbeats

/-- A channel of a service. -/
def sampleChannel : AgentChannel :=
  ⟨text "/var/log/web", text "rsync://collector:1000/barn_logs/web@main@host1/"⟩

/-- Two log files, one second apart. -/
def sampleFiles : List Text :=
  [text "@4000000052c35aa300000000.s", text "@4000000052c35aa400000000.s"]

/-- The exchanges of a round in which the first of the two files is lost and the second one gets
through. -/
def sampleTrace : List (Exchange signature) :=
  [⟨.pickChannel, sampleChannel⟩,
    ⟨.listLogDirectory sampleChannel.sourceDir, sampleFiles⟩,
    ⟨.logFilesNotOnTarget sampleChannel.sourceDir sampleFiles sampleChannel.rsyncTarget,
      .ok sampleFiles⟩,
    sent filesToShip 2,
    sent fullDirectoryShip 1,
    ⟨.shipFile (text "/var/log/web/@4000000052c35aa300000000.s") sampleChannel.rsyncTarget, false⟩,
    ⟨.fileExists (text "/var/log/web/@4000000052c35aa300000000.s"), false⟩,
    ⟨.shipFile (text "/var/log/web/@4000000052c35aa400000000.s") sampleChannel.rsyncTarget, true⟩,
    sent numFilesShipped 1,
    sent lostDuringShip 1,
    ⟨.listLogDirectory sampleChannel.sourceDir, sampleFiles⟩,
    ⟨.heartbeat, ()⟩]

/-- The round can go like that. -/
theorem performs_sampleTrace : Performs (dispatchNewLogs ⟨0⟩) sampleTrace () := by
  have hsort : sampleFiles.mergeSort = sampleFiles := List.mergeSort_of_pairwise (by decide)
  have hmissing : countMissing sampleFiles sampleFiles = 0 := by
    simp [countMissing, countMissingLoop, sampleFiles]
  refine performs_request_bind_iff.2 ⟨sampleChannel, _, rfl, ?_⟩
  refine performs_bind_iff.2 ⟨_ :: _ :: _ :: _ :: [], _, .ok sampleFiles, rfl, ?_, ?_⟩
  · refine performs_request_bind_iff.2 ⟨sampleFiles, _, rfl, ?_⟩
    refine performs_request_bind_iff.2 ⟨.ok sampleFiles, _, rfl, ?_⟩
    show Performs (if sampleFiles.length = 0 then _ else _) _ _
    rw [if_neg (by decide), tailIntersection_self]
    refine performs_request_bind_iff.2 ⟨(), _, rfl, ?_⟩
    show Performs (if sampleFiles.length = sampleFiles.length then _ else _) _ _
    rw [if_pos rfl]
    exact .request (.done _)
  · refine performs_bind_iff.2 ⟨_ :: _ :: _ :: _ :: _ :: _ :: [], _, .ok 1, rfl, ?_, ?_⟩
    · rw [shipCandidates, hsort]
      show Performs (if toInt sampleFiles.length = 0 then _ else _) _ _
      rw [if_neg (by decide)]
      refine performs_bind_iff.2 ⟨_ :: _ :: _ :: [], _, ⟨1, 1⟩, rfl, ?_, ?_⟩
      · exact .request (.request (.request (.done _)))
      · refine performs_request_bind_iff.2 ⟨(), _, rfl, ?_⟩
        refine performs_request_bind_iff.2 ⟨(), _, rfl, ?_⟩
        refine performs_request_bind_iff.2 ⟨sampleFiles, _, rfl, ?_⟩
        show Performs (if countMissing sampleFiles sampleFiles ≠ 0 then _ else _) _ _
        rw [hmissing]
        exact .done _
    · exact .request (.done _)

/-- The accounts of that round. -/
theorem dispatchNewLogs_accounts_lost :
    Accounted sampleChannel (tailIntersection sampleFiles sampleFiles) (sampleTrace.drop 3) := by
  obtain ⟨channel, existingFiles, reply, rest, htrace, -, haccounts⟩ :=
    dispatchNewLogs_accounts ⟨0⟩ sampleTrace performs_sampleTrace
  obtain ⟨hpick, hlater⟩ := List.cons.inj htrace
  obtain rfl : sampleChannel = channel := eq_of_heq (Sigma.mk.inj hpick).2
  obtain ⟨hlist, hlater⟩ := List.cons.inj hlater
  obtain rfl : sampleFiles = existingFiles := eq_of_heq (Sigma.mk.inj hlist).2
  obtain ⟨hreply, hrest⟩ := List.cons.inj hlater
  rw [show sampleTrace.drop 3 = rest from hrest]
  exact haccounts sampleFiles (eq_of_heq (Sigma.mk.inj hreply).2).symm
    (by rw [tailIntersection_self]; decide)

/-- The name of the log file of a second. -/
def hugeName (second : ℕ) : Text :=
  text "@" ++ hexDigits (2 ^ 62 + second) ++ text "00000000.s"

/-- A log file for each of `2 ^ 32` seconds. -/
def hugeListing : List Text :=
  (List.range (2 ^ 32)).map hugeName

/-- With `2 ^ 32` candidates a round attempts nothing, as if it had none. -/
theorem performs_overflow {files : List Text} (hlength : files.length = 2 ^ 32) :
    Performs (dispatchNewLogs ⟨0⟩)
      [⟨.pickChannel, sampleChannel⟩,
        ⟨.listLogDirectory sampleChannel.sourceDir, files⟩,
        ⟨.logFilesNotOnTarget sampleChannel.sourceDir files sampleChannel.rsyncTarget, .ok files⟩,
        sent filesToShip 0,
        sent fullDirectoryShip 1,
        ⟨.waitForNewFileInDirectory sampleChannel.sourceDir 0, true⟩,
        ⟨.heartbeat, ()⟩] () := by
  have hzero : toInt files.length = 0 := by
    rw [hlength]
    decide
  refine performs_request_bind_iff.2 ⟨sampleChannel, _, rfl, ?_⟩
  refine performs_bind_iff.2 ⟨_ :: _ :: _ :: _ :: [], _, .ok files, rfl, ?_, ?_⟩
  · refine performs_request_bind_iff.2 ⟨files, _, rfl, ?_⟩
    refine performs_request_bind_iff.2 ⟨.ok files, _, rfl, ?_⟩
    show Performs (if files.length = 0 then _ else _) _ _
    rw [if_neg (by omega), tailIntersection_self]
    show Performs (sendMetric filesToShip (toInt files.length) >>= _) _ _
    rw [hzero]
    refine performs_request_bind_iff.2 ⟨(), _, rfl, ?_⟩
    show Performs (if files.length = files.length then _ else _) _ _
    rw [if_pos rfl]
    exact .request (.done _)
  · refine performs_bind_iff.2 ⟨[], _, .ok 0, rfl, ?_, ?_⟩
    · rw [shipCandidates, hzero]
      exact .done _
    · exact .request (.request (.done _))

/-- The accounts do not agree when a directory has a log file for each of `2 ^ 32` seconds. -/
theorem dispatchNewLogs_overflow :
    ∃ rest, Performs (dispatchNewLogs ⟨0⟩)
      (⟨.pickChannel, sampleChannel⟩ ::
        ⟨.listLogDirectory sampleChannel.sourceDir, hugeListing⟩ ::
        ⟨.logFilesNotOnTarget sampleChannel.sourceDir hugeListing sampleChannel.rsyncTarget,
          .ok hugeListing⟩ :: rest) () ∧
      ¬Accounted sampleChannel (tailIntersection hugeListing hugeListing) rest := by
  have hlength : hugeListing.length = 2 ^ 32 := by
    rw [hugeListing, List.length_map, List.length_range]
  refine ⟨_, performs_overflow hlength, fun h => ?_⟩
  have hall := h.goesThrough (fun attempt hattempt => absurd hattempt List.not_mem_nil)
  rw [tailIntersection_self, hlength] at hall
  exact absurd hall (by decide)

end Barn.Agent
