import Barn.Agent.Metrics
import Barn.Platform.Words
import Mathlib.Algebra.Order.Group.Int
import Mathlib.Data.List.Induction

/-!
# Choosing between the primary and the secondary channel

The selectors of `channel_selector.h` and the timing of failovers. A `FailoverChannelSelector`
keeps one timestamp: on the primary channel the last heartbeat, on the secondary one the time of
the flip. `history` records what every call of a run did; `Tracks` relates the timestamp to it
and is preserved by every call (`Tracks.step`). Read `failover_timing` last.
-/

namespace Barn.Agent

variable {T : Type}

/-- A time based selector. The constructor asserts that the interval is positive. -/
structure FailoverChannelSelector (T : Type) where
  primary : T
  secondary : T
  secondsBeforeFailover : Int
  secondsBeforeFailover_pos : 0 < secondsBeforeFailover
  primaryOk : Bool
  lastHeartbeatTime : Int

namespace FailoverChannelSelector

/-- The constructor, run at time `now`. -/
def construct (primary secondary : T) (secondsBeforeFailover : Int)
    (hpos : 0 < secondsBeforeFailover) (now : Int) : FailoverChannelSelector T where
  primary := primary
  secondary := secondary
  secondsBeforeFailover := secondsBeforeFailover
  secondsBeforeFailover_pos := hpos
  primaryOk := true
  lastHeartbeatTime := now

/-- The channel in use. -/
def current (selector : FailoverChannelSelector T) : T :=
  if selector.primaryOk then selector.primary else selector.secondary

/-- A heartbeat counts on the primary channel only. -/
def heartbeat (now : Int) (selector : FailoverChannelSelector T) : FailoverChannelSelector T :=
  if selector.primaryOk then { selector with lastHeartbeatTime := now } else selector

/-- `pick_channel`: flip to the other channel once the interval is over. The channel returned is
the `current` one of the result. -/
def pickChannel (now : Int) (selector : FailoverChannelSelector T) : FailoverChannelSelector T :=
  let timeSinceHeartbeat := now - selector.lastHeartbeatTime
  if selector.primaryOk ∧ timeSinceHeartbeat < selector.secondsBeforeFailover then
    selector
  else if selector.primaryOk then
    { selector with primaryOk := false, lastHeartbeatTime := now }
  else if timeSinceHeartbeat < selector.secondsBeforeFailover then
    selector
  else
    { selector with primaryOk := true, lastHeartbeatTime := now }

/-- `send_metrics`: the time difference is passed as an `int`. -/
def sendMetrics (now : Int) (selector : FailoverChannelSelector T) : List Report :=
  (timeSinceSuccess, toInt (now - selector.lastHeartbeatTime)) ::
    if selector.primaryOk then [] else [(failedOverAgents, 1)]

/-- The calls that change a selector. -/
inductive Call where
  | pickChannel
  | heartbeat
  deriving DecidableEq

/-- A call and the time the clock shows at it. -/
structure TimedCall where
  time : Int
  call : Call
  deriving DecidableEq

/-- The selector after one call. -/
def step (selector : FailoverChannelSelector T) (timed : TimedCall) : FailoverChannelSelector T :=
  match timed.call with
  | .pickChannel => selector.pickChannel timed.time
  | .heartbeat => selector.heartbeat timed.time

/-- The selector after a sequence of calls. -/
def run (selector : FailoverChannelSelector T) (calls : List TimedCall) :
    FailoverChannelSelector T :=
  calls.foldl step selector

/-- The channels that the picks of a sequence of calls return. -/
def picks (selector : FailoverChannelSelector T) : List TimedCall → List T
  | [] => []
  | timed :: calls =>
      let next := selector.step timed
      match timed.call with
      | .pickChannel => next.current :: next.picks calls
      | .heartbeat => next.picks calls

/-- What a call did to the selector. -/
inductive Happening where
  | stayed
  | failedOver
  | failedBack
  | heartbeatOnPrimary
  | heartbeatOnSecondary
  deriving DecidableEq

/-- What this call does to this selector. -/
def happening (selector : FailoverChannelSelector T) (timed : TimedCall) : Happening :=
  match timed.call with
  | .heartbeat => if selector.primaryOk then .heartbeatOnPrimary else .heartbeatOnSecondary
  | .pickChannel =>
      if selector.primaryOk = (selector.step timed).primaryOk then .stayed
      else if selector.primaryOk then .failedOver else .failedBack

/-- The times and effects of a sequence of calls. -/
def history (selector : FailoverChannelSelector T) : List TimedCall → List (Int × Happening)
  | [] => []
  | timed :: calls => (timed.time, selector.happening timed) :: (selector.step timed).history calls

/-- The second sequence is the first one without some heartbeats made on the secondary channel. -/
inductive DropsSecondaryHeartbeats :
    FailoverChannelSelector T → List TimedCall → List TimedCall → Prop where
  | nil {selector} : DropsSecondaryHeartbeats selector [] []
  | keep {selector timed calls kept} :
      DropsSecondaryHeartbeats (selector.step timed) calls kept →
      DropsSecondaryHeartbeats selector (timed :: calls) (timed :: kept)
  | drop {selector time calls kept} :
      selector.primaryOk = false →
      DropsSecondaryHeartbeats (selector.step ⟨time, .heartbeat⟩) calls kept →
      DropsSecondaryHeartbeats selector (⟨time, .heartbeat⟩ :: calls) kept

end FailoverChannelSelector

/-- The times at which something of the given kinds happened. -/
def timesOf (kinds : List FailoverChannelSelector.Happening)
    (history : List (Int × FailoverChannelSelector.Happening)) : List Int :=
  (history.filter fun entry => entry.2 ∈ kinds).map Prod.fst

@[simp] theorem timesOf_append (kinds : List FailoverChannelSelector.Happening)
    (first second : List (Int × FailoverChannelSelector.Happening)) :
    timesOf kinds (first ++ second) = timesOf kinds first ++ timesOf kinds second := by
  simp [timesOf]

namespace FailoverChannelSelector

variable {selector : FailoverChannelSelector T} {now : Int} {timed : TimedCall}
  {calls : List TimedCall}

@[simp] theorem run_append (first second : List TimedCall) :
    selector.run (first ++ second) = (selector.run first).run second := by
  simp [run]

theorem run_singleton : selector.run [timed] = selector.step timed := rfl

theorem history_append (first second : List TimedCall) :
    selector.history (first ++ second) =
      selector.history first ++ (selector.run first).history second := by
  induction first generalizing selector with
  | nil => rfl
  | cons timed calls ih => simp [history, ih, run]

@[simp] theorem history_singleton :
    selector.history [timed] = [(timed.time, selector.happening timed)] := rfl

/-- A pick flips the channel exactly when the interval since the timestamp is over, and then the
timestamp is the time of the flip. -/
theorem pickChannel_cases (now : Int) (selector : FailoverChannelSelector T) :
    (now - selector.lastHeartbeatTime < selector.secondsBeforeFailover ∧
      selector.pickChannel now = selector) ∨
    (selector.secondsBeforeFailover ≤ now - selector.lastHeartbeatTime ∧
      selector.pickChannel now =
        { selector with primaryOk := !selector.primaryOk, lastHeartbeatTime := now }) := by
  by_cases hlate : now - selector.lastHeartbeatTime < selector.secondsBeforeFailover
  · left
    refine ⟨hlate, ?_⟩
    cases hok : selector.primaryOk <;> simp [pickChannel, hlate, hok]
  · right
    refine ⟨by omega, ?_⟩
    cases hok : selector.primaryOk <;> simp [pickChannel, hlate, hok]

@[simp] theorem step_secondsBeforeFailover :
    (selector.step timed).secondsBeforeFailover = selector.secondsBeforeFailover := by
  unfold step
  split
  · obtain ⟨_, h⟩ | ⟨_, h⟩ := pickChannel_cases timed.time selector <;> rw [h]
  · unfold heartbeat
    split <;> rfl

@[simp] theorem run_secondsBeforeFailover :
    (selector.run calls).secondsBeforeFailover = selector.secondsBeforeFailover := by
  induction calls using List.reverseRecOn with
  | nil => rfl
  | append_singleton calls timed ih => simp [run_singleton, ih]

/-- What the timestamp means after a run with the given history that began at `start`, when the
clock has reached `now`. -/
structure Tracks (start : Int) (history : List (Int × Happening)) (now : Int)
    (selector : FailoverChannelSelector T) : Prop where
  notAhead : selector.lastHeartbeatTime ≤ now
  afterStart : start ≤ selector.lastHeartbeatTime
  afterChanges : ∀ time ∈ timesOf [.failedOver, .failedBack] history,
    time ≤ selector.lastHeartbeatTime
  afterHeartbeats : ∀ time ∈ timesOf [.heartbeatOnPrimary] history,
    time ≤ selector.lastHeartbeatTime
  onPrimary : selector.primaryOk = true →
    selector.lastHeartbeatTime = start ∨
    (timesOf [.failedBack] history).getLast? = some selector.lastHeartbeatTime ∨
    selector.lastHeartbeatTime ∈ timesOf [.heartbeatOnPrimary] history
  onSecondary : selector.primaryOk = false →
    (timesOf [.failedOver] history).getLast? = some selector.lastHeartbeatTime

/-- A fresh selector's timestamp is the time of its construction. -/
theorem Tracks.construct {primary secondary : T} {seconds : Int} (hpos : 0 < seconds)
    (start : Int) : Tracks start [] start (construct primary secondary seconds hpos start) where
  notAhead := le_refl start
  afterStart := le_refl start
  afterChanges := by simp [timesOf]
  afterHeartbeats := by simp [timesOf]
  onPrimary := fun _ => .inl rfl
  onSecondary := fun h => by simp [FailoverChannelSelector.construct] at h

/-- Staying where it is, and a heartbeat on the secondary channel, leave the timestamp's meaning. -/
theorem Tracks.neutral {start time : Int} {history : List (Int × Happening)} {kind : Happening}
    (h : Tracks start history now selector) (hlater : now ≤ time)
    (hkind : kind = .stayed ∨ kind = .heartbeatOnSecondary) :
    Tracks start (history ++ [(time, kind)]) time selector := by
  have hsame : ∀ kinds : List Happening, .stayed ∉ kinds → .heartbeatOnSecondary ∉ kinds →
      timesOf kinds (history ++ [(time, kind)]) = timesOf kinds history := by
    intro kinds hstayed hsecondary
    obtain rfl | rfl := hkind <;> simp [timesOf, hstayed, hsecondary]
  constructor
  · exact h.notAhead.trans hlater
  · exact h.afterStart
  · rw [hsame _ (by decide) (by decide)]
    exact h.afterChanges
  · rw [hsame _ (by decide) (by decide)]
    exact h.afterHeartbeats
  · rw [hsame _ (by decide) (by decide), hsame _ (by decide) (by decide)]
    exact h.onPrimary
  · rw [hsame _ (by decide) (by decide)]
    exact h.onSecondary

/-- A heartbeat on the primary channel becomes the timestamp. -/
theorem Tracks.beat {start time : Int} {history : List (Int × Happening)}
    (h : Tracks start history now selector) (hlater : now ≤ time)
    (hok : selector.primaryOk = true) :
    Tracks start (history ++ [(time, .heartbeatOnPrimary)]) time
      { selector with lastHeartbeatTime := time } := by
  have hold := h.notAhead.trans hlater
  constructor
  · exact le_refl time
  · exact h.afterStart.trans hold
  · intro t ht
    exact (h.afterChanges t (by simpa [timesOf] using ht)).trans hold
  · intro t ht
    rw [timesOf_append, List.mem_append] at ht
    obtain ht | ht := ht
    · exact (h.afterHeartbeats t ht).trans hold
    · simp only [timesOf, List.filter, List.mem_singleton, decide_true, List.map_cons,
        List.map_nil] at ht
      exact ht.le
  · exact fun _ => .inr (.inr (by simp [timesOf]))
  · simp [hok]

/-- A flip makes its own time the timestamp. -/
theorem Tracks.flip {start time : Int} {history : List (Int × Happening)}
    (h : Tracks start history now selector) (hlater : now ≤ time) :
    Tracks start
      (history ++ [(time, if selector.primaryOk then .failedOver else .failedBack)]) time
      { selector with primaryOk := !selector.primaryOk, lastHeartbeatTime := time } := by
  have hold := h.notAhead.trans hlater
  constructor
  · exact le_refl time
  · exact h.afterStart.trans hold
  · intro t ht
    rw [timesOf_append, List.mem_append] at ht
    obtain ht | ht := ht
    · exact (h.afterChanges t ht).trans hold
    · cases hok : selector.primaryOk <;> simp [timesOf, hok] at ht <;> exact ht.le
  · intro t ht
    refine (h.afterHeartbeats t ?_).trans hold
    cases hok : selector.primaryOk <;> simpa [timesOf, hok] using ht
  · intro hok
    have hwas : selector.primaryOk = false := by simpa using hok
    exact .inr (.inl (by simp [timesOf, hwas]))
  · intro hok
    have hwas : selector.primaryOk = true := by simpa using hok
    simp [timesOf, hwas]

/-- Every call keeps the meaning of the timestamp. -/
theorem Tracks.step {start : Int} {history : List (Int × Happening)}
    (h : Tracks start history now selector) (hlater : now ≤ timed.time) :
    Tracks start (history ++ [(timed.time, selector.happening timed)]) timed.time
      (selector.step timed) := by
  obtain ⟨time, call⟩ := timed
  cases call with
  | heartbeat =>
      cases hok : selector.primaryOk with
      | true => simpa [FailoverChannelSelector.step, heartbeat, happening, hok] using
          h.beat hlater hok
      | false => simpa [FailoverChannelSelector.step, heartbeat, happening, hok] using
          h.neutral hlater (.inr rfl)
  | pickChannel =>
      obtain ⟨_, hsame⟩ | ⟨_, hflip⟩ := pickChannel_cases time selector
      · have hstep : selector.step ⟨time, .pickChannel⟩ = selector := hsame
        simpa [happening, hstep] using h.neutral hlater (.inl rfl)
      · have hstep : selector.step ⟨time, .pickChannel⟩ =
            { selector with primaryOk := !selector.primaryOk, lastHeartbeatTime := time } := hflip
        simpa [happening, hstep] using h.flip hlater

/-- The timestamp keeps its meaning along every run at non-decreasing times. -/
theorem Tracks.run {start : Int} {history : List (Int × Happening)}
    (h : Tracks start history now selector)
    (hmono : (now :: calls.map TimedCall.time).Pairwise (· ≤ ·)) :
    Tracks start (history ++ selector.history calls) ((calls.map TimedCall.time).getLastD now)
      (selector.run calls) := by
  induction calls generalizing selector history now with
  | nil => simpa [FailoverChannelSelector.history, FailoverChannelSelector.run] using h
  | cons timed calls ih =>
      rw [List.map_cons, List.pairwise_cons] at hmono
      have hnext := ih (h.step (hmono.1 _ List.mem_cons_self)) hmono.2
      rw [List.append_assoc] at hnext
      rw [List.map_cons, List.getLastD_cons]
      exact hnext

/-- A pick flips the channel exactly when the interval since the timestamp is over. -/
theorem happening_pick_eq_stayed_iff :
    selector.happening ⟨now, .pickChannel⟩ = .stayed ↔
      now - selector.lastHeartbeatTime < selector.secondsBeforeFailover := by
  obtain ⟨hearly, h⟩ | ⟨hlate, h⟩ := pickChannel_cases now selector
  · simp [happening, step, h, hearly]
  · cases hok : selector.primaryOk <;> simp [happening, step, h, hok, hlate]

/-- A pick fails over exactly when it leaves the primary channel. -/
theorem happening_pick_eq_failedOver_iff :
    selector.happening ⟨now, .pickChannel⟩ = .failedOver ↔
      selector.primaryOk = true ∧
        selector.secondsBeforeFailover ≤ now - selector.lastHeartbeatTime := by
  obtain ⟨hearly, h⟩ | ⟨hlate, h⟩ := pickChannel_cases now selector
  · simp [happening, step, h, hearly]
  · cases hok : selector.primaryOk <;> simp [happening, step, h, hok, hlate]

/-- A pick fails back exactly when it leaves the secondary channel. -/
theorem happening_pick_eq_failedBack_iff :
    selector.happening ⟨now, .pickChannel⟩ = .failedBack ↔
      selector.primaryOk = false ∧
        selector.secondsBeforeFailover ≤ now - selector.lastHeartbeatTime := by
  obtain ⟨hearly, h⟩ | ⟨hlate, h⟩ := pickChannel_cases now selector
  · cases hok : selector.primaryOk <;> simp [happening, step, h, hok, hearly]
  · cases hok : selector.primaryOk <;> simp [happening, step, h, hok, hlate]

/-- The timestamp lies at or before a limit exactly when the construction, the last failback and
every heartbeat on the primary channel do. -/
theorem Tracks.primary_iff {start limit : Int} {history : List (Int × Happening)}
    (h : Tracks start history now selector) (hok : selector.primaryOk = true) :
    selector.lastHeartbeatTime ≤ limit ↔
      start ≤ limit ∧ (∀ time ∈ (timesOf [.failedBack] history).getLast?, time ≤ limit) ∧
        ∀ time ∈ timesOf [.heartbeatOnPrimary] history, time ≤ limit := by
  constructor
  · intro hlimit
    refine ⟨h.afterStart.trans hlimit, ?_, ?_⟩
    · intro time htime
      have hmem := List.mem_of_getLast? htime
      refine (h.afterChanges time ?_).trans hlimit
      simp only [timesOf, List.mem_map, List.mem_filter, List.mem_singleton,
        decide_eq_true_eq] at hmem ⊢
      obtain ⟨entry, ⟨hentry, hkind⟩, rfl⟩ := hmem
      exact ⟨entry, ⟨hentry, by simp [hkind]⟩, rfl⟩
    · exact fun time htime => (h.afterHeartbeats time htime).trans hlimit
  · rintro ⟨hstart, hback, hbeat⟩
    obtain heq | hlast | hmem := h.onPrimary hok
    · exact heq ▸ hstart
    · exact hback _ hlast
    · exact hbeat _ hmem

/-- Any two flips of a run lie at least the interval apart. -/
theorem Tracks.changes_apart {start : Int}
    (h : Tracks start [] start selector)
    (hmono : (start :: calls.map TimedCall.time).Pairwise (· ≤ ·)) :
    (timesOf [.failedOver, .failedBack] (selector.history calls)).Pairwise
      fun earlier later => selector.secondsBeforeFailover ≤ later - earlier := by
  induction calls using List.reverseRecOn with
  | nil => exact .nil
  | append_singleton calls timed ih =>
      have hbefore : (start :: calls.map TimedCall.time).Pairwise (· ≤ ·) := by
        rw [List.map_append, ← List.cons_append, List.pairwise_append] at hmono
        exact hmono.1
      have htracks := h.run hbefore
      rw [history_append, timesOf_append, List.pairwise_append]
      refine ⟨ih hbefore, ?_, ?_⟩
      · exact ((List.pairwise_singleton _ _).sublist List.filter_sublist).map _ fun _ _ h => h
      intro earlier hearlier later hlater
      obtain ⟨time, call⟩ := timed
      have hafter := htracks.afterChanges earlier (by simpa using hearlier)
      have hflip : later = time ∧ selector.secondsBeforeFailover ≤
          time - (selector.run calls).lastHeartbeatTime := by
        cases call with
        | heartbeat =>
            cases hok : (selector.run calls).primaryOk <;>
              simp [timesOf, history_singleton, happening, hok] at hlater
        | pickChannel =>
            by_cases hstay : (selector.run calls).happening ⟨time, .pickChannel⟩ = .stayed
            · simp [timesOf, history_singleton, hstay] at hlater
            · rw [happening_pick_eq_stayed_iff, run_secondsBeforeFailover] at hstay
              refine ⟨?_, by omega⟩
              simp only [timesOf, history_singleton, List.mem_map, List.mem_filter,
                List.mem_singleton] at hlater
              obtain ⟨entry, ⟨rfl, _⟩, rfl⟩ := hlater
              rfl
      omega

/-- Heartbeats on the secondary channel do not influence any pick. -/
theorem DropsSecondaryHeartbeats.picks_eq {kept : List TimedCall}
    (h : DropsSecondaryHeartbeats selector calls kept) :
    selector.picks kept = selector.picks calls := by
  induction h with
  | nil => rfl
  | @keep selector timed calls kept _ ih =>
      obtain ⟨time, call⟩ := timed
      cases call <;> simp [picks, ih]
  | @drop selector time calls kept hsecondary _ ih =>
      have hsame : selector.step ⟨time, .heartbeat⟩ = selector := by
        simp [step, heartbeat, hsecondary]
      rw [hsame] at ih
      simp [picks, hsame, ih]

/-- When a pick fails over and when it fails back, and how the flips and the timestamp lie in
time. The reported difference is non-negative as long as it fits an `int`. -/
theorem failover_timing (primary secondary : T) (seconds : Int) (hpos : 0 < seconds)
    (start : Int) (calls : List TimedCall)
    (hmono : (start :: calls.map TimedCall.time).Pairwise (· ≤ ·)) :
    let selector := construct primary secondary seconds hpos start
    (∀ before time after, calls = before ++ ⟨time, .pickChannel⟩ :: after →
      let past := selector.history before
      ((selector.run before).happening ⟨time, .pickChannel⟩ = .failedOver ↔
        (selector.run before).primaryOk = true ∧ start ≤ time - seconds ∧
          (∀ back ∈ (timesOf [.failedBack] past).getLast?, back ≤ time - seconds) ∧
          ∀ beat ∈ timesOf [.heartbeatOnPrimary] past, beat ≤ time - seconds) ∧
      ((selector.run before).happening ⟨time, .pickChannel⟩ = .failedBack ↔
        (selector.run before).primaryOk = false ∧
          ∃ swapped ∈ (timesOf [.failedOver] past).getLast?, seconds ≤ time - swapped)) ∧
    (∀ kept, DropsSecondaryHeartbeats selector calls kept →
      selector.picks kept = selector.picks calls) ∧
    (timesOf [.failedOver, .failedBack] (selector.history calls)).Pairwise
      (fun earlier later => seconds ≤ later - earlier) ∧
    ∀ before after, calls = before ++ after →
      ∀ now, (before.map TimedCall.time).getLastD start ≤ now →
        (selector.run before).lastHeartbeatTime ≤ now ∧
        (now - (selector.run before).lastHeartbeatTime < 2 ^ 31 →
          ∀ value, (timeSinceSuccess, value) ∈ (selector.run before).sendMetrics now →
            0 ≤ value) := by
  intro selector
  have hfresh : Tracks start [] start selector := Tracks.construct hpos start
  -- Every prefix of the calls keeps `Tracks`, and what a pick does is read from it.
  have hbefore : ∀ before after, calls = before ++ after →
      Tracks start (selector.history before) ((before.map TimedCall.time).getLastD start)
        (selector.run before) := by
    rintro before after rfl
    rw [List.map_append, ← List.cons_append, List.pairwise_append] at hmono
    exact hfresh.run hmono.1
  have hseconds : ∀ before, (selector.run before).secondsBeforeFailover = seconds :=
    fun before => run_secondsBeforeFailover
  refine ⟨?_, fun kept hkept => hkept.picks_eq, hfresh.changes_apart hmono, ?_⟩
  · intro before time after hcalls past
    have htracks := hbefore before _ hcalls
    constructor
    · rw [happening_pick_eq_failedOver_iff, hseconds]
      refine and_congr_right fun hok => ?_
      rw [← htracks.primary_iff hok]
      omega
    · rw [happening_pick_eq_failedBack_iff, hseconds]
      refine and_congr_right fun hok => ?_
      simp [past, htracks.onSecondary hok]
  · intro before after hcalls now hnow
    have hlast := (hbefore before after hcalls).notAhead.trans hnow
    refine ⟨hlast, fun hfits value hvalue => ?_⟩
    -- The difference is narrowed to an `int`: where it fits, it is the difference of the times.
    rw [sendMetrics, toInt_of_range (by omega) hfits, List.mem_cons] at hvalue
    obtain hvalue | hvalue := hvalue
    · simp only [Prod.mk.injEq, true_and] at hvalue
      omega
    · split at hvalue
      · simp at hvalue
      · rw [List.mem_singleton] at hvalue
        exact absurd (congrArg Prod.fst hvalue) (by simp [timeSinceSuccess, failedOverAgents, text])

/-- An hour of failovers: silence on the primary channel, then a heartbeat on the secondary one. -/
theorem failover_timing_hour :
    ((construct (text "primary") (text "secondary") 61 (by decide) 0).run
      [⟨61, .pickChannel⟩, ⟨70, .heartbeat⟩]).happening ⟨122, .pickChannel⟩ = .failedBack :=
  (((failover_timing (text "primary") (text "secondary") 61 (by decide) 0
    [⟨61, .pickChannel⟩, ⟨70, .heartbeat⟩, ⟨122, .pickChannel⟩] (by decide)).1
      [⟨61, .pickChannel⟩, ⟨70, .heartbeat⟩] 122 [] rfl).2).2
    ⟨by decide, 61, by decide, by decide⟩

/-- After 2 ^ 31 seconds of silence the reported difference is negative. -/
theorem sendMetrics_negative :
    ¬ ∀ value, (timeSinceSuccess, value) ∈
      (construct (text "primary") (text "secondary") 61 (by decide) 0).sendMetrics (2 ^ 31) →
        0 ≤ value := by
  intro h
  exact absurd (h (-2 ^ 31) (by decide)) (by decide)

end FailoverChannelSelector

/-- The selectors an agent can be started with: a `SingleChannelSelector` always picks the same
channel and sends no metrics. -/
inductive ChannelSelector (T : Type) where
  | single (channel : T)
  | failover (selector : FailoverChannelSelector T)

namespace ChannelSelector

/-- The channel in use. -/
def current : ChannelSelector T → T
  | .single channel => channel
  | .failover selector => selector.current

/-- A sign of life of the channel in use. -/
def heartbeat (now : Int) : ChannelSelector T → ChannelSelector T
  | .single channel => .single channel
  | .failover selector => .failover (selector.heartbeat now)

/-- Choose the channel to use next; it is the `current` one of the result. -/
def pickChannel (now : Int) : ChannelSelector T → ChannelSelector T
  | .single channel => .single channel
  | .failover selector => .failover (selector.pickChannel now)

/-- What the selector reports about itself. -/
def sendMetrics (now : Int) : ChannelSelector T → List Report
  | .single _ => []
  | .failover selector => selector.sendMetrics now

end ChannelSelector

end Barn.Agent
