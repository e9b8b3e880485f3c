import Mathlib.Data.List.Basic

/-!
# Channels that may lose messages

A `Channel` keeps messages in order and never makes one up, but it may drop a message that is sent.
What was sent and what was received stays in the state, so that a channel that is `Sound` says which
messages arrive. Messages of several origins that share a channel carry the origin as a tag;
`tagged` picks those of one origin.
-/

namespace Interaction

variable {α β τ : Type*}

/-- The messages that were sent, those in transit, and those that were received. -/
structure Channel (α : Type*) where
  sent : List α
  queue : List α
  received : List α

namespace Channel

/-- Nothing was sent. -/
def empty : Channel α :=
  ⟨[], [], []⟩

/-- A message is sent, and dropped unless it is `kept`. -/
def send (kept : Bool) (message : α) (channel : Channel α) : Channel α :=
  { channel with
    sent := channel.sent ++ [message]
    queue := if kept then channel.queue ++ [message] else channel.queue }

/-- The message that has been in transit longest is received. -/
def receive (channel : Channel α) : Option (α × Channel α) :=
  match channel.queue with
  | [] => none
  | message :: queue =>
      some (message, { channel with queue := queue, received := channel.received ++ [message] })

/-- What was or will be received. -/
def arriving (channel : Channel α) : List α :=
  channel.received ++ channel.queue

/-- What arrives was sent, in this order. -/
def Sound (channel : Channel α) : Prop :=
  channel.arriving.Sublist channel.sent

variable {channel channel' : Channel α} {message : α} {kept : Bool}

@[simp] theorem sent_send : (channel.send kept message).sent = channel.sent ++ [message] := rfl

@[simp] theorem received_send : (channel.send kept message).received = channel.received := rfl

/-- A message that is kept will arrive after all others. -/
theorem arriving_send :
    (channel.send kept message).arriving = channel.arriving ++ if kept then [message] else [] := by
  cases kept with
  | false => exact (List.append_nil _).symm
  | true => exact (List.append_assoc _ _ _).symm

/-- Whatever is received was in transit before all others. -/
theorem receive_eq_some (h : channel.receive = some (message, channel')) :
    channel.queue = message :: channel'.queue ∧ channel'.sent = channel.sent ∧
      channel'.received = channel.received ++ [message] := by
  obtain ⟨sent, queue, received⟩ := channel
  cases queue with
  | nil => simp [receive] at h
  | cons first queue =>
      obtain ⟨rfl, rfl⟩ := Prod.mk.inj (Option.some.inj h)
      exact ⟨rfl, rfl, rfl⟩

/-- To receive a message changes nothing about what arrives. -/
theorem arriving_receive (h : channel.receive = some (message, channel')) :
    channel'.arriving = channel.arriving := by
  obtain ⟨hqueue, _, hreceived⟩ := receive_eq_some h
  rw [arriving, arriving, hreceived, hqueue, List.append_assoc, List.singleton_append]

theorem sound_empty : (empty : Channel α).Sound :=
  List.Sublist.refl []

theorem Sound.send (h : channel.Sound) : (channel.send kept message).Sound := by
  rw [Sound, arriving_send, sent_send]
  refine List.Sublist.append h ?_
  split
  · exact List.Sublist.refl _
  · exact List.nil_sublist _

theorem Sound.receive (h : channel.Sound) (hreceive : channel.receive = some (message, channel')) :
    channel'.Sound := by
  rw [Sound, arriving_receive hreceive, (receive_eq_some hreceive).2.1]
  exact h

/-- Everything received was sent, in this order. -/
theorem Sound.received (h : channel.Sound) : channel.received.Sublist channel.sent :=
  (List.sublist_append_left _ _).trans h

end Channel

section Tagged

variable [DecidableEq τ]

/-- What stands under a tag, in order. -/
def tagged (tag : τ) (list : List (τ × β)) : List β :=
  (list.filter fun entry => entry.1 = tag).map Prod.snd

variable {tag other : τ} {list : List (τ × β)}

@[simp] theorem tagged_nil : tagged tag ([] : List (τ × β)) = [] := rfl

@[simp] theorem tagged_cons (value : β) :
    tagged tag ((other, value) :: list) =
      if other = tag then value :: tagged tag list else tagged tag list := by
  by_cases heq : other = tag <;> simp [tagged, heq]

@[simp] theorem tagged_append (list later : List (τ × β)) :
    tagged tag (list ++ later) = tagged tag list ++ tagged tag later := by
  rw [tagged, List.filter_append, List.map_append]
  rfl

/-- An order under all tags is one under each of them. -/
theorem tagged_sublist (tag : τ) {later : List (τ × β)} (h : list.Sublist later) :
    (tagged tag list).Sublist (tagged tag later) :=
  (h.filter _).map _

/-- What stands under a tag. -/
theorem mem_tagged {value : β} : value ∈ tagged tag list ↔ (tag, value) ∈ list := by
  simp [tagged]

/-- Values that consist of parts have them under their own tag. -/
theorem tagged_flatMap {γ : Type*} (parts : β → List γ) (list : List (τ × β)) :
    tagged tag (list.flatMap fun entry => (parts entry.2).map (entry.1, ·)) =
      (tagged tag list).flatMap parts := by
  induction list with
  | nil => rfl
  | cons entry list ih =>
      obtain ⟨first, value⟩ := entry
      have hparts : tagged tag ((parts value).map (first, ·)) =
          if first = tag then parts value else [] := by
        by_cases heq : first = tag <;> simp [tagged, heq, List.filter_map, Function.comp_def]
      rw [List.flatMap_cons, tagged_append, ih, hparts, tagged_cons]
      by_cases heq : first = tag <;> simp [heq]

end Tagged

end Interaction
