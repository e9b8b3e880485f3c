import Mathlib.Algebra.BigOperators.Group.Multiset.Basic
import Mathlib.Tactic.Abel

/-!
# Datagrams

Messages in a network that keeps no order and may lose any of them. Every message that was sent is
in flight, lost or received, as often as it was sent: there are no other states.
-/

namespace Interaction

/-- The messages that were sent, and what has become of them. -/
structure Datagrams (μ : Type) where
  sent : Multiset μ
  inFlight : Multiset μ
  lost : Multiset μ
  received : Multiset μ
  balanced : sent = inFlight + lost + received

namespace Datagrams

variable {μ : Type}

/-- Nothing was sent. -/
def empty : Datagrams μ where
  sent := 0
  inFlight := 0
  lost := 0
  received := 0
  balanced := rfl

/-- Messages are sent. -/
def send (messages : Multiset μ) (network : Datagrams μ) : Datagrams μ where
  sent := network.sent + messages
  inFlight := network.inFlight + messages
  lost := network.lost
  received := network.received
  balanced := by
    rw [network.balanced]
    abel

@[simp] theorem sent_send (messages : Multiset μ) (network : Datagrams μ) :
    (network.send messages).sent = network.sent + messages := rfl

@[simp] theorem received_send (messages : Multiset μ) (network : Datagrams μ) :
    (network.send messages).received = network.received := rfl

/-- The values of the messages that were sent add up to those of the messages in flight, lost and
received. -/
theorem sum_sent {α : Type} [AddCommMonoid α] (value : μ → α) (network : Datagrams μ) :
    (network.sent.map value).sum =
      (network.inFlight.map value).sum + (network.lost.map value).sum +
        (network.received.map value).sum := by
  rw [network.balanced, Multiset.map_add, Multiset.map_add, Multiset.sum_add, Multiset.sum_add]

variable [DecidableEq μ] {network network' : Datagrams μ} {message : μ}

/-- A message in flight is lost. -/
def lose (message : μ) (network : Datagrams μ) : Option (Datagrams μ) :=
  if h : message ∈ network.inFlight then
    some { network with
      inFlight := network.inFlight.erase message
      lost := message ::ₘ network.lost
      balanced := by
        rw [network.balanced, Multiset.add_cons, ← Multiset.cons_add, Multiset.cons_erase h] }
  else none

/-- A message in flight is received. -/
def receive (message : μ) (network : Datagrams μ) : Option (Datagrams μ) :=
  if h : message ∈ network.inFlight then
    some { network with
      inFlight := network.inFlight.erase message
      received := message ::ₘ network.received
      balanced := by
        rw [network.balanced, Multiset.add_cons, ← Multiset.cons_add, ← Multiset.cons_add,
          Multiset.cons_erase h] }
  else none

/-- A message that is lost makes no difference to what was sent or received. -/
theorem lose_eq_some (h : network.lose message = some network') :
    network'.sent = network.sent ∧ network'.received = network.received := by
  rw [lose] at h
  split at h
  · rw [← Option.some.inj h]
    exact ⟨rfl, rfl⟩
  · simp at h

/-- A message that is received was sent. -/
theorem receive_eq_some (h : network.receive message = some network') :
    message ∈ network.sent ∧ network'.sent = network.sent ∧
      network'.received = message ::ₘ network.received := by
  rw [receive] at h
  split at h
  · next hflight =>
      rw [← Option.some.inj h]
      refine ⟨?_, rfl, rfl⟩
      rw [network.balanced, add_assoc]
      exact Multiset.mem_add.2 (.inl hflight)
  · simp at h

end Datagrams

end Interaction
