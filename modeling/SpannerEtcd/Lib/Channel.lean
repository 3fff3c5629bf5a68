import Mathlib

/-!
# A channel of batches

A first-in first-out channel with the record of what was put into it and of
what its reader took out.  Batches may be discarded on the way, so what the
reader has seen and will see is a sublist of what was sent.
-/

universe u

structure Channel (Item : Type u) where
  queue : List (List Item)
  received : List Item
  sent : List Item
  inOrder : (received ++ queue.flatten).Sublist sent

namespace Channel

variable {Item : Type u}

def empty : Channel Item :=
  { queue := [], received := [], sent := [], inOrder := by simp }

def send (channel : Channel Item) (batch : List Item) : Channel Item :=
  { queue := channel.queue ++ [batch]
    received := channel.received
    sent := channel.sent ++ batch
    inOrder := by
      simpa [List.append_assoc] using channel.inOrder.append (List.Sublist.refl batch) }

def receive (channel : Channel Item) : Option (Channel Item) :=
  match queued : channel.queue with
  | [] => none
  | batch :: rest => some
      { queue := rest
        received := channel.received ++ batch
        sent := channel.sent
        inOrder := by simpa [queued] using channel.inOrder }

def discard (channel : Channel Item) : Option (Channel Item) :=
  match queued : channel.queue with
  | [] => none
  | batch :: rest => some
      { queue := rest
        received := channel.received
        sent := channel.sent
        inOrder := by
          refine List.Sublist.trans ?_ channel.inOrder
          rw [queued, List.flatten_cons]
          exact (List.Sublist.refl _).append (List.sublist_append_right batch rest.flatten) }

@[simp]
theorem send_sent (channel : Channel Item) (batch : List Item) :
    (channel.send batch).sent = channel.sent ++ batch := rfl

@[simp]
theorem send_queue (channel : Channel Item) (batch : List Item) :
    (channel.send batch).queue = channel.queue ++ [batch] := rfl

theorem receive_queue {channel next : Channel Item} (received : channel.receive = some next) :
    ∃ batch, channel.queue = batch :: next.queue := by
  unfold receive at received
  split at received
  · cases received
  next batch rest queued =>
    cases received
    exact ⟨batch, queued⟩

theorem receive_received {channel next : Channel Item} (received : channel.receive = some next) :
    ∃ batch, channel.queue = batch :: next.queue ∧ next.received = channel.received ++ batch := by
  unfold receive at received
  split at received
  · cases received
  next batch rest queued =>
    cases received
    exact ⟨batch, queued, rfl⟩

theorem exists_receive {channel : Channel Item} {batch : List Item} {rest : List (List Item)}
    (queued : channel.queue = batch :: rest) :
    ∃ next, channel.receive = some next ∧ next.queue = rest := by
  unfold receive
  split
  next empty => simp [empty] at queued
  next other remaining found =>
    rw [found] at queued
    cases queued
    exact ⟨_, rfl, rfl⟩

theorem discard_queue {channel next : Channel Item} (discarded : channel.discard = some next) :
    ∃ batch, channel.queue = batch :: next.queue := by
  unfold discard at discarded
  split at discarded
  · cases discarded
  next batch rest queued =>
    cases discarded
    exact ⟨batch, queued⟩

theorem discard_none {channel : Channel Item} (empty : channel.discard = none) :
    channel.queue = [] := by
  unfold discard at empty
  split at empty
  next queued => exact queued
  · cases empty

theorem receive_sent {channel next : Channel Item} (received : channel.receive = some next) :
    next.sent = channel.sent := by
  unfold receive at received
  split at received
  · cases received
  · cases received
    rfl

theorem discard_sent {channel next : Channel Item} (discarded : channel.discard = some next) :
    next.sent = channel.sent := by
  unfold discard at discarded
  split at discarded
  · cases discarded
  · cases discarded
    rfl

theorem received_sublist (channel : Channel Item) : channel.received.Sublist channel.sent :=
  (List.sublist_append_left _ _).trans channel.inOrder

end Channel
