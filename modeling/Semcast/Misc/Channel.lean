import Mathlib.Data.List.Basic

/-!
# Bounded channels

A queue with room for a number of items, between one that sends and one that receives. An
item is sent where there is room, and the first one sent is the first received.
-/

namespace Semcast.Channel

/-- A channel with room for `capacity` items. -/
structure Bounded (α : Type*) (capacity : Nat) where
  items : List α
  within : items.length ≤ capacity

variable {α : Type*} {capacity : Nat}

namespace Bounded

def empty : Bounded α capacity := ⟨[], Nat.zero_le _⟩

/-- Send an item, where there is room for it. -/
def send (channel : Bounded α capacity) (item : α) : Option (Bounded α capacity) :=
  if room : channel.items.length < capacity then
    some ⟨channel.items ++ [item], by
      rw [List.length_append, List.length_singleton]
      exact room⟩
  else none

/-- Receive the item that was sent first. -/
def receive (channel : Bounded α capacity) : Option (α × Bounded α capacity) :=
  match items : channel.items with
  | [] => none
  | item :: rest => some (item, ⟨rest, by
      have within := channel.within
      rw [items, List.length_cons] at within
      omega⟩)

@[simp] theorem items_empty : (empty : Bounded α capacity).items = [] := rfl

theorem items_of_send {channel after : Bounded α capacity} {item : α}
    (sent : channel.send item = some after) : after.items = channel.items ++ [item] := by
  unfold send at sent
  split at sent
  · cases sent
    rfl
  · cases sent

theorem items_of_receive {channel after : Bounded α capacity} {item : α}
    (received : channel.receive = some (item, after)) : channel.items = item :: after.items := by
  unfold receive at received
  split at received
  · cases received
  · rename_i items
    cases received
    exact items

/-- A channel that has an item hands it over. -/
theorem exists_receive {channel : Bounded α capacity} (some_sent : channel.items ≠ []) :
    ∃ item after, channel.receive = some (item, after) := by
  unfold receive
  split
  · rename_i none_sent
    exact absurd none_sent some_sent
  · exact ⟨_, _, rfl⟩

/-- A channel that is empty takes an item. -/
theorem exists_send {channel : Bounded α capacity} (positive : 0 < capacity)
    (none_sent : channel.items = []) (item : α) : ∃ after, channel.send item = some after := by
  have room : channel.items.length < capacity := by
    rw [none_sent]
    exact positive
  exact ⟨_, dif_pos room⟩

end Bounded

end Semcast.Channel
