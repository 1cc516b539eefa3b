import Mathlib.Data.List.Basic

/-!
A vector whose items can be pointed to: the storage that they stand in is another one after
each reallocation, and pointers into the old one are lost.
-/

structure Buffer (α : Type) where
  storage : Nat := 0
  capacity : Nat := 0
  items : List α := []

namespace Buffer

variable {α : Type}

def clear (buffer : Buffer α) : Buffer α := { buffer with items := [] }

def reserve (buffer : Buffer α) (count : Nat) : Buffer α :=
  if buffer.capacity < count then { buffer with storage := buffer.storage + 1, capacity := count }
  else buffer

def pushBack (buffer : Buffer α) (item : α) : Buffer α :=
  if buffer.items.length < buffer.capacity then { buffer with items := buffer.items ++ [item] }
  else
    { storage := buffer.storage + 1
      capacity := max 1 (2 * buffer.capacity)
      items := buffer.items ++ [item] }

def at? (buffer : Buffer α) (storage place : Nat) : Option α :=
  if storage = buffer.storage then buffer.items[place]? else none

theorem pushBack_room {buffer : Buffer α} (room : buffer.items.length < buffer.capacity) (item : α) :
    buffer.pushBack item = { buffer with items := buffer.items ++ [item] } := if_pos room

theorem reserve_room (buffer : Buffer α) (count : Nat) : count ≤ (buffer.reserve count).capacity := by
  rw [reserve]
  split
  · exact Nat.le_refl _
  · omega

@[simp] theorem reserve_items (buffer : Buffer α) (count : Nat) :
    (buffer.reserve count).items = buffer.items := by
  rw [reserve]
  split <;> rfl

end Buffer
