import RapidDb.Library.Bytes

/-!
# Reading and writing a sequence of fields

A reader takes a value from the front of a buffer and gives the rest, or fails when the buffer
ends first. A reader undoes a writer when it gives back the value that was written, whatever
follows. Fields, byte strings and counted lists are read back this way. A buffer in memory has
a fixed size, and a write has to stay within it.
-/

namespace RapidDb

namespace Bytes

/-- Takes an integer of a width from the front. -/
def takeField (width : ℕ) (buffer : List Byte) : Option (ℕ × List Byte) :=
  if buffer.length < width then none else some (readLE width buffer, buffer.drop width)

/-- Takes a number of bytes from the front. -/
def takeBytes (length : ℕ) (buffer : List Byte) : Option (List Byte × List Byte) :=
  if buffer.length < length then none else some (buffer.take length, buffer.drop length)

/-- Takes a number of values, each read with its position. -/
def takeMany {α : Type*} (read : ℕ → List Byte → Option (α × List Byte)) :
    ℕ → ℕ → List Byte → Option (List α × List Byte)
  | _, 0, buffer => some ([], buffer)
  | start, count + 1, buffer => do
      let (value, buffer) ← read start buffer
      let (values, buffer) ← takeMany read (start + 1) count buffer
      return (value :: values, buffer)

@[simp]
theorem takeField_writeLE (width value : ℕ) (rest : List Byte) :
    takeField width (writeLE width value ++ rest) = some (value % 256 ^ width, rest) := by
  have enough : ¬(writeLE width value ++ rest).length < width := by simp
  rw [takeField, if_neg enough, readLE_writeLE_append, List.drop_left' (length_writeLE width value)]

@[simp]
theorem takeBytes_append (bytes rest : List Byte) :
    takeBytes bytes.length (bytes ++ rest) = some (bytes, rest) := by
  have enough : ¬(bytes ++ rest).length < bytes.length := by simp
  rw [takeBytes, if_neg enough, List.take_left, List.drop_left]

theorem bind_read {α β : Type} {read : Option (α × List Byte)} {value : α} {rest : List Byte}
    (readBack : read = some (value, rest)) (next : α × List Byte → Option β) :
    (read >>= next) = next (value, rest) := by
  rw [readBack]
  rfl

theorem bind_takeField {β : Type} (width value : ℕ) (rest : List Byte)
    (next : ℕ × List Byte → Option β) :
    (takeField width (writeLE width value ++ rest) >>= next) =
      next (value % 256 ^ width, rest) :=
  bind_read (takeField_writeLE width value rest) next

theorem bind_takeBytes {β : Type} (bytes rest : List Byte)
    (next : List Byte × List Byte → Option β) :
    (takeBytes bytes.length (bytes ++ rest) >>= next) = next (bytes, rest) :=
  bind_read (takeBytes_append bytes rest) next

/-- A list is read back when each of its values is. -/
theorem takeMany_flatMap {α : Type*} {read : ℕ → List Byte → Option (α × List Byte)}
    {write : α → List Byte} {values : List α} {start : ℕ} (rest : List Byte)
    (readBack : ∀ (pos : ℕ) (value : α), values[pos]? = some value → ∀ rest,
      read (start + pos) (write value ++ rest) = some (value, rest)) :
    takeMany read start values.length (values.flatMap write ++ rest) = some (values, rest) := by
  induction values generalizing start with
  | nil => rfl
  | cons value values ih =>
      have head := readBack 0 value rfl (values.flatMap write ++ rest)
      have tail := ih (by
        intro pos other otherEq rest
        have after := readBack (pos + 1) other otherEq rest
        rwa [Nat.add_comm pos 1, ← Nat.add_assoc] at after)
      rw [Nat.add_zero] at head
      simp [takeMany, List.flatMap_cons, List.append_assoc, head, tail]

/-- Writes bytes at an offset of a buffer, none if they do not fit. -/
def store (offset : ℕ) (bytes buffer : List Byte) : Option (List Byte) :=
  if offset + bytes.length ≤ buffer.length then
    some (buffer.take offset ++ bytes ++ buffer.drop (offset + bytes.length))
  else none

theorem store_eq_none {offset : ℕ} {bytes buffer : List Byte}
    (outside : buffer.length < offset + bytes.length) : store offset bytes buffer = none :=
  if_neg (not_le_of_gt outside)

theorem store_eq_some {front old after bytes : List Byte} {offset : ℕ}
    (place : front.length = offset)
    (same : old.length = bytes.length) :
    store offset bytes (front ++ old ++ after) = some (front ++ bytes ++ after) := by
  have inside : offset + bytes.length ≤ (front ++ old ++ after).length := by
    simp only [List.length_append]
    omega
  have behind : (front ++ old ++ after).drop (offset + bytes.length) = after := by
    apply List.drop_left'
    rw [List.length_append, place, same]
  rw [store, if_pos inside, behind, List.append_assoc front old, List.take_left' place]

theorem length_store {offset : ℕ} {bytes buffer result : List Byte}
    (stored : store offset bytes buffer = some result) : result.length = buffer.length := by
  rw [store] at stored
  split at stored
  · next inside =>
      cases stored
      simp only [List.length_append, List.length_take, List.length_drop]
      omega
  · cases stored

end Bytes

end RapidDb
