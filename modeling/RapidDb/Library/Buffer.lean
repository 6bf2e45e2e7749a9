import Mathlib.Data.List.TakeDrop
import RapidDb.Library.Bytes

/-!
# Writing into a buffer

A write replaces the bytes at an offset and leaves the others as they are. What is read beside it is
what was read before; at its own offset, a field not wider than the write reads the value written.
-/

namespace RapidDb

namespace Bytes

/-- A buffer with some of its bytes replaced. -/
def overwrite (offset : ℕ) (bytes buffer : List Byte) : List Byte :=
  buffer.take offset ++ (bytes ++ buffer.drop (offset + bytes.length))

def overwriteField (width offset value : ℕ) (buffer : List Byte) : List Byte :=
  overwrite offset (writeLE width value) buffer

variable {buffer bytes : List Byte} {offset start length width narrow value : ℕ}

theorem length_slice (inside : offset + length ≤ buffer.length) :
    (slice offset length buffer).length = length := by
  simp only [slice, List.length_take, List.length_drop]
  omega

theorem slice_slice (inside : start + narrow ≤ length) :
    slice start narrow (slice offset length buffer) = slice (offset + start) narrow buffer := by
  simp only [slice, List.drop_take, List.take_take, List.drop_drop]
  rw [min_eq_left (by omega)]

theorem slice_add (offset left right : ℕ) (buffer : List Byte) :
    slice offset (left + right) buffer =
      slice offset left buffer ++ slice (offset + left) right buffer := by
  simp only [slice, List.take_add, List.drop_drop]

theorem slice_append_left (inside : offset + length ≤ bytes.length) (rest : List Byte) :
    slice offset length (bytes ++ rest) = slice offset length bytes := by
  unfold slice
  rw [List.drop_append_of_le_length (by omega),
    List.take_append_of_le_length (by rw [List.length_drop]; omega)]

theorem slice_append_right (behind : bytes.length ≤ offset) (rest : List Byte) :
    slice offset length (bytes ++ rest) = slice (offset - bytes.length) length rest := by
  unfold slice
  rw [List.drop_append, List.drop_eq_nil_of_le behind, List.nil_append]

/-- A buffer read a field at a time needs the bytes of the field only. -/
theorem readLE_take_of_le (narrowLe : narrow ≤ width) (buffer : List Byte) :
    readLE narrow (buffer.take width) = readLE narrow buffer := by
  induction narrow generalizing width buffer with
  | zero => rfl
  | succ narrow ih =>
      cases width with
      | zero => omega
      | succ width =>
          cases buffer with
          | nil => rfl
          | cons byte buffer => simp [readLE, ih (Nat.le_of_succ_le_succ narrowLe)]

theorem fieldAt_slice (inside : start + width ≤ length) :
    fieldAt width start (slice offset length buffer) = fieldAt width (offset + start) buffer := by
  unfold fieldAt slice
  rw [List.drop_take, readLE_take_of_le (by omega), List.drop_drop]

theorem fieldAt_eq_of_slice_eq {buffer' : List Byte}
    (same : slice offset width buffer' = slice offset width buffer) :
    fieldAt width offset buffer' = fieldAt width offset buffer := by
  have field (buffer : List Byte) :
      fieldAt width 0 (slice offset width buffer) = fieldAt width offset buffer :=
    fieldAt_slice (by omega)
  rw [← field buffer', same, field buffer]

@[simp]
theorem length_overwrite (fits : offset + bytes.length ≤ buffer.length) :
    (overwrite offset bytes buffer).length = buffer.length := by
  simp only [overwrite, List.length_append, List.length_take, List.length_drop]
  omega

theorem getElem?_overwrite (inside : offset ≤ buffer.length) (index : ℕ) :
    (overwrite offset bytes buffer)[index]? =
      if offset ≤ index ∧ index < offset + bytes.length then bytes[index - offset]?
      else buffer[index]? := by
  have front : (buffer.take offset).length = offset := List.length_take_of_le inside
  unfold overwrite
  by_cases before : index < offset
  · rw [if_neg (by omega), List.getElem?_append_left (by omega), List.getElem?_take_of_lt before]
  · rw [List.getElem?_append_right (by omega), front]
    by_cases within : index < offset + bytes.length
    · rw [if_pos (by omega), List.getElem?_append_left (by omega)]
    · rw [if_neg (by omega), List.getElem?_append_right (by omega), List.getElem?_drop]
      congr 1
      omega

theorem slice_overwrite (fits : offset + bytes.length ≤ buffer.length) :
    slice offset bytes.length (overwrite offset bytes buffer) = bytes := by
  have front : (buffer.take offset).length = offset := by
    rw [List.length_take]
    omega
  unfold slice overwrite
  rw [List.drop_left' front, List.take_left' rfl]

theorem slice_overwrite_of_apart (fits : offset + bytes.length ≤ buffer.length)
    (apart : start + length ≤ offset ∨ offset + bytes.length ≤ start) :
    slice start length (overwrite offset bytes buffer) = slice start length buffer := by
  have front : (buffer.take offset).length = offset := by
    rw [List.length_take]
    omega
  unfold overwrite
  rcases apart with before | behind
  · rw [slice_append_left (by omega)]
    simp only [slice, List.drop_take, List.take_take]
    rw [min_eq_left (by omega)]
  · rw [slice_append_right (by omega), slice_append_right (by omega), front]
    simp only [slice, List.drop_drop]
    rw [show offset + bytes.length + (start - offset - bytes.length) = start by omega]

theorem fieldAt_overwrite_of_apart (fits : offset + bytes.length ≤ buffer.length)
    (apart : start + width ≤ offset ∨ offset + bytes.length ≤ start) :
    fieldAt width start (overwrite offset bytes buffer) = fieldAt width start buffer :=
  fieldAt_eq_of_slice_eq (slice_overwrite_of_apart fits apart)

@[simp]
theorem length_overwriteField (fits : offset + width ≤ buffer.length) :
    (overwriteField width offset value buffer).length = buffer.length :=
  length_overwrite (by simpa using fits)

theorem slice_overwriteField_of_apart (fits : offset + width ≤ buffer.length)
    (apart : start + length ≤ offset ∨ offset + width ≤ start) :
    slice start length (overwriteField width offset value buffer) = slice start length buffer :=
  slice_overwrite_of_apart (by simpa using fits) (by simpa using apart)

theorem fieldAt_overwriteField_of_apart (fits : offset + width ≤ buffer.length)
    (apart : start + narrow ≤ offset ∨ offset + width ≤ start) :
    fieldAt narrow start (overwriteField width offset value buffer) = fieldAt narrow start buffer :=
  fieldAt_eq_of_slice_eq (slice_overwriteField_of_apart fits apart)

theorem slice_overwriteField (fits : offset + width ≤ buffer.length) :
    slice offset width (overwriteField width offset value buffer) = writeLE width value := by
  have written : slice offset (writeLE width value).length
      (overwriteField width offset value buffer) = writeLE width value :=
    slice_overwrite (by simpa using fits)
  rwa [length_writeLE] at written

theorem writeLE_readLE (inside : width ≤ buffer.length) :
    writeLE width (readLE width buffer) = buffer.take width := by
  induction width generalizing buffer with
  | zero => rfl
  | succ width ih =>
      cases buffer with
      | nil => simp at inside
      | cons byte buffer =>
          have low : Fin.ofNat 256 (byte.val + 256 * readLE width buffer) = byte := by
            apply Fin.ext
            have less := byte.isLt
            simp only [Fin.ofNat]
            omega
          have high : (byte.val + 256 * readLE width buffer) / 256 = readLE width buffer := by
            have less := byte.isLt
            omega
          rw [readLE, writeLE, low, high, List.take_succ_cons, ih (by simpa using inside)]

theorem writeLE_fieldAt (inside : offset + width ≤ buffer.length) :
    writeLE width (fieldAt width offset buffer) = slice offset width buffer :=
  writeLE_readLE (by rw [List.length_drop]; omega)

theorem readLE_writeLE_of_le (narrowLe : narrow ≤ width) (rest : List Byte) :
    readLE narrow (writeLE width value ++ rest) = value % 256 ^ narrow := by
  induction narrow generalizing width value with
  | zero => simp [readLE, Nat.mod_one]
  | succ narrow ih =>
      cases width with
      | zero => omega
      | succ width =>
          have byteEq : (Fin.ofNat 256 value).val = value % 256 := rfl
          simp only [writeLE, List.cons_append, readLE, byteEq]
          rw [ih (Nat.le_of_succ_le_succ narrowLe), pow_succ, Nat.mul_comm (256 ^ narrow) 256,
            Nat.mod_mul]

theorem fieldAt_overwriteField (fits : offset ≤ buffer.length) (narrowLe : narrow ≤ width) :
    fieldAt narrow offset (overwriteField width offset value buffer) = value % 256 ^ narrow := by
  have front : (buffer.take offset).length = offset := by
    rw [List.length_take]
    omega
  unfold fieldAt overwriteField overwrite
  rw [List.drop_left' front, readLE_writeLE_of_le narrowLe]

/-! ## Several fields -/

structure Field where
  width : ℕ
  offset : ℕ
  value : ℕ

/-- Some fields are written one after the other. -/
def overwriteFields (fields : List Field) (buffer : List Byte) : List Byte :=
  fields.foldl (fun buffer field => overwriteField field.width field.offset field.value buffer)
    buffer

theorem length_overwriteFields {fields : List Field}
    (fits : ∀ field ∈ fields, field.offset + field.width ≤ buffer.length) :
    (overwriteFields fields buffer).length = buffer.length := by
  induction fields generalizing buffer with
  | nil => rfl
  | cons field fields ih =>
      have first : (overwriteField field.width field.offset field.value buffer).length =
          buffer.length := length_overwriteField (fits field (by simp))
      refine Eq.trans (ih fun other mem => ?_) first
      rw [first]
      exact fits other (by simp [mem])

theorem slice_overwriteFields_of_apart {fields : List Field}
    (fits : ∀ field ∈ fields, field.offset + field.width ≤ buffer.length)
    (apart : ∀ field ∈ fields,
      start + length ≤ field.offset ∨ field.offset + field.width ≤ start) :
    slice start length (overwriteFields fields buffer) = slice start length buffer := by
  induction fields generalizing buffer with
  | nil => rfl
  | cons field fields ih =>
      have first : (overwriteField field.width field.offset field.value buffer).length =
          buffer.length := length_overwriteField (fits field (by simp))
      refine Eq.trans (ih (fun other mem => ?_) fun other mem => apart other (by simp [mem]))
        (slice_overwriteField_of_apart (fits field (by simp)) (apart field (by simp)))
      rw [first]
      exact fits other (by simp [mem])

/-- A field reads what the last write that touches it has written there. -/
theorem fieldAt_overwriteFields {fields : List Field} (position : ℕ)
    (found : fields[position]? = some ⟨width, offset, value⟩)
    (fits : ∀ field ∈ fields, field.offset + field.width ≤ buffer.length)
    (narrowLe : narrow ≤ width)
    (apart : ∀ other ∈ fields.drop (position + 1),
      offset + narrow ≤ other.offset ∨ other.offset + other.width ≤ offset)
    (small : value < 256 ^ narrow) :
    fieldAt narrow offset (overwriteFields fields buffer) = value := by
  induction fields generalizing position buffer with
  | nil => simp at found
  | cons head fields ih =>
      have first : (overwriteField head.width head.offset head.value buffer).length =
          buffer.length := length_overwriteField (fits head (by simp))
      have others : ∀ other ∈ fields, other.offset + other.width ≤
          (overwriteField head.width head.offset head.value buffer).length := by
        rw [first]
        exact fun other mem => fits other (by simp [mem])
      cases position with
      | zero =>
          have same : head = ⟨width, offset, value⟩ := by simpa using found
          subst same
          have fit := fits ⟨width, offset, value⟩ (by simp)
          have kept := fieldAt_eq_of_slice_eq (slice_overwriteFields_of_apart others apart)
          have read : fieldAt narrow offset (overwriteField width offset value buffer) =
              value % 256 ^ narrow := fieldAt_overwriteField (Nat.le_of_add_right_le fit) narrowLe
          rw [Nat.mod_eq_of_lt small] at read
          exact kept.trans read
      | succ position => exact ih position (by simpa using found) others (by simpa using apart)

end Bytes

end RapidDb
