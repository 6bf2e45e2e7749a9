import Mathlib.Data.List.Basic
import Mathlib.Tactic.Ring
import Mathlib.Algebra.Order.Ring.Nat

/-!
# Byte strings and little-endian fields

A buffer is a list of bytes. Fixed-width integers are stored with their least
significant byte first; reading a field past the end of a buffer reads zeros.
-/

namespace RapidDb

/-- A byte, with the order and the arithmetic of `Fin 256`. -/
abbrev Byte := Fin 256

instance neZero_byte : NeZero 256 := ⟨by decide⟩

namespace Bytes

/-- The `width` bytes of `value`, least significant byte first. -/
def writeLE : ℕ → ℕ → List Byte
  | 0, _ => []
  | width + 1, value => Fin.ofNat 256 value :: writeLE width (value / 256)

/-- The integer stored in the first `width` bytes of a buffer. -/
def readLE : ℕ → List Byte → ℕ
  | 0, _ => 0
  | _ + 1, [] => 0
  | width + 1, byte :: rest => byte.val + 256 * readLE width rest

/-- The integer stored in the `width` bytes at an offset of a buffer. -/
def fieldAt (width offset : ℕ) (buffer : List Byte) : ℕ :=
  readLE width (buffer.drop offset)

/-- The `length` bytes at an offset of a buffer. -/
def slice (offset length : ℕ) (buffer : List Byte) : List Byte :=
  (buffer.drop offset).take length

/-- A buffer extended with zeros to at least `length` bytes. -/
def padTo (length : ℕ) (buffer : List Byte) : List Byte :=
  buffer ++ List.replicate (length - buffer.length) 0

@[simp]
theorem length_writeLE (width value : ℕ) : (writeLE width value).length = width := by
  induction width generalizing value with
  | zero => rfl
  | succ width ih => simp [writeLE, ih]

/-- Reading back a written field gives the value modulo its width. -/
theorem readLE_writeLE_append (width value : ℕ) (rest : List Byte) :
    readLE width (writeLE width value ++ rest) = value % 256 ^ width := by
  induction width generalizing value with
  | zero => simp [readLE, Nat.mod_one]
  | succ width ih =>
      have byteEq : (Fin.ofNat 256 value).val = value % 256 := rfl
      simp only [writeLE, List.cons_append, readLE, ih, byteEq]
      rw [pow_succ, Nat.mul_comm (256 ^ width) 256, Nat.mod_mul]

@[simp]
theorem readLE_writeLE (width value : ℕ) :
    readLE width (writeLE width value) = value % 256 ^ width := by
  simpa using readLE_writeLE_append width value []

theorem readLE_lt (width : ℕ) (buffer : List Byte) : readLE width buffer < 256 ^ width := by
  induction width generalizing buffer with
  | zero => simp [readLE]
  | succ width ih =>
      cases buffer with
      | nil => simp [readLE]
      | cons byte rest =>
          have byteLt : byte.val < 256 := byte.isLt
          have restLt := ih rest
          simp only [readLE, pow_succ]
          omega

theorem fieldAt_lt (width offset : ℕ) (buffer : List Byte) :
    fieldAt width offset buffer < 256 ^ width :=
  readLE_lt width _

/-- A field behind a prefix of known length is read from what follows the prefix. -/
theorem fieldAt_append (width : ℕ) {offset : ℕ} {front : List Byte} (rest : List Byte)
    (lengthEq : front.length = offset) :
    fieldAt width offset (front ++ rest) = readLE width rest := by
  subst lengthEq
  simp [fieldAt]

end Bytes

end RapidDb
