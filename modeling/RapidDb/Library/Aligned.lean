import Mathlib.Algebra.GroupWithZero.Nat
import Mathlib.Data.Nat.Bitwise

/-!
# Aligned blocks of addresses

The addresses fall into blocks of a power of two. The exclusive or with the start of a block tells
whether an address lies in the block, and is the size of the block at the start of its buddy.
-/

namespace RapidDb

variable {n address base : ℕ}

/-- The start of the block in which an address lies. -/
def blockStart (n address : ℕ) : ℕ := address / 2 ^ n * 2 ^ n

/-- The block next to this one within a block of twice the size. -/
def buddy (n base : ℕ) : ℕ := base ^^^ 2 ^ n

theorem blockStart_of_aligned (aligned : base % 2 ^ n = 0) : blockStart n base = base :=
  Nat.div_mul_cancel (Nat.dvd_of_mod_eq_zero aligned)

theorem blockStart_add_offset (aligned : base % 2 ^ n = 0) {offset : ℕ} (less : offset < 2 ^ n) :
    blockStart n (base + offset) = base := by
  have start := blockStart_of_aligned aligned
  unfold blockStart at start ⊢
  have quotient : (base + offset) / 2 ^ n = base / 2 ^ n := by
    conv_lhs => rw [← start]
    rw [Nat.mul_comm, Nat.mul_add_div (Nat.two_pow_pos n), Nat.div_eq_of_lt less, Nat.add_zero]
  rw [quotient]
  exact start

theorem mod_add_offset (aligned : base % 2 ^ n = 0) {offset : ℕ} (less : offset < 2 ^ n) :
    (base + offset) % 2 ^ n = offset := by
  rw [Nat.add_mod, aligned, Nat.zero_add, Nat.mod_mod, Nat.mod_eq_of_lt less]

/-- The addresses whose exclusive or with the start of a block is at most its size: those of the
block, and the first one of its buddy. -/
theorem xor_le_iff (aligned : base % 2 ^ n = 0) :
    address ^^^ base ≤ 2 ^ n ↔ blockStart n address = base ∨ address = buddy n base := by
  have pos := Nat.two_pow_pos n
  have low : (address ^^^ base) % 2 ^ n = address % 2 ^ n := by
    rw [Nat.xor_mod_two_pow, aligned, Nat.xor_zero]
  have parts := Nat.div_add_mod (address ^^^ base) (2 ^ n)
  have inBlock : (address ^^^ base) / 2 ^ n = 0 ↔ blockStart n address = base := by
    rw [Nat.xor_div_two_pow, Nat.xor_eq_zero_iff]
    have start := blockStart_of_aligned aligned
    unfold blockStart at start ⊢
    constructor
    · intro same
      rw [same]
      exact start
    · intro same
      exact Nat.eq_of_mul_eq_mul_right pos (same.trans start.symm)
  have isBuddy : address ^^^ base = 2 ^ n ↔ address = buddy n base := by
    unfold buddy
    constructor
    · intro same
      rw [← same, Nat.xor_comm address base, Nat.xor_xor_cancel_left]
    · rintro rfl
      rw [Nat.xor_comm base, Nat.xor_xor_cancel_right]
  rw [← inBlock, ← isBuddy]
  constructor
  · intro le
    rcases Nat.lt_or_eq_of_le le with less | same
    · exact Or.inl (Nat.div_eq_of_lt less)
    · exact Or.inr same
  · rintro (zero | same)
    · have less := Nat.mod_lt (address ^^^ base) pos
      rw [zero, Nat.mul_zero, Nat.zero_add] at parts
      omega
    · exact Nat.le_of_eq same

end RapidDb
