import Mathlib.Data.List.Lex
import Mathlib.Order.Compare
import Mathlib.Order.Defs.Unbundled
import Mathlib.Order.Fin.Basic
import RapidDb.Library.BinarySearch
import RapidDb.Library.Bytes

/-!
# Comparing byte strings

`BytesCompare` compares eight bytes at a time, as integers with their most significant byte
first, then the remaining bytes one by one, and last the lengths. Its sign is that of the
lexicographic order.
-/

namespace RapidDb

namespace Bytes

/-- The integer stored in a buffer with the most significant byte first. -/
def readBE : List Byte → ℕ
  | [] => 0
  | byte :: rest => byte.val * 256 ^ rest.length + readBE rest

def compareBytes (lengths : ℤ) : ℕ → List Byte → List Byte → ℤ
  | count + 1, byte1 :: bys1, byte2 :: bys2 =>
      let hr : ℤ := byte1.val - byte2.val
      if hr ≠ 0 then hr else compareBytes lengths count bys1 bys2
  | _, _, _ => lengths

def compareWords (lengths : ℤ) (rest : ℕ) : ℕ → List Byte → List Byte → ℤ
  | 0, bys1, bys2 => compareBytes lengths rest bys1 bys2
  | words + 1, bys1, bys2 =>
      let v1 := readBE (bys1.take 8)
      let v2 := readBE (bys2.take 8)
      if v1 ≠ v2 then
        if v1 > v2 then 1 else -1
      else
        compareWords lengths rest words (bys1.drop 8) (bys2.drop 8)

def bytesCompare (bys1 bys2 : List Byte) : ℤ :=
  let minLen := min bys1.length bys2.length
  compareWords (bys1.length - bys2.length) (minLen % 8) (minLen / 8) bys1 bys2

theorem readBE_lt (buffer : List Byte) : readBE buffer < 256 ^ buffer.length := by
  induction buffer with
  | nil => simp [readBE]
  | cons byte rest ih =>
      have byteLt : byte.val + 1 ≤ 256 := byte.isLt
      have scaled := Nat.mul_le_mul_right (256 ^ rest.length) byteLt
      simp only [readBE, List.length_cons, pow_succ]
      rw [Nat.add_mul, Nat.one_mul] at scaled
      omega

theorem compares_readBE {bys1 bys2 : List Byte} (sameLength : bys1.length = bys2.length) :
    (readBE bys1 < readBE bys2 ↔ bys1 < bys2) ∧ (readBE bys1 = readBE bys2 ↔ bys1 = bys2) := by
  induction bys1 generalizing bys2 with
  | nil =>
      have empty : bys2 = [] := List.length_eq_zero_iff.mp sameLength.symm
      subst empty
      simp
  | cons byte1 rest1 ih =>
      cases bys2 with
      | nil => cases sameLength
      | cons byte2 rest2 =>
          have restLength : rest1.length = rest2.length := Nat.succ.inj sameLength
          rcases ih restLength with ⟨less, same⟩
          have bound1 := readBE_lt rest1
          have bound2 := readBE_lt rest2
          rw [restLength] at bound1
          simp only [readBE, restLength, List.cons_lt_cons_iff, List.cons.injEq]
          rcases lt_trichotomy byte1 byte2 with smaller | rfl | greater
          · have valLt : byte1.val + 1 ≤ byte2.val := smaller
            have scaled := Nat.mul_le_mul_right (256 ^ rest2.length) valLt
            rw [Nat.add_mul, Nat.one_mul] at scaled
            have notSame : byte1 ≠ byte2 := ne_of_lt smaller
            constructor
            · simp only [smaller, true_or, iff_true]
              omega
            · simp only [notSame, false_and, iff_false]
              omega
          · simp [less, same]
          · have valLt : byte2.val + 1 ≤ byte1.val := greater
            have scaled := Nat.mul_le_mul_right (256 ^ rest2.length) valLt
            rw [Nat.add_mul, Nat.one_mul] at scaled
            have notSame : byte1 ≠ byte2 := ne_of_gt greater
            have notLess : ¬byte1 < byte2 := not_lt_of_gt greater
            constructor
            · simp only [notLess, notSame, false_and, or_false, iff_false]
              omega
            · simp only [notSame, false_and, iff_false]
              omega

theorem readBE_concat (front : List Byte) (byte : Byte) :
    readBE (front ++ [byte]) = readBE front * 256 + byte.val := by
  induction front with
  | nil => simp [readBE]
  | cons first rest ih =>
      simp only [List.cons_append, readBE, List.length_append, List.length_singleton, ih]
      ring

theorem readBE_reverse (buffer : List Byte) :
    readBE buffer.reverse = readLE buffer.length buffer := by
  induction buffer with
  | nil => rfl
  | cons byte rest ih =>
      rw [List.reverse_cons, readBE_concat, ih, List.length_cons, readLE]
      ring

theorem append_lt_append_iff {front1 front2 : List Byte}
    (sameLength : front1.length = front2.length) (rest1 rest2 : List Byte) :
    front1 ++ rest1 < front2 ++ rest2 ↔
      front1 < front2 ∨ front1 = front2 ∧ rest1 < rest2 := by
  induction front1 generalizing front2 with
  | nil =>
      have empty : front2 = [] := List.length_eq_zero_iff.mp sameLength.symm
      subst empty
      simp
  | cons byte1 front1 ih =>
      cases front2 with
      | nil => cases sameLength
      | cons byte2 front2 =>
          have frontLength : front1.length = front2.length := Nat.succ.inj sameLength
          simp only [List.cons_append, List.cons_lt_cons_iff, ih frontLength, List.cons.injEq]
          tauto

theorem compares_compareBytes {bys1 bys2 : List Byte} {lengths : ℤ} {count : ℕ}
    (lengthsEq : lengths = bys1.length - bys2.length)
    (countEq : count = min bys1.length bys2.length) :
    Compares (compareBytes lengths count bys1 bys2) bys1 bys2 := by
  induction bys1 generalizing bys2 count with
  | nil =>
      cases bys2 with
      | nil =>
          simp only [List.length_nil, sub_self] at lengthsEq
          cases count <;> constructor <;> simp [compareBytes, lengthsEq]
      | cons byte2 rest2 =>
          simp only [List.length_nil, List.length_cons] at lengthsEq
          cases count <;> constructor <;> simp [compareBytes, lengthsEq] <;> omega
  | cons byte1 rest1 ih =>
      cases bys2 with
      | nil =>
          simp only [List.length_nil, List.length_cons] at lengthsEq
          cases count <;> constructor <;> simp [compareBytes, lengthsEq] <;> omega
      | cons byte2 rest2 =>
          cases count with
          | zero =>
              simp only [List.length_cons] at countEq
              omega
          | succ count =>
              simp only [List.length_cons, Nat.add_min_add_right, Nat.add_right_cancel_iff]
                at countEq
              have lengthsRest : lengths = rest1.length - rest2.length := by
                simp only [List.length_cons] at lengthsEq
                omega
              have rest := ih lengthsRest countEq
              simp only [compareBytes]
              rcases lt_trichotomy byte1 byte2 with smaller | rfl | greater
              · have valLt : byte1.val < byte2.val := smaller
                have notSame : byte1 ≠ byte2 := ne_of_lt smaller
                have notGreater : ¬byte2 < byte1 := not_lt_of_gt smaller
                rw [if_pos (by omega)]
                constructor
                · simp only [List.cons_lt_cons_iff, smaller, true_or, iff_true]
                  omega
                · simp only [List.cons_lt_cons_iff, notGreater, notSame.symm, false_and, or_false,
                    iff_false]
                  omega
              · rw [if_neg (by omega)]
                exact ⟨by simpa using rest.neg, by simpa using rest.pos⟩
              · have valLt : byte2.val < byte1.val := greater
                have notSame : byte1 ≠ byte2 := ne_of_gt greater
                have notLess : ¬byte1 < byte2 := not_lt_of_gt greater
                rw [if_pos (by omega)]
                constructor
                · simp only [List.cons_lt_cons_iff, notLess, notSame, false_and, or_false,
                    iff_false]
                  omega
                · simp only [List.cons_lt_cons_iff, greater, true_or, iff_true]
                  omega

theorem compares_compareWords {bys1 bys2 : List Byte} {lengths : ℤ} {rest words : ℕ}
    (lengthsEq : lengths = bys1.length - bys2.length)
    (countEq : words * 8 + rest = min bys1.length bys2.length) :
    Compares (compareWords lengths rest words bys1 bys2) bys1 bys2 := by
  induction words generalizing bys1 bys2 with
  | zero => exact compares_compareBytes lengthsEq (by omega)
  | succ words ih =>
      have long1 : 8 ≤ bys1.length := by omega
      have long2 : 8 ≤ bys2.length := by omega
      have sameLength : (bys1.take 8).length = (bys2.take 8).length := by
        rw [List.length_take_of_le long1, List.length_take_of_le long2]
      rcases compares_readBE sameLength with ⟨wordLess, wordSame⟩
      rcases compares_readBE sameLength.symm with ⟨wordGreater, -⟩
      have order := append_lt_append_iff sameLength (bys1.drop 8) (bys2.drop 8)
      have order' := append_lt_append_iff sameLength.symm (bys2.drop 8) (bys1.drop 8)
      simp only [List.take_append_drop] at order order'
      simp only [compareWords]
      split
      · next different =>
          have notSame : bys1.take 8 ≠ bys2.take 8 := fun same => different (wordSame.mpr same)
          split
          · next greater =>
              have isGreater := wordGreater.mp greater
              constructor
              · rw [order]
                simp [notSame, not_lt_of_gt isGreater]
              · rw [order']
                simp [isGreater]
          · next notGreater =>
              have isLess := wordLess.mp (by omega)
              constructor
              · rw [order]
                simp [isLess]
              · rw [order']
                simp [notSame.symm, not_lt_of_gt isLess]
      · next same =>
          rw [not_not] at same
          have sameWord := wordSame.mp same
          have lengthsRest : lengths = (bys1.drop 8).length - (bys2.drop 8).length := by
            simp only [List.length_drop]
            omega
          have countRest : words * 8 + rest = min (bys1.drop 8).length (bys2.drop 8).length := by
            simp only [List.length_drop]
            omega
          have rest := ih lengthsRest countRest
          constructor
          · rw [order, rest.neg]
            simp [sameWord]
          · rw [order', rest.pos]
            simp [sameWord]

theorem compares_bytesCompare (bys1 bys2 : List Byte) :
    Compares (bytesCompare bys1 bys2) bys1 bys2 :=
  compares_compareWords rfl (Nat.div_add_mod' _ 8)

/-- The loop of `BytesEqual` over single bytes. -/
def equalBytes : ℕ → List Byte → List Byte → Bool
  | count + 1, byte1 :: bys1, byte2 :: bys2 =>
      if byte1.val ≠ byte2.val then false else equalBytes count bys1 bys2
  | _, _, _ => true

/-- The loop of `BytesEqual` over words of eight bytes. -/
def equalWords (rest : ℕ) : ℕ → List Byte → List Byte → Bool
  | 0, bys1, bys2 => equalBytes rest bys1 bys2
  | words + 1, bys1, bys2 =>
      if readLE 8 bys1 ≠ readLE 8 bys2 then false
      else equalWords rest words (bys1.drop 8) (bys2.drop 8)

def bytesEqual (bys1 bys2 : List Byte) : Bool :=
  if bys1.length ≠ bys2.length then false
  else equalWords (bys1.length % 8) (bys1.length / 8) bys1 bys2

theorem readLE_inj {width : ℕ} {bys1 bys2 : List Byte} (long1 : width ≤ bys1.length)
    (long2 : width ≤ bys2.length) :
    readLE width bys1 = readLE width bys2 ↔ bys1.take width = bys2.take width := by
  induction width generalizing bys1 bys2 with
  | zero => simp [readLE]
  | succ width ih =>
      cases bys1 with
      | nil => simp at long1
      | cons byte1 rest1 =>
          cases bys2 with
          | nil => simp at long2
          | cons byte2 rest2 =>
              have rest := ih (Nat.le_of_succ_le_succ long1) (Nat.le_of_succ_le_succ long2)
              have bound1 := byte1.isLt
              have bound2 := byte2.isLt
              simp only [readLE, List.take_succ_cons, List.cons.injEq, ← rest, Fin.ext_iff]
              omega

theorem equalBytes_iff {count : ℕ} {bys1 bys2 : List Byte} (length1 : bys1.length = count)
    (length2 : bys2.length = count) : equalBytes count bys1 bys2 = true ↔ bys1 = bys2 := by
  induction count generalizing bys1 bys2 with
  | zero =>
      rw [List.length_eq_zero_iff] at length1 length2
      simp [length1, length2, equalBytes]
  | succ count ih =>
      cases bys1 with
      | nil => cases length1
      | cons byte1 rest1 =>
          cases bys2 with
          | nil => cases length2
          | cons byte2 rest2 =>
              have rest := ih (Nat.succ.inj length1) (Nat.succ.inj length2)
              simp only [equalBytes, List.cons.injEq, Fin.ext_iff, ← rest]
              split <;> simp_all

theorem equalWords_iff {words rest : ℕ} {bys1 bys2 : List Byte}
    (length1 : bys1.length = words * 8 + rest) (length2 : bys2.length = words * 8 + rest) :
    equalWords rest words bys1 bys2 = true ↔ bys1 = bys2 := by
  induction words generalizing bys1 bys2 with
  | zero => exact equalBytes_iff (by omega) (by omega)
  | succ words ih =>
      have word := readLE_inj (show 8 ≤ bys1.length by omega) (show 8 ≤ bys2.length by omega)
      have dropped := @ih (bys1.drop 8) (bys2.drop 8)
        (by rw [List.length_drop]; omega) (by rw [List.length_drop]; omega)
      have parts : bys1 = bys2 ↔ bys1.take 8 = bys2.take 8 ∧ bys1.drop 8 = bys2.drop 8 := by
        constructor
        · rintro rfl
          exact ⟨rfl, rfl⟩
        · rintro ⟨sameTake, sameDrop⟩
          rw [← List.take_append_drop 8 bys1, sameTake, sameDrop, List.take_append_drop]
      rw [parts, ← word, ← dropped, equalWords]
      split <;> simp_all

theorem bytesEqual_iff (bys1 bys2 : List Byte) : bytesEqual bys1 bys2 = true ↔ bys1 = bys2 := by
  rw [bytesEqual]
  split
  · next different =>
      simp only [Bool.false_eq_true, false_iff]
      intro same
      exact different (congrArg List.length same)
  · next same =>
      rw [not_not] at same
      exact equalWords_iff (by omega) (by omega)

/-!
## The order of the comparison
-/

/-- The `size_t` difference of two lengths as the `int` that `BytesCompare` returns. -/
def narrowed (len1 len2 : ℕ) : ℤ := Int.bmod (len1 - len2) (2 ^ 32)

/-- `BytesCompare` with the difference of the lengths narrowed to an `int`; `bytesCompare` takes
the exact one. -/
def bytesCompareInt (bys1 bys2 : List Byte) : ℤ :=
  let minLen := min bys1.length bys2.length
  compareWords (narrowed bys1.length bys2.length) (minLen % 8) (minLen / 8) bys1 bys2

/-- The comparison byte by byte, as far as both arrays go. -/
def plainBytes : List Byte → List Byte → Ordering
  | byte1 :: bys1, byte2 :: bys2 => (compare byte1 byte2).then (plainBytes bys1 bys2)
  | _, _ => .eq

def plainCompare (bys1 bys2 : List Byte) : Ordering :=
  (plainBytes bys1 bys2).then (compare bys1.length bys2.length)

/-- The byte arrays whose lengths are `int`s. -/
abbrev ShortBytes := { bytes : List Byte // bytes.length < 2 ^ 31 }

theorem plainCompare_compares (bys1 bys2 : List Byte) :
    (plainCompare bys1 bys2).Compares bys1 bys2 := by
  induction bys1 generalizing bys2 with
  | nil =>
      cases bys2 with
      | nil => rfl
      | cons byte2 rest2 => exact List.nil_lt_cons byte2 rest2
  | cons byte1 rest1 ih =>
      cases bys2 with
      | nil => exact List.nil_lt_cons byte1 rest1
      | cons byte2 rest2 =>
          rw [plainCompare, plainBytes]
          rcases lt_trichotomy byte1 byte2 with smaller | rfl | greater
          · rw [compare_lt_iff_lt.mpr smaller]
            exact List.cons_lt_cons_iff.mpr (Or.inl smaller)
          · have rest := ih rest2
            have same : compare (byte1 :: rest1).length (byte1 :: rest2).length =
                compare rest1.length rest2.length := by
              simp [Nat.compare_eq_ite_lt]
            rw [same, compare_eq_iff_eq.mpr rfl, Ordering.then_assoc]
            change (plainCompare rest1 rest2).Compares _ _
            cases ordering : plainCompare rest1 rest2 with
            | lt | gt =>
                rw [ordering] at rest
                exact List.cons_lt_cons_iff.mpr (Or.inr ⟨rfl, rest⟩)
            | eq =>
                rw [ordering] at rest
                exact congrArg (byte1 :: ·) rest
          · rw [compare_gt_iff_gt.mpr greater]
            exact List.cons_lt_cons_iff.mpr (Or.inl greater)

theorem narrowed_of_short {len1 len2 : ℕ} (short1 : len1 < 2 ^ 31) (short2 : len2 < 2 ^ 31) :
    narrowed len1 len2 = len1 - len2 := by
  apply Int.bmod_eq_of_le <;> omega

theorem bytesCompareInt_eq {bys1 bys2 : List Byte}
    (exact' : narrowed bys1.length bys2.length = bys1.length - bys2.length) :
    bytesCompareInt bys1 bys2 = bytesCompare bys1 bys2 := by
  unfold bytesCompareInt bytesCompare
  rw [exact']

theorem compares_bytesCompareInt (bys1 bys2 : ShortBytes) :
    Compares (bytesCompareInt bys1.1 bys2.1) bys1.1 bys2.1 :=
  compares_compareWords (narrowed_of_short bys1.2 bys2.2) (Nat.div_add_mod' _ 8)

theorem bytesCompareInt_le {bys1 bys2 : ShortBytes} :
    bytesCompareInt bys1.1 bys2.1 ≤ 0 ↔ bys1 ≤ bys2 := by
  rw [← not_lt, (compares_bytesCompareInt bys1 bys2).pos, not_lt]
  rfl

/-- The order of `BytesCompare` on arrays that are short enough. -/
theorem bytesCompareInt_order :
    (∀ bys1 bys2 : ShortBytes,
      compare (bytesCompareInt bys1.1 bys2.1) 0 = plainCompare bys1.1 bys2.1 ∧
        (bytesCompareInt bys1.1 bys2.1 = 0 ↔ bytesEqual bys1.1 bys2.1 = true)) ∧
      IsLinearOrder ShortBytes fun bys1 bys2 => bytesCompareInt bys1.1 bys2.1 ≤ 0 := by
  constructor
  · intro bys1 bys2
    have compares := compares_bytesCompareInt bys1 bys2
    refine ⟨compares.sign.inj (plainCompare_compares bys1.1 bys2.1), ?_⟩
    rw [compares.zero, bytesEqual_iff]
  · simp only [bytesCompareInt_le]
    infer_instance

end Bytes

end RapidDb
