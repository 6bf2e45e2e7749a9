import RapidDb.Library.Codec
import Mathlib.Data.List.TakeWhile

/-!
# Strings that end with a zero byte

A string in a buffer is what stands before the first zero. Copying and appending write the zero
too; there is no result when a string has no end or the bytes do not fit.
-/

namespace RapidDb

namespace Bytes

/-- The buffer begins with the string and its end. -/
def IsString (text buffer : List Byte) : Prop :=
  0 ∉ text ∧ ∃ rest, buffer = text ++ 0 :: rest

/-- The string that a buffer begins with. -/
def chars (buffer : List Byte) : Option (List Byte) :=
  if 0 ∈ buffer then some (buffer.takeWhile (· ≠ 0)) else none

/-- `strcpy`. -/
def strcpy (target src : List Byte) : Option (List Byte) :=
  (chars src).bind fun text => store 0 (text ++ [0]) target

/-- `strcat`. -/
def strcat (target src : List Byte) : Option (List Byte) :=
  (chars target).bind fun old => (chars src).bind fun text => store old.length (text ++ [0]) target

variable {text text' target src : List Byte}

theorem IsString.takeWhile (isString : IsString text src) : src.takeWhile (· ≠ 0) = text := by
  rcases isString with ⟨noEnd, rest, rfl⟩
  have all : ∀ byte ∈ text, decide (byte ≠ 0) = true := by
    intro byte mem
    have notZero : byte ≠ 0 := fun isZero => noEnd (isZero ▸ mem)
    simpa using notZero
  rw [List.takeWhile_append_of_pos all]
  simp

theorem IsString.unique (isString : IsString text src) (isString' : IsString text' src) :
    text = text' :=
  isString.takeWhile.symm.trans isString'.takeWhile

theorem IsString.lt (isString : IsString text src) : text.length < src.length := by
  rcases isString with ⟨-, rest, rfl⟩
  simp

theorem IsString.hasEnd (isString : IsString text src) : 0 ∈ src := by
  rcases isString with ⟨-, rest, rfl⟩
  simp

theorem isString_takeWhile (hasEnd : 0 ∈ src) : IsString (src.takeWhile (· ≠ 0)) src := by
  induction src with
  | nil => cases hasEnd
  | cons byte src ih =>
      by_cases isEnd : byte = 0
      · subst isEnd
        exact ⟨by simp, src, by simp⟩
      · rcases ih ((List.mem_cons.mp hasEnd).resolve_left (Ne.symm isEnd)) with ⟨noEnd, rest, split⟩
        rw [List.takeWhile_cons_of_pos (by simpa using isEnd)]
        refine ⟨?_, rest, ?_⟩
        · rw [List.mem_cons, not_or]
          exact ⟨Ne.symm isEnd, noEnd⟩
        · rw [List.cons_append, ← split]

theorem chars_eq_some_iff : chars src = some text ↔ IsString text src := by
  constructor
  · intro found
    simp only [chars, Option.ite_none_right_eq_some, Option.some.injEq] at found
    rcases found with ⟨hasEnd, rfl⟩
    exact isString_takeWhile hasEnd
  · intro isString
    simp only [chars, isString.hasEnd, if_true, isString.takeWhile]

/-- What is written behind a text of a buffer. -/
theorem store_isString (before : target.take text.length = text) (noEnd : 0 ∉ text)
    (noEnd' : 0 ∉ text') (fits : text.length + text'.length + 1 ≤ target.length) :
    ∃ target', store text.length (text' ++ [0]) target = some target' ∧
      target'.length = target.length ∧ IsString (text ++ text') target' := by
  have inside : text.length + (text' ++ [0]).length ≤ target.length := by
    simpa [Nat.add_assoc] using fits
  refine ⟨_, by rw [store, if_pos inside], ?_, ?_, ?_⟩
  · simp only [List.length_append, List.length_take, List.length_drop, List.length_singleton]
    omega
  · simp [noEnd, noEnd']
  · refine ⟨target.drop (text.length + (text' ++ [0]).length), ?_⟩
    rw [before]
    simp

theorem store_eq_some_iff {offset : ℕ} {bytes : List Byte} :
    (∃ target', store offset bytes target = some target') ↔
      offset + bytes.length ≤ target.length := by
  simp only [store]
  split <;> simp_all

theorem IsString.take (isString : IsString text target) : target.take text.length = text := by
  rcases isString with ⟨-, rest, rfl⟩
  simp

theorem IsString.takeWhile_take (isString : IsString text target) :
    (target.take text.length).takeWhile (· ≠ 0) = text := by
  rw [isString.take]
  refine List.takeWhile_eq_self_iff.mpr fun byte mem => ?_
  have notZero : byte ≠ 0 := fun isZero => isString.1 (isZero ▸ mem)
  simpa using notZero

/-- Appending makes one string of two if the buffer has room for it. -/
theorem strcat_isString (isString : IsString text target) (isSrc : IsString text' src)
    (fits : text.length + text'.length + 1 ≤ target.length) :
    ∃ target', strcat target src = some target' ∧ target'.length = target.length ∧
      IsString (text ++ text') target' := by
  have found := chars_eq_some_iff.mpr isString
  have found' := chars_eq_some_iff.mpr isSrc
  simp only [strcat, found, found', Option.bind_some]
  exact store_isString isString.take isString.1 isSrc.1 fits

theorem strcpy_isString (isSrc : IsString text src) (fits : text.length + 1 ≤ target.length) :
    ∃ target', strcpy target src = some target' ∧ target'.length = target.length ∧
      IsString text target' := by
  have found := chars_eq_some_iff.mpr isSrc
  simp only [strcpy, found, Option.bind_some]
  exact @store_isString [] _ _ rfl (by simp) isSrc.1 (by simpa using fits)

end Bytes

end RapidDb
