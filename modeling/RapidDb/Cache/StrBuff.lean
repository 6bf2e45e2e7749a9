import RapidDb.Cache.SizeClass
import RapidDb.DataType.KeyColumn
import RapidDb.Library.CString
import Mathlib.Data.Nat.Digits.Lemmas

/-!
# String buffers

`Cat` compares the length of the new text with the whole buffer and not with what is left of it, and
it applies for a block of the new length alone. `Copy` applies for a block without room for the end
of the string. `Resize` of a buffer without a block leaves the new one as it is. The values that are
printed check the free length and make room for the longest number, but not for the longest
`double`.

A write past a block, or reading a string that has no end, is a fault, and nothing is said about the
buffer afterwards.
-/

namespace RapidDb

open Bytes Transition

structure StrBuff where
  bufLen : ℕ
  strLen : ℕ
  buf : Option (List Byte)
  /-- The sizes of the blocks that have been released, and those that `Release` has got. -/
  released : List (ℕ × ℕ)

/-- What `ToString` appends, by the classes of the values. -/
inductive BuffValue where
  | null
  | digit (type : DigitType) (value : type.Value)
  | bool (value : Bool)
  /-- A `float` or a `double`, with what `%f` prints. -/
  | real (printed : {text : List Byte // 0 ∉ text})
  | dateTime (value : DigitType.ulong.Value)
  /-- A VARCHAR or FIXCHAR: the bytes that can be read at its pointer, and its length. -/
  | text (bysValue : List Byte) (length : UInt32)
  | blob (bysValue : List Byte) (soleLength : bysValue.length < 2 ^ 32)

/-- The calls, with what is in the block if one is applied for. -/
inductive StrEvent where
  | cat (src : List Byte) (len : UInt32) (fresh : ℕ → Byte)
  | catChars (src : List Byte) (fresh : ℕ → Byte)
  | copy (src : List Byte) (len : UInt32) (fresh : ℕ → Byte)
  | copyChars (src : List Byte) (fresh : ℕ → Byte)
  | resize (len : UInt32) (fresh : ℕ → Byte)
  | toString (dv : BuffValue) (fresh : ℕ → Byte)

/-- A number of type `uint32_t`. -/
def uint32 (value : ℕ) : ℕ := value % 2 ^ 32

theorem uint32_lt (value : ℕ) : uint32 value < 2 ^ 32 := Nat.mod_lt _ (by decide)

theorem uint32_of_lt {value : ℕ} (less : value < 2 ^ 32) : uint32 value = value :=
  Nat.mod_eq_of_lt less

namespace StrBuff

/-- The real size of the block that `Apply` gives. -/
def applySize (len : ℕ) : Option ℕ :=
  (SizeClass.applySource (.ofNat len)).map fun source => source.length (.ofNat len)

/-- `Apply` for the buffer. -/
def apply (sb : StrBuff) (len : ℕ) (fresh : ℕ → Byte) : Option StrBuff :=
  (applySize len).map fun size =>
    { sb with bufLen := size, buf := some ((List.range size).map fresh) }

/-- `Release` of the old block. -/
def release (sb : StrBuff) (obuf : List Byte) (olen : ℕ) : StrBuff :=
  { sb with released := (obuf.length, olen) :: sb.released }

def change (sb : StrBuff) (write : List Byte → Option (List Byte)) : Option StrBuff := do
  let bytes ← sb.buf
  let bytes ← write bytes
  some { sb with buf := some bytes }

/-- A new block takes the string of the old one, which is released. -/
def moveTo (sb : StrBuff) (obuf : List Byte) (len : ℕ) (fresh : ℕ → Byte) : Option StrBuff := do
  let new ← sb.apply len fresh
  let new ← new.change (strcpy · obuf)
  some (new.release obuf sb.bufLen)

def resize (sb : StrBuff) (len : ℕ) (fresh : ℕ → Byte) : Option StrBuff :=
  if len > sb.bufLen then
    match sb.buf with
    | none => sb.apply len fresh
    | some obuf => sb.moveTo obuf len fresh
  else some sb

def copy (sb : StrBuff) (src : List Byte) (len : ℕ) (fresh : ℕ → Byte) : Option StrBuff := do
  let new ←
    if uint32 (len + 1) ≥ sb.bufLen then do
      let new ← sb.apply len fresh
      some (sb.buf.elim new fun obuf => new.release obuf sb.bufLen)
    else some sb
  { new with strLen := len }.change (strcpy · src)

/-- The room that `Cat` makes. -/
def catRoom (sb : StrBuff) (len : ℕ) (fresh : ℕ → Byte) : Option StrBuff :=
  if uint32 (len + 1) ≥ sb.bufLen then
    match sb.buf with
    | none => (sb.apply (uint32 (len + 1)) fresh).bind fun new => new.change (store 0 [0])
    | some obuf => sb.moveTo obuf (uint32 (len + 1)) fresh
  else some sb

def cat (sb : StrBuff) (src : List Byte) (len : ℕ) (fresh : ℕ → Byte) : Option StrBuff := do
  let new ← sb.catRoom len fresh
  { new with strLen := uint32 (sb.strLen + len) }.change (strcat · src)

/-- `GetFreeLen`. -/
def freeLen (sb : StrBuff) : ℕ := uint32 (sb.bufLen + 2 ^ 32 - sb.strLen)

/-- A value of `ToString` that is printed into the free buffer. -/
def print (sb : StrBuff) (margin : ℕ) (text : List Byte) (fresh : ℕ → Byte) : Option StrBuff := do
  let new ←
    if margin > sb.freeLen then sb.resize (uint32 (sb.strLen + margin)) fresh else some sb
  { new with strLen := uint32 (sb.strLen + text.length) }.change (store sb.strLen (text ++ [0]))

end StrBuff

/-! ## The texts of values -/

/-- `%u` and `%lu`. -/
def decimal (value : ℕ) : List Byte :=
  if value = 0 then [48] else (Nat.digits 10 value).reverse.map fun digit => .ofNat 256 (48 + digit)

/-- `%d` and `%ld`. -/
def signedDecimal (value : ℤ) : List Byte :=
  if value < 0 then 45 :: decimal value.natAbs else decimal value.natAbs

def hexDigit (digit : ℕ) : Byte := .ofNat 256 (if digit < 10 then 48 + digit else 55 + digit)

namespace BuffValue

/-- `Sprintf`. A value of UINT is printed with `%d`. -/
def sprintf (type : DigitType) (value : ℤ) : List Byte :=
  signedDecimal (if type = .uint then Int.bmod value (2 ^ 32) else value)

/-- The bytes of a BLOB with `0x` and `%02X`. -/
def hexText (bysValue : List Byte) : List Byte :=
  48 :: 120 :: bysValue.flatMap fun byte => [hexDigit (byte.val / 16), hexDigit (byte.val % 16)]

def appended : BuffValue → List Byte
  | null => []
  | digit type value => sprintf type value.val
  | bool value => if value then [116, 114, 117, 101] else [102, 97, 108, 115, 101]
  | real printed => printed.val
  | dateTime value => decimal value.val.natAbs
  | text bysValue length => (bysValue.take length.toNat).takeWhile (· ≠ 0)
  | blob bysValue _ => hexText bysValue

/-- `ToString`. -/
def toString (sb : StrBuff) (fresh : ℕ → Byte) : BuffValue → Option StrBuff
  | null => some sb
  | digit type value => sb.print 24 (sprintf type value.val) fresh
  | bool value => sb.print 24 (bool value).appended fresh
  | real printed => sb.print 24 printed.val fresh
  | dateTime value => sb.print 22 (decimal value.val.natAbs) fresh
  | text bysValue length => sb.cat bysValue length.toNat fresh
  | blob bysValue _ => sb.print (uint32 (bysValue.length * 2 + 3)) (hexText bysValue) fresh

end BuffValue

theorem decimal_noEnd (value : ℕ) : 0 ∉ decimal value := by
  simp only [decimal]
  split
  · decide
  · intro mem
    rcases List.mem_map.mp mem with ⟨digit, isDigit, isZero⟩
    have less := Nat.digits_lt_base (by decide : 1 < 10) (List.mem_reverse.mp isDigit)
    have same := congrArg Fin.val isZero
    simp only [Fin.val_ofNat, Fin.val_zero] at same
    omega

theorem signedDecimal_noEnd (value : ℤ) : 0 ∉ signedDecimal value := by
  simp only [signedDecimal]
  split
  · simp [decimal_noEnd]
  · exact decimal_noEnd _

theorem hexDigit_ne (digit : ℕ) (less : digit < 16) : hexDigit digit ≠ 0 := by
  interval_cases digit <;> decide

namespace BuffValue

theorem hexText_noEnd (bysValue : List Byte) : 0 ∉ hexText bysValue := by
  intro mem
  simp only [hexText, List.mem_cons, List.mem_flatMap, List.not_mem_nil, or_false] at mem
  rcases mem with isZero | isZero | ⟨byte, -, high | low⟩
  · cases isZero
  · cases isZero
  · exact hexDigit_ne (byte.val / 16) (by omega) high.symm
  · exact hexDigit_ne (byte.val % 16) (by omega) low.symm

end BuffValue

/-! ## Runs -/

/-- A buffer, none after a fault, and the texts since the last `Copy`. -/
structure StrRun where
  buff : Option StrBuff
  text : List Byte

namespace StrEvent

def run (sb : StrBuff) : StrEvent → Option StrBuff
  | cat src len fresh => sb.cat src len.toNat fresh
  | catChars src fresh => (chars src).bind fun text => sb.cat src (uint32 text.length) fresh
  | copy src len fresh => sb.copy src len.toNat fresh
  | copyChars src fresh => (chars src).bind fun text => sb.copy src (uint32 text.length) fresh
  | resize len fresh => sb.resize len.toNat fresh
  | toString dv fresh => dv.toString sb fresh

/-- The text of the buffer after the call. -/
def newText (old : List Byte) : StrEvent → List Byte
  | cat src len _ => old ++ (src.take len.toNat).takeWhile (· ≠ 0)
  | catChars src _ => old ++ src.takeWhile (· ≠ 0)
  | copy src len _ => (src.take len.toNat).takeWhile (· ≠ 0)
  | copyChars src _ => src.takeWhile (· ≠ 0)
  | resize _ _ => old
  | toString dv _ => old ++ dv.appended

end StrEvent

inductive StrInit where
  | sized (len : UInt32) (fresh : ℕ → Byte)
  | chars (len : UInt32) (src : List Byte) (fresh : ℕ → Byte)

namespace StrInit

def build : StrInit → Option StrBuff
  | sized len fresh =>
      let sb : StrBuff := ⟨0, 0, none, []⟩
      if len.toNat > 0 then (sb.apply len.toNat fresh).bind fun sb => sb.change (store 0 [0])
      else some sb
  | chars len src fresh => do
      let text ← Bytes.chars src
      let strLen := uint32 text.length
      let sb : StrBuff := ⟨0, strLen, none, []⟩
      let len := if uint32 (len.toNat + 1) < strLen then uint32 (strLen + 16) else len.toNat
      let sb ← sb.apply len fresh
      sb.change (strcpy · src)

def start (init : StrInit) : StrRun where
  buff := init.build
  text := match init with
    | sized _ _ => []
    | chars _ src _ => src.takeWhile (· ≠ 0)

end StrInit

namespace StrRun

def next (run : StrRun) (event : StrEvent) : Option StrRun :=
  some ⟨run.buff.bind event.run, event.newText run.text⟩

end StrRun

namespace StrBuff

/-- The buffer has the text and its end within its block, whose size is known. -/
structure Holds (sb : StrBuff) (text : List Byte) : Prop where
  strLen : sb.strLen = text.length
  bufLen : sb.bufLen < 2 ^ 32
  empty : sb.buf = none → sb.bufLen = 0 ∧ text = []
  block : ∀ bytes, sb.buf = some bytes → bytes.length = sb.bufLen ∧ IsString text bytes
  released : ∀ block ∈ sb.released, block.1 = block.2

/-- The size of the block in which `Cat` appends. -/
def catSize (sb : StrBuff) (len : ℕ) : Option ℕ :=
  if uint32 (len + 1) ≥ sb.bufLen then applySize (uint32 (len + 1)) else some sb.bufLen

def copySize (sb : StrBuff) (len : ℕ) : Option ℕ :=
  if uint32 (len + 1) ≥ sb.bufLen then applySize len else some sb.bufLen

/-- The size after `Resize`. -/
def resizeSize (sb : StrBuff) (len : ℕ) : Option ℕ :=
  if len > sb.bufLen then applySize len else some sb.bufLen

/-- The size of the block into which a value is printed. -/
def printSize (sb : StrBuff) (margin : ℕ) : Option ℕ :=
  if margin > sb.freeLen then sb.resizeSize (uint32 (sb.strLen + margin)) else some sb.bufLen

/-- The source is a string of the length, and there is room for it and its end behind the text. -/
def CatFits (sb : StrBuff) (src : List Byte) (len : ℕ) : Prop :=
  ∃ text, IsString text src ∧ text.length = len ∧
    ∃ size, sb.catSize len = some size ∧ sb.strLen + len + 1 ≤ size

def CopyFits (sb : StrBuff) (src : List Byte) (len : ℕ) : Prop :=
  ∃ text, IsString text src ∧ text.length = len ∧
    ∃ size, sb.copySize len = some size ∧ len + 1 ≤ size

def PrintFits (sb : StrBuff) (margin len : ℕ) : Prop :=
  ∃ size, sb.printSize margin = some size ∧ sb.strLen + len + 1 ≤ size

/-- The call has room for its text and reads a string. -/
def Fits (sb : StrBuff) : StrEvent → Prop
  | .cat src len _ => sb.CatFits src len.toNat
  | .catChars src _ => sb.CatFits src (src.takeWhile (· ≠ 0)).length
  | .copy src len _ => sb.CopyFits src len.toNat
  | .copyChars src _ => sb.CopyFits src (src.takeWhile (· ≠ 0)).length
  | .resize len fresh => sb.buf = none → 0 < len.toNat → fresh 0 = 0
  | .toString dv _ =>
      match dv with
      | .null => True
      | .text bysValue length => sb.CatFits bysValue length.toNat
      | .dateTime _ => sb.PrintFits 22 dv.appended.length
      | .blob bysValue _ => sb.PrintFits (uint32 (bysValue.length * 2 + 3)) dv.appended.length
      | _ => sb.PrintFits 24 dv.appended.length

end StrBuff

namespace StrRun

def Sound (run : StrRun) : Prop :=
  ∃ sb, run.buff = some sb ∧ sb.Holds run.text

def Fits (run : StrRun) (event : StrEvent) : Prop :=
  ∃ sb, run.buff = some sb ∧ sb.Fits event

end StrRun

/-- The constructor reads a string and its block takes it. -/
def StrInit.Fits : StrInit → Prop
  | sized _ _ => True
  | chars len src _ =>
      ∃ text, IsString text src ∧ ∃ size,
        StrBuff.applySize (if uint32 (len.toNat + 1) < text.length then uint32 (text.length + 16)
          else len.toNat) = some size ∧ text.length + 1 ≤ size

namespace StrBuff

/-! ## Blocks -/

theorem applySize_lt {len size : ℕ} (applied : applySize len = some size) : size < 2 ^ 32 := by
  rcases Option.map_eq_some_iff.mp applied with ⟨source, -, rfl⟩
  cases source with
  | pool pos => exact (by decide : ∀ pos, arrSzMap pos < 2 ^ 32) pos
  | aligned => exact UInt32.toNat_lt _
  | array => exact UInt32.toNat_lt _

theorem applySize_eq_some {len : ℕ} (positive : 0 < len) (less : len < 2 ^ 32) :
    ∃ size, applySize len = some size ∧ len ≤ size := by
  have same : (UInt32.ofNat len).toNat = len := UInt32.toNat_ofNat_of_lt' less
  by_cases small : len ≤ 16384
  · rcases @SizeClass.sources_small (.ofNat len) (by omega) (by omega) with ⟨pos, source, -, le⟩
    exact ⟨arrSzMap pos, by simp [applySize, source, SizeClass.Source.length], by omega⟩
  · have source := (@SizeClass.sources_large (.ofNat len) (by omega)).1
    refine ⟨len, ?_, le_rfl⟩
    simp only [applySize, source, Option.map_some, SizeClass.mallocLargeBlock_eq]
    split <;> simp [SizeClass.Source.length, same]

/-- A block that begins with a text, and blocks that were released with their sizes. -/
structure Room (new : StrBuff) (text : List Byte) (size : ℕ) : Prop where
  strLen : new.strLen = text.length
  bufLen : new.bufLen = size
  size_lt : size < 2 ^ 32
  released : ∀ block ∈ new.released, block.1 = block.2
  block : ∃ bytes, new.buf = some bytes ∧ bytes.length = size ∧ bytes.take text.length = text

variable {sb new : StrBuff} {text added src : List Byte} {len margin size : ℕ} {fresh : ℕ → Byte}

theorem Holds.room (holds : sb.Holds text) (hasBlock : sb.buf ≠ none) :
    sb.Room text sb.bufLen := by
  rcases Option.ne_none_iff_exists'.mp hasBlock with ⟨bytes, isBlock⟩
  rcases holds.block bytes isBlock with ⟨length, isString⟩
  exact ⟨holds.strLen, rfl, holds.bufLen, holds.released, bytes, isBlock, length, isString.take⟩

theorem Room.write (room : new.Room text size) (noEnd : 0 ∉ text) (noEnd' : 0 ∉ added)
    (strLen : ℕ) :
    (∃ final, { new with strLen }.change (store text.length (added ++ [0])) = some final ∧
      final.Holds (text ++ added)) ↔ strLen = text.length + added.length ∧
        text.length + added.length + 1 ≤ size := by
  rcases room.block with ⟨bytes, isBlock, length, before⟩
  subst length
  constructor
  · rintro ⟨final, changed, holds⟩
    simp only [change, isBlock, Option.bind_eq_bind, Option.bind_some, Option.bind_eq_some_iff,
      Option.some.injEq] at changed
    rcases changed with ⟨bytes', stored, rfl⟩
    have fits := store_eq_some_iff.mp ⟨bytes', stored⟩
    have same := holds.strLen
    simp only [List.length_append, List.length_singleton] at fits same
    exact ⟨same, by omega⟩
  · rintro ⟨isLength, fits⟩
    rcases store_isString before noEnd noEnd' fits with ⟨bytes', stored, length', isString⟩
    refine ⟨{ new with strLen, buf := some bytes' }, ?_, ?_⟩
    · simp [change, isBlock, stored]
    · refine ⟨by simpa using isLength, room.bufLen ▸ room.size_lt, ?_, ?_, room.released⟩
      · intro none
        cases none
      · intro other isOther
        cases isOther
        exact ⟨length'.trans room.bufLen.symm, isString⟩

theorem apply_eq (applied : applySize len = some size) :
    sb.apply len fresh =
      some { sb with bufLen := size, buf := some ((List.range size).map fresh) } := by
  simp [apply, applied]

theorem apply_none (refused : applySize len = none) : sb.apply len fresh = none := by
  simp [apply, refused]

theorem Holds.moveTo (holds : sb.Holds text) {obuf : List Byte} (isBlock : sb.buf = some obuf)
    (applied : applySize len = some size) (fits : text.length + 1 ≤ size) :
    ∃ new, sb.moveTo obuf len fresh = some new ∧ new.bufLen = size ∧ new.buf ≠ none ∧
      new.Holds text := by
  rcases holds.block obuf isBlock with ⟨length, isString⟩
  have room : text.length + 1 ≤ ((List.range size).map fresh).length := by simpa using fits
  rcases strcpy_isString isString room with ⟨bytes, copied, length', isString'⟩
  refine ⟨⟨size, sb.strLen, some bytes, (obuf.length, sb.bufLen) :: sb.released⟩, ?_, rfl,
    by simp, ?_⟩
  · simp [StrBuff.moveTo, apply_eq applied, change, copied, release]
  refine ⟨holds.strLen, applySize_lt applied, by simp, ?_, ?_⟩
  · intro other isOther
    cases isOther
    exact ⟨by simpa using length', isString'⟩
  · intro block mem
    rcases List.mem_cons.mp mem with isOld | mem
    · rw [isOld]
      exact length
    · exact holds.released block mem

theorem Holds.not_moveTo (holds : sb.Holds text) {obuf : List Byte} (isBlock : sb.buf = some obuf)
    (applied : applySize len = some size) (full : size < text.length + 1) :
    sb.moveTo obuf len fresh = none := by
  rcases holds.block obuf isBlock with ⟨length, isString⟩
  have copied : strcpy ((List.range size).map fresh) obuf = none := by
    simp only [strcpy, chars_eq_some_iff.mpr isString, Option.bind_some]
    apply store_eq_none
    simpa using full
  simp [StrBuff.moveTo, apply_eq applied, change, copied]

/-! ## The calls -/

theorem Holds.begun (holds : sb.Holds text) (noBlock : sb.buf = none)
    (applied : applySize len = some size) (positive : 0 < size) :
    ∃ new, (sb.apply len fresh).bind (fun new => new.change (store 0 [0])) = some new ∧
      new.bufLen = size ∧ new.buf ≠ none ∧ new.Holds text := by
  rcases (holds.empty noBlock).2 with rfl
  have room : 0 + 0 + 1 ≤ ((List.range size).map fresh).length := by
    simpa [Nat.one_le_iff_ne_zero, Nat.pos_iff_ne_zero] using positive
  rcases @store_isString [] [] ((List.range size).map fresh) rfl (by simp) (by simp) room with
    ⟨bytes, stored, length, isString⟩
  simp only [List.length_nil, List.nil_append] at stored isString
  refine ⟨⟨size, sb.strLen, some bytes, sb.released⟩, ?_, rfl, by simp, ?_⟩
  · simp [apply_eq applied, change, stored]
  · refine ⟨holds.strLen, applySize_lt applied, by simp, ?_, holds.released⟩
    intro other isOther
    cases isOther
    exact ⟨by simpa using length, isString⟩

theorem Holds.catRoom (holds : sb.Holds text) (isSize : sb.catSize len = some size)
    (fits : text.length + 1 ≤ size) :
    ∃ new, sb.catRoom len fresh = some new ∧ new.bufLen = size ∧ new.buf ≠ none ∧
      new.Holds text := by
  simp only [catSize] at isSize
  simp only [StrBuff.catRoom]
  split at isSize
  · rename_i grows
    simp only [if_pos grows]
    cases isBlock : sb.buf with
    | none => exact holds.begun isBlock isSize (by omega)
    | some obuf => exact holds.moveTo isBlock isSize fits
  · rename_i stays
    simp only [if_neg stays]
    refine ⟨sb, rfl, Option.some.inj isSize, ?_, holds⟩
    intro noBlock
    have isZero := (holds.empty noBlock).1
    omega

theorem Holds.catRoom_fits (holds : sb.Holds text) (made : sb.catRoom len fresh = some new) :
    ∃ size, sb.catSize len = some size ∧ text.length + 1 ≤ size := by
  simp only [StrBuff.catRoom] at made
  simp only [catSize]
  split at made
  · rename_i grows
    rw [if_pos grows]
    cases applied : applySize (uint32 (len + 1)) with
    | none => cases isBlock : sb.buf <;> simp [isBlock, StrBuff.moveTo, apply_none applied] at made
    | some size =>
        refine ⟨size, rfl, ?_⟩
        by_contra full
        cases isBlock : sb.buf with
        | none =>
            rcases (holds.empty isBlock).2 with rfl
            have isEmpty : size = 0 := by
              simp only [List.length_nil] at full
              omega
            subst isEmpty
            have refused : store 0 [0] [] = none := store_eq_none (by simp)
            simp [isBlock, apply_eq applied, change, refused] at made
        | some obuf =>
            simp [isBlock, holds.not_moveTo isBlock applied (by omega)] at made
  · rename_i stays
    rw [if_neg stays]
    refine ⟨_, rfl, ?_⟩
    cases isBlock : sb.buf with
    | none =>
        have isZero := (holds.empty isBlock).1
        omega
    | some obuf =>
        have block := holds.block obuf isBlock
        have lt := block.2.lt
        omega

theorem change_strcpy_iff {bytes : List Byte} (isBlock : sb.buf = some bytes)
    (length : bytes.length = sb.bufLen) (bufLen : sb.bufLen < 2 ^ 32)
    (released : ∀ block ∈ sb.released, block.1 = block.2) :
    (∃ new, sb.change (strcpy · src) = some new ∧ new.Holds added) ↔
      IsString added src ∧ sb.strLen = added.length ∧ added.length + 1 ≤ sb.bufLen := by
  constructor
  · rintro ⟨new, changed, holds⟩
    simp only [change, isBlock, Option.bind_eq_bind, Option.bind_some, Option.bind_eq_some_iff,
      Option.some.injEq, strcpy, chars_eq_some_iff] at changed
    rcases changed with ⟨bytes', ⟨text, isString, stored⟩, rfl⟩
    have fits := store_eq_some_iff.mp ⟨bytes', stored⟩
    simp only [List.length_append, List.length_singleton, Nat.zero_add] at fits
    rcases strcpy_isString isString fits with ⟨bytes'', copied, -, isCopy⟩
    simp only [strcpy, chars_eq_some_iff.mpr isString, Option.bind_some, stored,
      Option.some.injEq] at copied
    subst copied
    have same := isCopy.unique (holds.block bytes' rfl).2
    subst same
    exact ⟨isString, holds.strLen, length ▸ fits⟩
  · rintro ⟨isString, isLength, fits⟩
    rcases strcpy_isString isString (length ▸ fits) with ⟨bytes', copied, length', isCopy⟩
    refine ⟨{ sb with buf := some bytes' }, by simp [change, isBlock, copied], ?_⟩
    refine ⟨isLength, bufLen, by simp, ?_, released⟩
    intro other isOther
    cases isOther
    exact ⟨length'.trans length, isCopy⟩

theorem Holds.strcat_iff (holds : sb.Holds text) (hasBlock : sb.buf ≠ none) {strLen : ℕ} :
    (∃ new, { sb with strLen }.change (strcat · src) = some new ∧ new.Holds (text ++ added)) ↔
      IsString added src ∧ strLen = text.length + added.length ∧
        text.length + added.length + 1 ≤ sb.bufLen := by
  rcases Option.ne_none_iff_exists'.mp hasBlock with ⟨bytes, isBlock⟩
  rcases holds.block bytes isBlock with ⟨length, isText⟩
  constructor
  · rintro ⟨new, changed, holds'⟩
    simp only [change, isBlock, Option.bind_eq_bind, Option.bind_some, Option.bind_eq_some_iff,
      Option.some.injEq, strcat, chars_eq_some_iff.mpr isText, chars_eq_some_iff] at changed
    rcases changed with ⟨bytes', ⟨text', isString, stored⟩, rfl⟩
    have fits := store_eq_some_iff.mp ⟨bytes', stored⟩
    simp only [List.length_append, List.length_singleton] at fits
    rcases strcat_isString isText isString (by omega) with ⟨bytes'', catted, -, isCat⟩
    simp only [strcat, chars_eq_some_iff.mpr isText, chars_eq_some_iff.mpr isString,
      Option.bind_some, stored, Option.some.injEq] at catted
    subst catted
    have same := List.append_cancel_left (isCat.unique (holds'.block bytes' rfl).2)
    subst same
    have isLength := holds'.strLen
    simp only [List.length_append] at isLength
    exact ⟨isString, isLength, by omega⟩
  · rintro ⟨isString, isLength, fits⟩
    rcases strcat_isString isText isString (by omega) with ⟨bytes', catted, length', isCat⟩
    refine ⟨{ sb with strLen, buf := some bytes' }, by simp [change, isBlock, catted], ?_⟩
    refine ⟨by simpa using isLength, holds.bufLen, by simp, ?_, holds.released⟩
    intro other isOther
    cases isOther
    exact ⟨length'.trans length, isCat⟩

theorem catSize_lt (holds : sb.Holds text) (isSize : sb.catSize len = some size) :
    size < 2 ^ 32 := by
  simp only [catSize] at isSize
  split at isSize
  · exact applySize_lt isSize
  · cases isSize
    exact holds.bufLen

theorem Holds.cat_iff (holds : sb.Holds text) (lenLt : len < 2 ^ 32) :
    (∃ new, sb.cat src len fresh = some new ∧ new.Holds (text ++ added)) ↔
      IsString added src ∧ added.length = len ∧
        ∃ size, sb.catSize len = some size ∧ sb.strLen + len + 1 ≤ size := by
  have strLen := holds.strLen
  constructor
  · rintro ⟨new, catted, holds'⟩
    simp only [cat, Option.bind_eq_bind, Option.bind_eq_some_iff] at catted
    rcases catted with ⟨room, made, changed⟩
    rcases holds.catRoom_fits made with ⟨size, isSize, fits⟩
    rcases @Holds.catRoom _ _ _ _ fresh holds isSize fits with
      ⟨room', made', bufLen, hasBlock, holdsRoom⟩
    rw [made] at made'
    cases made'
    rcases (holdsRoom.strcat_iff hasBlock).mp ⟨new, changed, holds'⟩ with
      ⟨isString, isLength, inside⟩
    have less := catSize_lt holds isSize
    have isLen : added.length = len := by
      simp only [uint32] at isLength
      omega
    exact ⟨isString, isLen, size, isSize, by omega⟩
  · rintro ⟨isString, rfl, size, isSize, fits⟩
    have less := catSize_lt holds isSize
    rcases @Holds.catRoom _ _ _ _ fresh holds isSize (by omega) with
      ⟨room, made, bufLen, hasBlock, holdsRoom⟩
    have isLength : uint32 (sb.strLen + added.length) = text.length + added.length := by
      rw [uint32_of_lt (by omega), strLen]
    rcases (holdsRoom.strcat_iff hasBlock).mpr ⟨isString, isLength, by omega⟩ with
      ⟨new, changed, holds'⟩
    refine ⟨new, ?_, holds'⟩
    simp only [cat, made, Option.bind_eq_bind, Option.bind_some, changed]

/-- `Copy` holds the string exactly when it is one of the length and has room in the block. -/
theorem Holds.copy_iff (holds : sb.Holds text) :
    (∃ new, sb.copy src len fresh = some new ∧ new.Holds added) ↔
      IsString added src ∧ added.length = len ∧
        ∃ size, sb.copySize len = some size ∧ len + 1 ≤ size := by
  simp only [copy, copySize]
  split
  · cases applied : applySize len with
    | none => simp [apply_none applied]
    | some size =>
        let room : StrBuff := ⟨size, len, some ((List.range size).map fresh),
          sb.buf.elim sb.released fun obuf => (obuf.length, sb.bufLen) :: sb.released⟩
        have made : ((sb.apply len fresh).bind fun new =>
            (some (sb.buf.elim new fun obuf => new.release obuf sb.bufLen)).bind fun new =>
              { new with strLen := len }.change (strcpy · src)) = room.change (strcpy · src) := by
          cases isBlock : sb.buf <;> simp [apply_eq applied, release, room, isBlock]
        have released : ∀ block ∈ room.released, block.1 = block.2 := by
          cases isBlock : sb.buf with
          | none => simpa [room, isBlock] using holds.released
          | some obuf =>
              intro block mem
              simp only [room, isBlock, Option.elim_some, List.mem_cons] at mem
              rcases mem with rfl | mem
              · exact (holds.block obuf isBlock).1
              · exact holds.released block mem
        simp only [Option.bind_eq_bind, made]
        rw [@change_strcpy_iff room added src _ rfl (by simp [room]) (applySize_lt applied)
          released]
        simp only [room, Option.some.injEq, exists_eq_left', eq_comm (a := len)]
        constructor
        · rintro ⟨isString, isLength, fits⟩
          exact ⟨isString, isLength, by omega⟩
        · rintro ⟨isString, isLength, fits⟩
          exact ⟨isString, isLength, by omega⟩
  · rename_i stays
    have hasBlock : sb.buf ≠ none := by
      intro noBlock
      have isZero := (holds.empty noBlock).1
      omega
    rcases Option.ne_none_iff_exists'.mp hasBlock with ⟨bytes, isBlock⟩
    have length := (holds.block bytes isBlock).1
    simp only [Option.bind_eq_bind, Option.bind_some]
    rw [@change_strcpy_iff { sb with strLen := len } added src bytes isBlock length holds.bufLen
      holds.released]
    simp only [Option.some.injEq, exists_eq_left', eq_comm (a := len)]
    constructor
    · rintro ⟨isString, isLength, fits⟩
      exact ⟨isString, isLength, by omega⟩
    · rintro ⟨isString, isLength, fits⟩
      exact ⟨isString, isLength, by omega⟩

theorem holds_fresh_iff (strLen : sb.strLen = 0) (positive : 0 < size) (sizeLt : size < 2 ^ 32)
    (released : ∀ block ∈ sb.released, block.1 = block.2) :
    Holds { sb with bufLen := size, buf := some ((List.range size).map fresh) } [] ↔
      fresh 0 = 0 := by
  rcases Nat.exists_eq_add_of_lt positive with ⟨rest, isSize⟩
  simp only [Nat.zero_add] at isSize
  subst isSize
  have split : (List.range (rest + 1)).map fresh =
      fresh 0 :: (List.range rest).map (fresh ∘ Nat.succ) := by
    simp [List.range_succ_eq_map]
  constructor
  · intro holds
    rcases (holds.block _ rfl).2 with ⟨-, bytes, isBlock⟩
    rw [split] at isBlock
    exact (List.cons.inj isBlock).1
  · intro isEnd
    refine ⟨strLen, sizeLt, by simp, ?_, released⟩
    intro bytes isBytes
    cases isBytes
    refine ⟨by simp, by simp, (List.range rest).map (fresh ∘ Nat.succ), ?_⟩
    rw [split, isEnd]
    rfl

section

variable (holds : sb.Holds text)

include holds

theorem Holds.resize (lenLt : len < 2 ^ 32) :
    ∃ new size, sb.resize len fresh = some new ∧ sb.resizeSize len = some size ∧
      new.bufLen = size ∧ (new.buf ≠ none → new.Room text size) ∧ (new.buf = none → size = 0) ∧
        ((sb.buf = none → 0 < len → fresh 0 = 0) ↔ new.Holds text) := by
  simp only [StrBuff.resize, resizeSize]
  split
  · rename_i grows
    rcases applySize_eq_some (by omega : 0 < len) lenLt with ⟨size, applied, le⟩
    cases isBlock : sb.buf with
    | none =>
        rcases (holds.empty isBlock).2 with rfl
        refine ⟨_, size, apply_eq applied, applied, rfl, fun _ => ?_, by simp, ?_⟩
        · refine ⟨holds.strLen, rfl, applySize_lt applied, holds.released, _, rfl, by simp, rfl⟩
        · rw [holds_fresh_iff holds.strLen (by omega) (applySize_lt applied) holds.released]
          simp only [true_imp_iff, (by omega : 0 < len)]
    | some obuf =>
        have lt := (holds.block obuf isBlock).2.lt
        have length := (holds.block obuf isBlock).1
        rcases @Holds.moveTo _ _ _ _ fresh holds obuf isBlock applied (by omega) with
          ⟨new, moved, bufLen, hasBlock, holds'⟩
        refine ⟨new, size, moved, applied, bufLen, fun _ => bufLen ▸ holds'.room hasBlock,
          fun noBlock => absurd noBlock hasBlock, ?_⟩
        exact iff_of_true (by simp) holds'
  · rename_i stays
    refine ⟨sb, sb.bufLen, rfl, rfl, rfl, holds.room, fun noBlock => (holds.empty noBlock).1, ?_⟩
    refine iff_of_true ?_ holds
    intro noBlock positive
    have isZero := (holds.empty noBlock).1
    omega

theorem Holds.written_iff (noEnd : 0 ∉ added) (bufLen : new.bufLen = size)
    (room : new.buf ≠ none → new.Room text size) (noBlock : new.buf = none → size = 0) :
    (∃ final, { new with strLen := uint32 (sb.strLen + added.length) }.change
        (store sb.strLen (added ++ [0])) = some final ∧ final.Holds (text ++ added)) ↔
      sb.strLen + added.length + 1 ≤ size := by
  by_cases hasBlock : new.buf = none
  · have isZero := noBlock hasBlock
    simp [change, hasBlock, isZero]
  · have room := room hasBlock
    have noEndText : 0 ∉ text := by
      rcases room.block with ⟨bytes, isBlock, length, before⟩
      cases isOld : sb.buf with
      | none => simp [(holds.empty isOld).2]
      | some obuf => exact (holds.block obuf isOld).2.1
    have less := room.size_lt
    rw [holds.strLen, room.write noEndText noEnd]
    constructor
    · rintro ⟨-, fits⟩
      exact fits
    · intro fits
      exact ⟨uint32_of_lt (by omega), fits⟩

theorem Holds.print_iff (noEnd : 0 ∉ added) :
    (∃ new, sb.print margin added fresh = some new ∧ new.Holds (text ++ added)) ↔
      sb.PrintFits margin added.length := by
  simp only [print, PrintFits, printSize]
  split
  · rcases @Holds.resize sb text _ fresh holds (uint32_lt (sb.strLen + margin)) with
      ⟨new, size, resized, isSize, bufLen, room, noBlock, -⟩
    simp only [resized, isSize, Option.bind_eq_bind, Option.bind_some, Option.some.injEq,
      exists_eq_left']
    exact holds.written_iff noEnd bufLen room noBlock
  · simp only [Option.bind_eq_bind, Option.bind_some, Option.some.injEq, exists_eq_left']
    exact holds.written_iff noEnd rfl holds.room fun noBlock => (holds.empty noBlock).1

theorem Holds.catLen_iff (len : UInt32) :
    (∃ new, sb.cat src len.toNat fresh = some new ∧
        new.Holds (text ++ (src.take len.toNat).takeWhile (· ≠ 0))) ↔ sb.CatFits src len.toNat := by
  rw [holds.cat_iff (UInt32.toNat_lt len)]
  constructor
  · rintro ⟨isString, isLength, fits⟩
    exact ⟨_, isString, isLength, fits⟩
  · rintro ⟨added, isString, isLength, fits⟩
    have same := isLength ▸ isString.takeWhile_take
    rw [same]
    exact ⟨isString, isLength, fits⟩

theorem Holds.catChars_iff :
    (∃ new, ((chars src).bind fun text => sb.cat src (uint32 text.length) fresh) = some new ∧
        new.Holds (text ++ src.takeWhile (· ≠ 0))) ↔
      sb.CatFits src (src.takeWhile (· ≠ 0)).length := by
  by_cases hasEnd : 0 ∈ src
  · have isString := isString_takeWhile hasEnd
    simp only [chars_eq_some_iff.mpr isString, Option.bind_some, holds.cat_iff (uint32_lt _)]
    constructor
    · rintro ⟨-, isLength, fits⟩
      exact ⟨_, isString, rfl, isLength ▸ fits⟩
    · rintro ⟨added, -, -, size, isSize, fits⟩
      have less := catSize_lt holds isSize
      rw [uint32_of_lt (by omega)]
      exact ⟨isString, rfl, size, isSize, fits⟩
  · have refused : chars src = none := by simp [chars, hasEnd]
    simp only [refused, Option.bind_none, reduceCtorEq, false_and, exists_false, false_iff]
    rintro ⟨added, isString, -⟩
    exact hasEnd isString.hasEnd

theorem copySize_lt (isSize : sb.copySize len = some size) : size < 2 ^ 32 := by
  simp only [copySize] at isSize
  split at isSize
  · exact applySize_lt isSize
  · cases isSize
    exact holds.bufLen

theorem Holds.copyLen_iff (len : UInt32) :
    (∃ new, sb.copy src len.toNat fresh = some new ∧
        new.Holds ((src.take len.toNat).takeWhile (· ≠ 0))) ↔ sb.CopyFits src len.toNat := by
  rw [holds.copy_iff]
  constructor
  · rintro ⟨isString, isLength, fits⟩
    exact ⟨_, isString, isLength, fits⟩
  · rintro ⟨added, isString, isLength, fits⟩
    have same := isLength ▸ isString.takeWhile_take
    rw [same]
    exact ⟨isString, isLength, fits⟩

theorem Holds.copyChars_iff :
    (∃ new, ((chars src).bind fun text => sb.copy src (uint32 text.length) fresh) = some new ∧
        new.Holds (src.takeWhile (· ≠ 0))) ↔ sb.CopyFits src (src.takeWhile (· ≠ 0)).length := by
  by_cases hasEnd : 0 ∈ src
  · have isString := isString_takeWhile hasEnd
    simp only [chars_eq_some_iff.mpr isString, Option.bind_some, holds.copy_iff]
    constructor
    · rintro ⟨-, isLength, fits⟩
      exact ⟨_, isString, rfl, isLength ▸ fits⟩
    · rintro ⟨added, -, -, size, isSize, fits⟩
      have less := copySize_lt holds isSize
      rw [uint32_of_lt (by omega)]
      exact ⟨isString, rfl, size, isSize, fits⟩
  · have refused : chars src = none := by simp [chars, hasEnd]
    simp only [refused, Option.bind_none, reduceCtorEq, false_and, exists_false, false_iff]
    rintro ⟨added, isString, -⟩
    exact hasEnd isString.hasEnd

theorem Holds.toString_iff (dv : BuffValue) :
    (∃ new, dv.toString sb fresh = some new ∧ new.Holds (text ++ dv.appended)) ↔
      sb.Fits (.toString dv fresh) := by
  cases dv with
  | null => simpa [BuffValue.toString, BuffValue.appended, Fits] using holds
  | digit type value => exact holds.print_iff (signedDecimal_noEnd _)
  | bool value =>
      refine holds.print_iff ?_
      cases value <;> decide
  | real printed => exact holds.print_iff printed.property
  | dateTime value => exact holds.print_iff (decimal_noEnd _)
  | text bysValue length => exact holds.catLen_iff length
  | blob bysValue soleLength => exact holds.print_iff (BuffValue.hexText_noEnd bysValue)

theorem Holds.run_iff (event : StrEvent) :
    (∃ new, event.run sb = some new ∧ new.Holds (event.newText text)) ↔ sb.Fits event := by
  cases event with
  | cat src len fresh => exact holds.catLen_iff len
  | catChars src fresh => exact holds.catChars_iff
  | copy src len fresh => exact holds.copyLen_iff len
  | copyChars src fresh => exact holds.copyChars_iff
  | resize len fresh =>
      rcases @Holds.resize sb text _ fresh holds (UInt32.toNat_lt len) with
        ⟨new, size, resized, -, -, -, -, same⟩
      simp only [StrEvent.run, StrEvent.newText, resized, Option.some.injEq, exists_eq_left']
      exact same.symm
  | toString dv fresh => exact holds.toString_iff dv

end

end StrBuff

/-! ## Runs of the calls -/

open StrBuff

variable {text src : List Byte} {fresh : ℕ → Byte}

theorem StrInit.sound_sized (len : UInt32) (fresh : ℕ → Byte) :
    (sized len fresh).start.Sound := by
  have holds : Holds ⟨0, 0, none, []⟩ [] := ⟨rfl, by decide, by simp, by simp, by simp⟩
  by_cases positive : 0 < len.toNat
  · rcases applySize_eq_some positive (UInt32.toNat_lt len) with ⟨size, applied, le⟩
    rcases @Holds.begun _ _ _ _ fresh holds rfl applied (by omega) with ⟨sb, begun, -, -, holds'⟩
    refine ⟨sb, ?_, holds'⟩
    simpa only [start, build, gt_iff_lt, if_pos positive] using begun
  · refine ⟨_, ?_, holds⟩
    simp only [start, build, gt_iff_lt, if_neg positive]

theorem StrInit.build_chars (len : UInt32) (isString : IsString text src) :
    (chars len src fresh).build =
      (StrBuff.apply ⟨0, uint32 text.length, none, []⟩
        (if uint32 (len.toNat + 1) < uint32 text.length then uint32 (uint32 text.length + 16)
          else len.toNat) fresh).bind fun sb => sb.change (strcpy · src) := by
  simp only [build, chars_eq_some_iff.mpr isString, Option.bind_eq_bind, Option.bind_some]

theorem StrInit.sound_chars_iff (len : UInt32) :
    (chars len src fresh).start.Sound ↔ (chars len src fresh).Fits := by
  constructor
  · rintro ⟨sb, built, holds⟩
    cases found : Bytes.chars src with
    | none => simp [start, build, found] at built
    | some text =>
        have isString := chars_eq_some_iff.mp found
        simp only [start, isString.takeWhile] at holds
        simp only [start, build_chars len isString, Option.bind_eq_some_iff] at built
        rcases built with ⟨room, applied, changed⟩
        rcases Option.map_eq_some_iff.mp applied with ⟨size, isSize, rfl⟩
        rcases (@change_strcpy_iff _ text src _ rfl (by simp) (applySize_lt isSize) (by simp)).mp
          ⟨sb, changed, holds⟩ with ⟨-, isLength, fits⟩
        simp only at isLength
        rw [isLength] at isSize
        exact ⟨text, isString, size, isSize, fits⟩
  · rintro ⟨text, isString, size, isSize, fits⟩
    have less := applySize_lt isSize
    have isLength := uint32_of_lt (by omega : text.length < 2 ^ 32)
    let room : StrBuff := ⟨size, text.length, some ((List.range size).map fresh), []⟩
    rcases (@change_strcpy_iff room text src _ rfl (by simp [room]) less (by simp [room])).mpr
      ⟨isString, rfl, fits⟩ with ⟨sb, changed, holds⟩
    refine ⟨sb, ?_, ?_⟩
    · simpa only [start, build_chars len isString, isLength, apply_eq isSize, Option.bind_some]
        using changed
    · simpa only [start, isString.takeWhile] using holds

theorem StrInit.sound_start_iff (init : StrInit) : init.start.Sound ↔ init.Fits := by
  cases init with
  | sized len fresh => exact iff_of_true (sound_sized len fresh) trivial
  | chars len src fresh => exact sound_chars_iff len

theorem StrRun.sound_next_iff {run run' : StrRun} {event : StrEvent} (sound : run.Sound)
    (step : run.next event = some run') : run'.Sound ↔ run.Fits event := by
  rcases sound with ⟨sb, isBuff, holds⟩
  cases step
  simp only [Sound, Fits, isBuff, Option.bind_some, Option.some.injEq, exists_eq_left']
  exact holds.run_iff event

/-- In every run the buffer has the texts since the last `Copy`, within its block, exactly as long
as each call has room for its text: `Cat` for the new text behind the old one, `Copy` for the end of
the string, a printed value for all of its digits. -/
theorem StrInit.sound_iff (init : StrInit) (events : List StrEvent) :
    Throughout StrRun.next StrRun.Sound events init.start ↔
      init.Fits ∧ EachStep StrRun.next StrRun.Fits events init.start := by
  by_cases sound : init.start.Sound
  · have steps : Throughout StrRun.next StrRun.Sound events init.start ↔
        EachStep StrRun.next StrRun.Fits events init.start :=
      throughout_iff_eachStep (fun _ _ _ sound step => StrRun.sound_next_iff sound step) events
        sound
    rw [steps]
    exact (and_iff_right (init.sound_start_iff.mp sound)).symm
  · refine iff_of_false ?_ fun both => sound (init.sound_start_iff.mpr both.1)
    intro always
    cases events with
    | nil => exact sound always
    | cons event events => exact sound always.1

/-- Ten bytes are twice appended to a buffer of 16, whose block is too short for 21. -/
theorem StrInit.not_sound :
    ¬∀ (init : StrInit) (events : List StrEvent),
      Throughout StrRun.next StrRun.Sound events init.start := by
  intro always
  let digits : List Byte := [48, 49, 50, 51, 52, 53, 54, 55, 56, 57, 0]
  let cat : StrEvent := .cat digits 10 fun _ => 0
  have run := always (.sized 16 fun _ => 0) [cat, cat]
  rcases (run.2 _ rfl).2 _ rfl with ⟨sb, isBuff, -⟩
  have faulted : ((StrInit.sized 16 fun _ => 0).build.bind cat.run).bind cat.run = none := by
    decide
  exact absurd (faulted.symm.trans isBuff) (by simp)

end RapidDb
