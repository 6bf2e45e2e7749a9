import RapidDb.DataType.TaggedValue
import RapidDb.Library.OwnedBlocks
import RapidDb.Library.Transition

/-!
# The buffers of texts and blobs

A SOLE_VALUE of the classes FIXCHAR, VARCHAR and BLOB owns a buffer of `CachePool`. The size with
which it is released is not stored: it is the maximum length of a FIXCHAR, and `_soleLength` of the
other two. The operations on any number of values are followed here without the bytes; which
address `Apply` returns is left open, as long as nobody has the block.

Three operations leave a value whose buffer was not applied with that size: `Copy` of a VARCHAR from
a value that is not a text, the assignment of a FIXCHAR that is moved, and the constructor of a BLOB
from an array.
-/

namespace RapidDb

open Transition

inductive BufferClass where
  | fixChar
  | varChar
  | blob
deriving DecidableEq, Repr

/-- The parts of a value that decide about its buffer. A FIXCHAR has no `_soleLength`. -/
structure BufferValue where
  dataType : BufferClass
  valType : ValueType
  maxLength : UInt32
  soleLength : UInt32
  bysValue : BlockPointer
deriving DecidableEq, Repr

abbrev ValueHeap := BlockHeap BufferValue UInt32

namespace BufferValue

/-- The length with which a buffer is released. -/
def bufferSize (dv : BufferValue) : UInt32 :=
  match dv.dataType with
  | .fixChar => dv.maxLength
  | .varChar | .blob => dv.soleLength

/-- `GetDataLength`. -/
def getDataLength (dv : BufferValue) : UInt32 :=
  if dv.valType = .nullValue then 0 else dv.bufferSize

/-- The buffer that a SOLE_VALUE releases. -/
def owned (dv : BufferValue) : Option (BlockPointer × UInt32) :=
  if dv.valType = .soleValue then some (dv.bysValue, dv.bufferSize) else none

/-- How many characters `ToString` of a BLOB makes. -/
def textLength (dv : BufferValue) : UInt32 :=
  dv.soleLength * 2 + 2

/-- A value becomes NULL, and its pointer `nullptr`. -/
def toNull (dv : BufferValue) : BufferValue :=
  { dv with valType := .nullValue, bysValue := .nullptr }

end BufferValue

namespace ValueHeap

/-- `Release` of the buffer of a SOLE_VALUE. -/
def releaseSole (heap : ValueHeap) (id : ℕ) : ValueHeap :=
  heap.free BufferValue.owned id

/-- `Apply`; the address is that of a block that nobody has. The value becomes a SOLE_VALUE with
this block. -/
def applyFor (heap : ValueHeap) (id address : ℕ) (size : UInt32) (dv : BufferValue) :
    Option ValueHeap :=
  if heap.applied address = none then
    some ((heap.apply address size).put id
      (some { dv with valType := .soleValue, bysValue := .block address }))
  else none

/-- A FIXCHAR gets a buffer unless it has one. -/
def fillFixChar (heap : ValueHeap) (id : ℕ) (dv : BufferValue) (address : ℕ) : Option ValueHeap :=
  if dv.valType = .soleValue then some heap
  else heap.applyFor id address dv.maxLength dv

/-- A VARCHAR or BLOB releases its buffer and gets another. -/
def newBuffer (heap : ValueHeap) (id : ℕ) (dv : BufferValue) (address : ℕ)
    (size soleLength : UInt32) : Option ValueHeap :=
  (heap.releaseSole id).applyFor id address size { dv with soleLength := soleLength }

/-- `SetNull`. -/
def setNull (heap : ValueHeap) (id : ℕ) (dv : BufferValue) : ValueHeap :=
  (heap.releaseSole id).put id (some dv.toNull)

/-- `SetValue`. -/
def setValue (heap : ValueHeap) (id : ℕ) (dv : BufferValue) (len : UInt32) (address : ℕ) :
    Option ValueHeap :=
  match dv.dataType with
  | .fixChar => if len ≥ dv.maxLength then some heap else heap.fillFixChar id dv address
  | .varChar =>
      if len ≥ dv.maxLength then some heap else heap.newBuffer id dv address (len + 1) (len + 1)
  | .blob => if len > dv.maxLength then some heap else heap.newBuffer id dv address len len

/-- `PutValue`; the length is not cut before it is compared. -/
def putValue (heap : ValueHeap) (id : ℕ) (dv : BufferValue) (len address : ℕ) :
    Option ValueHeap :=
  match dv.dataType with
  | .fixChar => if len > dv.maxLength.toNat then some heap else heap.fillFixChar id dv address
  | .varChar =>
      if len ≥ dv.maxLength.toNat then some heap
      else heap.newBuffer id dv address (UInt32.ofNat len + 1) (UInt32.ofNat len + 1)
  | .blob =>
      if len > dv.maxLength.toNat then some heap
      else heap.newBuffer id dv address (UInt32.ofNat len) (UInt32.ofNat len)

/-- The assignment operators from strings; a BLOB has none. -/
def assignChars (heap : ValueHeap) (id : ℕ) (dv : BufferValue) (len : UInt32) (address : ℕ) :
    Option ValueHeap :=
  match dv.dataType with
  | .fixChar => if len ≥ dv.maxLength then some heap else heap.fillFixChar id dv address
  | .varChar =>
      if len ≥ dv.maxLength - 1 then some heap else heap.newBuffer id dv address len len
  | .blob => none

/-- `ReadData` from a key or a value. -/
def readData (heap : ValueHeap) (id : ℕ) (dv : BufferValue) (svPos : SavePosition) (len : UInt32)
    (bSole : Bool) (address : ℕ) : Option ValueHeap :=
  match dv.dataType with
  | .fixChar =>
      if svPos = .value ∧ len = 0 then
        some ((heap.releaseSole id).put id (some { dv with valType := .nullValue }))
      else if bSole then heap.fillFixChar id dv address
      else some ((heap.releaseSole id).put id
        (some { dv with valType := .bytesValue, bysValue := .outside }))
  | .varChar | .blob =>
      if len = 0 then some (heap.setNull id dv)
      else if bSole then heap.newBuffer id dv address len len
      else some ((heap.releaseSole id).put id
        (some { dv with valType := .bytesValue, soleLength := len, bysValue := .outside }))

/-- `ReadData` of a tagged value: nothing for NULL, else the stored length. -/
def readTagged (heap : ValueHeap) (id : ℕ) (dv : BufferValue) (stored : Option UInt32)
    (address : ℕ) : Option ValueHeap :=
  match dv.dataType, stored with
  | .fixChar, none => some (heap.setNull id dv)
  | .fixChar, some length =>
      (heap.releaseSole id).applyFor id address length { dv with maxLength := length }
  | .varChar, none | .blob, none =>
      some ((heap.releaseSole id).put id (some { dv with valType := .nullValue }))
  | .varChar, some length | .blob, some length => heap.newBuffer id dv address length length

/-- `SetMinValue` and `SetDefaultValue`. -/
def setMinValue (heap : ValueHeap) (id : ℕ) (dv : BufferValue) (address : ℕ) :
    Option ValueHeap :=
  match dv.dataType with
  | .fixChar => heap.fillFixChar id dv address
  | .varChar | .blob => heap.newBuffer id dv address 1 1

def setMaxValue (heap : ValueHeap) (id : ℕ) (dv : BufferValue) (address : ℕ) :
    Option ValueHeap :=
  match dv.dataType with
  | .fixChar => heap.fillFixChar id dv address
  | .varChar | .blob => heap.newBuffer id dv address dv.maxLength dv.maxLength

/-- `Copy` from a value that is not a text: nothing for NULL, else the length of its `ToString`. A
VARCHAR applies its maximum length. -/
def copyOther (heap : ValueHeap) (id : ℕ) (dv : BufferValue) (sb : Option UInt32)
    (address : ℕ) : Option ValueHeap :=
  match dv.dataType, sb with
  | .blob, _ => some heap
  | .fixChar, none | .varChar, none => some (heap.setNull id dv)
  | .fixChar, some len =>
      if dv.maxLength < len then some heap else heap.fillFixChar id dv address
  | .varChar, some len =>
      if dv.maxLength < len + 1 then some heap
      else heap.newBuffer id dv address dv.maxLength (len + 1)

/-- `Copy` from a value with a buffer. A VARCHAR keeps `cut` bytes of a FIXCHAR and the NUL. -/
def copy (heap : ValueHeap) (id : ℕ) (dv : BufferValue) (src : ℕ) (source : BufferValue)
    (cut : UInt32) (bMove : Bool) (refCount address : ℕ) : Option ValueHeap :=
  let bMove := if refCount > 1 then false else bMove
  match dv.dataType with
  | .fixChar =>
      if source.valType = .nullValue then some (heap.setNull id dv)
      else if source.dataType = .blob then
        heap.copyOther id dv (some source.textLength) address
      else if source.getDataLength > dv.maxLength then some heap
      else if bMove ∧ source.dataType = .fixChar ∧ dv.maxLength = source.maxLength then
        some (((heap.releaseSole id).put id
          (some { dv with valType := source.valType, bysValue := source.bysValue })).change src
            BufferValue.toNull)
      else if source.valType = .bytesValue ∧ dv.maxLength = source.maxLength then
        some ((heap.releaseSole id).put id
          (some { dv with valType := .bytesValue, bysValue := source.bysValue }))
      else heap.fillFixChar id dv address
  | .varChar =>
      if source.valType = .nullValue then some (heap.setNull id dv)
      else if source.dataType = .blob then
        heap.copyOther id dv (some source.textLength) address
      else if source.getDataLength > dv.maxLength then some heap
      else if bMove ∧ source.dataType = .varChar then
        some (((heap.releaseSole id).put id
          (some { dv with
            valType := source.valType
            soleLength := source.getDataLength
            bysValue := source.bysValue })).change src BufferValue.toNull)
      else if source.dataType = .varChar ∧ source.valType = .bytesValue then
        some ((heap.releaseSole id).put id
          (some { dv with
            valType := .bytesValue
            soleLength := source.getDataLength
            bysValue := source.bysValue }))
      else if source.dataType = .fixChar then
        heap.newBuffer id dv address (cut + 1) (cut + 1)
      else heap.newBuffer id dv address source.getDataLength source.getDataLength
  | .blob =>
      if source.dataType ≠ .blob then some heap
      else if source.getDataLength > dv.maxLength then some heap
      else if bMove then
        some (((heap.releaseSole id).put id
          (some { dv with
            valType := source.valType
            soleLength := source.getDataLength
            bysValue := source.bysValue })).change src BufferValue.toNull)
      else if source.valType = .bytesValue then
        some ((heap.releaseSole id).put id
          (some { dv with
            valType := .bytesValue
            soleLength := source.getDataLength
            bysValue := source.bysValue }))
      else if source.valType ≠ .nullValue then
        heap.newBuffer id dv address source.getDataLength source.getDataLength
      else some ((heap.releaseSole id).put id (some { dv.toNull with soleLength := 0 }))

/-- `operator=` from a value of the class. -/
def assign (heap : ValueHeap) (id : ℕ) (dv source : BufferValue) (address : ℕ) :
    Option ValueHeap :=
  if dv.dataType ≠ source.dataType then none
  else
    match source.valType with
    | .nullValue => some ((heap.releaseSole id).put id (some source.toNull))
    | .bytesValue => some ((heap.releaseSole id).put id (some source))
    | .soleValue => (heap.releaseSole id).applyFor id address source.bufferSize source

/-- `operator=` from a value of the class that is moved. That of a FIXCHAR leaves the source a
SOLE_VALUE. -/
def assignMove (heap : ValueHeap) (id : ℕ) (dv : BufferValue) (src : ℕ) (source : BufferValue) :
    Option ValueHeap :=
  if dv.dataType ≠ source.dataType then none
  else some (((heap.releaseSole id).put id (some source)).change src fun src =>
    match src.dataType with
    | .fixChar => { src with bysValue := .nullptr }
    | .varChar | .blob => src.toNull)

def construct (heap : ValueHeap) (id : ℕ) (dataType : BufferClass) (maxLength : UInt32) :
    ValueHeap :=
  heap.put id (some ⟨dataType, .nullValue, maxLength, 0, .nullptr⟩)

/-- The constructors that copy the bytes of the caller. -/
def constructChars (heap : ValueHeap) (id : ℕ) (dataType : BufferClass) (len maxLength : UInt32)
    (address : ℕ) : Option ValueHeap :=
  match dataType with
  | .fixChar =>
      let maxLength := if maxLength = 0 then len else maxLength
      heap.applyFor id address maxLength ⟨.fixChar, .soleValue, maxLength, 0, .nullptr⟩
  | .varChar | .blob =>
      let maxLength := if maxLength = 0xFFFFFFFF then len else maxLength
      heap.applyFor id address len ⟨dataType, .soleValue, maxLength, len, .nullptr⟩

/-- The constructors that take an array of the caller: other memory, or a block that the caller has
applied with a size and hands over. The two texts become a BYTES_VALUE and leave it with the caller,
the BLOB a SOLE_VALUE. -/
def constructArray (heap : ValueHeap) (id : ℕ) (dataType : BufferClass) (len maxLength : UInt32)
    (array : Option (ℕ × UInt32)) : Option ValueHeap :=
  match dataType, array with
  | .fixChar, _ => some (heap.put id (some ⟨.fixChar, .bytesValue, maxLength, 0, .outside⟩))
  | .varChar, _ => some (heap.put id (some ⟨.varChar, .bytesValue, maxLength, len, .outside⟩))
  | .blob, none => some (heap.put id (some ⟨.blob, .soleValue, maxLength, len, .outside⟩))
  | .blob, some (address, size) =>
      heap.applyFor id address size ⟨.blob, .soleValue, maxLength, len, .nullptr⟩

/-- The copy constructor. A BLOB always gets a buffer of its own. -/
def constructCopy (heap : ValueHeap) (id : ℕ) (source : BufferValue) (address : ℕ) :
    Option ValueHeap :=
  if source.valType = .nullValue then some (heap.put id (some source.toNull))
  else if source.valType = .bytesValue ∧ source.dataType ≠ .blob then
    some (heap.put id (some source))
  else heap.applyFor id address source.bufferSize source

def constructMove (heap : ValueHeap) (id src : ℕ) (source : BufferValue) : ValueHeap :=
  (heap.put id (some source)).change src fun src =>
    match src.dataType with
    | .fixChar | .varChar => src.toNull
    | .blob => { src with valType := .nullValue }

def destroy (heap : ValueHeap) (id : ℕ) : ValueHeap :=
  (heap.releaseSole id).put id none

end ValueHeap

inductive ValueEvent where
  | construct (id : ℕ) (dataType : BufferClass) (maxLength : UInt32)
  | constructChars (id : ℕ) (dataType : BufferClass) (len maxLength : UInt32) (address : ℕ)
  | constructArray (id : ℕ) (dataType : BufferClass) (len maxLength : UInt32)
      (array : Option (ℕ × UInt32))
  | constructCopy (id src address : ℕ)
  | constructMove (id src : ℕ)
  | assign (id src address : ℕ)
  | assignMove (id src : ℕ)
  | assignChars (id : ℕ) (len : UInt32) (address : ℕ)
  | setValue (id : ℕ) (len : UInt32) (address : ℕ)
  | putValue (id len address : ℕ)
  | copy (id src : ℕ) (cut : UInt32) (bMove : Bool) (refCount address : ℕ)
  | copyOther (id : ℕ) (sb : Option UInt32) (address : ℕ)
  | readData (id : ℕ) (svPos : SavePosition) (len : UInt32) (bSole : Bool) (address : ℕ)
  | readTagged (id : ℕ) (stored : Option UInt32) (address : ℕ)
  | setNull (id : ℕ)
  | setMinValue (id address : ℕ)
  | setMaxValue (id address : ℕ)
  | setDefaultValue (id address : ℕ)
  | destroy (id : ℕ)
deriving DecidableEq, Repr

namespace ValueHeap

def on (heap : ValueHeap) (id : ℕ) (operation : BufferValue → Option ValueHeap) :
    Option ValueHeap :=
  (heap.values id).bind operation

def new (heap : ValueHeap) (id : ℕ) (operation : Option ValueHeap) : Option ValueHeap :=
  if heap.values id = none then operation else none

/-- One operation on the values; none if it is not possible now. -/
def next (heap : ValueHeap) : ValueEvent → Option ValueHeap
  | .construct id dataType maxLength => heap.new id (some (heap.construct id dataType maxLength))
  | .constructChars id dataType len maxLength address =>
      heap.new id (heap.constructChars id dataType len maxLength address)
  | .constructArray id dataType len maxLength array =>
      heap.new id (heap.constructArray id dataType len maxLength array)
  | .constructCopy id src address =>
      heap.new id (heap.on src fun source => heap.constructCopy id source address)
  | .constructMove id src =>
      heap.new id (heap.on src fun source => some (heap.constructMove id src source))
  | .assign id src address =>
      heap.on id fun dv => heap.on src fun source => heap.assign id dv source address
  | .assignMove id src =>
      heap.on id fun dv => heap.on src fun source => heap.assignMove id dv src source
  | .assignChars id len address => heap.on id fun dv => heap.assignChars id dv len address
  | .setValue id len address => heap.on id fun dv => heap.setValue id dv len address
  | .putValue id len address => heap.on id fun dv => heap.putValue id dv len address
  | .copy id src cut bMove refCount address =>
      heap.on id fun dv => heap.on src fun source =>
        heap.copy id dv src source cut bMove refCount address
  | .copyOther id sb address => heap.on id fun dv => heap.copyOther id dv sb address
  | .readData id svPos len bSole address =>
      heap.on id fun dv => heap.readData id dv svPos len bSole address
  | .readTagged id stored address => heap.on id fun dv => heap.readTagged id dv stored address
  | .setNull id => heap.on id fun dv => some (heap.setNull id dv)
  | .setMinValue id address | .setDefaultValue id address =>
      heap.on id fun dv => heap.setMinValue id dv address
  | .setMaxValue id address => heap.on id fun dv => heap.setMaxValue id dv address
  | .destroy id => heap.on id fun _ => some (heap.destroy id)

/-- The text of another class fills the VARCHAR that it is copied into, or is refused. -/
def OtherFits (dv : BufferValue) (sb : Option UInt32) : Prop :=
  dv.dataType = .varChar → ∀ len, sb = some len → ¬dv.maxLength < len + 1 →
    len + 1 = dv.maxLength

/-- What the operations need that do not always keep sizes and buffers together. -/
def Fits (heap : ValueHeap) : ValueEvent → Prop
  | .copyOther id sb _ => ∀ dv, heap.values id = some dv → OtherFits dv sb
  | .copy id src _ _ _ _ => ∀ dv source, heap.values id = some dv →
      heap.values src = some source → source.valType ≠ .nullValue → source.dataType = .blob →
        OtherFits dv (some source.textLength)
  | .assignMove _ src => ∀ source, heap.values src = some source →
      source.dataType = .fixChar → source.valType ≠ .soleValue
  | .constructArray _ dataType len _ array => dataType = .blob →
      ∃ address, array = some (address, len)
  | _ => True

/-- The values are in order: each SOLE_VALUE has a block that was applied with the size with which
it is released, no two have the same, every block has its value, and all releases have been of this
kind. -/
abbrev BuffersSound (heap : ValueHeap) : Prop :=
  heap.Sound BufferValue.owned

variable {heap heap' : ValueHeap} {id address : ℕ} {size : UInt32} {dv : BufferValue}

/-!
## The ways to get and to lose a buffer
-/

theorem sound_released (sound : heap.BuffersSound) {new : BufferValue}
    (notSole : new.valType ≠ .soleValue) :
    BuffersSound ((heap.releaseSole id).put id (some new)) := by
  refine sound.settle ?_
  rw [Option.bind_some, BufferValue.owned, if_neg notSole]

theorem sound_setNull (sound : heap.BuffersSound) : BuffersSound (heap.setNull id dv) :=
  sound_released sound (by simp [BufferValue.toNull])

/-- A value that releases its buffer and gets another is in order when the other is applied with
the size that follows from the value. -/
theorem sound_applyFor_iff (sound : heap.BuffersSound)
    (done : (heap.releaseSole id).applyFor id address size dv = some heap') :
    heap'.BuffersSound ↔ dv.bufferSize = size := by
  unfold applyFor at done
  split at done
  case isFalse => cases done
  case isTrue isFree =>
    cases done
    refine (sound.renew_iff isFree).trans ?_
    simp [BufferValue.owned, BufferValue.bufferSize]

theorem releaseSole_of_not_sole (found : heap.values id = some dv)
    (notSole : dv.valType ≠ .soleValue) : heap.releaseSole id = heap := by
  refine BlockHeap.free_eq_self ?_
  rw [BlockHeap.holding, found, Option.bind_some, BufferValue.owned, if_neg notSole]

theorem releaseSole_of_unused (unused : heap.values id = none) : heap.releaseSole id = heap := by
  refine BlockHeap.free_eq_self ?_
  rw [BlockHeap.holding, unused, Option.bind_none]

theorem sound_fillFixChar (sound : heap.BuffersSound) (found : heap.values id = some dv)
    (fixChar : dv.dataType = .fixChar) (done : heap.fillFixChar id dv address = some heap') :
    heap'.BuffersSound := by
  unfold fillFixChar at done
  split at done
  case isTrue =>
    cases done
    exact sound
  case isFalse notSole =>
    rw [← releaseSole_of_not_sole found notSole] at done
    refine (sound_applyFor_iff sound done).mpr ?_
    rw [BufferValue.bufferSize, fixChar]

theorem sound_newBuffer_iff (sound : heap.BuffersSound) (notFixChar : dv.dataType ≠ .fixChar)
    {soleLength : UInt32} (done : heap.newBuffer id dv address size soleLength = some heap') :
    heap'.BuffersSound ↔ soleLength = size := by
  rw [sound_applyFor_iff sound done]
  cases type : dv.dataType with
  | fixChar => exact absurd type notFixChar
  | varChar | blob => simp [BufferValue.bufferSize]

theorem sound_unless {refused : Prop} [Decidable refused] {operation : Option ValueHeap}
    (sound : heap.BuffersSound) (done : (if refused then some heap else operation) = some heap')
    (accepted : operation = some heap' → heap'.BuffersSound) : heap'.BuffersSound := by
  split at done
  case isTrue =>
    cases done
    exact sound
  case isFalse => exact accepted done

/-!
## One value
-/

section

variable (sound : heap.BuffersSound)

include sound

theorem sound_setValue (found : heap.values id = some dv) {len : UInt32}
    (done : heap.setValue id dv len address = some heap') : heap'.BuffersSound := by
  cases type : dv.dataType with
  | fixChar =>
      simp only [setValue, type] at done
      exact sound_unless sound done fun filled => sound_fillFixChar sound found type filled
  | varChar | blob =>
      simp only [setValue, type] at done
      exact sound_unless sound done fun applied =>
        (sound_newBuffer_iff sound (by simp [type]) applied).mpr rfl

theorem sound_putValue (found : heap.values id = some dv) {len : ℕ}
    (done : heap.putValue id dv len address = some heap') : heap'.BuffersSound := by
  cases type : dv.dataType with
  | fixChar =>
      simp only [putValue, type] at done
      exact sound_unless sound done fun filled => sound_fillFixChar sound found type filled
  | varChar | blob =>
      simp only [putValue, type] at done
      exact sound_unless sound done fun applied =>
        (sound_newBuffer_iff sound (by simp [type]) applied).mpr rfl

theorem sound_assignChars (found : heap.values id = some dv) {len : UInt32}
    (done : heap.assignChars id dv len address = some heap') : heap'.BuffersSound := by
  cases type : dv.dataType with
  | fixChar =>
      simp only [assignChars, type] at done
      exact sound_unless sound done fun filled => sound_fillFixChar sound found type filled
  | varChar =>
      simp only [assignChars, type] at done
      exact sound_unless sound done fun applied =>
        (sound_newBuffer_iff sound (by simp [type]) applied).mpr rfl
  | blob =>
      simp only [assignChars, type] at done
      cases done

theorem sound_readData (found : heap.values id = some dv) {svPos : SavePosition} {len : UInt32}
    {bSole : Bool} (done : heap.readData id dv svPos len bSole address = some heap') :
    heap'.BuffersSound := by
  cases type : dv.dataType with
  | fixChar =>
      simp only [readData, type] at done
      split at done
      · cases done
        exact sound_released sound (by simp)
      · cases bSole with
        | true => exact sound_fillFixChar sound found type done
        | false =>
            cases done
            exact sound_released sound (by simp)
  | varChar | blob =>
      simp only [readData, type] at done
      split at done
      · cases done
        exact sound_setNull sound
      · cases bSole with
        | true => exact (sound_newBuffer_iff sound (by simp [type]) done).mpr rfl
        | false =>
            cases done
            exact sound_released sound (by simp)

theorem sound_readTagged {stored : Option UInt32}
    (done : heap.readTagged id dv stored address = some heap') : heap'.BuffersSound := by
  cases type : dv.dataType with
  | fixChar =>
      cases stored with
      | none =>
          simp only [readTagged, type] at done
          cases done
          exact sound_setNull sound
      | some length =>
          simp only [readTagged, type] at done
          exact (sound_applyFor_iff sound done).mpr rfl
  | varChar | blob =>
      cases stored with
      | none =>
          simp only [readTagged, type] at done
          cases done
          exact sound_released sound (by simp)
      | some length =>
          simp only [readTagged, type] at done
          exact (sound_newBuffer_iff sound (by simp [type]) done).mpr rfl

theorem sound_setMinValue (found : heap.values id = some dv)
    (done : heap.setMinValue id dv address = some heap') : heap'.BuffersSound := by
  cases type : dv.dataType with
  | fixChar =>
      simp only [setMinValue, type] at done
      exact sound_fillFixChar sound found type done
  | varChar | blob =>
      simp only [setMinValue, type] at done
      exact (sound_newBuffer_iff sound (by simp [type]) done).mpr rfl

theorem sound_setMaxValue (found : heap.values id = some dv)
    (done : heap.setMaxValue id dv address = some heap') : heap'.BuffersSound := by
  cases type : dv.dataType with
  | fixChar =>
      simp only [setMaxValue, type] at done
      exact sound_fillFixChar sound found type done
  | varChar | blob =>
      simp only [setMaxValue, type] at done
      exact (sound_newBuffer_iff sound (by simp [type]) done).mpr rfl

/-- The text of another class leaves the value in order when it fills the VARCHAR. -/
theorem sound_copyOther_iff (found : heap.values id = some dv) {sb : Option UInt32}
    (done : heap.copyOther id dv sb address = some heap') :
    heap'.BuffersSound ↔ OtherFits dv sb := by
  cases type : dv.dataType with
  | fixChar =>
      refine iff_of_true ?_ fun varChar => by rw [type] at varChar; cases varChar
      cases sb with
      | none =>
          simp only [copyOther, type] at done
          cases done
          exact sound_setNull sound
      | some len =>
          simp only [copyOther, type] at done
          exact sound_unless sound done fun filled => sound_fillFixChar sound found type filled
  | varChar =>
      cases sb with
      | none =>
          simp only [copyOther, type] at done
          cases done
          exact iff_of_true (sound_setNull sound) fun _ len impossible => by cases impossible
      | some len =>
          simp only [copyOther, type] at done
          split at done
          case isTrue refused =>
            cases done
            refine iff_of_true sound ?_
            intro _ other same accepted
            cases same
            exact absurd refused accepted
          case isFalse accepted =>
            rw [sound_newBuffer_iff sound (by simp [type]) done]
            constructor
            · intro fills _ other same _
              cases same
              exact fills
            · intro fits
              exact fits type len rfl accepted
  | blob =>
      simp only [copyOther, type] at done
      cases done
      exact iff_of_true sound fun varChar => by rw [type] at varChar; cases varChar

end

/-!
## Two values
-/

variable {src : ℕ} {source : BufferValue}

theorem sound_taken (sound : heap.BuffersSound) (foundSource : heap.values src = some source)
    {new : BufferValue} (sameType : new.valType = source.valType)
    (samePointer : new.bysValue = source.bysValue)
    (sameSize : source.valType = .soleValue → new.bufferSize = source.bufferSize) :
    BuffersSound (((heap.releaseSole id).put id (some new)).change src BufferValue.toNull) := by
  refine sound.moveChange foundSource ?_ ?_ ?_
  · unfold BufferValue.owned
    rw [sameType]
    split
    case isTrue sole => rw [samePointer, sameSize sole]
    case isFalse => rfl
  · simp [BufferValue.owned, BufferValue.toNull]
  · simp [BufferValue.owned, BufferValue.toNull]

theorem getDataLength_of_not_null {dv : BufferValue} (notNull : dv.valType ≠ .nullValue) :
    dv.getDataLength = dv.bufferSize :=
  if_neg notNull

section

variable (sound : heap.BuffersSound)

include sound

theorem sound_copy_fixChar (found : heap.values id = some dv)
    (foundSource : heap.values src = some source) (fixChar : dv.dataType = .fixChar) {cut : UInt32}
    {bMove : Bool} {refCount : ℕ}
    (done : heap.copy id dv src source cut bMove refCount address = some heap') :
    heap'.BuffersSound := by
  simp only [copy, fixChar] at done
  generalize (if refCount > 1 then false else bMove) = moved at done
  split at done
  case isTrue =>
    cases done
    exact sound_setNull sound
  case isFalse notNull =>
    split at done
    case isTrue =>
      refine (sound_copyOther_iff sound found done).mpr ?_
      intro varChar
      rw [fixChar] at varChar
      cases varChar
    case isFalse =>
      refine sound_unless sound done ?_
      intro accepted
      split at accepted
      case isTrue moves =>
        cases accepted
        refine sound_taken sound foundSource rfl rfl ?_
        intro _
        simp only [BufferValue.bufferSize, moves.2.1, moves.2.2]
      case isFalse =>
        split at accepted
        case isTrue =>
          cases accepted
          exact sound_released sound (by simp)
        case isFalse => exact sound_fillFixChar sound found fixChar accepted

theorem sound_copy_varChar_iff (found : heap.values id = some dv)
    (foundSource : heap.values src = some source) (varChar : dv.dataType = .varChar) {cut : UInt32}
    {bMove : Bool} {refCount : ℕ}
    (done : heap.copy id dv src source cut bMove refCount address = some heap') :
    heap'.BuffersSound ↔ (source.valType ≠ .nullValue → source.dataType = .blob →
      OtherFits dv (some source.textLength)) := by
  have notFixChar : dv.dataType ≠ .fixChar := by simp [varChar]
  simp only [copy, varChar] at done
  generalize (if refCount > 1 then false else bMove) = moved at done
  split at done
  case isTrue isNull =>
    cases done
    exact iff_of_true (sound_setNull sound) fun notNull => absurd isNull notNull
  case isFalse notNull =>
    split at done
    case isTrue isBlob =>
      rw [sound_copyOther_iff sound found done]
      exact ⟨fun fits _ _ => fits, fun fits => fits notNull isBlob⟩
    case isFalse notBlob =>
      refine iff_of_true ?_ fun _ isBlob => absurd isBlob notBlob
      refine sound_unless sound done ?_
      intro accepted
      split at accepted
      case isTrue moves =>
        cases accepted
        refine sound_taken sound foundSource rfl rfl ?_
        intro _
        simp only [BufferValue.bufferSize, getDataLength_of_not_null notNull]
      case isFalse =>
        split at accepted
        case isTrue =>
          cases accepted
          exact sound_released sound (by simp)
        case isFalse =>
          split at accepted
          case isTrue => exact (sound_newBuffer_iff sound notFixChar accepted).mpr rfl
          case isFalse => exact (sound_newBuffer_iff sound notFixChar accepted).mpr rfl

theorem sound_copy_blob (foundSource : heap.values src = some source) (blob : dv.dataType = .blob)
    {cut : UInt32} {bMove : Bool} {refCount : ℕ}
    (done : heap.copy id dv src source cut bMove refCount address = some heap') :
    heap'.BuffersSound := by
  have notFixChar : dv.dataType ≠ .fixChar := by simp [blob]
  simp only [copy, blob] at done
  generalize (if refCount > 1 then false else bMove) = moved at done
  refine sound_unless sound done ?_
  intro sameClass
  refine sound_unless sound sameClass ?_
  intro accepted
  split at accepted
  case isTrue =>
    cases accepted
    refine sound_taken sound foundSource rfl rfl ?_
    intro sole
    have notNull : source.valType ≠ .nullValue := by simp [sole]
    simp only [BufferValue.bufferSize, getDataLength_of_not_null notNull]
  case isFalse =>
    split at accepted
    case isTrue =>
      cases accepted
      exact sound_released sound (by simp)
    case isFalse =>
      split at accepted
      case isTrue => exact (sound_newBuffer_iff sound notFixChar accepted).mpr rfl
      case isFalse =>
        cases accepted
        exact sound_released sound (by simp [BufferValue.toNull])

theorem sound_copy_iff (found : heap.values id = some dv)
    (foundSource : heap.values src = some source) {cut : UInt32} {bMove : Bool} {refCount : ℕ}
    (done : heap.copy id dv src source cut bMove refCount address = some heap') :
    heap'.BuffersSound ↔ (source.valType ≠ .nullValue → source.dataType = .blob →
      OtherFits dv (some source.textLength)) := by
  cases type : dv.dataType with
  | fixChar =>
      refine iff_of_true (sound_copy_fixChar sound found foundSource type done) ?_
      intro _ _ varChar
      rw [type] at varChar
      cases varChar
  | varChar => exact sound_copy_varChar_iff sound found foundSource type done
  | blob =>
      refine iff_of_true (sound_copy_blob sound foundSource type done) ?_
      intro _ _ varChar
      rw [type] at varChar
      cases varChar

theorem sound_assign (done : heap.assign id dv source address = some heap') :
    heap'.BuffersSound := by
  unfold assign at done
  split at done
  case isTrue => cases done
  case isFalse =>
    cases type : source.valType with
    | nullValue =>
        rw [type] at done
        cases done
        exact sound_released sound (by simp [BufferValue.toNull])
    | bytesValue =>
        rw [type] at done
        cases done
        exact sound_released sound (by simp [type])
    | soleValue =>
        rw [type] at done
        exact (sound_applyFor_iff sound done).mpr rfl

theorem values_put_source (foundSource : heap.values src = some source) :
    (BlockHeap.put (heap.releaseSole id) id (some source)).values src = some source := by
  have values : (heap.releaseSole id).values = heap.values := (sound.free id).1
  by_cases same : src = id
  · simp [BlockHeap.put, same]
  · simp [BlockHeap.put, same, values, foundSource]

theorem sound_assignMove_iff (foundSource : heap.values src = some source)
    (done : heap.assignMove id dv src source = some heap') :
    heap'.BuffersSound ↔ (source.dataType = .fixChar → source.valType ≠ .soleValue) := by
  unfold assignMove at done
  split at done
  case isTrue => cases done
  case isFalse =>
    cases done
    have moved {emptied : BufferValue → BufferValue}
        (ownsNothing : BufferValue.owned (emptied source) = none) :
        BuffersSound (((heap.releaseSole id).put id (some source)).change src emptied) :=
      sound.moveChange foundSource rfl ownsNothing ownsNothing
    cases type : source.dataType with
    | fixChar =>
        by_cases sole : source.valType = .soleValue
        · refine iff_of_false ?_ fun notSole => notSole rfl sole
          intro after
          have holds : BlockHeap.holding BufferValue.owned
              (((heap.releaseSole id).put id (some source)).change src fun src =>
                match src.dataType with
                | .fixChar => { src with bysValue := .nullptr }
                | .varChar | .blob => src.toNull) src =
              some (.nullptr, source.bufferSize) := by
            rw [BlockHeap.holding, BlockHeap.change, values_put_source sound foundSource]
            simp [BlockHeap.put, type, BufferValue.owned, sole, BufferValue.bufferSize]
          rcases after.matched.owns src _ _ holds with ⟨address, impossible, -⟩
          cases impossible
        · refine iff_of_true (moved ?_) fun _ => sole
          simp only [type, BufferValue.owned, if_neg sole]
    | varChar | blob =>
        refine iff_of_true (moved ?_) fun impossible => by cases impossible
        simp [type, BufferValue.toNull, BufferValue.owned]

end

/-!
## The first and the last operation
-/

section

variable (sound : heap.BuffersSound) (unused : heap.values id = none)

include sound unused

theorem sound_construct {new : BufferValue} (notSole : new.valType ≠ .soleValue) :
    BuffersSound (BlockHeap.put heap id (some new)) := by
  rw [← releaseSole_of_unused unused]
  exact sound_released sound notSole

theorem sound_constructChars {dataType : BufferClass} {len maxLength : UInt32}
    (done : heap.constructChars id dataType len maxLength address = some heap') :
    heap'.BuffersSound := by
  rw [← releaseSole_of_unused unused] at done
  cases dataType with
  | fixChar | varChar | blob => exact (sound_applyFor_iff sound done).mpr rfl

theorem sound_constructArray_iff {dataType : BufferClass} {len maxLength : UInt32}
    {array : Option (ℕ × UInt32)}
    (done : heap.constructArray id dataType len maxLength array = some heap') :
    heap'.BuffersSound ↔ (dataType = .blob → ∃ address, array = some (address, len)) := by
  cases dataType with
  | fixChar | varChar =>
      cases done
      exact iff_of_true (sound_construct sound unused (by simp)) fun impossible => by
        cases impossible
  | blob =>
      rcases array with _ | ⟨address, size⟩
      · cases done
        refine iff_of_false ?_ ?_
        · intro after
          have holds : BlockHeap.holding BufferValue.owned
              (BlockHeap.put heap id (some ⟨.blob, .soleValue, maxLength, len, .outside⟩)) id =
                some (.outside, len) := by
            simp [BlockHeap.holding, BlockHeap.put, BufferValue.owned, BufferValue.bufferSize]
          rcases after.matched.owns id _ _ holds with ⟨address, impossible, -⟩
          cases impossible
        · intro handedOver
          rcases handedOver rfl with ⟨address, impossible⟩
          cases impossible
      · rw [← releaseSole_of_unused unused] at done
        rw [sound_applyFor_iff sound done]
        simp [BufferValue.bufferSize, eq_comm]

theorem sound_constructCopy (done : heap.constructCopy id source address = some heap') :
    heap'.BuffersSound := by
  unfold constructCopy at done
  split at done
  case isTrue =>
    cases done
    exact sound_construct sound unused (by simp [BufferValue.toNull])
  case isFalse =>
    split at done
    case isTrue referenced =>
      cases done
      exact sound_construct sound unused (by simp [referenced.1])
    case isFalse =>
      rw [← releaseSole_of_unused unused] at done
      exact (sound_applyFor_iff sound done).mpr rfl

theorem sound_constructMove (foundSource : heap.values src = some source) :
    BuffersSound (heap.constructMove id src source) := by
  unfold constructMove
  rw [← releaseSole_of_unused unused]
  have ownsNothing : BufferValue.owned (match source.dataType with
      | .fixChar | .varChar => source.toNull
      | .blob => { source with valType := .nullValue }) = none := by
    cases source.dataType <;> simp [BufferValue.owned, BufferValue.toNull]
  exact sound.moveChange foundSource rfl ownsNothing ownsNothing

end

theorem sound_destroy (sound : heap.BuffersSound) (id : ℕ) : BuffersSound (heap.destroy id) :=
  sound.settle rfl

/-!
## Runs
-/

theorem of_on {operation : BufferValue → Option ValueHeap}
    (done : heap.on id operation = some heap') :
    ∃ dv, heap.values id = some dv ∧ operation dv = some heap' :=
  Option.bind_eq_some_iff.mp done

theorem of_new {operation : Option ValueHeap} (done : heap.new id operation = some heap') :
    heap.values id = none ∧ operation = some heap' := by
  unfold new at done
  split at done
  case isTrue unused => exact ⟨unused, done⟩
  case isFalse => cases done

/-- An operation leaves the values in order exactly when it does not keep a buffer of another
size. -/
theorem sound_next_iff {event : ValueEvent} (sound : heap.BuffersSound)
    (step : heap.next event = some heap') : heap'.BuffersSound ↔ heap.Fits event := by
  cases event with
  | construct id dataType maxLength =>
      rcases of_new step with ⟨unused, done⟩
      cases done
      exact iff_of_true (sound_construct sound unused (by simp)) trivial
  | constructChars id dataType len maxLength address =>
      rcases of_new step with ⟨unused, done⟩
      exact iff_of_true (sound_constructChars sound unused done) trivial
  | constructArray id dataType len maxLength array =>
      rcases of_new step with ⟨unused, done⟩
      exact sound_constructArray_iff sound unused done
  | constructCopy id src address =>
      rcases of_new step with ⟨unused, done⟩
      rcases of_on done with ⟨source, foundSource, done⟩
      exact iff_of_true (sound_constructCopy sound unused done) trivial
  | constructMove id src =>
      rcases of_new step with ⟨unused, done⟩
      rcases of_on done with ⟨source, foundSource, done⟩
      cases done
      exact iff_of_true (sound_constructMove sound unused foundSource) trivial
  | assign id src address =>
      rcases of_on step with ⟨dv, found, done⟩
      rcases of_on done with ⟨source, foundSource, done⟩
      exact iff_of_true (sound_assign sound done) trivial
  | assignMove id src =>
      rcases of_on step with ⟨dv, found, done⟩
      rcases of_on done with ⟨source, foundSource, done⟩
      simp only [sound_assignMove_iff sound foundSource done, Fits, foundSource,
        Option.some.injEq, forall_eq']
  | assignChars id len address =>
      rcases of_on step with ⟨dv, found, done⟩
      exact iff_of_true (sound_assignChars sound found done) trivial
  | setValue id len address =>
      rcases of_on step with ⟨dv, found, done⟩
      exact iff_of_true (sound_setValue sound found done) trivial
  | putValue id len address =>
      rcases of_on step with ⟨dv, found, done⟩
      exact iff_of_true (sound_putValue sound found done) trivial
  | copy id src cut bMove refCount address =>
      rcases of_on step with ⟨dv, found, done⟩
      rcases of_on done with ⟨source, foundSource, done⟩
      rw [sound_copy_iff sound found foundSource done]
      constructor
      · intro fits dv' source' found' foundSource'
        rw [found] at found'
        rw [foundSource] at foundSource'
        cases found'
        cases foundSource'
        exact fits
      · intro fits
        exact fits dv source found foundSource
  | copyOther id sb address =>
      rcases of_on step with ⟨dv, found, done⟩
      simp only [sound_copyOther_iff sound found done, Fits, found, Option.some.injEq,
        forall_eq']
  | readData id svPos len bSole address =>
      rcases of_on step with ⟨dv, found, done⟩
      exact iff_of_true (sound_readData sound found done) trivial
  | readTagged id stored address =>
      rcases of_on step with ⟨dv, found, done⟩
      exact iff_of_true (sound_readTagged sound done) trivial
  | setNull id =>
      rcases of_on step with ⟨dv, found, done⟩
      cases done
      exact iff_of_true (sound_setNull sound) trivial
  | setMinValue id address | setDefaultValue id address =>
      rcases of_on step with ⟨dv, found, done⟩
      exact iff_of_true (sound_setMinValue sound found done) trivial
  | setMaxValue id address =>
      rcases of_on step with ⟨dv, found, done⟩
      exact iff_of_true (sound_setMaxValue sound found done) trivial
  | destroy id =>
      rcases of_on step with ⟨dv, found, done⟩
      cases done
      exact iff_of_true (sound_destroy sound id) trivial

/-- In every run the values stay in order exactly as long as the copies of other classes into a
VARCHAR fill it or are refused, no FIXCHAR that owns a buffer is moved by an assignment, and BLOBs
are made from arrays only that are blocks of their length. -/
theorem buffersSound_iff (events : List ValueEvent) :
    Throughout next BuffersSound events BlockHeap.empty ↔
      EachStep next Fits events BlockHeap.empty :=
  throughout_iff_eachStep (fun _ _ _ sound step => sound_next_iff sound step) events
    BlockHeap.sound_empty

/-- A VARCHAR(10) that gets a number with one digit has a block of 10 bytes and releases 2. -/
theorem not_buffersSound :
    ¬∀ events, Throughout next BuffersSound events BlockHeap.empty := by
  intro always
  have run := always [.construct 0 .varChar 10, .copyOther 0 (some 1) 0]
  have constructed := run.2 _ rfl
  have copied := constructed.2 _ rfl
  have fits : Fits _ (.copyOther 0 (some 1) 0) := (sound_next_iff constructed.1 rfl).mp copied
  exact absurd (fits _ rfl rfl 1 rfl (by decide)) (by decide)

end ValueHeap

end RapidDb
