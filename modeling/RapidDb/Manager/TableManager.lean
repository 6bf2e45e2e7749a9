import Mathlib.Algebra.GroupWithZero.Nat
import Mathlib.Data.Fin.Basic
import Mathlib.Logic.Function.Basic
import Mathlib.Tactic.Common
import RapidDb.Library.Transition

/-!
# Finding tables and databases

`TableManager` and `DatabaseManager` keep what they manage in a map under a lock, and some of it in
a cache of four slots for each hash value, which is read without the lock. They differ in the size
of the cache and in what they do with a slot whose name is the one that is sought.

A table or a database is known by the number in whose order it has been added. A call of `FindTable`
or `FindDb` is a step for each read of a slot, and one for what it does under the lock; adding and
removing is one step each.
-/

namespace RapidDb

universe u

open Transition

structure ManagerKind where
  /-- `FAST_SIZE`. -/
  fastSize : ℕ
  /-- A slot is read once more to set the time of the last visit, and a null in it is returned. -/
  visits : Bool
deriving DecidableEq, Repr

def tableManager : ManagerKind where
  fastSize := 255
  visits := false

def databaseManager : ManagerKind where
  fastSize := 31
  visits := true

/-- Where a call is. Slots are counted by `i`; `epos` is the first slot that was empty. -/
inductive FindStage where
  /-- Before the test against null. -/
  | test (i : Fin 4) (epos : Option (Fin 4))
  /-- Before the comparison of the name. -/
  | compare (i : Fin 4) (epos : Option (Fin 4))
  /-- Before the time of the last visit is set. -/
  | visit (i : Fin 4)
  /-- Before the pointer is read that is returned. -/
  | take (i : Fin 4)
  /-- Before the lock is taken. -/
  | lock (epos : Option (Fin 4))
  | returned (result : Option ℕ)
  /-- A null pointer has been used. -/
  | crashed
deriving DecidableEq, Repr

structure Finder (α : Type u) where
  name : α
  stage : FindStage := .test 0 none
  /-- What had been removed when the call began. -/
  discarded : List ℕ
  /-- What was there under the name when the call began. -/
  present : Option ℕ

structure ResManager (α : Type u) where
  /-- The names of all tables or databases. -/
  names : List α := []
  mapRes : α → Option ℕ := fun _ => none
  fastCache : ℕ → Fin 4 → Option ℕ := fun _ _ => none
  lastVisit : ℕ → ℕ := fun _ => 0
  discard : List ℕ := []
  finders : List (Finder α) := []

inductive ManagerEvent (α : Type u) where
  /-- `AddTable`, `AddDb`; with the time of the last visit. -/
  | add (name : α) (time : ℕ)
  /-- `RemoveTable`, `RemoveDb`. -/
  | remove (name : α)
  /-- `FindTable`, `FindDb` is called. -/
  | find (name : α)
  /-- The next step of a call. -/
  | step (k : ℕ) (time : ℕ)
deriving DecidableEq, Repr

namespace ResManager

variable {α : Type u} [DecidableEq α] (kind : ManagerKind) (hash : α → ℕ)

def bucket (name : α) : ℕ := hash name % kind.fastSize

/-- The loop of `AddFastTable` over the slots, which returns an empty slot, or goes on with the
least time of a last visit and where it is. -/
def fastSlot (slots : Fin 4 → Option ℕ) (lastVisit : ℕ → ℕ) :
    List (Fin 4) → ℕ → Fin 4 → Fin 4
  | [], _, lvPos => lvPos
  | i :: rest, lv, lvPos =>
      match slots i with
      | none => i
      | some item =>
          if lv > lastVisit item then fastSlot slots lastVisit rest (lastVisit item) i
          else fastSlot slots lastVisit rest lv lvPos

def setSlot (manager : ResManager α) (b : ℕ) (i : Fin 4) (item : Option ℕ) : ResManager α :=
  { manager with
    fastCache :=
      Function.update manager.fastCache b (Function.update (manager.fastCache b) i item) }

/-- The slot into which `AddFastTable` puts a table. -/
def addPos (manager : ResManager α) (name : α) : Fin 4 :=
  fastSlot (manager.fastCache (bucket kind hash name)) manager.lastVisit [0, 1, 2, 3] (2 ^ 64 - 1) 0

/-- `AddTable` of a table that is new. -/
def add (manager : ResManager α) (name : α) (time : ℕ) : ResManager α :=
  match manager.mapRes name with
  | some _ => manager
  | none =>
      let item := manager.names.length
      { manager.setSlot (bucket kind hash name) (manager.addPos kind hash name) (some item) with
        names := manager.names ++ [name]
        mapRes := Function.update manager.mapRes name (some item)
        lastVisit := Function.update manager.lastVisit item time }

/-- The slot that `RemoveTable` clears. -/
def clearPos (manager : ResManager α) (b item : ℕ) : Option (Fin 4) :=
  [0, 1, 2, 3].find? fun i => manager.fastCache b i == some item

/-- The loop of `RemoveTable` over the slots. -/
def clearSlot (manager : ResManager α) (b item : ℕ) : ResManager α :=
  match manager.clearPos b item with
  | some i => manager.setSlot b i none
  | none => manager

/-- `RemoveTable`. -/
def remove (manager : ResManager α) (name : α) : ResManager α :=
  match manager.mapRes name with
  | none => manager
  | some item =>
      { manager.clearSlot (bucket kind hash name) item with
        discard := manager.discard ++ [item]
        mapRes := Function.update manager.mapRes name none }

def afterSlot (i : Fin 4) (epos : Option (Fin 4)) : FindStage :=
  if less : i.val + 1 < 4 then .test ⟨i.val + 1, less⟩ epos else .lock epos

def setFinder (manager : ResManager α) (k : ℕ) (finder : Finder α) (stage : FindStage) :
    ResManager α :=
  { manager with finders := manager.finders.set k { finder with stage := stage } }

/-- The slot that has been found empty is filled. -/
def storeSlot (manager : ResManager α) (b : ℕ) (epos : Option (Fin 4)) (item : ℕ) :
    ResManager α :=
  match epos with
  | some i => manager.setSlot b i (some item)
  | none => manager

def findLocked (manager : ResManager α) (k : ℕ) (finder : Finder α) (epos : Option (Fin 4))
    (time : ℕ) : ResManager α :=
  match manager.mapRes finder.name with
  | none => manager.setFinder k finder (.returned none)
  | some item =>
      let stored := manager.storeSlot (bucket kind hash finder.name) epos item
      let visited :=
        if kind.visits then
          { stored with lastVisit := Function.update stored.lastVisit item time }
        else
          stored
      visited.setFinder k finder (.returned (some item))

/-- The next step of a call; none if it has returned. -/
def findStep (manager : ResManager α) (k : ℕ) (finder : Finder α) (time : ℕ) :
    Option (ResManager α) :=
  let slots := manager.fastCache (bucket kind hash finder.name)
  match finder.stage with
  | .test i epos =>
      some (manager.setFinder k finder
        (if slots i = none then afterSlot i (epos.or (some i)) else .compare i epos))
  | .compare i epos =>
      match slots i with
      | none => some (manager.setFinder k finder .crashed)
      | some item =>
          some (manager.setFinder k finder
            (if manager.names[item]? = some finder.name then
              if kind.visits then .visit i else .take i
            else afterSlot i epos))
  | .visit i =>
      match slots i with
      | none => some (manager.setFinder k finder .crashed)
      | some item =>
          some ({ manager with lastVisit := Function.update manager.lastVisit item time }.setFinder
            k
            finder (.take i))
  | .take i =>
      some (manager.setFinder k finder
        (if slots i = none ∧ kind.visits = false then .crashed else .returned (slots i)))
  | .lock epos => some (manager.findLocked kind hash k finder epos time)
  | .returned _ | .crashed => none

/-- One step; none if it is not possible now. -/
def next (manager : ResManager α) : ManagerEvent α → Option (ResManager α)
  | .add name time => some (manager.add kind hash name time)
  | .remove name => some (manager.remove kind hash name)
  | .find name =>
      some { manager with
        finders := manager.finders ++ [{
          name := name, discarded := manager.discard, present := manager.mapRes name }] }
  | .step k time => do
      let finder ← manager.finders[k]?
      manager.findStep kind hash k finder time

/-- The slot that a call has found not empty and reads again. -/
def reading (finder : Finder α) : Option (Fin 4) :=
  match finder.stage with
  | .compare i _ | .visit i | .take i => some i
  | _ => none

def Unread (manager : ResManager α) (b : ℕ) (i : Fin 4) : Prop :=
  ∀ finder ∈ manager.finders, bucket kind hash finder.name = b → reading finder ≠ some i

/-- What is removed is in one slot at most, and no slot changes while a call reads it. -/
def Steady (manager : ResManager α) : ManagerEvent α → Prop
  | .add name _ => manager.mapRes name = none →
      manager.Unread kind hash (bucket kind hash name) (manager.addPos kind hash name)
  | .remove name => ∀ item ∈ manager.mapRes name, ∀ i j,
      manager.fastCache (bucket kind hash name) i = some item →
      (manager.fastCache (bucket kind hash name) j = some item → i = j) ∧
        manager.Unread kind hash (bucket kind hash name) i
  | .step k _ => ∀ finder ∈ manager.finders[k]?, ∀ i, finder.stage = .lock (some i) →
      manager.mapRes finder.name ≠ none →
      manager.Unread kind hash (bucket kind hash finder.name) i
  | .find _ => True

instance (manager : ResManager α) (b : ℕ) (i : Fin 4) :
    Decidable (manager.Unread kind hash b i) :=
  inferInstanceAs (Decidable (∀ finder ∈ manager.finders,
    bucket kind hash finder.name = b → reading finder ≠ some i))

instance (manager : ResManager α) (event : ManagerEvent α) :
    Decidable (manager.Steady kind hash event) :=
  match event with
  | .add name _ => inferInstanceAs (Decidable (manager.mapRes name = none →
      manager.Unread kind hash (bucket kind hash name) (manager.addPos kind hash name)))
  | .remove name => inferInstanceAs (Decidable (∀ item ∈ manager.mapRes name, ∀ i j,
      manager.fastCache (bucket kind hash name) i = some item →
      (manager.fastCache (bucket kind hash name) j = some item → i = j) ∧
        manager.Unread kind hash (bucket kind hash name) i))
  | .step k _ => inferInstanceAs (Decidable (∀ finder ∈ manager.finders[k]?, ∀ i,
      finder.stage = .lock (some i) → manager.mapRes finder.name ≠ none →
      manager.Unread kind hash (bucket kind hash finder.name) i))
  | .find _ => isTrue trivial

end ResManager

end RapidDb
