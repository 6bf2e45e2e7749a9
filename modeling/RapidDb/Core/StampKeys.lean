import Mathlib.Algebra.GroupWithZero.Nat
import Mathlib.Logic.Function.Basic
import RapidDb.Library.Batches
import RapidDb.Library.Transition

/-!
# Record stamps and auto increment keys

With several ranges each of them draws stamps and keys from batches that are reserved on the head
page, with one range they come from the head page itself. A call of a task has two steps here: what
it does on the head page (or reads there), and what it does with its own range. Only the former
touches what other tasks use.
-/

namespace RapidDb

open Transition

/-- `STAMP_BATCH`. -/
def stampBatch : ℕ := 64

/-- `INC_KEY_BATCH`. -/
def incKeyBatch : ℕ := 64

/-- The batches of an `IndexRange`. -/
structure RangeBatches where
  recordStampStart : ℕ := 0
  recordStampEnd : ℕ := 0
  incKeyStart : ℕ := 0
  incKeyEnd : ℕ := 0
deriving DecidableEq, Repr

namespace RangeBatches

/-- The move constructor: the end of the stamps is that of its start, and the keys are not moved. -/
def move (src : RangeBatches) : RangeBatches where
  recordStampStart := src.recordStampStart
  recordStampEnd := src.recordStampStart

def stamps (range : RangeBatches) : ℕ × ℕ := (range.recordStampStart, range.recordStampEnd)

def keys (range : RangeBatches) : ℕ × ℕ := (range.incKeyStart, range.incKeyEnd)

def SmallStamps (range : RangeBatches) : Prop :=
  range.recordStampStart < 2 ^ 64 ∧ range.recordStampEnd < 2 ^ 64

end RangeBatches

inductive RunningCall where
  | stampFromBatch
  | stampFromHead (tmp : ℕ)
  | keyFromBatch
  | keyFromHead (tmp : ℕ)
deriving DecidableEq, Repr

/-- The counters of the head page, the ranges, the running call of each task, and what has been
returned, with the last value first. -/
structure StampTree where
  currRecordStamp : ℕ
  autoIncrementKey : ℕ
  vctRange : List RangeBatches
  calls : ℕ → Option RunningCall := fun _ => none
  stamps : List ℕ := []
  keys : List ℕ := []

inductive StampEvent where
  /-- `ApplyStamp` of the task of a range up to its step on the head page. -/
  | applyStamp (iRange : ℕ)
  | applyAutoIncKey (iRange : ℕ)
  /-- The rest of a call. -/
  | finish (iRange : ℕ)
  /-- An `IndexRange` is constructed from another one. -/
  | move (src target : ℕ)
  /-- The adjust task makes new ranges. -/
  | adjust (num : ℕ)
deriving DecidableEq, Repr

namespace StampTree

def setCall (tree : StampTree) (i : ℕ) (call : Option RunningCall) : StampTree :=
  { tree with calls := Function.update tree.calls i call }

def setRange (tree : StampTree) (i : ℕ) (range : RangeBatches) : StampTree :=
  { tree with vctRange := tree.vctRange.set i range }

/-- `GetAndIncRecordStamp` of a batch. -/
def reserveStamps (tree : StampTree) (i : ℕ) (range : RangeBatches) : StampTree :=
  { tree with currRecordStamp := (tree.currRecordStamp + stampBatch) % 2 ^ 64 }.setRange i
    { range with
      recordStampStart := tree.currRecordStamp
      recordStampEnd := (tree.currRecordStamp + stampBatch) % 2 ^ 64 }

/-- `GetAndIncAutoIncrementKey` of a batch. -/
def reserveKeys (tree : StampTree) (i : ℕ) (range : RangeBatches) : StampTree :=
  { tree with autoIncrementKey := (tree.autoIncrementKey + incKeyBatch) % 2 ^ 64 }.setRange i
    { range with
      incKeyStart := tree.autoIncrementKey
      incKeyEnd := (tree.autoIncrementKey + incKeyBatch) % 2 ^ 64 }

/-- The first step of `ApplyStamp`. -/
def applyStamp (tree : StampTree) (i : ℕ) (range : RangeBatches) : StampTree :=
  if tree.vctRange.length > 1 then
    if range.recordStampStart ≥ range.recordStampEnd then
      (tree.reserveStamps i range).setCall i (some .stampFromBatch)
    else
      tree.setCall i (some .stampFromBatch)
  else
    tree.setCall i (some (.stampFromHead tree.currRecordStamp))

/-- The first step of `ApplyAutoIncKey`. -/
def applyAutoIncKey (tree : StampTree) (i : ℕ) (range : RangeBatches) : StampTree :=
  if tree.vctRange.length > 1 then
    if range.incKeyStart ≥ range.incKeyEnd then
      (tree.reserveKeys i range).setCall i (some .keyFromBatch)
    else
      tree.setCall i (some .keyFromBatch)
  else
    tree.setCall i (some (.keyFromHead tree.autoIncrementKey))

/-- The last step of a call, which returns a value. -/
def finish (tree : StampTree) (step i : ℕ) (range : RangeBatches) : RunningCall → StampTree
  | .stampFromBatch =>
      { tree with stamps := range.recordStampStart :: tree.stamps }.setRange i
        { range with recordStampStart := (range.recordStampStart + 1) % 2 ^ 64 }
  | .stampFromHead tmp =>
      { tree with currRecordStamp := (tmp + 1) % 2 ^ 64, stamps := tmp :: tree.stamps }
  | .keyFromBatch =>
      { tree with keys := range.incKeyStart :: tree.keys }.setRange i
        { range with incKeyStart := (range.incKeyStart + step) % 2 ^ 64 }
  | .keyFromHead tmp =>
      { tree with autoIncrementKey := (tmp + step) % 2 ^ 64, keys := tmp :: tree.keys }

/-- One step, with the step of the keys; none if there is no such range or call. -/
def next (step : ℕ) (tree : StampTree) : StampEvent → Option StampTree
  | .applyStamp i =>
      if tree.calls i = none then (tree.vctRange[i]?).map (tree.applyStamp i) else none
  | .applyAutoIncKey i =>
      if tree.calls i = none then (tree.vctRange[i]?).map (tree.applyAutoIncKey i) else none
  | .finish i => do
      let call ← tree.calls i
      let range ← tree.vctRange[i]?
      some ((tree.finish step i range call).setCall i none)
  | .move src target => (tree.vctRange[src]?).map fun range => tree.setRange target range.move
  | .adjust num => some { tree with vctRange := List.replicate num {} }

/-- Ranges are moved and made anew only when no task is running. -/
def Permitted (tree : StampTree) : StampEvent → Prop
  | .move _ _ => ∀ i, tree.calls i = none
  | .adjust _ => ∀ i, tree.calls i = none
  | _ => True

/-- The additions of a call stay below 64 bits. -/
def CallFits (tree : StampTree) (step i : ℕ) : RunningCall → Prop
  | .stampFromBatch => True
  | .stampFromHead tmp => tmp + 1 < 2 ^ 64
  | .keyFromBatch => ∀ range ∈ tree.vctRange[i]?, range.incKeyStart + step < 2 ^ 64
  | .keyFromHead tmp => tmp + step < 2 ^ 64

/-- The additions of a step stay below 64 bits. -/
def Fits (step : ℕ) (tree : StampTree) : StampEvent → Prop
  | .applyStamp i => ∀ range ∈ tree.vctRange[i]?, tree.vctRange.length > 1 →
      range.recordStampStart ≥ range.recordStampEnd → tree.currRecordStamp + stampBatch < 2 ^ 64
  | .applyAutoIncKey i => ∀ range ∈ tree.vctRange[i]?, tree.vctRange.length > 1 →
      range.incKeyStart ≥ range.incKeyEnd → tree.autoIncrementKey + incKeyBatch < 2 ^ 64
  | .finish i => ∀ call ∈ tree.calls i, tree.CallFits step i call
  | _ => True

def PermittedFits (step : ℕ) (tree : StampTree) (event : StampEvent) : Prop :=
  tree.Permitted event ∧ tree.Fits step event

/-- The stamps as numbers that are handed out in batches. -/
def stampDispenser (tree : StampTree) : Dispenser :=
  ⟨tree.currRecordStamp, tree.vctRange.map RangeBatches.stamps, tree.stamps⟩

/-- The keys as numbers that are handed out in batches. -/
def keyDispenser (tree : StampTree) : Dispenser :=
  ⟨tree.autoIncrementKey, tree.vctRange.map RangeBatches.keys, tree.keys⟩

def CallHolds (tree : StampTree) (i : ℕ) : RunningCall → Prop
  | .stampFromBatch =>
      ∃ range, tree.vctRange[i]? = some range ∧ range.recordStampStart < range.recordStampEnd
  | .stampFromHead tmp => tree.vctRange.length = 1 ∧ tmp = tree.currRecordStamp
  | .keyFromBatch => ∃ range, tree.vctRange[i]? = some range ∧ range.incKeyStart < range.incKeyEnd
  | .keyFromHead tmp => tree.vctRange.length = 1 ∧ tmp = tree.autoIncrementKey

/-- What holds between the steps of a run. -/
structure Sound (tree : StampTree) : Prop where
  stamps : tree.stampDispenser.Safe
  keys : tree.keyDispenser.Safe
  calls : ∀ i call, tree.calls i = some call → i < tree.vctRange.length ∧ tree.CallHolds i call
  small : ∀ range ∈ tree.vctRange, range.SmallStamps

section Steps

variable {tree tree' start : StampTree} {step i j : ℕ} {range range' : RangeBatches}
  {event : StampEvent}

theorem stampDispenser_setRange (tree : StampTree) (i : ℕ) (range : RangeBatches) :
    (tree.setRange i range).stampDispenser =
      { tree.stampDispenser with
        batches := tree.stampDispenser.batches.set i range.stamps } := by
  unfold stampDispenser setRange
  rw [List.map_set]

theorem keyDispenser_setRange (tree : StampTree) (i : ℕ) (range : RangeBatches) :
    (tree.setRange i range).keyDispenser =
      { tree.keyDispenser with batches := tree.keyDispenser.batches.set i range.keys } := by
  unfold keyDispenser setRange
  rw [List.map_set]

theorem stampDispenser_setCall (tree : StampTree) (i : ℕ) (call : Option RunningCall) :
    (tree.setCall i call).stampDispenser = tree.stampDispenser :=
  rfl

theorem keyDispenser_setCall (tree : StampTree) (i : ℕ) (call : Option RunningCall) :
    (tree.setCall i call).keyDispenser = tree.keyDispenser :=
  rfl

theorem stamps_kept (stamps : tree.stampDispenser.Safe) (found : tree.vctRange[i]? = some range)
    (same : range'.stamps = range.stamps) : (tree.setRange i range').stampDispenser.Safe := by
  rw [stampDispenser_setRange, same]
  exact stamps.set_same (by simp [stampDispenser, found])

theorem keys_kept (keys : tree.keyDispenser.Safe) (found : tree.vctRange[i]? = some range)
    (same : range'.keys = range.keys) : (tree.setRange i range').keyDispenser.Safe := by
  rw [keyDispenser_setRange, same]
  exact keys.set_same (by simp [keyDispenser, found])

theorem Sound.calls_update (sound : tree.Sound) (inside : i < tree.vctRange.length)
    (length : tree'.vctRange.length = tree.vctRange.length)
    (others : ∀ j, j ≠ i → tree'.vctRange[j]? = tree.vctRange[j]?) {running : Option RunningCall}
    (calls : tree'.calls = Function.update tree.calls i running)
    (holds : ∀ call ∈ running, tree'.CallHolds i call) (j : ℕ) (call : RunningCall)
    (callEq : tree'.calls j = some call) :
    j < tree'.vctRange.length ∧ tree'.CallHolds j call := by
  rw [length]
  by_cases same : j = i
  · subst same
    rw [calls, Function.update_self] at callEq
    exact ⟨inside, holds call callEq⟩
  · rw [calls, Function.update_of_ne same] at callEq
    rcases sound.calls j call callEq with ⟨jInside, old⟩
    refine ⟨jInside, ?_⟩
    cases call with
    | stampFromBatch =>
        rcases old with ⟨range, found, some⟩
        exact ⟨range, (others j same).trans found, some⟩
    | stampFromHead tmp =>
        -- there is only one range
        have one := old.1
        omega
    | keyFromBatch =>
        rcases old with ⟨range, found, some⟩
        exact ⟨range, (others j same).trans found, some⟩
    | keyFromHead tmp =>
        have one := old.1
        omega

theorem inside_of_found (found : tree.vctRange[i]? = some range) : i < tree.vctRange.length :=
  (List.getElem?_eq_some_iff.mp found).1

theorem one_range (found : tree.vctRange[i]? = some range) (few : ¬tree.vctRange.length > 1) :
    tree.vctRange.length = 1 := by
  have inside := inside_of_found found
  omega

theorem small_set (small : ∀ range ∈ tree.vctRange, range.SmallStamps)
    (less : range'.SmallStamps) : ∀ range ∈ tree.vctRange.set i range', range.SmallStamps := by
  intro range mem
  rcases List.mem_or_eq_of_mem_set mem with mem | rfl
  · exact small range mem
  · exact less

theorem Sound.setCall (sound : tree.Sound) (found : tree.vctRange[i]? = some range)
    {call : RunningCall} (holds : tree.CallHolds i call) :
    (tree.setCall i (some call)).Sound := by
  refine { sound with calls := ?_ }
  refine sound.calls_update (inside_of_found found) rfl (fun _ _ => rfl) rfl ?_
  rintro _ ⟨⟩
  cases call with
  | stampFromBatch => exact holds
  | stampFromHead tmp => exact holds
  | keyFromBatch => exact holds
  | keyFromHead tmp => exact holds

theorem Sound.applyStamp (sound : tree.Sound) (found : tree.vctRange[i]? = some range)
    (fits : tree.vctRange.length > 1 → range.recordStampStart ≥ range.recordStampEnd →
      tree.currRecordStamp + stampBatch < 2 ^ 64) : (tree.applyStamp i range).Sound := by
  unfold StampTree.applyStamp
  by_cases many : tree.vctRange.length > 1
  · rw [if_pos many]
    by_cases usedUp : range.recordStampStart ≥ range.recordStampEnd
    · rw [if_pos usedUp, reserveStamps, Nat.mod_eq_of_lt (fits many usedUp)]
      have inside := inside_of_found found
      refine ⟨?_, ?_, ?_, ?_⟩
      · rw [stampDispenser_setCall, stampDispenser_setRange]
        exact sound.stamps.refill i stampBatch
      · exact keys_kept sound.keys found rfl
      · refine sound.calls_update inside List.length_set
          (fun j other => List.getElem?_set_ne (Ne.symm other)) rfl ?_
        rintro _ ⟨⟩
        refine ⟨_, List.getElem?_set_self inside, ?_⟩
        exact Nat.lt_add_of_pos_right (by decide : 0 < stampBatch)
      · have less := fits many usedUp
        exact small_set sound.small ⟨Nat.lt_of_le_of_lt (Nat.le_add_right _ _) less, less⟩
    · rw [if_neg usedUp]
      exact sound.setCall found ⟨range, found, Nat.lt_of_not_le usedUp⟩
  · rw [if_neg many]
    exact sound.setCall found ⟨one_range found many, rfl⟩

theorem Sound.applyAutoIncKey (sound : tree.Sound) (found : tree.vctRange[i]? = some range)
    (fits : tree.vctRange.length > 1 → range.incKeyStart ≥ range.incKeyEnd →
      tree.autoIncrementKey + incKeyBatch < 2 ^ 64) : (tree.applyAutoIncKey i range).Sound := by
  unfold StampTree.applyAutoIncKey
  by_cases many : tree.vctRange.length > 1
  · rw [if_pos many]
    by_cases usedUp : range.incKeyStart ≥ range.incKeyEnd
    · rw [if_pos usedUp, reserveKeys, Nat.mod_eq_of_lt (fits many usedUp)]
      have inside := inside_of_found found
      refine ⟨?_, ?_, ?_, ?_⟩
      · exact stamps_kept sound.stamps found rfl
      · rw [keyDispenser_setCall, keyDispenser_setRange]
        exact sound.keys.refill i incKeyBatch
      · refine sound.calls_update inside List.length_set
          (fun j other => List.getElem?_set_ne (Ne.symm other)) rfl ?_
        rintro _ ⟨⟩
        refine ⟨_, List.getElem?_set_self inside, ?_⟩
        exact Nat.lt_add_of_pos_right (by decide : 0 < incKeyBatch)
      · exact small_set sound.small (sound.small range (List.mem_of_getElem? found))
    · rw [if_neg usedUp]
      exact sound.setCall found ⟨range, found, Nat.lt_of_not_le usedUp⟩
  · rw [if_neg many]
    exact sound.setCall found ⟨one_range found many, rfl⟩

theorem Sound.finish (sound : tree.Sound) (pos : 0 < step) {call : RunningCall}
    (running : tree.calls i = some call) (found : tree.vctRange[i]? = some range)
    (fits : tree.CallFits step i call) :
      ((tree.finish step i range call).setCall i none).Sound := by
  have inside := inside_of_found found
  have small := sound.small range (List.mem_of_getElem? found)
  have holds := (sound.calls i call running).2
  have others : ∀ (range' : RangeBatches) (j : ℕ), j ≠ i →
      (tree.vctRange.set i range')[j]? = tree.vctRange[j]? :=
    fun range' j other => List.getElem?_set_ne (Ne.symm other)
  cases call with
  | stampFromBatch =>
      rcases holds with ⟨range', found', some⟩
      rw [found] at found'
      cases found'
      have less : range.recordStampStart + 1 < 2 ^ 64 := Nat.lt_of_le_of_lt some small.2
      have next : (range.recordStampStart + 1) % 2 ^ 64 = range.recordStampStart + 1 :=
        Nat.mod_eq_of_lt less
      rw [StampTree.finish, next]
      refine ⟨?_, ?_, ?_, small_set sound.small ⟨less, small.2⟩⟩
      · have batch : (tree.vctRange.map RangeBatches.stamps)[i]? = .some range.stamps := by
          rw [List.getElem?_map, found, Option.map_some]
        rw [stampDispenser_setCall, stampDispenser_setRange]
        exact sound.stamps.take batch some Nat.one_pos
      · exact keys_kept sound.keys found rfl
      · exact sound.calls_update inside List.length_set (others _) rfl nofun
  | stampFromHead tmp =>
      rcases holds with ⟨one, rfl⟩
      rw [StampTree.finish, Nat.mod_eq_of_lt fits]
      refine ⟨sound.stamps.draw Nat.one_pos, sound.keys, ?_, sound.small⟩
      exact sound.calls_update inside rfl (fun _ _ => rfl) rfl nofun
  | keyFromBatch =>
      rcases holds with ⟨range', found', some⟩
      rw [found] at found'
      cases found'
      rw [StampTree.finish, Nat.mod_eq_of_lt (fits range found)]
      refine ⟨?_, ?_, ?_, small_set sound.small small⟩
      · exact stamps_kept sound.stamps found rfl
      · have batch : (tree.vctRange.map RangeBatches.keys)[i]? = .some range.keys := by
          rw [List.getElem?_map, found, Option.map_some]
        rw [keyDispenser_setCall, keyDispenser_setRange]
        exact sound.keys.take batch some pos
      · exact sound.calls_update inside List.length_set (others _) rfl nofun
  | keyFromHead tmp =>
      rcases holds with ⟨one, rfl⟩
      rw [StampTree.finish, Nat.mod_eq_of_lt fits]
      refine ⟨sound.stamps, sound.keys.draw pos, ?_, sound.small⟩
      exact sound.calls_update inside rfl (fun _ _ => rfl) rfl nofun

theorem Sound.move (sound : tree.Sound) (idle : ∀ i, tree.calls i = none)
    (small : range.SmallStamps) (target : ℕ) : (tree.setRange target range.move).Sound := by
  refine ⟨?_, ?_, ?_, small_set sound.small ⟨small.1, small.1⟩⟩
  · rw [stampDispenser_setRange]
    exact sound.stamps.leave target (Nat.le_refl _)
  · rw [keyDispenser_setRange]
    exact sound.keys.leave target (Nat.le_refl _)
  · intro i call running
    exact nomatch (idle i).symm.trans running

theorem Sound.adjust (sound : tree.Sound) (idle : ∀ i, tree.calls i = none) (num : ℕ) :
    Sound { tree with vctRange := List.replicate num {} } := by
  refine ⟨?_, ?_, ?_, ?_⟩
  · apply sound.stamps.clear
    intro batch mem
    rw [List.map_replicate] at mem
    rw [List.eq_of_mem_replicate mem]
    exact Nat.le_refl 0
  · apply sound.keys.clear
    intro batch mem
    rw [List.map_replicate] at mem
    rw [List.eq_of_mem_replicate mem]
    exact Nat.le_refl 0
  · intro i call running
    exact nomatch (idle i).symm.trans running
  · intro range mem
    rw [List.eq_of_mem_replicate mem]
    exact ⟨by decide, by decide⟩

theorem Sound.next (sound : tree.Sound) (pos : 0 < step) (permitted : tree.PermittedFits step event)
    (stepped : tree.next step event = some tree') : tree'.Sound := by
  rcases permitted with ⟨permitted, fits⟩
  cases event with
  | applyStamp i =>
      unfold StampTree.next at stepped
      simp only at stepped
      split at stepped
      · rcases Option.map_eq_some_iff.mp stepped with ⟨range, found, rfl⟩
        exact sound.applyStamp found (fits range found)
      · cases stepped
  | applyAutoIncKey i =>
      unfold StampTree.next at stepped
      simp only at stepped
      split at stepped
      · rcases Option.map_eq_some_iff.mp stepped with ⟨range, found, rfl⟩
        exact sound.applyAutoIncKey found (fits range found)
      · cases stepped
  | finish i =>
      rcases Option.bind_eq_some_iff.mp stepped with ⟨call, running, rest⟩
      rcases Option.bind_eq_some_iff.mp rest with ⟨range, found, treeEq⟩
      cases treeEq
      exact sound.finish pos running found (fits call running)
  | move src target =>
      rcases Option.map_eq_some_iff.mp stepped with ⟨range, found, rfl⟩
      exact sound.move permitted (sound.small range (List.mem_of_getElem? found)) target
  | adjust num =>
      cases stepped
      exact sound.adjust permitted num

/-- No stamp and no key is returned twice as long as nothing exceeds 64 bits. -/
theorem nodup_of_fits {incStep : ℕ} (pos : 0 < incStep)
    (new : ∀ range ∈ start.vctRange, range = {}) (idle : ∀ i, start.calls i = none)
    (nothing : start.stamps = [] ∧ start.keys = [])
    (run : Reaches (next incStep) (PermittedFits incStep) start tree) :
    tree.stamps.Nodup ∧ tree.keys.Nodup := by
  have initially : start.Sound := by
    have empty : ∀ part : RangeBatches → ℕ × ℕ, part {} = (0, 0) →
        ∀ batch ∈ start.vctRange.map part, batch.2 ≤ batch.1 := by
      intro part partEq batch mem
      rcases List.mem_map.mp mem with ⟨range, rangeMem, rfl⟩
      exact Nat.le_of_eq (by rw [new range rangeMem, partEq])
    refine ⟨?_, ?_, ?_, ?_⟩
    · rw [stampDispenser, nothing.1]
      exact Dispenser.Safe.new _ (empty _ rfl)
    · rw [keyDispenser, nothing.2]
      exact Dispenser.Safe.new _ (empty _ rfl)
    · intro i call running
      exact nomatch (idle i).symm.trans running
    · intro range mem
      rw [new range mem]
      exact ⟨by decide, by decide⟩
  have sound : tree.Sound := by
    apply run.preserves initially
    intro tree event tree' permitted sound stepped
    exact sound.next pos permitted stepped
  exact ⟨sound.stamps.nodup, sound.keys.nodup⟩

instance (step : ℕ) (tree : StampTree) (event : StampEvent) : Decidable (tree.Fits step event) := by
  have callFits (i : ℕ) (call : RunningCall) : Decidable (tree.CallFits step i call) := by
    cases call <;> unfold CallFits <;> infer_instance
  cases event <;> unfold Fits <;> infer_instance

/-- The tasks of two ranges draw stamps and keys at the same time. -/
def twoTasks : List StampEvent :=
  [.applyStamp 0, .applyStamp 1, .finish 1, .finish 0, .applyStamp 0, .applyAutoIncKey 1, .finish 0,
    .finish 1, .applyAutoIncKey 0, .finish 0, .applyAutoIncKey 1, .applyAutoIncKey 0, .finish 0,
    .finish 1]

theorem nodup_two_ranges :
    ∃ tree, Reaches (next 3) (PermittedFits 3) ⟨5, 7, [{}, {}], fun _ => none, [], []⟩ tree ∧
      (tree.stamps = [6, 5, 69] ∧ tree.keys = [10, 74, 71, 7]) ∧
      tree.stamps.Nodup ∧ tree.keys.Nodup := by
  have runs :
    (execPermitted (next 3) (fun tree event => event ∈ twoTasks ∧ tree.Fits 3 event) twoTasks
      ⟨5, 7, [{}, {}], fun _ => none, [], []⟩).map (fun tree => (tree.stamps, tree.keys)) =
      some ([6, 5, 69], [10, 74, 71, 7]) := by
    decide +kernel
  rcases Option.map_eq_some_iff.mp runs with ⟨tree, executed, returned⟩
  have run : Reaches (next 3) (PermittedFits 3) ⟨5, 7, [{}, {}], fun _ => none, [], []⟩ tree := by
    refine Relation.ReflTransGen.mono ?_ _ _ (reaches_of_execPermitted twoTasks executed)
    rintro tree tree' ⟨event, ⟨mem, fits⟩, stepped⟩
    refine ⟨event, ⟨?_, fits⟩, stepped⟩
    cases event with
    | move src target => simp [twoTasks] at mem
    | adjust num => simp [twoTasks] at mem
    | _ => exact trivial
  refine ⟨tree, run, Prod.mk.inj returned, nodup_of_fits (by decide) ?_ (fun _ => rfl)
    ⟨rfl, rfl⟩ run⟩
  intro range mem
  simpa using mem

/-- With a step of 2 ^ 62 the key of the head page is the first one again after four calls. -/
theorem not_nodup :
    ¬∀ (incStep : ℕ) (start tree : StampTree), 0 < incStep → incStep < 2 ^ 63 →
      (∀ range ∈ start.vctRange, range = {}) → (∀ i, start.calls i = none) →
      start.stamps = [] ∧ start.keys = [] → Reaches (next incStep) Permitted start tree →
      tree.stamps.Nodup ∧ tree.keys.Nodup := by
  intro nodup
  let start : StampTree := ⟨0, 0, [{}], fun _ => none, [], []⟩
  let events : List StampEvent :=
    (List.replicate 5 [StampEvent.applyAutoIncKey 0, .finish 0]).flatten
  have ends : (exec (next (2 ^ 62)) events start).map keys =
      some [0, 3 * 2 ^ 62, 2 * 2 ^ 62, 2 ^ 62, 0] := by
    decide +kernel
  rcases Option.map_eq_some_iff.mp ends with ⟨tree, executed, keysEq⟩
  have meets : ∀ event ∈ events, ∀ state, Permitted state event := by
    intro event mem state
    rcases List.mem_flatten.mp mem with ⟨call, callMem, mem⟩
    rw [List.eq_of_mem_replicate callMem] at mem
    have isCall : event = .applyAutoIncKey 0 ∨ event = .finish 0 := by simpa using mem
    rcases isCall with rfl | rfl
    · exact trivial
    · exact trivial
  have twice := (nodup (2 ^ 62) start tree (by decide) (by decide) (fun range mem => ?_)
    (fun _ => rfl) ⟨rfl, rfl⟩ (reaches_of_forall events meets executed)).2
  · rw [keysEq] at twice
    exact absurd twice (by decide)
  · exact List.mem_singleton.mp mem

end Steps

end StampTree

end RapidDb
