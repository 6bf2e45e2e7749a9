import Mathlib.Algebra.GroupWithZero.Nat
import Mathlib.Data.List.Basic
import Mathlib.Logic.Function.Basic

/-!
# Line queues

A line queue has one producer and one consumer. Its elements are in blocks that are linked from the
end node, which the consumer reads, to the start node, which the producer fills. Positions are
unsigned 64-bit numbers. Both nodes are the same at first; the producer links a new one before it
writes the first element of a block, and the consumer frees the end node before it reads the first
element of the next block.
-/

namespace RapidDb

/-- `ELE_SIZE`. -/
def eleSize : ℕ := 32

/-- The nodes from the end node to the start node, each with what has been written to its block. -/
structure LineQueue (α : Type) where
  nodes : List (ℕ → Option α) := [fun _ => none]
  head : ℕ := 0
  submited : ℕ := 0
  tail : ℕ := 0

namespace LineQueue

variable {α : Type}

/-- `Push` up to the submission. -/
def write (queue : LineQueue α) (ele : α) : LineQueue α :=
  let pos := queue.head % eleSize
  let nodes := if pos = 0 then queue.nodes ++ [fun _ => none] else queue.nodes
  { queue with
    nodes := nodes.modify (nodes.length - 1) fun block => Function.update block pos (some ele)
    head := (queue.head + 1) % 2 ^ 64 }

/-- Whether `Push` submits. At the start of a block it always does. -/
def submits (queue : LineQueue α) (submit : Bool) : Bool :=
  submit || queue.head % eleSize = 0

/-- The store to `_submited` of `Push` and `Submit`. -/
def store (queue : LineQueue α) : LineQueue α := { queue with submited := queue.head }

/-- The body of the loops of `Pop`; none if there is no next node or nothing has been written. -/
def take (queue : LineQueue α) : Option (α × LineQueue α) :=
  let pos := queue.tail % eleSize
  let nodes := if pos = 0 then queue.nodes.tail else queue.nodes
  match nodes with
  | [] => none
  | block :: _ =>
      (block pos).map fun ele => (ele, { queue with nodes, tail := (queue.tail + 1) % 2 ^ 64 })

def isEmpty (queue : LineQueue α) : Bool :=
  queue.tail = queue.submited && queue.head = queue.submited

def roughSize (queue : LineQueue α) : ℕ :=
  if queue.tail > queue.submited then queue.submited + (2 ^ 64 - 1 - queue.tail + 1)
  else queue.submited - queue.tail

end LineQueue

/-- A line queue with all elements that have been pushed, all that have been popped and the number
of those that have been submitted. The producer is storing between the two parts of `Push`. -/
structure Lane (α : Type) where
  queue : LineQueue α := {}
  pushed : List α := []
  popped : List α := []
  covered : ℕ := 0
  storing : Bool := false

namespace Lane

variable {α : Type}

def write (lane : Lane α) (ele : α) (submit : Bool) : Lane α :=
  { lane with
    queue := lane.queue.write ele
    pushed := lane.pushed ++ [ele]
    storing := lane.queue.submits submit }

def store (lane : Lane α) : Lane α :=
  { lane with
    queue := lane.queue.store
    covered := lane.pushed.length
    storing := false }

def take (lane : Lane α) : Option (Lane α) :=
  lane.queue.take.map fun (ele, queue) => { lane with queue, popped := lane.popped ++ [ele] }

/-- The number of nodes that have been freed when so many elements have been popped. -/
def freedNodes (num : ℕ) : ℕ := (num + 31) / 32

/-- The positions are those of the elements, and every element that is still to be popped is in a
node that has not been freed. -/
structure Sound (lane : Lane α) : Prop where
  head : lane.queue.head = lane.pushed.length % 2 ^ 64
  submited : lane.queue.submited = lane.covered % 2 ^ 64
  tail : lane.queue.tail = lane.popped.length % 2 ^ 64
  popped_le : lane.popped.length ≤ lane.covered
  covered_le : lane.covered ≤ lane.pushed.length
  room : lane.pushed.length < lane.popped.length + 2 ^ 64
  order : lane.popped = lane.pushed.take lane.popped.length
  nodes : lane.queue.nodes.length + freedNodes lane.popped.length =
    freedNodes lane.pushed.length + 1
  stored : ∀ n, lane.popped.length ≤ n → n < lane.pushed.length →
    ∃ block, lane.queue.nodes[n / 32 + 1 - freedNodes lane.popped.length]? = some block ∧
      block (n % 32) = lane.pushed[n]?

theorem Sound.new : Sound ({} : Lane α) := by
  refine ⟨rfl, rfl, rfl, Nat.le_refl 0, Nat.le_refl 0, ?_, rfl, ?_, ?_⟩
  · exact (by decide : 0 < 0 + 2 ^ 64)
  · exact (by decide : 1 + freedNodes 0 = freedNodes 0 + 1)
  · intro n _ less
    cases less

variable {lane : Lane α}

theorem pos_eq (num : ℕ) : num % 2 ^ 64 % eleSize = num % 32 :=
  Nat.mod_mod_of_dvd num ⟨2 ^ 59, rfl⟩

theorem getElem?_written {nodes : List (ℕ → Option α)} {i : ℕ} {block : ℕ → Option α}
    (found : nodes[i]? = some block) (j pos : ℕ) (ele : α) :
    (nodes.modify j fun block => Function.update block pos (some ele))[i]? =
      some (if j = i then Function.update block pos (some ele) else block) := by
  rw [List.getElem?_modify, found]
  rfl

theorem Sound.write_nodes (sound : lane.Sound) (ele : α) (n : ℕ)
    (fromPopped : lane.popped.length ≤ n) (toPushed : n < lane.pushed.length + 1) :
    ∃ block, (lane.queue.write ele).nodes[n / 32 + 1 - freedNodes lane.popped.length]? =
        some block ∧ block (n % 32) = (lane.pushed ++ [ele])[n]? := by
  have pos : lane.queue.head % eleSize = lane.pushed.length % 32 := by
    rw [sound.head, pos_eq]
  have count := sound.nodes
  have bound := Nat.le_trans sound.popped_le sound.covered_le
  unfold LineQueue.write
  simp only [pos]
  -- the nodes before the element is written
  let nodes := if lane.pushed.length % 32 = 0 then lane.queue.nodes ++ [fun _ => none]
    else lane.queue.nodes
  have old : ∀ n, lane.popped.length ≤ n → n < lane.pushed.length →
      ∃ block, nodes[n / 32 + 1 - freedNodes lane.popped.length]? = some block ∧
        block (n % 32) = lane.pushed[n]? := by
    intro n fromPopped less
    rcases sound.stored n fromPopped less with ⟨block, found, held⟩
    refine ⟨block, ?_, held⟩
    simp only [nodes]
    split
    · rw [List.getElem?_append_left (List.getElem?_eq_some_iff.mp found).1]
      exact found
    · exact found
  have length : nodes.length - 1 =
      lane.pushed.length / 32 + 1 - freedNodes lane.popped.length ∧ 0 < nodes.length := by
    simp only [nodes]
    unfold freedNodes at count ⊢
    split
    · rw [List.length_append, List.length_singleton]
      omega
    · omega
  show ∃ block, (nodes.modify (nodes.length - 1) fun block =>
      Function.update block (lane.pushed.length % 32) (some ele))[n / 32 + 1 -
        freedNodes lane.popped.length]? = some block ∧ _
  rcases Nat.lt_succ_iff_lt_or_eq.mp toPushed with less | rfl
  · rcases old n fromPopped less with ⟨block, found, held⟩
    refine ⟨_, getElem?_written found _ _ _, ?_⟩
    rw [List.getElem?_append_left less, ← held]
    split
    · next same =>
        -- another place of the last node
        apply Function.update_of_ne
        unfold freedNodes at same length
        omega
    · rfl
  · have inside : lane.pushed.length / 32 + 1 - freedNodes lane.popped.length < nodes.length := by
      omega
    refine ⟨_, getElem?_written (List.getElem?_eq_getElem inside) _ _ _, ?_⟩
    rw [if_pos length.1, Function.update_self, List.getElem?_append_right (Nat.le_refl _),
      Nat.sub_self]
    rfl

/-- An element is written. There are never 2 ^ 64 elements in a queue. -/
theorem Sound.write (sound : lane.Sound) (ele : α) (submit : Bool)
    (room : lane.pushed.length + 1 < lane.popped.length + 2 ^ 64) :
    (lane.write ele submit).Sound := by
  have bound := Nat.le_trans sound.popped_le sound.covered_le
  have length : (lane.pushed ++ [ele]).length = lane.pushed.length + 1 := by
    rw [List.length_append, List.length_singleton]
  refine ⟨?_, sound.submited, sound.tail, sound.popped_le, ?_, ?_, ?_, ?_, ?_⟩
  · show (lane.queue.head + 1) % 2 ^ 64 = (lane.pushed ++ [ele]).length % 2 ^ 64
    rw [sound.head, length, Nat.mod_add_mod]
  · show lane.covered ≤ (lane.pushed ++ [ele]).length
    rw [length]
    exact Nat.le_succ_of_le sound.covered_le
  · show (lane.pushed ++ [ele]).length < lane.popped.length + 2 ^ 64
    rw [length]
    exact room
  · show lane.popped = (lane.pushed ++ [ele]).take lane.popped.length
    rw [List.take_append_of_le_length bound]
    exact sound.order
  · show (lane.queue.write ele).nodes.length + freedNodes lane.popped.length =
      freedNodes (lane.pushed ++ [ele]).length + 1
    have count := sound.nodes
    have pos : lane.queue.head % eleSize = lane.pushed.length % 32 := by
      rw [sound.head, pos_eq]
    unfold LineQueue.write
    rw [length]
    simp only [pos, List.length_modify]
    unfold freedNodes at count ⊢
    split
    · rw [List.length_append, List.length_singleton]
      omega
    · omega
  · intro n fromPopped less
    have less : n < (lane.pushed ++ [ele]).length := less
    rw [length] at less
    exact sound.write_nodes ele n fromPopped less

theorem Sound.store (sound : lane.Sound) : lane.store.Sound :=
  ⟨sound.head, sound.head, sound.tail, Nat.le_trans sound.popped_le sound.covered_le,
    Nat.le_refl _, sound.room, sound.order, sound.nodes, sound.stored⟩

/-- A submitted element is there and is the next one in the order of the pushes. -/
theorem Sound.take (sound : lane.Sound) (submitted : lane.popped.length < lane.covered) :
    ∃ lane', lane.take = some lane' ∧ lane'.Sound ∧
      lane'.popped.length = lane.popped.length + 1 ∧ lane'.pushed = lane.pushed ∧
      lane'.covered = lane.covered ∧ lane'.storing = lane.storing := by
  have less : lane.popped.length < lane.pushed.length :=
    Nat.lt_of_lt_of_le submitted sound.covered_le
  have pos : lane.queue.tail % eleSize = lane.popped.length % 32 := by
    rw [sound.tail, pos_eq]
  have count := sound.nodes
  rcases sound.stored _ (Nat.le_refl _) less with ⟨block, found, held⟩
  rw [List.getElem?_eq_getElem less] at held
  -- the nodes when the end node has been freed
  let nodes := if lane.popped.length % 32 = 0 then lane.queue.nodes.tail else lane.queue.nodes
  have shift : ∀ n, lane.popped.length ≤ n →
      nodes[n / 32 + 1 - freedNodes (lane.popped.length + 1)]? =
        lane.queue.nodes[n / 32 + 1 - freedNodes lane.popped.length]? := by
    intro n fromPopped
    simp only [nodes]
    unfold freedNodes
    split
    · rw [List.getElem?_tail]
      congr 1
      omega
    · congr 1
      omega
  have length : nodes.length + freedNodes (lane.popped.length + 1) =
      freedNodes lane.pushed.length + 1 := by
    simp only [nodes]
    unfold freedNodes at count ⊢
    split
    · rw [List.length_tail]
      omega
    · omega
  have first : nodes[0]? = some block := by
    have index : lane.popped.length / 32 + 1 - freedNodes (lane.popped.length + 1) = 0 := by
      unfold freedNodes
      omega
    have shifted := shift _ (Nat.le_refl lane.popped.length)
    rwa [index, found] at shifted
  have nodesEq : nodes = block :: nodes.tail := by
    cases nodesCase : nodes with
    | nil =>
        rw [nodesCase] at first
        cases first
    | cons node rest =>
        rw [nodesCase] at first
        cases first
        rfl
  let queue' : LineQueue α :=
    { lane.queue with nodes := nodes, tail := (lane.queue.tail + 1) % 2 ^ 64 }
  have taken : lane.queue.take = some (lane.pushed[lane.popped.length], queue') := by
    unfold LineQueue.take
    simp only [pos]
    show (match nodes with
      | [] => none
      | block :: _ => (block (lane.popped.length % 32)).map fun ele => (ele, queue')) = _
    rw [nodesEq]
    simp [held]
  have popped : (lane.popped ++ [lane.pushed[lane.popped.length]]).length =
      lane.popped.length + 1 := by
    rw [List.length_append, List.length_singleton]
  refine ⟨_, congrArg (Option.map _) taken, ⟨sound.head, sound.submited, ?_, ?_, sound.covered_le,
    ?_, ?_, ?_, ?_⟩, popped, rfl, rfl, rfl⟩
  · show (lane.queue.tail + 1) % 2 ^ 64 =
      (lane.popped ++ [lane.pushed[lane.popped.length]]).length % 2 ^ 64
    rw [popped, sound.tail, Nat.mod_add_mod]
  · show (lane.popped ++ [lane.pushed[lane.popped.length]]).length ≤ lane.covered
    rw [popped]
    exact submitted
  · show lane.pushed.length <
      (lane.popped ++ [lane.pushed[lane.popped.length]]).length + 2 ^ 64
    rw [popped]
    exact Nat.lt_trans sound.room (by omega)
  · show lane.popped ++ [lane.pushed[lane.popped.length]] =
      lane.pushed.take (lane.popped ++ [lane.pushed[lane.popped.length]]).length
    rw [popped, List.take_succ_eq_append_getElem less, ← sound.order]
  · show nodes.length + freedNodes (lane.popped ++ [lane.pushed[lane.popped.length]]).length = _
    rw [popped]
    exact length
  · intro n fromPopped toPushed
    have fromPopped : (lane.popped ++ [lane.pushed[lane.popped.length]]).length ≤ n := fromPopped
    show ∃ block, nodes[n / 32 + 1 -
      freedNodes (lane.popped ++ [lane.pushed[lane.popped.length]]).length]? = some block ∧
        block (n % 32) = lane.pushed[n]?
    rw [popped] at fromPopped ⊢
    rw [shift n (Nat.le_of_succ_le fromPopped)]
    exact sound.stored n (Nat.le_of_succ_le fromPopped) toPushed

theorem Sound.roughSize_eq (sound : lane.Sound) :
    lane.queue.roughSize = lane.covered - lane.popped.length := by
  have popped_le := sound.popped_le
  have covered_le := sound.covered_le
  have room := sound.room
  rw [LineQueue.roughSize, sound.submited, sound.tail]
  split <;> omega

theorem Sound.isEmpty_iff (sound : lane.Sound) :
    lane.queue.isEmpty = true ↔ lane.popped = lane.pushed := by
  have popped_le := sound.popped_le
  have covered_le := sound.covered_le
  have room := sound.room
  have lengths : lane.queue.isEmpty = true ↔ lane.popped.length = lane.pushed.length := by
    simp only [LineQueue.isEmpty, sound.submited, sound.tail, sound.head, Bool.and_eq_true,
      decide_eq_true_eq]
    omega
  rw [lengths]
  constructor
  · intro same
    rw [sound.order, same, List.take_length]
  · exact congrArg List.length

/-- A line keeps no more nodes than its elements need, and one. -/
theorem Sound.length_nodes_le (sound : lane.Sound) :
    lane.queue.nodes.length ≤ freedNodes (lane.pushed.length - lane.popped.length) + 1 := by
  have popped_le := Nat.le_trans sound.popped_le sound.covered_le
  have nodes := sound.nodes
  simp only [freedNodes] at nodes ⊢
  omega

end Lane

end RapidDb
