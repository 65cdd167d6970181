import PolarOs.Library.Checked
import Mathlib.Data.Nat.ModEq
import Mathlib.Data.List.ReduceOption

/-! Queues of bounded length, and the ring buffers that hold one in an array with a read
place, a write place and a count. Slots that hold no item may have any content. -/
namespace Library

namespace BoundedQueue

variable {α β : Type}

inductive Op (α : Type) where
  | push (item : α)
  | pop

def push (capacity : Nat) (contents : List α) (item : α) : List α :=
  if contents.length < capacity then contents ++ [item] else contents

/-- What the pops of a run hand out, and what is left in the queue. -/
def run (capacity : Nat) : List α → List (Op α) → List (Option α) × List α
  | contents,[] => ([],contents)
  | contents,.push item::ops => run capacity (push capacity contents item) ops
  | contents,.pop::ops =>
    let (popped,last) := run capacity contents.tail ops
    (contents.head?::popped,last)

/-- The pushes of a run that find room. -/
def accepted (capacity : Nat) : List α → List (Op α) → List α
  | _,[] => []
  | contents,.push item::ops =>
    if contents.length < capacity then item :: accepted capacity (contents ++ [item]) ops
    else accepted capacity contents ops
  | contents,.pop::ops => accepted capacity contents.tail ops

/-- First in, first out: nothing accepted is lost, doubled or overtaken. -/
theorem run_in_order (capacity : Nat) (contents : List α) (ops : List (Op α)) :
    (run capacity contents ops).1.reduceOption ++ (run capacity contents ops).2 =
      contents ++ accepted capacity contents ops := by
  induction ops generalizing contents with
  | nil => simp [run,accepted,List.reduceOption_nil]
  | cons op ops ih =>
    cases op with
    | push item =>
      rw [run,accepted,push,ih]
      split
      next => rw [List.append_assoc,List.singleton_append]
      next => rfl
    | pop =>
      rw [run,accepted]
      cases contents with
      | nil => exact ih []
      | cons first rest => exact congrArg (first :: ·) (ih rest)

/-- An implementation: its two calls, which may fault. -/
structure Buffer (β α : Type) where
  push : α → β → Checked.Checked β
  pop : β → Checked.Checked (Option α × β)

def Buffer.run (buffer : Buffer β α) : List (Op α) → β → Checked.Checked (List (Option α) × β)
  | [],state => .ok ([],state)
  | .push item::ops,state => do
    let state ← buffer.push item state
    buffer.run ops state
  | .pop::ops,state => do
    let (item,state) ← buffer.pop state
    let (popped,state) ← buffer.run ops state
    return (item::popped,state)

/-- The calls never fault and do to the contents what the queue does. -/
structure Refines (buffer : Buffer β α) (capacity : Nat) (holds : β → List α → Prop) : Prop where
  bounded : ∀ state contents, holds state contents → contents.length ≤ capacity
  push : ∀ state contents item, holds state contents →
    ∃ next, buffer.push item state = .ok next ∧ holds next (push capacity contents item)
  full : ∀ state contents item, holds state contents → ¬contents.length < capacity → buffer.push item state = .ok state
  pop : ∀ state contents, holds state contents →
    ∃ next, buffer.pop state = .ok (contents.head?,next) ∧ holds next contents.tail

theorem Refines.run {buffer : Buffer β α} {capacity : Nat} {holds : β → List α → Prop}
    (refines : Refines buffer capacity holds) {state : β} {contents : List α} (held : holds state contents)
    (ops : List (Op α)) :
    ∃ last, buffer.run ops state = .ok ((BoundedQueue.run capacity contents ops).1,last) ∧
      holds last (BoundedQueue.run capacity contents ops).2 := by
  induction ops generalizing state contents with
  | nil => exact ⟨state,rfl,held⟩
  | cons op ops ih =>
    cases op with
    | push item =>
      obtain ⟨next,pushed,kept⟩ := refines.push state contents item held
      obtain ⟨last,ran,final⟩ := ih kept
      refine ⟨last,?_,final⟩
      rw [Buffer.run,pushed]
      exact ran
    | pop =>
      obtain ⟨next,popped,kept⟩ := refines.pop state contents held
      obtain ⟨last,ran,final⟩ := ih kept
      refine ⟨last,?_,final⟩
      rw [Buffer.run,popped,Checked.ok_bind]
      dsimp only
      rw [ran]
      rfl

/-- What the calls of a run hand out and leave, and what the next call then does. -/
structure Agrees (buffer : Buffer β α) (capacity : Nat) (count : β → Nat) (new : β) (ops : List (Op α))
    (popped : List (Option α)) (last : β) (contents : List α) : Prop where
  ran : buffer.run ops new = .ok (popped,last)
  queue : BoundedQueue.run capacity [] ops = (popped,contents)
  order : popped.reduceOption ++ contents = accepted capacity [] ops
  counted : count last = contents.length
  bounded : count last ≤ capacity
  accepts : ∀ item, count last < capacity → ∃ next, buffer.push item last = .ok next ∧ count next = count last + 1
  refuses : ∀ item, ¬count last < capacity → buffer.push item last = .ok last
  pops : ∃ next, buffer.pop last = .ok (contents.head?,next) ∧ (contents.head? = none ↔ count last = 0)

theorem Refines.agrees {buffer : Buffer β α} {capacity : Nat} {holds : β → List α → Prop}
    (refines : Refines buffer capacity holds) {count : β → Nat}
    (counted : ∀ state contents, holds state contents → count state = contents.length) {new : β}
    (empty : holds new []) (ops : List (Op α)) :
    ∃ popped last contents, Agrees buffer capacity count new ops popped last contents := by
  obtain ⟨last,ran,held⟩ := refines.run empty ops
  have length := counted last _ held
  refine ⟨_,last,_,{
    ran := ran
    queue := rfl
    order := by rw [run_in_order,List.nil_append]
    counted := length
    bounded := length.trans_le (refines.bounded _ _ held)
    accepts := ?accepts
    refuses := ?refuses
    pops := ?pops }⟩
  case accepts =>
    intro item room
    obtain ⟨next,pushed,kept⟩ := refines.push _ _ item held
    refine ⟨next,pushed,?_⟩
    rw [counted _ _ kept,BoundedQueue.push,if_pos (length ▸ room),List.length_append,List.length_singleton,length]
  case refuses =>
    intro item full
    exact refines.full _ _ item held (length ▸ full)
  case pops =>
    obtain ⟨next,popped,-⟩ := refines.pop _ _ held
    refine ⟨next,popped,?_⟩
    rw [List.head?_eq_none_iff,length,List.length_eq_zero_iff]

end BoundedQueue

/-! Rings. -/

structure RingBuffer (σ : Type) where
  slots : List σ
  readPos : Nat
  writePos : Nat
  count : Nat

namespace RingBuffer

open Checked

variable {σ : Type}

def push (capacity : Nat) (item : σ) (ring : RingBuffer σ) : Checked (RingBuffer σ) :=
  if ring.count < capacity then do
    let slots ← store ring.slots ring.writePos item
    let writePos ← add 64 ring.writePos 1
    let count ← add 64 ring.count 1
    return {ring with slots, writePos := writePos % capacity, count}
  else .ok ring

/-- The step past the item that is read; `slots` is what the array holds then. -/
def advance (capacity : Nat) (slots : List σ) (ring : RingBuffer σ) : Checked (RingBuffer σ) := do
  let readPos ← add 64 ring.readPos 1
  let count ← sub ring.count 1
  return {ring with slots, readPos := readPos % capacity, count}

/-- The items from the read place on, around the end of the array. -/
structure Holds (capacity : Nat) (ring : RingBuffer σ) (items : List σ) : Prop where
  size : ring.slots.length = capacity
  inside : ring.readPos < capacity
  next : ring.writePos = (ring.readPos + ring.count) % capacity
  count : ring.count = items.length
  room : items.length ≤ capacity
  stored : ∀ i < items.length, ring.slots[(ring.readPos + i) % capacity]? = items[i]?

variable {capacity : Nat} {ring : RingBuffer σ} {items : List σ} {item : σ}

theorem holds_empty {slots : List σ} (size : slots.length = capacity) (positive : 0 < capacity) :
    Holds capacity ⟨slots,0,0,0⟩ [] where
  size := size
  inside := positive
  next := rfl
  count := rfl
  room := Nat.zero_le _
  stored := nofun

/-- Two places less than a whole turn apart are different. -/
theorem places_differ {start i j : Nat} (before : i < j) (within : j < capacity) :
    (start + i) % capacity ≠ (start + j) % capacity := by
  intro same
  have turn : i % capacity = j % capacity := Nat.ModEq.add_left_cancel' start same
  rw [Nat.mod_eq_of_lt (by omega),Nat.mod_eq_of_lt within] at turn
  omega

theorem Holds.push (held : Holds capacity ring items) (word : capacity < 2^64) (space : items.length < capacity)
    (item : σ) : ∃ next, ring.push capacity item = .ok next ∧ Holds capacity next (items ++ [item]) := by
  have positive : 0 < capacity := by omega
  have bound : ring.writePos < ring.slots.length := by
    rw [held.next,held.size]
    exact Nat.mod_lt _ positive
  have counted := held.count
  have size := held.size
  refine ⟨⟨ring.slots.set ring.writePos item,ring.readPos,(ring.writePos + 1) % capacity,ring.count + 1⟩,?_,?_⟩
  · rw [RingBuffer.push,if_pos (by omega),store_lt bound,ok_bind,add,if_pos (by omega),ok_bind,add,if_pos (by omega)]
    rfl
  · refine {
      size := by rw [List.length_set,held.size]
      inside := held.inside
      next := ?following
      count := by rw [List.length_append,held.count,List.length_singleton]
      room := by
        rw [List.length_append]
        exact space
      stored := ?stored }
    case following =>
      change (ring.writePos + 1) % capacity = (ring.readPos + (ring.count + 1)) % capacity
      rw [held.next,Nat.mod_add_mod,Nat.add_assoc]
    case stored =>
      intro i below
      change (ring.slots.set ring.writePos item)[(ring.readPos + i) % capacity]? = _
      rw [List.length_append,List.length_singleton] at below
      rcases Nat.lt_succ_iff_lt_or_eq.mp below with earlier | rfl
      · have apart : ring.writePos ≠ (ring.readPos + i) % capacity := by
          rw [held.next,held.count]
          exact (places_differ earlier space).symm
        rw [List.getElem?_set_ne apart,held.stored i earlier,List.getElem?_append_left earlier]
      · rw [held.next,held.count,List.getElem?_set_self,List.getElem?_concat_length]
        rw [held.size]
        exact Nat.mod_lt _ positive

theorem Holds.push_full (held : Holds capacity ring items) (full : ¬items.length < capacity) (item : σ) :
    ring.push capacity item = .ok ring := if_neg (held.count.symm ▸ full)

theorem Holds.count_ne_zero (held : Holds capacity ring (item::items)) : ring.count ≠ 0 := by
  rw [held.count]
  exact Nat.succ_ne_zero _

theorem Holds.front (held : Holds capacity ring (item::items)) : index ring.slots ring.readPos = .ok item := by
  have first := held.stored 0 (Nat.succ_pos _)
  rw [Nat.add_zero,Nat.mod_eq_of_lt held.inside] at first
  exact index_ok.mpr first

/-- The front item goes; its slot may have been changed. -/
theorem Holds.advance (held : Holds capacity ring (item::items)) (word : capacity < 2^64) {slots : List σ}
    (size : slots.length = ring.slots.length) (same : ∀ i, i ≠ ring.readPos → slots[i]? = ring.slots[i]?) :
    ∃ next, ring.advance capacity slots = .ok next ∧ Holds capacity next items := by
  have counted := held.count
  have inside := held.inside
  have room := held.room
  rw [List.length_cons] at counted room
  refine ⟨⟨slots,(ring.readPos + 1) % capacity,ring.writePos,ring.count - 1⟩,?_,?_⟩
  · rw [RingBuffer.advance,add,if_pos (by omega),ok_bind,sub,if_pos (by omega)]
    rfl
  · refine {
      size := size.trans held.size
      inside := Nat.mod_lt _ (by omega)
      next := ?following
      count := by
        change ring.count - 1 = items.length
        omega
      room := by omega
      stored := ?stored }
    case following =>
      change ring.writePos = ((ring.readPos + 1) % capacity + (ring.count - 1)) % capacity
      rw [Nat.mod_add_mod,held.next]
      congr 1
      omega
    case stored =>
      intro i below
      change slots[((ring.readPos + 1) % capacity + i) % capacity]? = items[i]?
      have place : ((ring.readPos + 1) % capacity + i) % capacity = (ring.readPos + (i + 1)) % capacity := by
        rw [Nat.mod_add_mod]
        congr 1
        omega
      have apart : (ring.readPos + (i + 1)) % capacity ≠ ring.readPos := by
        have differ : (ring.readPos + 0) % capacity ≠ (ring.readPos + (i + 1)) % capacity :=
          places_differ (Nat.succ_pos i) (by omega)
        rw [Nat.add_zero,Nat.mod_eq_of_lt inside] at differ
        exact differ.symm
      rw [place,same _ apart,held.stored (i + 1) (by rw [List.length_cons]; omega),List.getElem?_cons_succ]

end RingBuffer

end Library
