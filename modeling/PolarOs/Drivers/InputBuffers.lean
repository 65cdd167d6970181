import PolarOs.Library.RingBuffer
import PolarOs.Gui.Widget

/-! The two input buffers: the scancodes of the keyboard (`drivers/keyboard.rs`) and the events
of the desktop (`gui/event.rs`). Each is a ring, and each is a bounded queue. -/
namespace PolarOs
open Library Library.Checked

namespace Drivers

/-- `BUF_SIZE`. -/
def bufSize : Nat := 128

abbrev ScancodeBuffer := RingBuffer UInt8

namespace ScancodeBuffer

def new : ScancodeBuffer := ⟨List.replicate bufSize 0,0,0,0⟩

def push (scancode : UInt8) (buffer : ScancodeBuffer) : Checked ScancodeBuffer :=
  RingBuffer.push bufSize scancode buffer

def pop (buffer : ScancodeBuffer) : Checked (Option UInt8 × ScancodeBuffer) :=
  if buffer.count = 0 then .ok (none,buffer)
  else do
    let scancode ← index buffer.slots buffer.readPos
    let buffer ← RingBuffer.advance bufSize buffer.slots buffer
    return (some scancode,buffer)

def calls : BoundedQueue.Buffer ScancodeBuffer UInt8 := ⟨push,pop⟩

theorem refines_queue : BoundedQueue.Refines calls bufSize (RingBuffer.Holds bufSize) where
  bounded := fun _ _ held => held.room
  push := by
    intro buffer contents scancode held
    unfold BoundedQueue.push
    split
    next room => exact held.push (by decide) room scancode
    next full => exact ⟨buffer,held.push_full full scancode,held⟩
  full := fun _ _ scancode held full => held.push_full full scancode
  pop := by
    intro buffer contents held
    change ∃ next, buffer.pop = _ ∧ _
    cases contents with
    | nil => exact ⟨buffer,if_pos held.count,held⟩
    | cons first rest =>
      obtain ⟨next,advanced,kept⟩ := held.advance (by decide) rfl fun _ _ => rfl
      refine ⟨next,?_,kept⟩
      rw [pop,if_neg held.count_ne_zero,held.front,ok_bind,advanced]
      rfl

end ScancodeBuffer

end Drivers

namespace Gui

/-- `QUEUE_SIZE`. -/
def queueSize : Nat := 256

abbrev EventQueue := RingBuffer (Option Event)

namespace EventQueue

def new : EventQueue := ⟨List.replicate queueSize none,0,0,0⟩

def push (event : Event) (queue : EventQueue) : Checked EventQueue := RingBuffer.push queueSize (some event) queue

/-- `take` leaves `None` in the slot and hands out what was there. -/
def pop (queue : EventQueue) : Checked (Option Event × EventQueue) :=
  if queue.count = 0 then .ok (none,queue)
  else do
    let event ← index queue.slots queue.readPos
    let queue ← RingBuffer.advance queueSize (queue.slots.set queue.readPos none) queue
    return (event,queue)

/-- Every slot between the read and the write place holds an event. -/
def Contains (queue : EventQueue) (events : List Event) : Prop :=
  RingBuffer.Holds queueSize queue (events.map some)

theorem contains_count {queue : EventQueue} {events : List Event} (held : Contains queue events) :
    queue.count = events.length := by
  rw [held.count,List.length_map]

theorem contains_new : Contains new [] := RingBuffer.holds_empty List.length_replicate (by decide)

theorem contains_push {queue : EventQueue} {events : List Event} (held : Contains queue events) (event : Event) :
    ∃ next, queue.push event = .ok next ∧ Contains next (BoundedQueue.push queueSize events event) := by
  unfold BoundedQueue.push
  split
  next room =>
    obtain ⟨next,pushed,kept⟩ := RingBuffer.Holds.push held (by decide) (by rwa [List.length_map]) (some event)
    refine ⟨next,pushed,?_⟩
    rw [Contains,List.map_append]
    exact kept
  next full => exact ⟨queue,RingBuffer.Holds.push_full held (by rwa [List.length_map]) (some event),held⟩

theorem contains_pop {queue : EventQueue} {events : List Event} (held : Contains queue events) :
    ∃ next, queue.pop = .ok (events.head?,next) ∧ Contains next events.tail := by
  cases events with
  | nil => exact ⟨queue,if_pos held.count,held⟩
  | cons first rest =>
    obtain ⟨next,advanced,kept⟩ := RingBuffer.Holds.advance held (by decide) List.length_set
      fun i other => List.getElem?_set_ne other.symm
    refine ⟨next,?_,kept⟩
    rw [pop,if_neg (RingBuffer.Holds.count_ne_zero held),RingBuffer.Holds.front held,ok_bind,advanced]
    rfl

def calls : BoundedQueue.Buffer EventQueue Event := ⟨fun event queue => queue.push event,pop⟩

theorem refines_queue : BoundedQueue.Refines calls queueSize Contains where
  bounded := by
    intro queue events held
    have room := held.room
    rwa [List.length_map] at room
  push := fun _ _ event held => contains_push held event
  full := fun _ _ event held full => RingBuffer.Holds.push_full held (by rwa [List.length_map]) (some event)
  pop := fun _ _ held => contains_pop held

end EventQueue

end Gui

open BoundedQueue in
/-- Every sequence of calls from `new`, on either buffer, is a run of the bounded queue. -/
theorem input_buffers_are_queues :
    (∀ ops, ∃ popped last contents,
      Agrees Drivers.ScancodeBuffer.calls 128 RingBuffer.count Drivers.ScancodeBuffer.new ops popped last contents) ∧
    ∀ ops, ∃ popped last contents,
      Agrees Gui.EventQueue.calls 256 RingBuffer.count Gui.EventQueue.new ops popped last contents := by
  constructor
  · intro ops
    exact Drivers.ScancodeBuffer.refines_queue.agrees (fun _ _ held => held.count)
      (RingBuffer.holds_empty List.length_replicate (by decide)) ops
  · intro ops
    exact Gui.EventQueue.refines_queue.agrees (fun _ _ held => Gui.EventQueue.contains_count held)
      Gui.EventQueue.contains_new ops

end PolarOs
