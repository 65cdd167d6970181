import PolarOs.Drivers.InputBuffers
import PolarOs.Drivers.Keyboard
import PolarOs.Drivers.Mouse

/-! The event loop of `gui::run` beside the keyboard and mouse interrupts. Both sides take
`EVENT_QUEUE` with `try_lock`; the loop leaves interrupts enabled while it holds the lock. -/
namespace PolarOs.Gui
open Library Library.Checked PolarOs.Drivers

variable {κ ε : Type}

/-- Where the loop stands; `handle` is everything between two attempts to take the lock. -/
inductive LoopPoint where
  | tryLock
  | pop
  | unlock (event : Option Event)
  | handle (event : Option Event)
deriving DecidableEq

def LoopPoint.holdsLock : LoopPoint → Bool
  | pop | unlock _ => true
  | tryLock | handle _ => false

structure EventLoop (κ : Type) where
  point : LoopPoint
  locked : Bool
  queue : EventQueue
  mouse : MouseState
  keyboard : κ
  layout : LayoutId

inductive Interrupt where
  | keyboard (scancode : UInt8)
  | mouse (byte : UInt8)

inductive LoopAction where
  | advance
  | keymap (layout : LayoutId)
  | interrupt (source : Interrupt)

namespace EventLoop

def new (keyboard : κ) (layout : LayoutId) : EventLoop κ := ⟨.tryLock,false,.new,.new,keyboard,layout⟩

def advance (gui : EventLoop κ) : Checked (EventLoop κ) :=
  match gui.point with
  | .tryLock => if gui.locked then .ok {gui with point := .handle none} else .ok {gui with point := .pop, locked := true}
  | .pop => do
    let (event,queue) ← gui.queue.pop
    return {gui with point := .unlock event, queue}
  | .unlock event => .ok {gui with point := .handle event, locked := false}
  | .handle _ => .ok {gui with point := .tryLock}

/-- `if let Some(mut queue) = EVENT_QUEUE.try_lock() { queue.push(event) }`, as every handler
has it for each of its events. -/
def offer (event : Event) (gui : EventLoop κ) : Checked (EventLoop κ) :=
  if gui.locked then .ok gui
  else do
    let queue ← gui.queue.push event
    return {gui with queue}

def offerAll : List Event → EventLoop κ → Checked (EventLoop κ)
  | [],gui => .ok gui
  | event::events,gui => do
    let gui ← gui.offer event
    offerAll events gui

/-- A handler from its start to its end, with the events that it produces. -/
def interrupt (decoder : Decoder κ ε) (source : Interrupt) (gui : EventLoop κ) :
    Checked (List Event × EventLoop κ) :=
  match source with
  | .keyboard scancode => do
    let (event,keyboard) := addScancodeGui decoder gui.layout scancode gui.keyboard
    let gui ← offerAll event.toList {gui with keyboard}
    return (event.toList,gui)
  | .mouse byte => do
    let (mouse,events) ← gui.mouse.handleByte byte
    let gui ← offerAll events {gui with mouse}
    return (events,gui)

/-- The commands that select a layout run while an event is handled. -/
def step (decoder : Decoder κ ε) (action : LoopAction) (gui : EventLoop κ) : Checked (EventLoop κ) :=
  match action with
  | .advance => gui.advance
  | .keymap layout =>
    match gui.point with
    | .handle _ => .ok {gui with layout}
    | _ => .ok gui
  | .interrupt source => do
    let (_,gui) ← gui.interrupt decoder source
    return gui

def run (decoder : Decoder κ ε) : List LoopAction → EventLoop κ → Checked (EventLoop κ)
  | [],gui => .ok gui
  | action::actions,gui => do
    let gui ← gui.step decoder action
    run decoder actions gui

/-- The events in the queue when a handler returns that produced `produced`. -/
def kept (locked : Bool) (events produced : List Event) : List Event :=
  if locked then events else events ++ produced.take (queueSize - events.length)

theorem kept_nil (locked : Bool) (events : List Event) : kept locked events [] = events := by
  cases locked with
  | true => rfl
  | false => exact (congrArg (events ++ ·) List.take_nil).trans (List.append_nil _)

theorem kept_cons (events : List Event) (event : Event) (produced : List Event) :
    kept false (BoundedQueue.push queueSize events event) produced = kept false events (event::produced) := by
  change BoundedQueue.push queueSize events event ++ _ = events ++ _
  unfold BoundedQueue.push
  split
  next room =>
    have next : queueSize - events.length = queueSize - (events ++ [event]).length + 1 := by
      rw [List.length_append,List.length_singleton]
      omega
    rw [next,List.take_succ_cons,List.append_assoc,List.singleton_append]
  next full =>
    have none : queueSize - events.length = 0 := by omega
    rw [none,List.take_zero,List.take_zero]

/-- What a handler does to the machine around it, whatever it produces. -/
theorem offerAll_kept (produced : List Event) (gui : EventLoop κ) {events : List Event}
    (contains : gui.queue.Contains events) :
    ∃ queue, gui.offerAll produced = .ok {gui with queue} ∧
      queue.Contains (kept gui.locked events produced) ∧ (gui.locked → queue = gui.queue) := by
  induction produced generalizing gui events with
  | nil =>
    refine ⟨gui.queue,rfl,?_,fun _ => rfl⟩
    rw [kept_nil]
    exact contains
  | cons event produced ih =>
    cases held : gui.locked with
    | true =>
      obtain ⟨queue,offered,kept,same⟩ := ih gui contains
      rw [held] at kept same
      refine ⟨queue,?_,kept,same⟩
      rw [offerAll,offer,if_pos held,ok_bind,offered,held]
    | false =>
      obtain ⟨pushed,push,stored⟩ := EventQueue.contains_push contains event
      obtain ⟨queue,offered,kept,-⟩ := ih {gui with queue := pushed} stored
      change queue.Contains (EventLoop.kept gui.locked _ produced) at kept
      rw [held,kept_cons] at kept
      refine ⟨queue,?_,kept,nofun⟩
      rw [offerAll,offer,if_neg (ne_true_of_eq_false held),push,ok_bind,← held]
      exact offered

/-- What every interleaving keeps: the queue holds the events, the lock is the loop's. -/
structure Sound (gui : EventLoop κ) (events : List Event) : Prop where
  contains : gui.queue.Contains events
  lock : gui.locked = gui.point.holdsLock
  pointer : gui.mouse.OnScreen

/-- A handler that interrupts the loop returns, and changes the queue only when it is free. -/
structure Returns (decoder : Decoder κ ε) (source : Interrupt) (gui : EventLoop κ) (events : List Event)
    (produced : List Event) (next : EventLoop κ) : Prop where
  returns : gui.interrupt decoder source = .ok (produced,next)
  resumes : next.point = gui.point
  sound : Sound next (kept gui.locked events produced)
  dropped : gui.locked → next.queue = gui.queue

theorem interrupt_returns (decoder : Decoder κ ε) (source : Interrupt) {gui : EventLoop κ} {events : List Event}
    (sound : Sound gui events) : ∃ produced next, Returns decoder source gui events produced next := by
  cases source with
  | keyboard scancode =>
    cases decoded : addScancodeGui decoder gui.layout scancode gui.keyboard with | mk event keyboard
    obtain ⟨queue,offered,kept,same⟩ := offerAll_kept event.toList {gui with keyboard} sound.contains
    refine ⟨event.toList,{gui with keyboard, queue},?_,rfl,⟨kept,sound.lock,sound.pointer⟩,same⟩
    rw [interrupt,decoded]
    dsimp only
    rw [offered]
    rfl
  | mouse byte =>
    obtain ⟨mouse,produced,handled,pointer⟩ := MouseState.handleByte_on_screen sound.pointer byte
    obtain ⟨queue,offered,kept,same⟩ := offerAll_kept produced {gui with mouse} sound.contains
    refine ⟨produced,{gui with mouse, queue},?_,rfl,⟨kept,sound.lock,pointer⟩,same⟩
    rw [interrupt]
    dsimp only
    rw [handled,ok_bind]
    dsimp only
    rw [offered]
    rfl

theorem advance_sound {gui : EventLoop κ} {events : List Event} (sound : Sound gui events) :
    ∃ next rest, gui.advance = .ok next ∧ Sound next rest := by
  obtain ⟨point,locked,queue,mouse,keyboard,layout⟩ := gui
  obtain ⟨contains,lock,pointer⟩ := sound
  cases point with
  | tryLock =>
    cases lock
    exact ⟨_,events,rfl,contains,rfl,pointer⟩
  | pop =>
    obtain ⟨next,popped,rest⟩ := EventQueue.contains_pop contains
    refine ⟨⟨.unlock events.head?,locked,next,mouse,keyboard,layout⟩,events.tail,?_,rest,lock,pointer⟩
    rw [advance]
    dsimp only at popped ⊢
    rw [popped]
    rfl
  | unlock event => exact ⟨_,events,rfl,contains,rfl,pointer⟩
  | handle event => exact ⟨_,events,rfl,contains,lock,pointer⟩

theorem step_sound (decoder : Decoder κ ε) (action : LoopAction) {gui : EventLoop κ} {events : List Event}
    (sound : Sound gui events) : ∃ next rest, gui.step decoder action = .ok next ∧ Sound next rest := by
  cases action with
  | advance => exact advance_sound sound
  | keymap layout =>
    rw [step]
    cases point : gui.point with
    | handle event =>
      have free := sound.lock
      rw [point] at free
      exact ⟨_,events,rfl,sound.contains,free,sound.pointer⟩
    | tryLock => exact ⟨gui,events,rfl,sound⟩
    | pop => exact ⟨gui,events,rfl,sound⟩
    | unlock event => exact ⟨gui,events,rfl,sound⟩
  | interrupt source =>
    obtain ⟨produced,next,handler⟩ := interrupt_returns decoder source sound
    refine ⟨next,_,?_,handler.sound⟩
    rw [step,handler.returns]
    rfl

theorem run_sound (decoder : Decoder κ ε) (actions : List LoopAction) {gui : EventLoop κ} {events : List Event}
    (sound : Sound gui events) : ∃ last rest, gui.run decoder actions = .ok last ∧ Sound last rest := by
  induction actions generalizing gui events with
  | nil => exact ⟨gui,events,rfl,sound⟩
  | cons action actions ih =>
    obtain ⟨next,between,stepped,kept⟩ := step_sound decoder action sound
    obtain ⟨last,rest,ran,final⟩ := ih kept
    refine ⟨last,rest,?_,final⟩
    rw [run,stepped]
    exact ran

theorem new_sound (keyboard : κ) (layout : LayoutId) : Sound (new keyboard layout) [] :=
  ⟨EventQueue.contains_new,rfl,MouseState.new_on_screen⟩

/-- In every interleaving, and for every event that a handler produces while there is room: it
is in the queue when the handler returns if the handler does not interrupt the loop between
`try_lock` and the release, and otherwise the queue is what it was. -/
theorem interrupts_drop_only_under_the_lock (decoder : Decoder κ ε) (keyboard : κ) (layout : LayoutId)
    (actions : List LoopAction) :
    ∃ gui events, (new keyboard layout).run decoder actions = .ok gui ∧ Sound gui events ∧
      ∀ source, ∃ produced next, Returns decoder source gui events produced next ∧
        ∀ k event, produced[k]? = some event → events.length + k < queueSize →
          if gui.point.holdsLock then next.queue = gui.queue
          else (kept gui.locked events produced)[events.length + k]? = some event := by
  obtain ⟨gui,events,ran,sound⟩ := run_sound decoder actions (new_sound keyboard layout)
  refine ⟨gui,events,ran,sound,?_⟩
  intro source
  obtain ⟨produced,next,handler⟩ := interrupt_returns decoder source sound
  refine ⟨produced,next,handler,?_⟩
  intro k event item room
  rw [← sound.lock]
  split
  next held => exact handler.dropped held
  next free =>
    rw [kept,if_neg free,List.getElem?_append_right (Nat.le_add_right _ _),Nat.add_sub_cancel_left,
      List.getElem?_take_of_lt (by omega)]
    exact item

/-- The events are all kept while there is room, whatever the loop was doing. -/
def KeepsEvents (decoder : Decoder κ ε) (keyboard : κ) (layout : LayoutId) : Prop :=
  ∀ actions gui events, (new keyboard layout).run decoder actions = .ok gui → gui.queue.Contains events →
    ∀ source produced next, gui.interrupt decoder source = .ok (produced,next) →
      ∀ k event, produced[k]? = some event → events.length + k < queueSize →
        ∃ rest, next.queue.Contains rest ∧ event ∈ rest

/-- The key of the letter a, pressed and released, as scancode set 1 has it. -/
def letterDecoder : Decoder Unit Bool where
  addByte := fun scancode keyboard =>
    if scancode = 0x1E then (.ok (some true),keyboard)
    else if scancode = 0x9E then (.ok (some false),keyboard)
    else (.ok none,keyboard)
  processKeyevent := fun _ pressed keyboard => (if pressed then some (.unicode 'a') else none,keyboard)

/-- The loop takes the lock; the key is pressed before it pops. -/
theorem key_press_under_the_lock_lost : ¬KeepsEvents letterDecoder () .us104 := by
  intro keeps
  have lost := keeps [.advance] ⟨.pop,true,.new,.new,(),.us104⟩ [] rfl EventQueue.contains_new (.keyboard 0x1E)
    [.keyPress (.char 'a')] ⟨.pop,true,.new,.new,(),.us104⟩ rfl 0 _ rfl (by decide)
  obtain ⟨rest,contains,member⟩ := lost
  have empty := EventQueue.contains_count contains
  rw [List.length_eq_zero_iff.mp empty.symm] at member
  exact List.not_mem_nil member

end EventLoop

end PolarOs.Gui
