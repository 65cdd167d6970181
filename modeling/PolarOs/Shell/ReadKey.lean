import PolarOs.Drivers.InputBuffers
import PolarOs.Shell.LineEditor

/-! The text shell at the keyboard: `read_key` takes scancodes out of `SCANCODE_QUEUE`, and outside
GUI mode the keyboard interrupt puts them in (`add_scancode`). Both wait for the lock of the queue, on
the same processor, and `read_key` leaves interrupts enabled while it holds the lock. -/
namespace PolarOs
open Library Library.Checked Drivers

variable {κ ε : Type}

/-- Where `read_key` stands; between two calls it has returned. -/
inductive ReadPoint where
  | lock
  | pop
  | unlock (maybe : Option UInt8)
  | wait
  | decode (scancode : UInt8)
  | returned (key : KeyEvent)

def ReadPoint.holdsLock : ReadPoint → Bool
  | pop | unlock _ => true
  | lock | wait | decode _ | returned _ => false

/-- Where the handler stands. -/
inductive HandlerPoint where
  | lock (scancode : UInt8)
  | push (scancode : UInt8)
  | unlock
  | endOfInterrupt

def HandlerPoint.holdsLock : HandlerPoint → Bool
  | push _ | unlock => true
  | lock _ | endOfInterrupt => false

structure KeyReader (κ : Type) where
  point : ReadPoint
  handler : Option HandlerPoint
  interrupts : Bool
  locked : Bool
  queue : ScancodeBuffer
  keyboard : κ
  layout : LayoutId

inductive KeyAction where
  /-- A step of `read_key`, or its next call. -/
  | advance
  /-- What the shell leaves behind when it has worked between two calls. -/
  | shell (interrupts : Bool) (layout : LayoutId)
  | key (scancode : UInt8)
  | handle

/-- The keys that `read_key` returns; it goes on after any other. -/
def keyEvent : DecodedKey → Option KeyEvent
  | .unicode character => some (.char character)
  | .rawKey .arrowUp => some .arrowUp
  | .rawKey .arrowDown => some .arrowDown
  | .rawKey _ => none

def decodeKey (decoder : Decoder κ ε) (layout : LayoutId) (scancode : UInt8) (keyboard : κ) : Option KeyEvent × κ :=
  match decoder.addByte scancode keyboard with
  | (.ok (some event),keyboard) =>
    let (key,keyboard) := decoder.processKeyevent layout event keyboard
    (key.bind keyEvent,keyboard)
  | (_,keyboard) => (none,keyboard)

namespace KeyReader

def start (keyboard : κ) (layout : LayoutId) : KeyReader κ := ⟨.lock,none,true,false,.new,keyboard,layout⟩

/-- A step of `read_key`. Only an interrupt ends `hlt`, the timer's if no other. -/
def advance (decoder : Decoder κ ε) (reader : KeyReader κ) : Checked (KeyReader κ) :=
  match reader.point with
  | .lock => if reader.locked then .ok reader else .ok {reader with point := .pop, locked := true}
  | .pop => do
    let (maybe,queue) ← reader.queue.pop
    return {reader with point := .unlock maybe, queue}
  | .unlock (some scancode) => .ok {reader with point := .decode scancode, locked := false}
  | .unlock none => .ok {reader with point := .wait, locked := false}
  | .wait => if reader.interrupts then .ok {reader with point := .lock} else .ok reader
  | .decode scancode =>
    let (key,keyboard) := decodeKey decoder reader.layout scancode reader.keyboard
    .ok {reader with point := key.elim .lock .returned, keyboard}
  | .returned _ => .ok {reader with point := .lock}

/-- A step of the handler, which spins while the lock is taken. Its return enables interrupts. -/
def handle (point : HandlerPoint) (reader : KeyReader κ) : Checked (KeyReader κ) :=
  match point with
  | .lock scancode =>
    if reader.locked then .ok reader else .ok {reader with handler := some (.push scancode), locked := true}
  | .push scancode => do
    let queue ← reader.queue.push scancode
    return {reader with handler := some .unlock, queue}
  | .unlock => .ok {reader with handler := some .endOfInterrupt, locked := false}
  | .endOfInterrupt => .ok {reader with handler := none, interrupts := true}

/-- The processor takes a keyboard interrupt. -/
def Open (reader : KeyReader κ) : Prop := reader.handler = none ∧ reader.interrupts = true

instance openDecidable (reader : KeyReader κ) : Decidable reader.Open :=
  decidable_of_iff (reader.handler.isNone ∧ reader.interrupts = true) (by rw [Open,Option.isNone_iff_eq_none])

/-- A step that the state does not allow leaves it as it is: the handler runs to its end before
`read_key` goes on, and no interrupt is taken while they are masked. -/
def step (decoder : Decoder κ ε) (action : KeyAction) (reader : KeyReader κ) : Checked (KeyReader κ) :=
  match action with
  | .advance => match reader.handler with
    | none => reader.advance decoder
    | some _ => .ok reader
  | .shell interrupts layout => match reader.handler,reader.point with
    | none,.returned _ => .ok {reader with interrupts, layout}
    | _,_ => .ok reader
  | .key scancode =>
    if reader.Open then .ok {reader with handler := some (.lock scancode), interrupts := false} else .ok reader
  | .handle => match reader.handler with
    | none => .ok reader
    | some point => reader.handle point

def run (decoder : Decoder κ ε) : List KeyAction → KeyReader κ → Checked (KeyReader κ)
  | [],reader => .ok reader
  | action::actions,reader => do
    let reader ← reader.step decoder action
    run decoder actions reader

/-- The handler is at the lock, and the code it interrupted holds it. -/
def Waits (reader : KeyReader κ) : Prop :=
  (∃ scancode, reader.handler = some (.lock scancode)) ∧ reader.locked = true ∧ reader.point.holdsLock = true

variable {decoder : Decoder κ ε} {reader next : KeyReader κ} {action : KeyAction}

/-! What every interleaving keeps. -/

/-- The lock is taken when one side holds it, and never held by both. -/
structure Sound (reader : KeyReader κ) : Prop where
  queue : ∃ contents, RingBuffer.Holds bufSize reader.queue contents
  locked : reader.locked = (reader.point.holdsLock || reader.handler.any HandlerPoint.holdsLock)
  exclusive : reader.point.holdsLock = true → reader.handler.any HandlerPoint.holdsLock = false
  masked : reader.handler.isSome = true → reader.interrupts = false

theorem start_sound (keyboard : κ) (layout : LayoutId) : Sound (start keyboard layout) :=
  ⟨⟨[],RingBuffer.holds_empty List.length_replicate (by decide)⟩,rfl,nofun,nofun⟩

theorem advance_sound (decoder : Decoder κ ε) (sound : Sound reader) (alone : reader.handler = none) :
    ∃ next, reader.advance decoder = .ok next ∧ next.handler = none ∧ Sound next := by
  obtain ⟨point,handler,interrupts,locked,queue,keyboard,layout⟩ := reader
  obtain ⟨⟨contents,held⟩,lock,_,_⟩ := sound
  dsimp only at alone
  subst alone
  have masked : (none : Option HandlerPoint).isSome = true → interrupts = false := nofun
  cases point with
  | lock =>
    cases lock
    exact ⟨_,rfl,rfl,⟨contents,held⟩,rfl,fun _ => rfl,masked⟩
  | pop =>
    obtain ⟨rest,popped,kept⟩ := ScancodeBuffer.refines_queue.pop queue contents held
    change queue.pop = _ at popped
    refine ⟨⟨.unlock contents.head?,none,interrupts,locked,rest,keyboard,layout⟩,?_,rfl,⟨_,kept⟩,lock,?_,masked⟩
    · rw [advance]
      dsimp only
      rw [popped]
      rfl
    · exact fun _ => rfl
  | unlock maybe => cases maybe <;> exact ⟨_,rfl,rfl,⟨contents,held⟩,rfl,nofun,masked⟩
  | wait => cases interrupts <;> exact ⟨_,rfl,rfl,⟨contents,held⟩,lock,nofun,masked⟩
  | decode scancode =>
    have free (key : Option KeyEvent) : (key.elim ReadPoint.lock ReadPoint.returned).holdsLock = false := by
      cases key <;> rfl
    refine ⟨_,rfl,rfl,⟨contents,held⟩,?_,fun _ => rfl,masked⟩
    dsimp only
    rw [free]
    exact lock
  | returned key => exact ⟨_,rfl,rfl,⟨contents,held⟩,lock,nofun,masked⟩

theorem handle_sound (sound : Sound reader) {point : HandlerPoint} (inside : reader.handler = some point) :
    ∃ next, reader.handle point = .ok next ∧ Sound next := by
  obtain ⟨place,handler,interrupts,locked,queue,keyboard,layout⟩ := reader
  obtain ⟨⟨contents,held⟩,lock,exclusive,masked⟩ := sound
  dsimp only at inside lock exclusive
  subst inside
  cases point with
  | lock scancode =>
    cases taken : place.holdsLock with
    | true =>
      rw [taken] at lock
      subst lock
      exact ⟨_,rfl,⟨contents,held⟩,by rw [taken],fun _ => rfl,masked⟩
    | false =>
      rw [taken] at lock
      subst lock
      refine ⟨_,rfl,⟨contents,held⟩,by rw [taken]; rfl,?_,masked⟩
      intro holds
      rw [taken] at holds
      cases holds
  | push scancode =>
    obtain ⟨rest,pushed,kept⟩ := ScancodeBuffer.refines_queue.push queue contents scancode held
    change queue.push scancode = _ at pushed
    refine ⟨⟨place,some .unlock,interrupts,locked,rest,keyboard,layout⟩,?_,⟨_,kept⟩,lock,exclusive,masked⟩
    rw [handle]
    dsimp only
    rw [pushed]
    rfl
  | unlock =>
    have free : place.holdsLock = false := Bool.eq_false_iff.mpr fun holds => absurd (exclusive holds) nofun
    exact ⟨_,rfl,⟨contents,held⟩,by rw [free]; rfl,fun _ => rfl,masked⟩
  | endOfInterrupt => exact ⟨_,rfl,⟨contents,held⟩,lock,fun _ => rfl,nofun⟩

theorem step_sound (decoder : Decoder κ ε) (action : KeyAction) (sound : Sound reader) :
    ∃ next, reader.step decoder action = .ok next ∧ Sound next := by
  cases action with
  | advance =>
    rw [step]
    split
    next alone =>
      obtain ⟨next,ran,_,kept⟩ := advance_sound decoder sound alone
      exact ⟨next,ran,kept⟩
    next => exact ⟨reader,rfl,sound⟩
  | shell interrupts layout =>
    rw [step]
    split
    next alone returned =>
      refine ⟨_,rfl,sound.queue,sound.locked,sound.exclusive,?_⟩
      intro running
      rw [alone] at running
      cases running
    next => exact ⟨reader,rfl,sound⟩
  | key scancode =>
    rw [step]
    split
    next taken =>
      have lock := sound.locked
      rw [taken.1] at lock
      exact ⟨_,rfl,sound.queue,lock,fun _ => rfl,fun _ => rfl⟩
    next => exact ⟨reader,rfl,sound⟩
  | handle =>
    rw [step]
    split
    next => exact ⟨reader,rfl,sound⟩
    next point inside => exact handle_sound sound inside

theorem run_sound (decoder : Decoder κ ε) (actions : List KeyAction) (sound : Sound reader) :
    ∃ last, reader.run decoder actions = .ok last ∧ Sound last := by
  induction actions generalizing reader with
  | nil => exact ⟨reader,rfl,sound⟩
  | cons action actions ih =>
    obtain ⟨middle,ran,kept⟩ := step_sound decoder action sound
    obtain ⟨last,rest,final⟩ := ih kept
    exact ⟨last,by rw [run,ran]; exact rest,final⟩

theorem run_concat (decoder : Decoder κ ε) (before : List KeyAction) (action : KeyAction) (reader : KeyReader κ) :
    reader.run decoder (before ++ [action]) = reader.run decoder before >>= step decoder action := by
  induction before generalizing reader with
  | nil => exact bind_pure (reader.step decoder action)
  | cons first before ih =>
    rw [List.cons_append,run,run,bind_assoc]
    exact congrArg _ (funext ih)

/-! When the handler waits. -/

/-- A handler that waits for the code it interrupted waits for ever, and nothing else runs. -/
theorem waits_forever (decoder : Decoder κ ε) (waits : Waits reader) (actions : List KeyAction) :
    reader.run decoder actions = .ok reader := by
  obtain ⟨⟨scancode,inside⟩,locked,_⟩ := waits
  have stuck (action : KeyAction) : reader.step decoder action = .ok reader := by
    cases action with
    | advance => rw [step,inside]
    | shell interrupts layout => rw [step,inside]
    | key other =>
      rw [step,if_neg]
      intro taken
      rw [taken.1] at inside
      cases inside
    | handle =>
      rw [step,inside]
      exact if_pos locked
  induction actions with
  | nil => rfl
  | cons action actions ih =>
    rw [run,stuck]
    exact ih

/-- A handler at the lock has not interrupted the code that holds it. -/
def Calm (reader : KeyReader κ) : Prop :=
  ∀ scancode, reader.handler = some (.lock scancode) → reader.point.holdsLock = false

theorem not_waits_of_calm (calm : Calm reader) : ¬Waits reader := by
  rintro ⟨⟨scancode,inside⟩,_,holds⟩
  rw [calm scancode inside] at holds
  cases holds

theorem calm_of_handler (elsewhere : ∀ scancode, reader.handler ≠ some (.lock scancode)) : Calm reader :=
  fun scancode inside => absurd inside (elsewhere scancode)

theorem handle_calm {point : HandlerPoint} (calm : Calm reader) (ran : reader.handle point = .ok next) : Calm next := by
  cases point with
  | lock scancode =>
    rw [handle] at ran
    split at ran <;> cases ran
    · exact calm
    · exact calm_of_handler nofun
  | push scancode =>
    obtain ⟨queue,_,done⟩ := bind_ok.mp ran
    cases done
    exact calm_of_handler nofun
  | unlock =>
    cases ran
    exact calm_of_handler nofun
  | endOfInterrupt =>
    cases ran
    exact calm_of_handler nofun

/-- Only an interrupt that is taken while `read_key` holds the lock makes the handler wait. -/
theorem step_calm (sound : Sound reader) (calm : Calm reader)
    (free : ∀ scancode, action = .key scancode → reader.Open → reader.point.holdsLock = false)
    (ran : reader.step decoder action = .ok next) : Calm next := by
  cases action with
  | advance =>
    rw [step] at ran
    split at ran
    next alone =>
      obtain ⟨other,again,still,_⟩ := advance_sound decoder sound alone
      cases ran.symm.trans again
      exact calm_of_handler fun scancode inside => by rw [still] at inside; cases inside
    next =>
      cases ran
      exact calm
  | shell interrupts layout =>
    rw [step] at ran
    split at ran
    next =>
      cases ran
      exact calm
    next =>
      cases ran
      exact calm
  | key scancode =>
    rw [step] at ran
    split at ran
    next taken =>
      cases ran
      exact fun _ _ => free scancode rfl taken
    next =>
      cases ran
      exact calm
  | handle =>
    rw [step] at ran
    split at ran
    next =>
      cases ran
      exact calm
    next => exact handle_calm calm ran

theorem take_waits {scancode : UInt8} (sound : Sound reader) (taken : reader.Open)
    (holds : reader.point.holdsLock = true) :
    ∃ next, reader.step decoder (.key scancode) = .ok next ∧ Waits next := by
  have locked := sound.locked
  rw [holds] at locked
  exact ⟨_,if_pos taken,⟨scancode,rfl⟩,locked,holds⟩

/-- In a run no handler waits for the code that it interrupted exactly when every interrupt that is
taken finds `read_key` without the lock. -/
theorem never_waits_iff (decoder : Decoder κ ε) (keyboard : κ) (layout : LayoutId) (actions : List KeyAction) :
    (∀ before after reader, actions = before ++ after →
      (start keyboard layout).run decoder before = .ok reader → ¬Waits reader) ↔
    ∀ before scancode after reader, actions = before ++ .key scancode::after →
      (start keyboard layout).run decoder before = .ok reader → reader.Open → reader.point.holdsLock = false := by
  have initial := start_sound keyboard layout
  constructor
  · intro never before scancode after reader parts ran taken
    obtain ⟨other,again,sound⟩ := run_sound decoder before initial
    cases ran.symm.trans again
    rw [← Bool.not_eq_true]
    intro holds
    obtain ⟨next,stepped,waits⟩ := @take_waits κ ε decoder reader scancode sound taken holds
    refine never (before ++ [.key scancode]) after next ?_ ?_ waits
    · rw [parts,List.append_assoc,List.singleton_append]
    · rw [run_concat,ran]
      exact stepped
  · intro free before after reader parts ran
    have calm : Calm reader := by
      induction before using List.reverseRecOn generalizing after reader with
      | nil =>
        cases ran
        exact calm_of_handler nofun
      | append_singleton before action ih =>
        rw [run_concat] at ran
        obtain ⟨middle,first,last⟩ := bind_ok.mp ran
        rw [List.append_assoc,List.singleton_append] at parts
        obtain ⟨other,again,sound⟩ := run_sound decoder before initial
        cases first.symm.trans again
        refine step_calm sound (ih _ middle parts first) ?_ last
        rintro scancode rfl taken
        exact free before scancode after middle parts first taken
    exact not_waits_of_calm calm

/-- A decoder that never completes a key. -/
def silentDecoder : Decoder Unit Unit := ⟨fun _ keyboard => (.ok none,keyboard),fun _ _ keyboard => (none,keyboard)⟩

/-- `read_key` takes the lock, and the next key comes before it has given it back. -/
theorem interrupted_pop_waits :
    ∃ reader, (start () .us104).run silentDecoder [.advance,.key 0x1E] = .ok reader ∧ Waits reader :=
  ⟨_,rfl,⟨0x1E,rfl⟩,rfl,rfl⟩

end KeyReader

end PolarOs
