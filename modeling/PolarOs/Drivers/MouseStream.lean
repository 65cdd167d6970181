import PolarOs.Drivers.Mouse
import PolarOs.Library.Alternating

/-! The mouse driver over streams of bytes, whole or garbled: where the packets of a stream
begin, and what the events say about the pointer and the buttons. -/
namespace PolarOs.Drivers
open Library Library.Checked Library.Signed Library.Alternating PolarOs.Gui

variable {state after next : MouseState} {events first rest : List Gui.Event} {button : MouseButton}

/-- The first bytes of the complete packets of a stream. A byte without bit 3 begins no packet. -/
def packetFlags : List UInt8 → List UInt8
  | [] => []
  | flags::bytes =>
    if flags &&& 0x08 = 0 then packetFlags bytes
    else match bytes with
      | _::_::bytes => flags :: packetFlags bytes
      | _ => []

/-- The flags of the last complete packet in which no movement has overflowed. -/
def lastFlags (bytes : List UInt8) : Option UInt8 :=
  ((packetFlags bytes).filter fun flags => flags &&& 0xC0 = 0).getLast?

def mask : MouseButton → UInt8
  | .left => 0x01
  | .right => 0x02
  | .middle => 0x04

def pressed (button : MouseButton) (flags : UInt8) : Bool := flags &&& mask button ≠ 0

/-- The pointer after the movements among the events. -/
def replay (pointer : Int16 × Int16) (events : List Gui.Event) : Int16 × Int16 :=
  events.foldl (fun pointer event => match event with
    | .mouseMove x y => (x,y)
    | _ => pointer) pointer

theorem replay_append (pointer : Int16 × Int16) (first rest : List Gui.Event) :
    replay pointer (first ++ rest) = replay (replay pointer first) rest :=
  List.foldl_append

/-- The presses (true) and releases of one button. -/
def buttonEdges (button : MouseButton) (events : List Gui.Event) : List Bool :=
  events.filterMap fun event => match event with
    | .mouseDown _ _ other => if other = button then some true else none
    | .mouseUp _ _ other => if other = button then some false else none
    | _ => none

namespace MouseState

def handleBytes : List UInt8 → MouseState → Checked (MouseState × List Gui.Event)
  | [],state => .ok (state,[])
  | byte::bytes,state => do
    let (state,first) ← handleByte byte state
    let (state,rest) ← handleBytes bytes state
    return (state,first ++ rest)

/-- What the events between two states tell of the pointer and of the two buttons. -/
structure Reports (before after : MouseState) (events : List Gui.Event) : Prop where
  pointer : replay (before.x,before.y) events = (after.x,after.y)
  alternates : ∀ button, button ≠ .middle →
    Alternates (pressed button before.prevButtons) (buttonEdges button events)
  level : ∀ button, button ≠ .middle →
    Alternating.after (pressed button before.prevButtons) (buttonEdges button events) = pressed button after.prevButtons

theorem Reports.refl (state : MouseState) : Reports state state [] :=
  ⟨rfl,fun _ _ => trivial,fun _ _ => rfl⟩

theorem Reports.trans (reports : Reports state next first) (goesOn : Reports next after rest) :
    Reports state after (first ++ rest) := by
  refine ⟨?pointer,?alternates,?level⟩
  case pointer =>
    rw [replay_append,reports.pointer,goesOn.pointer]
  case alternates =>
    intro button side
    have later := goesOn.alternates button side
    rw [← reports.level button side] at later
    rw [buttonEdges,List.filterMap_append]
    exact (reports.alternates button side).append later
  case level =>
    intro button side
    rw [buttonEdges,List.filterMap_append,after_append]
    exact (congrArg (fun level => Alternating.after level _) (reports.level button side)).trans (goesOn.level button side)

end MouseState

theorem buttonEdges_emit (buttons prev : UInt8) (other button : MouseButton) (x y : Int16) :
    buttonEdges button (emitButtonEvent buttons prev (mask other) other x y) =
      if other = button then
        if pressed button buttons = pressed button prev then [] else [pressed button buttons]
      else [] := by
  by_cases same : other = button
  · subst same
    by_cases now : buttons &&& mask other = 0 <;> by_cases before : prev &&& mask other = 0 <;>
      simp [emitButtonEvent,buttonEdges,pressed,now,before]
  · rw [if_neg same]
    by_cases now : buttons &&& mask other = 0 <;> by_cases before : prev &&& mask other = 0 <;>
      simp [emitButtonEvent,buttonEdges,now,before,same]

theorem replay_emit (pointer : Int16 × Int16) (buttons prev mask : UInt8) (button : MouseButton) (x y : Int16) :
    replay pointer (emitButtonEvent buttons prev mask button x y) = pointer := by
  unfold emitButtonEvent
  split <;> split <;> rfl

namespace MouseState

/-- The events of one packet. -/
theorem reports_packet (state : MouseState) (newX newY : Int16) (buttons : UInt8) :
    Reports state {state with x := newX, y := newY, prevButtons := buttons}
      ((if newX ≠ state.x ∨ newY ≠ state.y then [Gui.Event.mouseMove newX newY] else []) ++
        emitButtonEvent buttons state.prevButtons 0x01 .left newX newY ++
        emitButtonEvent buttons state.prevButtons 0x02 .right newX newY) := by
  have edges : ∀ button, button ≠ .middle →
      buttonEdges button ((if newX ≠ state.x ∨ newY ≠ state.y then [Gui.Event.mouseMove newX newY] else []) ++
        emitButtonEvent buttons state.prevButtons 0x01 .left newX newY ++
        emitButtonEvent buttons state.prevButtons 0x02 .right newX newY) =
      if pressed button buttons = pressed button state.prevButtons then [] else [pressed button buttons] := by
    intro button side
    have move : buttonEdges button
        (if newX ≠ state.x ∨ newY ≠ state.y then [Gui.Event.mouseMove newX newY] else []) = [] := by
      split <;> rfl
    have left := buttonEdges_emit buttons state.prevButtons .left button newX newY
    have right := buttonEdges_emit buttons state.prevButtons .right button newX newY
    rw [buttonEdges] at move left right
    rw [buttonEdges,List.filterMap_append,List.filterMap_append,move]
    cases button with
    | left => exact congrArg₂ (fun first rest => [] ++ first ++ rest) left right |>.trans (List.append_nil _)
    | right => exact congrArg₂ (fun first rest => [] ++ first ++ rest) left right
    | middle => exact absurd rfl side
  refine ⟨?pointer,?alternates,?level⟩
  case pointer =>
    rw [replay_append,replay_append,replay_emit,replay_emit]
    split
    next => rfl
    next still =>
      obtain ⟨column,row⟩ := not_or.mp still
      rw [not_ne_iff.mp column,not_ne_iff.mp row]
      rfl
  case alternates =>
    intro button side
    rw [edges button side]
    exact (change_alternates (pressed button state.prevButtons) (pressed button buttons)).1
  case level =>
    intro button side
    rw [edges button side]
    exact (change_alternates (pressed button state.prevButtons) (pressed button buttons)).2

theorem handlePacket_effect (ran : handlePacket state = .ok (next,events)) :
    next.cycle = state.cycle ∧ Reports state next events ∧
      if state.byte0 &&& 0xC0 = 0 then next.prevButtons = state.byte0 &&& 0x07
      else next.prevButtons = state.prevButtons ∧ events = [] := by
  obtain ⟨dx,_,ran⟩ := bind_ok.mp ran
  obtain ⟨dy,_,ran⟩ := bind_ok.mp ran
  split at ran
  next overflow =>
    cases ran
    rw [if_neg overflow]
    exact ⟨rfl,Reports.refl state,rfl,rfl⟩
  next fits =>
    obtain ⟨up,_,ran⟩ := bind_ok.mp ran
    obtain ⟨newX,_,ran⟩ := bind_ok.mp ran
    obtain ⟨newY,_,ran⟩ := bind_ok.mp ran
    cases ran
    rw [if_pos (not_ne_iff.mp fits)]
    exact ⟨rfl,reports_packet state newX newY (state.byte0 &&& 0x07),rfl⟩

/-- What a stream that begins between two packets leads to. -/
structure Tracks (before after : MouseState) (bytes : List UInt8) (events : List Gui.Event) : Prop where
  screen : OnScreen after
  reports : Reports before after events
  buttons : after.prevButtons = (lastFlags bytes).elim before.prevButtons fun flags => flags &&& 0x07
  silent : lastFlags bytes = none → events = []

theorem packetFlags_skip {flags : UInt8} (begins : flags &&& 0x08 = 0) (bytes : List UInt8) :
    packetFlags (flags :: bytes) = packetFlags bytes := by
  rw [packetFlags.eq_def (flags :: bytes)]
  exact if_pos begins

theorem packetFlags_packet {flags : UInt8} (begins : ¬flags &&& 0x08 = 0) (second third : UInt8) (bytes : List UInt8) :
    packetFlags (flags :: second :: third :: bytes) = flags :: packetFlags bytes := by
  rw [packetFlags.eq_def (flags :: second :: third :: bytes)]
  exact if_neg begins

theorem packetFlags_short {flags : UInt8} (begins : ¬flags &&& 0x08 = 0) {bytes : List UInt8} (short : bytes.length < 2) :
    packetFlags (flags :: bytes) = [] := by
  rw [packetFlags.eq_def (flags :: bytes)]
  match bytes,short with
  | [],_ => exact if_neg begins
  | [_],_ => exact if_neg begins

theorem lastFlags_skip {flags : UInt8} {bytes : List UInt8} (begins : flags &&& 0x08 = 0) :
    lastFlags (flags :: bytes) = lastFlags bytes := by
  rw [lastFlags,packetFlags_skip begins,lastFlags]

theorem lastFlags_packet {flags second third : UInt8} {bytes : List UInt8} (begins : ¬flags &&& 0x08 = 0) :
    lastFlags (flags :: second :: third :: bytes) =
      if flags &&& 0xC0 = 0 then some ((lastFlags bytes).getD flags) else lastFlags bytes := by
  rw [lastFlags,packetFlags_packet begins,List.filter_cons]
  split
  next fits => rw [if_pos (of_decide_eq_true fits),List.getLast?_cons,lastFlags]
  next overflow => rw [if_neg (mt decide_eq_true overflow),lastFlags]

theorem handleBytes_ok {byte : UInt8} {bytes : List UInt8} (stepped : handleByte byte state = .ok (next,first))
    (ran : handleBytes bytes next = .ok (after,rest)) :
    handleBytes (byte :: bytes) state = .ok (after,first ++ rest) := by
  rw [handleBytes,stepped,ok_bind]
  dsimp only
  rw [ran]
  rfl

theorem handleBytes_silent {byte : UInt8} {bytes : List UInt8} (stepped : handleByte byte state = .ok (next,[]))
    (ran : handleBytes bytes next = .ok (after,rest)) : handleBytes (byte :: bytes) state = .ok (after,rest) :=
  handleBytes_ok stepped ran

theorem handleByte_skip {flags : UInt8} (idle : state.cycle = 0) (begins : flags &&& 0x08 = 0) :
    handleByte flags state = .ok (state,[]) := by
  rw [handleByte,if_pos idle,if_neg (not_ne_iff.mpr begins)]

theorem handleByte_first {flags : UInt8} (idle : state.cycle = 0) (begins : ¬flags &&& 0x08 = 0) :
    handleByte flags state = .ok ({state with byte0 := flags, cycle := 1},[]) := by
  rw [handleByte,if_pos idle,if_pos begins]

/-- A state at a packet's end, with all its bytes. -/
def assembled (state : MouseState) (flags second third : UInt8) : MouseState :=
  {state with byte0 := flags, byte1 := second, byte2 := third, cycle := 0}

theorem handleBytes_packet {flags second third : UInt8} {bytes : List UInt8} (idle : state.cycle = 0)
    (begins : ¬flags &&& 0x08 = 0) (packet : handlePacket (assembled state flags second third) = .ok (next,first))
    (ran : handleBytes bytes next = .ok (after,rest)) :
    handleBytes (flags :: second :: third :: bytes) state = .ok (after,first ++ rest) := by
  let waiting : MouseState := {state with byte0 := flags, byte1 := second, cycle := 2}
  have last : handleBytes (third :: bytes) waiting = .ok (after,first ++ rest) := handleBytes_ok packet ran
  have middle : handleBytes (second :: third :: bytes) {state with byte0 := flags, cycle := 1} =
      .ok (after,first ++ rest) := handleBytes_silent rfl last
  exact handleBytes_silent (handleByte_first idle begins) middle

/-- The state keeps its pointer and its buttons. -/
theorem Tracks.still {bytes : List UInt8} (inside : OnScreen state) (none : lastFlags bytes = none)
    (cycle byte0 byte1 : UInt8) :
    Tracks state {state with cycle := cycle, byte0 := byte0, byte1 := byte1} bytes [] := by
  refine ⟨⟨inside.left,inside.right,inside.top,inside.bottom⟩,⟨rfl,fun _ _ => trivial,fun _ _ => rfl⟩,?_,fun _ => rfl⟩
  rw [none]
  rfl

theorem Tracks.packet {flags second third : UInt8} {bytes : List UInt8} (begins : ¬flags &&& 0x08 = 0)
    (packet : handlePacket (assembled state flags second third) = .ok (next,first))
    (tracks : Tracks next after bytes rest) :
    Tracks state after (flags :: second :: third :: bytes) (first ++ rest) := by
  obtain ⟨_,reports,effect⟩ := handlePacket_effect packet
  have here : Reports state next first := ⟨reports.pointer,reports.alternates,reports.level⟩
  refine ⟨tracks.screen,here.trans tracks.reports,?buttons,?silent⟩
  case buttons =>
    rw [lastFlags_packet begins,tracks.buttons]
    change if flags &&& 0xC0 = 0 then _ else _ at effect
    split at effect
    next fits =>
      rw [if_pos fits,effect]
      cases lastFlags bytes <;> rfl
    next overflow =>
      rw [if_neg overflow,effect.1]
      rfl
  case silent =>
    rw [lastFlags_packet begins]
    change if flags &&& 0xC0 = 0 then _ else _ at effect
    split at effect
    next fits =>
      rw [if_pos fits]
      intro none
      cases none
    next overflow =>
      rw [if_neg overflow,effect.2]
      exact tracks.silent

theorem handleBytes_tracks (idle : state.cycle = 0) (inside : OnScreen state) (bytes : List UInt8) :
    ∃ after events, handleBytes bytes state = .ok (after,events) ∧ Tracks state after bytes events := by
  induction bytes using packetFlags.induct generalizing state with
  | case1 => exact ⟨state,[],rfl,Tracks.still inside rfl ..⟩
  | case2 flags bytes begins ih =>
    obtain ⟨after,events,ran,tracks⟩ := ih idle inside
    refine ⟨after,events,handleBytes_silent (handleByte_skip idle begins) ran,?_⟩
    refine ⟨tracks.screen,tracks.reports,?_,?_⟩
    · rw [lastFlags_skip begins]
      exact tracks.buttons
    · rw [lastFlags_skip begins]
      exact tracks.silent
  | case3 flags begins second third bytes ih =>
    obtain ⟨next,first,packet,screen⟩ :=
      @handlePacket_on_screen (assembled state flags second third) ⟨inside.left,inside.right,inside.top,inside.bottom⟩
    obtain ⟨after,rest,ran,tracks⟩ := ih (handlePacket_effect packet).1 screen
    exact ⟨after,first ++ rest,handleBytes_packet idle begins packet ran,.packet begins packet tracks⟩
  | case4 flags bytes begins short =>
    match bytes,short with
    | [],_ =>
      have none : lastFlags [flags] = none := by
        rw [lastFlags,packetFlags_short begins (by decide)]
        rfl
      exact ⟨_,_,handleBytes_silent (handleByte_first idle begins) rfl,Tracks.still inside none 1 flags _⟩
    | [second],_ =>
      have none : lastFlags [flags,second] = none := by
        rw [lastFlags,@packetFlags_short _ begins [second] (Nat.lt_succ_self 1)]
        rfl
      exact ⟨_,_,handleBytes_silent (handleByte_first idle begins) rfl,Tracks.still inside none 2 flags second⟩
    | second :: third :: bytes,short => exact (short second third bytes rfl).elim

theorem pressed_buttons (flags : UInt8) (button : MouseButton) :
    pressed button (flags &&& 0x07) = pressed button flags := by
  have inside : 0x07 &&& mask button = mask button := by cases button <;> rfl
  rw [pressed,pressed,UInt8.and_assoc,inside]

/-- Whatever the bytes are, the pointer stays on the screen and the events agree with it and
with the buttons of the last packet that counts: each button is down after its last event exactly
when it is in that packet, and up as long as there is none. -/
theorem handleBytes_new (bytes : List UInt8) :
    ∃ state events, handleBytes bytes new = .ok (state,events) ∧ OnScreen state ∧
      replay (160,100) events = (state.x,state.y) ∧
      ∀ button, button ≠ .middle → Alternates false (buttonEdges button events) ∧
        (buttonEdges button events).getLast?.getD false = (lastFlags bytes).elim false (pressed button) ∧
        ∀ last, (buttonEdges button events).getLast? = some last →
          ∃ flags, lastFlags bytes = some flags ∧ last = pressed button flags := by
  obtain ⟨state,events,ran,tracks⟩ := handleBytes_tracks rfl new_on_screen bytes
  refine ⟨state,events,ran,tracks.screen,tracks.reports.pointer,?_⟩
  intro button side
  have released : pressed button new.prevButtons = false := by cases button <;> rfl
  have alternates := tracks.reports.alternates button side
  have level := tracks.reports.level button side
  rw [released] at alternates level
  have agree : (buttonEdges button events).getLast?.getD false = (lastFlags bytes).elim false (pressed button) := by
    rw [Alternating.after,tracks.buttons] at level
    rw [level]
    cases lastFlags bytes with
    | none => exact released
    | some flags => exact pressed_buttons flags button
  refine ⟨alternates,agree,?_⟩
  intro last ends
  rw [ends,Option.getD_some] at agree
  cases read : lastFlags bytes with
  | none =>
    rw [tracks.silent read] at ends
    cases ends
  | some flags =>
    rw [read] at agree
    exact ⟨flags,rfl,agree⟩

end MouseState

end PolarOs.Drivers
