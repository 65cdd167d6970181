import PolarOs.Gui.Widget

/-! The mouse driver (`drivers/mouse.rs`): packets of three bytes become movements of a pointer
on the screen and changes of the buttons. The handler hands its events out in order. -/
namespace PolarOs.Drivers
open Library Library.Checked Library.Signed PolarOs.Gui

def screenWidth : Int16 := 320

def screenHeight : Int16 := 200

/-- `byte0`, `byte1` and `byte2` are the array `bytes`. -/
structure MouseState where
  cycle : UInt8
  byte0 : UInt8
  byte1 : UInt8
  byte2 : UInt8
  x : Int16
  y : Int16
  prevButtons : UInt8
deriving DecidableEq

def emitButtonEvent (buttons prev mask : UInt8) (button : MouseButton) (x y : Int16) : List Gui.Event :=
  (if buttons &&& mask ≠ 0 ∧ prev &&& mask = 0 then [.mouseDown x y button] else []) ++
    if buttons &&& mask = 0 ∧ prev &&& mask ≠ 0 then [.mouseUp x y button] else []

/-- A magnitude byte with its sign in the first byte of the packet. -/
def delta (flags sign byte : UInt8) : Checked Int16 :=
  if flags &&& sign ≠ 0 then sub (Int16.ofNat byte.toNat) 256 else .ok (Int16.ofNat byte.toNat)

/-- `(position + delta).max(0).min(last)`. -/
def moved (position delta last : Int16) : Checked Int16 := do
  let target ← add position delta
  return min (max target 0) last

namespace MouseState

def new : MouseState := ⟨0,0,0,0,160,100,0⟩

/-- The end of the third arm of `handle_byte`, when all bytes of the packet are there. -/
def handlePacket (state : MouseState) : Checked (MouseState × List Gui.Event) := do
  let flags := state.byte0
  let dx ← delta flags 0x10 state.byte1
  let dy ← delta flags 0x20 state.byte2
  if flags &&& 0xC0 ≠ 0 then return (state,[])
  -- Y inverted in PS/2
  let dy ← sub 0 dy
  let newX ← moved state.x dx (screenWidth - 1)
  let newY ← moved state.y dy (screenHeight - 1)
  let buttons := flags &&& 0x07
  let move : List Gui.Event := if newX ≠ state.x ∨ newY ≠ state.y then [.mouseMove newX newY] else []
  return ({state with x := newX, y := newY, prevButtons := buttons},
    move ++ emitButtonEvent buttons state.prevButtons 0x01 .left newX newY ++
      emitButtonEvent buttons state.prevButtons 0x02 .right newX newY)

def handleByte (byte : UInt8) (state : MouseState) : Checked (MouseState × List Gui.Event) :=
  if state.cycle = 0 then
    if byte &&& 0x08 ≠ 0 then .ok ({state with byte0 := byte, cycle := 1},[])
    else .ok (state,[])
  else if state.cycle = 1 then .ok ({state with byte1 := byte, cycle := 2},[])
  else if state.cycle = 2 then handlePacket {state with byte2 := byte, cycle := 0}
  else .ok ({state with cycle := 0},[])

/-- The pointer is on the screen. -/
structure OnScreen (state : MouseState) : Prop where
  left : 0 ≤ state.x.toInt
  right : state.x.toInt < 320
  top : 0 ≤ state.y.toInt
  bottom : state.y.toInt < 200

end MouseState

theorem delta_range (flags sign byte : UInt8) :
    ∃ change, delta flags sign byte = .ok change ∧ -256 ≤ change.toInt ∧ change.toInt ≤ 255 := by
  have small := byte.toNat_lt
  have magnitude : (Int16.ofNat byte.toNat).toInt = byte.toNat := Int16.toInt_ofNat_of_lt (by omega)
  have turn : (256 : Int16).toInt = 256 := rfl
  unfold delta
  split
  next =>
    have low : -2^15 ≤ (Int16.ofNat byte.toNat).toInt - (256 : Int16).toInt := by omega
    obtain ⟨change,subtracted,value⟩ := checked_in_range low (by omega)
    exact ⟨change,subtracted,by omega,by omega⟩
  next => exact ⟨_,rfl,by omega,by omega⟩

theorem clamped_inside (target : Int16) {last : Int16} (screen : 0 ≤ last.toInt) :
    0 ≤ (min (max target 0) last).toInt ∧ (min (max target 0) last).toInt ≤ last.toInt := by
  have zero : (0 : Int16).toInt = 0 := rfl
  have largest : max target 0 = if target ≤ 0 then 0 else target := rfl
  have smallest : min (max target 0) last = if max target 0 ≤ last then max target 0 else last := rfl
  rw [smallest]
  split
  next inside =>
    rw [Int16.le_iff_toInt_le] at inside
    refine ⟨?_,inside⟩
    rw [largest]
    split
    next => exact Int.le_of_eq zero.symm
    next positive =>
      rw [Int16.le_iff_toInt_le] at positive
      omega
  next => exact ⟨screen,Int.le_refl _⟩

theorem moved_inside {position change last : Int16} (left : 0 ≤ position.toInt) (right : position.toInt ≤ last.toInt)
    (screen : last.toInt < 320) (small : -256 ≤ change.toInt ∧ change.toInt ≤ 256) :
    ∃ target, moved position change last = .ok target ∧ 0 ≤ target.toInt ∧ target.toInt ≤ last.toInt := by
  have low : -2^15 ≤ position.toInt + change.toInt := by omega
  obtain ⟨sum,added,-⟩ := checked_in_range low (by omega)
  refine ⟨min (max sum 0) last,?_,clamped_inside sum (by omega)⟩
  rw [moved,Signed.add,added]
  rfl

namespace MouseState

theorem handlePacket_on_screen {state : MouseState} (inside : OnScreen state) :
    ∃ next events, handlePacket state = .ok (next,events) ∧ OnScreen next := by
  obtain ⟨dx,across,horizontal⟩ := delta_range state.byte0 0x10 state.byte1
  obtain ⟨dy,down,vertical⟩ := delta_range state.byte0 0x20 state.byte2
  rw [handlePacket,across,ok_bind,down,ok_bind]
  split
  next => exact ⟨state,[],rfl,inside⟩
  next =>
    have zero : (0 : Int16).toInt = 0 := rfl
    have low : -2^15 ≤ (0 : Int16).toInt - dy.toInt := by omega
    obtain ⟨up,inverted,value⟩ := checked_in_range low (by omega)
    have width : (screenWidth - 1).toInt = 319 := rfl
    have height : (screenHeight - 1).toInt = 199 := rfl
    have right := inside.right
    have bottom := inside.bottom
    obtain ⟨newX,column,newLeft,newRight⟩ := moved_inside inside.left
      (show state.x.toInt ≤ (screenWidth - 1).toInt by omega) (by omega)
      (show -256 ≤ dx.toInt ∧ dx.toInt ≤ 256 by omega)
    obtain ⟨newY,row,newTop,newBottom⟩ := moved_inside inside.top
      (show state.y.toInt ≤ (screenHeight - 1).toInt by omega) (by omega)
      (show -256 ≤ up.toInt ∧ up.toInt ≤ 256 by omega)
    rw [show Signed.sub 0 dy = .ok up from inverted,ok_bind,column,ok_bind,row,ok_bind]
    exact ⟨_,_,rfl,⟨newLeft,Int.lt_add_one_iff.mpr (width ▸ newRight),newTop,
      Int.lt_add_one_iff.mpr (height ▸ newBottom)⟩⟩

theorem handleByte_on_screen {state : MouseState} (inside : OnScreen state) (byte : UInt8) :
    ∃ next events, handleByte byte state = .ok (next,events) ∧ OnScreen next := by
  have same : ∀ next : MouseState, next.x = state.x → next.y = state.y → OnScreen next := by
    intro next across down
    exact ⟨across ▸ inside.left,across ▸ inside.right,down ▸ inside.top,down ▸ inside.bottom⟩
  unfold handleByte
  split
  next =>
    split
    next => exact ⟨_,_,rfl,same _ rfl rfl⟩
    next => exact ⟨_,_,rfl,inside⟩
  next =>
    split
    next => exact ⟨_,_,rfl,same _ rfl rfl⟩
    next =>
      split
      next => exact handlePacket_on_screen (same _ rfl rfl)
      next => exact ⟨_,_,rfl,same _ rfl rfl⟩

theorem new_on_screen : OnScreen new := ⟨by decide,by decide,by decide,by decide⟩

end MouseState

end PolarOs.Drivers
