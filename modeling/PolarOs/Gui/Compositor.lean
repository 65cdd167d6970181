import PolarOs.Gui.Window

/-! The compositor (`gui/compositor.rs`) and its layers: the desktop
(`gui/widget/desktop.rs`) and windows, the last layer on top. -/
namespace PolarOs.Gui
open Library Library.Checked Library.Signed

variable {δ μ : Type}

def iconRect : Rect := ⟨8,8,32,28⟩

def screenWidth : UInt16 := 320

def screenHeight : UInt16 := 200

def desktopAnswer : Event → Checked EventResponse
  | .mouseDown x y .left => do
    if ← iconRect.contains x y then return .openTerminal
    return .ignored
  | _ => .ok .ignored

inductive Layer (δ μ : Type) where
  | desktop (id : Nat)
  | window (window : Window δ μ)

namespace Layer

def id : Layer δ μ → Nat
  | .desktop id => id
  | .window win => win.id

def bounds : Layer δ μ → Rect
  | .desktop _ => ⟨0,0,screenWidth,screenHeight⟩
  | .window win => win.bounds

def setPosition (x y : Int16) : Layer δ μ → Layer δ μ
  | .desktop id => .desktop id
  | .window win => .window (win.setPosition x y)

def handleEvent (p : Platform δ μ) (event : Event) (layer : Layer δ μ) (world : World δ μ) :
    Checked (EventResponse × Layer δ μ × World δ μ) :=
  match layer with
  | .desktop id => do
    let resp ← desktopAnswer event
    return (resp,.desktop id,world)
  | .window win => do
    let (resp,win,world) ← win.handleEvent p event world
    return (resp,.window win,world)

end Layer

structure DragState where
  widgetId : Nat
  offsetX : Int16
  offsetY : Int16
deriving DecidableEq

structure Compositor (δ μ : Type) where
  layers : List (Layer δ μ)
  focusedId : Option Nat
  dragState : Option DragState

namespace Compositor

def new : Compositor δ μ := ⟨[],none,none⟩

def addWidget (comp : Compositor δ μ) (widget : Layer δ μ) : Compositor δ μ :=
  {comp with layers := comp.layers ++ [widget]}

def removeWidget (comp : Compositor δ μ) (id : Nat) : Compositor δ μ where
  layers := comp.layers.filter fun layer => layer.id ≠ id
  focusedId := if comp.focusedId = some id then none else comp.focusedId
  dragState := comp.dragState.filter fun drag => drag.widgetId ≠ id

def raiseToTop (comp : Compositor δ μ) (id : Nat) : Compositor δ μ :=
  match comp.layers.findIdx? fun layer => layer.id = id with
  | some pos =>
    if pos < comp.layers.length - 1 then
      {comp with layers := comp.layers.eraseIdx pos ++ comp.layers[pos]?.toList}
    else comp
  | none => comp

/-- The loop of `hit_test` over the layers from the top. -/
def hitLoop (x y : Int16) : List (Layer δ μ) → Checked (Option Nat)
  | [] => .ok none
  | layer::layers => do
    if ← layer.bounds.contains x y then return some layer.id
    hitLoop x y layers

def hitTest (comp : Compositor δ μ) (x y : Int16) : Checked (Option Nat) :=
  hitLoop x y comp.layers.reverse

/-- The close button as the compositor computes it from the bounds of a window. -/
def closeRect (bounds : Rect) : Checked Rect := do
  let x ← add (← sub (← add bounds.x bounds.w.toInt16) titleHeight.toInt16) 1
  let y ← add bounds.y 1
  return ⟨x,y,titleHeight - 2,titleHeight - 2⟩

def startDrag (comp : Compositor δ μ) (hitId : Nat) (x y : Int16) : Checked (Compositor δ μ) :=
  match comp.layers.find? fun layer => layer.id = hitId with
  | none => .ok comp
  | some widget => do
    let bounds := widget.bounds
    let titleBar : Rect := ⟨bounds.x,bounds.y,bounds.w,titleHeight⟩
    let close ← closeRect bounds
    if !(← titleBar.contains x y) then return comp
    if ← close.contains x y then return comp
    let offsetX ← sub x bounds.x
    let offsetY ← sub y bounds.y
    return {comp with dragState := some ⟨hitId,offsetX,offsetY⟩}

/-- The event to the first layer with that id. -/
def forward (p : Platform δ μ) (event : Event) (id : Nat) : List (Layer δ μ) → World δ μ →
    Checked (EventResponse × List (Layer δ μ) × World δ μ)
  | [],world => .ok (.ignored,[],world)
  | layer::layers,world =>
    if layer.id = id then do
      let (resp,layer,world) ← layer.handleEvent p event world
      return (resp,layer::layers,world)
    else do
      let (resp,layers,world) ← forward p event id layers world
      return (resp,layer::layers,world)

/-- The event to every layer from the bottom up. -/
def broadcast (p : Platform δ μ) (event : Event) : List (Layer δ μ) → World δ μ →
    Checked (List (Layer δ μ) × World δ μ)
  | [],world => .ok ([],world)
  | layer::layers,world => do
    let (_,layer,world) ← layer.handleEvent p event world
    let (layers,world) ← broadcast p event layers world
    return (layer::layers,world)

def moveTo (id : Nat) (x y : Int16) : List (Layer δ μ) → List (Layer δ μ)
  | [] => []
  | layer::layers => if layer.id = id then layer.setPosition x y :: layers else layer :: moveTo id x y layers

/-- What a left press does before the event is forwarded. -/
def press (comp : Compositor δ μ) (hitId : Nat) (x y : Int16) : Checked (Compositor δ μ) :=
  if hitId ≠ 0 then {comp.raiseToTop hitId with focusedId := some hitId}.startDrag hitId x y
  else .ok comp

def drag (comp : Compositor δ μ) (x y : Int16) : Checked (Compositor δ μ) :=
  match comp.dragState with
  | none => .ok comp
  | some drag => do
    let newX ← sub x drag.offsetX
    let newY ← sub y drag.offsetY
    return {comp with layers := moveTo drag.widgetId newX newY comp.layers}

/-- Whether a new terminal is wanted, the compositor and the world afterwards. -/
def handleEvent (p : Platform δ μ) (event : Event) (comp : Compositor δ μ) (world : World δ μ) :
    Checked (Bool × Compositor δ μ × World δ μ) :=
  match event with
  | .mouseDown x y .left => do
    match ← comp.hitTest x y with
    | none => return (false,comp,world)
    | some hitId => do
      let comp ← comp.press hitId x y
      let (resp,layers,world) ← forward p event hitId comp.layers world
      let comp := {comp with layers}
      match resp with
      | .closeRequest => return (false,comp.removeWidget hitId,world)
      | .openTerminal => return (true,comp,world)
      | _ => return (false,comp,world)
  | .mouseDown _ _ _ => .ok (false,comp,world)
  | .mouseMove x y => do
    let comp ← comp.drag x y
    let (layers,world) ← broadcast p event comp.layers world
    return (false,{comp with layers},world)
  | .mouseUp _ _ _ => do
    let (layers,world) ← broadcast p event comp.layers world
    return (false,{comp with layers, dragState := none},world)
  | .keyPress _ =>
    match comp.focusedId with
    | none => .ok (false,comp,world)
    | some fid => do
      let (_,layers,world) ← forward p event fid comp.layers world
      return (false,{comp with layers},world)
  | .tick => .ok (false,comp,world)

end Compositor

end PolarOs.Gui
