import PolarOs.Gui.Terminal

/-! Windows and the widgets inside them (`gui/widget/window.rs`, `button.rs`, `label.rs`,
`panel.rs`). The content of a window is a terminal, a button, a label or a panel of such;
the kernel makes no window the content of another. -/
namespace PolarOs.Gui
open Library Library.Checked Library.Signed

variable {δ μ : Type}

inductive ButtonState where
  | normal
  | hovered
  | pressed
deriving DecidableEq

/-- The callback of a button reaches the statics, not the widgets. -/
structure Button (δ μ : Type) where
  bounds : Rect
  state : ButtonState
  onClick : Option (World δ μ → Checked (World δ μ))

def Button.released (button : Button δ μ) (x y : Int16) : Checked Bool :=
  if button.state = .pressed then button.bounds.contains x y else .ok false

def Button.click (button : Button δ μ) (world : World δ μ) : Checked (World δ μ) :=
  match button.onClick with
  | some callback => callback world
  | none => .ok world

def Button.handleEvent (button : Button δ μ) (event : Event) (world : World δ μ) :
    Checked (EventResponse × Button δ μ × World δ μ) :=
  match event with
  | .mouseMove x y => do
    if ← button.bounds.contains x y then
      if button.state ≠ .pressed then return (.ignored,{button with state := .hovered},world)
      else return (.ignored,button,world)
    else return (.ignored,{button with state := .normal},world)
  | .mouseDown x y .left => do
    if ← button.bounds.contains x y then return (.consumed,{button with state := .pressed},world)
    else return (.ignored,button,world)
  | .mouseUp x y .left => do
    if ← button.released x y then
      let world ← button.click world
      return (.consumed,{button with state := .hovered},world)
    else return (.ignored,{button with state := .normal},world)
  | _ => .ok (.ignored,button,world)

inductive Content (δ μ : Type) where
  | terminal (term : TerminalWidget)
  | button (button : Button δ μ)
  | label
  | panel (children : List (Content δ μ))

mutual

def Content.handleEvent (p : Platform δ μ) (event : Event) (content : Content δ μ) (world : World δ μ) :
    Checked (EventResponse × Content δ μ × World δ μ) :=
  match content with
  | .terminal term => do
    let (resp,term,world) ← term.handleEvent p event world
    return (resp,.terminal term,world)
  | .button button => do
    let (resp,button,world) ← button.handleEvent event world
    return (resp,.button button,world)
  | .label => .ok (.ignored,.label,world)
  | .panel children => do
    let (resp,children,world) ← handleChildren p event children world
    return (resp,.panel children,world)

/-- The loop of a panel from the last child to the first, up to one that answers. -/
def handleChildren (p : Platform δ μ) (event : Event) (children : List (Content δ μ)) (world : World δ μ) :
    Checked (EventResponse × List (Content δ μ) × World δ μ) :=
  match children with
  | [] => .ok (.ignored,[],world)
  | child::rest => do
    let (resp,rest,world) ← handleChildren p event rest world
    if resp ≠ .ignored then return (resp,child::rest,world)
    let (resp,child,world) ← child.handleEvent p event world
    return (resp,child::rest,world)

end

structure Window (δ μ : Type) where
  id : Nat
  x : Int16
  y : Int16
  w : UInt16
  h : UInt16
  content : Option (Content δ μ)

namespace Window

def bounds (window : Window δ μ) : Rect := ⟨window.x,window.y,window.w,window.h⟩

def setPosition (window : Window δ μ) (x y : Int16) : Window δ μ := {window with x, y}

def closeButtonRect (window : Window δ μ) : Checked Rect := do
  let size := titleHeight - 2
  let x ← sub (← sub (← add window.x window.w.toInt16) size.toInt16) 1
  let y ← add window.y 1
  return ⟨x,y,size,size⟩

def forward (p : Platform δ μ) (event : Event) (window : Window δ μ) (world : World δ μ) :
    Checked (EventResponse × Window δ μ × World δ μ) :=
  match window.content with
  | none => .ok (.ignored,window,world)
  | some content => do
    let (resp,content,world) ← content.handleEvent p event world
    return (resp,{window with content := some content},world)

def handleEvent (p : Platform δ μ) (event : Event) (window : Window δ μ) (world : World δ μ) :
    Checked (EventResponse × Window δ μ × World δ μ) :=
  match event with
  | .mouseDown x y .left => do
    let cb ← window.closeButtonRect
    if ← cb.contains x y then return (.closeRequest,window,world)
    if ← window.bounds.contains x y then
      let (resp,window,world) ← window.forward p event world
      if resp ≠ .ignored then return (resp,window,world)
      return (.consumed,window,world)
    return (.ignored,window,world)
  | _ => window.forward p event world

def CloseHit (window : Window δ μ) (x y : Int16) : Prop :=
  ∃ cb, window.closeButtonRect = .ok cb ∧ cb.contains x y = .ok true

end Window

/-! What an event can do to a window. -/

/-- An answer that asks nothing of the compositor. -/
def EventResponse.Plain (resp : EventResponse) : Prop := resp = .consumed ∨ resp = .ignored

variable {p : Platform δ μ} {event : Event} {world after : World δ μ} {resp : EventResponse}

theorem TerminalWidget.plain {term next : TerminalWidget} (ran : term.handleEvent p event world = .ok (resp,next,after)) :
    resp.Plain := by
  unfold TerminalWidget.handleEvent at ran
  cases event with
  | keyPress key =>
    cases key with
    | char ch =>
      dsimp only at ran
      split at ran <;> cases ran <;> exact Or.inl rfl
    | enter =>
      obtain ⟨executed,_,done⟩ := bind_ok.mp ran
      cases done
      exact Or.inl rfl
    | backspace =>
      cases ran
      exact Or.inl rfl
    | _ =>
      cases ran
      exact Or.inr rfl
  | tick =>
    obtain ⟨ticks,_,done⟩ := bind_ok.mp ran
    split at done <;> cases done <;> exact Or.inr rfl
  | _ =>
    cases ran
    exact Or.inr rfl

theorem Button.plain {button next : Button δ μ} (ran : button.handleEvent event world = .ok (resp,next,after)) :
    resp.Plain := by
  unfold Button.handleEvent at ran
  split at ran
  next x y =>
    obtain ⟨inside,_,done⟩ := bind_ok.mp ran
    split at done
    next =>
      split at done <;> cases done <;> exact Or.inr rfl
    next =>
      cases done
      exact Or.inr rfl
  next x y =>
    obtain ⟨inside,_,done⟩ := bind_ok.mp ran
    split at done <;> cases done
    next => exact Or.inl rfl
    next => exact Or.inr rfl
  next x y =>
    obtain ⟨clicked,_,done⟩ := bind_ok.mp ran
    split at done
    next =>
      obtain ⟨called,_,last⟩ := bind_ok.mp done
      cases last
      exact Or.inl rfl
    next =>
      cases done
      exact Or.inr rfl
  next =>
    cases ran
    exact Or.inr rfl

mutual

theorem plain_content {p : Platform δ μ} {event : Event} {world after : World δ μ} {resp : EventResponse}
    {content next : Content δ μ} (ran : content.handleEvent p event world = .ok (resp,next,after)) :
    resp.Plain := by
  match content with
  | .terminal term =>
    obtain ⟨⟨answer,_,_⟩,handled,done⟩ := bind_ok.mp ran
    cases done
    exact TerminalWidget.plain handled
  | .button button =>
    obtain ⟨⟨answer,_,_⟩,handled,done⟩ := bind_ok.mp ran
    cases done
    exact Button.plain handled
  | .label =>
    cases ran
    exact Or.inr rfl
  | .panel children =>
    obtain ⟨⟨answer,_,_⟩,handled,done⟩ := bind_ok.mp ran
    cases done
    exact plain_children handled

theorem plain_children {p : Platform δ μ} {event : Event} {world after : World δ μ} {resp : EventResponse}
    {children next : List (Content δ μ)} (ran : handleChildren p event children world = .ok (resp,next,after)) :
    resp.Plain := by
  match children with
  | [] =>
    cases ran
    exact Or.inr rfl
  | child::rest =>
    obtain ⟨⟨answer,_,_⟩,later,done⟩ := bind_ok.mp ran
    dsimp only at done
    split at done
    next =>
      cases done
      exact plain_children later
    next =>
      obtain ⟨⟨own,_,_⟩,handled,last⟩ := bind_ok.mp done
      cases last
      exact plain_content handled

end

/-- A window keeps its place; it asks to be closed only on a press on its close button. -/
structure WindowEffect (event : Event) (window : Window δ μ) (resp : EventResponse) (next : Window δ μ) : Prop where
  id : next.id = window.id
  bounds : next.bounds = window.bounds
  answer : resp.Plain ∨ resp = .closeRequest ∧ ∃ x y, event = .mouseDown x y .left ∧ window.CloseHit x y

theorem Window.forward_effect {window next : Window δ μ} (ran : window.forward p event world = .ok (resp,next,after)) :
    WindowEffect event window resp next := by
  unfold Window.forward at ran
  split at ran
  next =>
    cases ran
    exact ⟨rfl,rfl,Or.inl (Or.inr rfl)⟩
  next content _ =>
    obtain ⟨⟨answer,_,_⟩,handled,done⟩ := bind_ok.mp ran
    cases done
    exact ⟨rfl,rfl,Or.inl (plain_content handled)⟩

theorem Window.handleEvent_effect {window next : Window δ μ}
    (ran : window.handleEvent p event world = .ok (resp,next,after)) : WindowEffect event window resp next := by
  unfold Window.handleEvent at ran
  split at ran
  next x y =>
    obtain ⟨cb,placed,ran⟩ := bind_ok.mp ran
    obtain ⟨closing,onClose,ran⟩ := bind_ok.mp ran
    split at ran
    next close =>
      cases ran
      subst close
      exact ⟨rfl,rfl,Or.inr ⟨rfl,x,y,rfl,cb,placed,onClose⟩⟩
    next =>
      obtain ⟨inside,_,ran⟩ := bind_ok.mp ran
      split at ran
      next =>
        obtain ⟨⟨answer,_,_⟩,forwarded,ran⟩ := bind_ok.mp ran
        have effect := Window.forward_effect forwarded
        dsimp only at ran
        split at ran
        next =>
          cases ran
          exact effect
        next =>
          cases ran
          exact ⟨effect.id,effect.bounds,Or.inl (Or.inl rfl)⟩
      next =>
        cases ran
        exact ⟨rfl,rfl,Or.inl (Or.inr rfl)⟩
  next => exact Window.forward_effect ran

end PolarOs.Gui
