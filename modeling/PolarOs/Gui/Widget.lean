import PolarOs.Library.Signed

/-! Rectangles, input events and the answers of the widgets (`gui/widget/mod.rs`,
`gui/event.rs`), and the heights of the theme that decide what a press hits. -/
namespace PolarOs.Gui
open Library Library.Checked Library.Signed

structure Rect where
  x : Int16
  y : Int16
  w : UInt16
  h : UInt16
deriving DecidableEq

/-- A coordinate against one axis of a rectangle; the far edge is computed only when needed. -/
def within (start : Int16) (extent : UInt16) (p : Int16) : Checked Bool :=
  if start ≤ p then do
    let stop ← add start extent.toInt16
    return decide (p < stop)
  else .ok false

def Rect.contains (rect : Rect) (px py : Int16) : Checked Bool := do
  if ← within rect.x rect.w px then within rect.y rect.h py
  else .ok false

inductive MouseButton where
  | left
  | right
  | middle
deriving DecidableEq

inductive KeyCode where
  | char (ch : Char)
  | arrowUp
  | arrowDown
  | arrowLeft
  | arrowRight
  | enter
  | backspace
  | tab
  | escape
  | f1
  | f2
  | f3
deriving DecidableEq

inductive Event where
  | keyPress (key : KeyCode)
  | mouseMove (x y : Int16)
  | mouseDown (x y : Int16) (button : MouseButton)
  | mouseUp (x y : Int16) (button : MouseButton)
  | tick
deriving DecidableEq

inductive EventResponse where
  | consumed
  | ignored
  | closeRequest
  | openTerminal
deriving DecidableEq

/-- `default_dark_theme().title_height`. -/
def titleHeight : UInt16 := 12

end PolarOs.Gui
