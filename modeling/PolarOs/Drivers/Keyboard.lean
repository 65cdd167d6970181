import PolarOs.Text
import PolarOs.Gui.Widget

/-! The keyboard driver (`drivers/keyboard.rs`): its layouts, and what it does with a scancode in
GUI mode. The `pc_keyboard` crate decodes: it is called with the layout selected at the time. -/
namespace PolarOs

inductive LayoutId where
  | us104
  | uk105
  | de105
  | azerty
  | dvorak
  | colemak
deriving DecidableEq

def layoutName : LayoutId → Str
  | .us104 => lit "us"
  | .uk105 => lit "uk"
  | .de105 => lit "de"
  | .azerty => lit "fr"
  | .dvorak => lit "dvorak"
  | .colemak => lit "colemak"

def layoutFromName (name : Str) : Option LayoutId :=
  if name = lit "us" then some .us104
  else if name = lit "uk" then some .uk105
  else if name = lit "de" then some .de105
  else if name = lit "fr" ∨ name = lit "azerty" then some .azerty
  else if name = lit "dvorak" then some .dvorak
  else if name = lit "colemak" then some .colemak
  else none

namespace Drivers
open PolarOs.Gui

/-- The keys of the crate; those that `add_scancode_gui` does not name are `other`. -/
inductive RawKey where
  | arrowUp | arrowDown | arrowLeft | arrowRight | escape | f1 | f2 | f3
  | other (number : Nat)
deriving DecidableEq

inductive DecodedKey where
  | unicode (ch : Char)
  | rawKey (key : RawKey)
deriving DecidableEq

/-- `Keyboard::add_byte` and `Keyboard::process_keyevent` on the crate's own state. -/
structure Decoder (κ ε : Type) where
  addByte : UInt8 → κ → Except Unit (Option ε) × κ
  processKeyevent : LayoutId → ε → κ → Option DecodedKey × κ

def keyOf : DecodedKey → Option KeyCode
  | .unicode '\n' => some .enter
  | .unicode '\x08' => some .backspace
  | .unicode '\t' => some .tab
  | .unicode '\x1B' => some .escape
  | .unicode ch => some (.char ch)
  | .rawKey .arrowUp => some .arrowUp
  | .rawKey .arrowDown => some .arrowDown
  | .rawKey .arrowLeft => some .arrowLeft
  | .rawKey .arrowRight => some .arrowRight
  | .rawKey .escape => some .escape
  | .rawKey .f1 => some .f1
  | .rawKey .f2 => some .f2
  | .rawKey .f3 => some .f3
  | .rawKey (.other _) => none

/-- The event that the handler offers to `EVENT_QUEUE`, if the byte completes a key. -/
def addScancodeGui {κ ε : Type} (decoder : Decoder κ ε) (layout : LayoutId) (scancode : UInt8) (keyboard : κ) :
    Option Gui.Event × κ :=
  match decoder.addByte scancode keyboard with
  | (.ok (some keyEvent),keyboard) =>
    let (key,keyboard) := decoder.processKeyevent layout keyEvent keyboard
    ((key.bind keyOf).map .keyPress,keyboard)
  | (_,keyboard) => (none,keyboard)

end Drivers

end PolarOs
