import PolarOs.Gui.Painting
import PolarOs.Gui.Spawning

/-! Frames: what terminals, windows, the desktop and the pointer put on the screen
(`gui/widget/window.rs`, `gui/widget/desktop.rs`, `Compositor::render`). -/
namespace PolarOs.Gui
open Library Library.Checked Library.Signed Library.Picture

variable {δ μ : Type}

/-- The colours of the theme that the windows and the desktop use beside those of a terminal. -/
structure FullTheme extends Theme where
  titleBg : UInt8
  titleText : UInt8
  textBright : UInt8
  border : UInt8
  closeBtn : UInt8
  taskbarBg : UInt8
  taskbarText : UInt8

def defaultDarkTheme : FullTheme where
  windowBg := 1
  textPrimary := 7
  titleBg := 2
  titleText := 8
  textBright := 8
  border := 5
  closeBtn := 13
  taskbarBg := 2
  taskbarText := 7

/-- `default_dark_theme().taskbar_height`. -/
def taskbarHeight : UInt16 := 14

/-- The title of the windows that `spawn_terminal_window` opens. -/
def windowTitle : Str := lit "Terminal"

/-- The frame, and the window with its terminal moved into place. The kernel opens no window
with another content; such a one is not drawn here. -/
def Window.render (font : Font) (theme : FullTheme) (window : Window δ μ) (fb : Framebuffer) :
    Checked (Window δ μ × Framebuffer) := do
  let fb ← drawRect window.x window.y window.w window.h theme.border fb
  let barX ← add window.x 1
  let barY ← add window.y 1
  let fb ← fillRect barX barY (← lessThan window.w 2) (titleHeight - 1) theme.titleBg fb
  let titleX ← add window.x 4
  let titleY ← add window.y 2
  let fb ← drawText font titleY theme.titleText windowTitle titleX fb
  let cb ← window.closeButtonRect
  let fb ← fillRect cb.x cb.y cb.w cb.h theme.closeBtn fb
  let markX ← add cb.x 1
  let markY ← add cb.y 1
  let fb ← drawText font markY theme.textBright (lit "x") markX fb
  let cr ← window.contentRect
  let fb ← fillRect cr.x cr.y cr.w cr.h theme.windowBg fb
  match window.content with
  | some (.terminal term) => do
    let term := {term with x := cr.x, y := cr.y, w := cr.w, h := cr.h}
    let fb ← term.render font theme.toTheme fb
    return ({window with content := some (.terminal term)},fb)
  | _ => return (window,fb)

def wallpaperHeight : Nat := (screenHeight - taskbarHeight).toNat

/-- The buffer of the desktop, which `render_wallpaper` filled. -/
structure Wallpaper where
  pixels : List UInt8
  size : pixels.length = screenWidth.toNat * wallpaperHeight

def formatTime (h m s : Nat) : Str :=
  Str.ofBytesOr (written 16 (Utf8.encode
    (number h ++ ':' :: padLeft 2 '0' (number m) ++ ':' :: padLeft 2 '0' (number s)))) []

def blit (wallpaper : Wallpaper) (fb : Framebuffer) : Checked Framebuffer :=
  (List.range wallpaperHeight).foldlM (fun fb y => (List.range screenWidth.toNat).foldlM (fun fb x => do
    let color ← index wallpaper.pixels (y * screenWidth.toNat + x)
    return fb.setPixel (Int16.ofNat x) (Int16.ofNat y) color) fb) fb

def drawIcon (font : Font) (theme : FullTheme) (fb : Framebuffer) : Checked Framebuffer := do
  let ir := iconRect
  let fb ← fillRect ir.x ir.y ir.w ir.h theme.titleBg fb
  let fb ← drawRect ir.x ir.y ir.w ir.h theme.border fb
  let signX ← add ir.x 4
  let signY ← add ir.y 4
  let fb ← drawText font signY theme.textBright (lit ">_") signX fb
  let labelX ← sub ir.x 4
  let labelY ← add (← add ir.y ir.h.toInt16) 2
  drawText font labelY theme.textPrimary (lit "Term") labelX fb

def clockText (ticks : Nat) : Str :=
  let secs := ticks / timerHz
  formatTime (secs / 3600) (secs % 3600 / 60) (secs % 60)

def drawTaskbar (font : Font) (theme : FullTheme) (ticks : Nat) (fb : Framebuffer) : Checked Framebuffer := do
  let tbY ← sub screenHeight.toInt16 taskbarHeight.toInt16
  let fb ← fillRect 0 tbY screenWidth taskbarHeight theme.taskbarBg fb
  let textY ← add tbY 3
  let fb ← drawTextBg font textY theme.textBright theme.taskbarBg (lit "PolarOs") 4 fb
  let timeStr := clockText ticks
  let tw ← mul (Int16.ofNat (byteLength timeStr)) 8
  let clockX ← sub (← sub screenWidth.toInt16 tw) 4
  drawTextBg font textY theme.taskbarText theme.taskbarBg timeStr clockX fb

/-- What the screen needs beside the layers. -/
structure Appearance where
  font : Font
  theme : FullTheme
  wallpaper : Wallpaper

def desktopRender (look : Appearance) (ticks : Nat) (fb : Framebuffer) : Checked Framebuffer := do
  let fb ← blit look.wallpaper fb
  let fb ← drawIcon look.font look.theme fb
  drawTaskbar look.font look.theme ticks fb

def Layer.render (look : Appearance) (ticks : Nat) (layer : Layer δ μ) (fb : Framebuffer) :
    Checked (Layer δ μ × Framebuffer) :=
  match layer with
  | .desktop id => do
    let fb ← desktopRender look ticks fb
    return (.desktop id,fb)
  | .window win => do
    let (win,fb) ← win.render look.font look.theme fb
    return (.window win,fb)

def renderLayers (look : Appearance) (ticks : Nat) : List (Layer δ μ) → Framebuffer → Checked (List (Layer δ μ) × Framebuffer)
  | [],fb => .ok ([],fb)
  | layer::layers,fb => do
    let (layer,fb) ← layer.render look ticks fb
    let (layers,fb) ← renderLayers look ticks layers fb
    return (layer::layers,fb)

def Compositor.render (look : Appearance) (ticks : Nat) (cursor : Cursor) (comp : Compositor δ μ) (fb : Framebuffer) :
    Checked (Compositor δ μ × Framebuffer) := do
  let (layers,fb) ← renderLayers look ticks comp.layers fb
  let fb ← cursor.render fb
  return ({comp with layers},fb)

/-! The picture of a terminal. -/

namespace TerminalWidget

variable {term : TerminalWidget} {font : Font} {theme : Theme} {fg bg : UInt8} {px y : Int16}

/-- The terminal and its prompt lie where no coordinate overflows. -/
structure Roomy (term : TerminalWidget) : Prop where
  wide : term.w.toNat < 2^15
  right : term.x.toInt + term.w.toNat + 8 ≤ 2^15
  tall : 8 ≤ term.h.toNat ∧ term.h.toNat < 2^15
  bottom : term.y.toInt + term.h.toNat ≤ 2^15
  reach : term.x.toInt + 8 * term.prompt.length < 2^15

def linesPicture (font : Font) (fg bg : UInt8) (term : TerminalWidget) : Nat → List Str → ScreenPicture
  | _,[] => blank
  | row,line::lines =>
    overlay (textPicture font (term.y.toInt + 8 * row) fg (some bg) (line.take term.cols) term.x.toInt)
      (term.linesPicture font fg bg (row + 1) lines)

/-- The lines of the scrollback that are shown. -/
def shownLines (term : TerminalWidget) : List Str := term.lines.drop (term.lines.length - term.visibleRows)

/-- The characters of the input that are shown: those that start before the right edge. -/
def shownInput (term : TerminalWidget) : Str := term.inputBuf.take ((term.w.toNat + 7 - 8 * term.prompt.length) / 8)

def inputColumn (term : TerminalWidget) : Nat := term.prompt.length + term.shownInput.length

def inputRow (term : TerminalWidget) : Int := term.y.toInt + 8 * term.visibleRows

def caretPicture (fg : UInt8) (term : TerminalWidget) : ScreenPicture :=
  if term.cursorVisible ∧ 8 * term.inputColumn < term.w.toNat then
    rectPicture (term.x.toInt + 8 * term.inputColumn) term.inputRow 8 8 fg
  else blank

def picture (font : Font) (theme : Theme) (term : TerminalWidget) : ScreenPicture :=
  stack [term.linesPicture font theme.textPrimary theme.windowBg 0 term.shownLines,
    textPicture font term.inputRow promptColor (some theme.windowBg) term.prompt term.x.toInt,
    textPicture font term.inputRow theme.textPrimary (some theme.windowBg) term.shownInput
      (term.x.toInt + 8 * term.prompt.length),
    term.caretPicture theme.textPrimary]

theorem Roomy.rowTop_ok (room : term.Roomy) {row : Nat} (within : 8 * row + 8 ≤ term.h.toNat) :
    ∃ place, term.rowTop row = .ok place ∧ place.toInt = term.y.toInt + 8 * row := by
  obtain ⟨_,_,⟨_,low⟩,bottom,_⟩ := room
  have top := term.y.le_toInt
  have eight : (8 : Int16).toInt = 8 := by decide
  have value : (Int16.ofNat row).toInt = row := Int16.toInt_ofNat_of_lt (by omega)
  obtain ⟨down,scaled,product⟩ := checked_in_range (by omega : -2^15 ≤ (row : Int) * 8) (by omega)
  obtain ⟨place,moved,sum⟩ := checked_in_range (by omega : -2^15 ≤ term.y.toInt + down.toInt) (by omega)
  refine ⟨place,?_,by omega⟩
  rw [rowTop,Signed.mul,value,eight,scaled,ok_bind]
  exact moved

theorem Roomy.rows (room : term.Roomy) : 8 * term.visibleRows + 8 ≤ term.h.toNat := by
  have tall := room.tall.1
  have eight : charHeight = 8 := rfl
  rw [visibleRows,eight]
  omega

theorem Roomy.stop_ok (room : term.Roomy) :
    ∃ stop, add term.x term.w.toInt16 = .ok stop ∧ stop.toInt = term.x.toInt + term.w.toNat := by
  have left := term.x.le_toInt
  have right := room.right
  rw [Signed.add,toInt_of_small room.wide]
  exact checked_in_range (by omega) (by omega)

theorem drawLines_draws (room : term.Roomy) (lines : List Str) {row : Nat} (few : row + lines.length ≤ term.visibleRows)
    (fb : Framebuffer) : ∃ next, term.drawLines font fg bg row lines fb = .ok next ∧
      Draws (term.linesPicture font fg bg row lines) fb next := by
  have rows := room.rows
  have right := room.right
  have bottom := room.bottom
  induction lines generalizing row fb with
  | nil => exact ⟨fb,rfl,.refl fb⟩
  | cons line lines ih =>
    rw [List.length_cons] at few
    obtain ⟨py,placed,value⟩ := room.rowTop_ok (show 8 * row + 8 ≤ term.h.toNat by omega)
    have short : (line.take term.cols).length ≤ term.cols := List.length_take_le _ _
    have columns := term.cols_le
    obtain ⟨last,drawn,shown,_,painted⟩ := @drawChars_draws term.x py font fg bg (line.take term.cols)
      (by omega) (by omega) fb
    obtain ⟨next,ran,later⟩ := @ih (row + 1) (by omega) drawn
    rw [value] at painted
    refine ⟨next,?_,painted.trans later⟩
    rw [drawLines,placed,ok_bind,shown]
    exact ran

/-- The input from a column on. -/
theorem drawInput_draws (room : term.Roomy) (bottom : y.toInt + 8 ≤ 2^15) (text : Str) {column : Nat}
    (place : px.toInt = term.x.toInt + 8 * column) (fb : Framebuffer) :
    ∃ last next, term.drawInput font y fg bg text px fb = .ok (last,next) ∧
      last.toInt = px.toInt + 8 * (text.take ((term.w.toNat + 7 - 8 * column) / 8)).length ∧
      Draws (textPicture font y.toInt fg (some bg) (text.take ((term.w.toNat + 7 - 8 * column) / 8)) px.toInt) fb next := by
  have right := room.right
  obtain ⟨stop,edge,value⟩ := room.stop_ok
  induction text generalizing px column fb with
  | nil =>
    rw [List.take_nil]
    exact ⟨px,fb,rfl,by simp,.refl fb⟩
  | cons ch text ih =>
    rw [drawInput,edge,ok_bind]
    split
    next before =>
      rw [Int16.lt_iff_toInt_lt,value] at before
      obtain ⟨drawn,inked,painted⟩ := @drawCharBg_draws px y font ch fg bg (by omega) bottom fb
      obtain ⟨after,moved,further⟩ := @next_char px 0 (by omega)
      obtain ⟨last,next,ran,ends,later⟩ := @ih after (column + 1) (by omega) drawn
      have count : (term.w.toNat + 7 - 8 * column) / 8 = (term.w.toNat + 7 - 8 * (column + 1)) / 8 + 1 := by omega
      rw [further] at ends later
      rw [count,List.take_succ_cons]
      refine ⟨last,next,?_,?_,painted.trans later⟩
      · rw [inked,ok_bind,moved]
        exact ran
      · rw [ends,List.length_cons]
        omega
    next behind =>
      rw [Int16.lt_iff_toInt_lt,value] at behind
      have count : (term.w.toNat + 7 - 8 * column) / 8 = 0 := by omega
      obtain ⟨last,next,ran,ends,later⟩ := ih place fb
      rw [count,List.take_zero] at ends later ⊢
      exact ⟨last,next,ran,ends,later⟩

theorem drawCursor_draws (room : term.Roomy) {row : Int16} (low : row.toInt + 8 ≤ 2^15) (line : row.toInt = term.inputRow)
    (place : px.toInt = term.x.toInt + 8 * term.inputColumn) (fb : Framebuffer) :
    ∃ next, term.drawCursor px row fg fb = .ok next ∧ Draws (term.caretPicture fg) fb next := by
  have right := room.right
  obtain ⟨stop,edge,value⟩ := room.stop_ok
  rw [drawCursor,caretPicture]
  cases term.cursorVisible with
  | false => exact ⟨fb,rfl,by simpa using .refl fb⟩
  | true =>
    rw [if_pos rfl,edge,ok_bind]
    split
    next before =>
      rw [Int16.lt_iff_toInt_lt,value] at before
      have eight : (8 : UInt16).toNat = 8 := rfl
      obtain ⟨next,ran,painted⟩ := @fillRect_draws px row fg 8 8 (by omega) (by omega) (by omega) (by omega) fb
      rw [if_pos ⟨rfl,by omega⟩,← line,← place]
      exact ⟨next,ran,painted⟩
    next behind =>
      rw [Int16.lt_iff_toInt_lt,value] at behind
      rw [if_neg (by omega)]
      exact ⟨fb,rfl,.refl fb⟩

theorem shownLines_eq (term : TerminalWidget) :
    term.lines.drop (if term.visibleRows < term.lines.length then term.lines.length - term.visibleRows else 0) =
      term.shownLines := by
  rw [shownLines]
  split
  next => rfl
  next few => rw [Nat.sub_eq_zero_of_le (Nat.not_lt.mp few)]

theorem render_draws (room : term.Roomy) (font : Font) (theme : Theme) (fb : Framebuffer) :
    ∃ next, term.render font theme fb = .ok next ∧ Draws (term.picture font theme) fb next := by
  have rows := room.rows
  have bottom := room.bottom
  have few : 0 + term.shownLines.length ≤ term.visibleRows := by
    rw [shownLines,List.length_drop]
    omega
  obtain ⟨scrolled,lines,above⟩ := @drawLines_draws term font theme.textPrimary theme.windowBg room _ 0 few fb
  obtain ⟨inputY,placed,row⟩ := room.rowTop_ok rows
  obtain ⟨start,named,prompt,begins,before⟩ := @drawChars_draws term.x inputY font promptColor theme.windowBg term.prompt
    room.reach (by omega) scrolled
  obtain ⟨stop,typed,input,ends,line⟩ := @drawInput_draws term font theme.textPrimary theme.windowBg start inputY room
    (by omega) term.inputBuf _ begins named
  have column : stop.toInt = term.x.toInt + 8 * term.inputColumn := by
    rw [ends,begins,inputColumn,shownInput]
    omega
  obtain ⟨next,blinked,caret⟩ := @drawCursor_draws term theme.textPrimary stop room inputY (by omega) row column typed
  refine ⟨next,?_,?_⟩
  · rw [render]
    simp only [shownLines_eq,lines,placed,prompt,input,ok_bind]
    exact blinked
  · have whole := ((above.trans before).trans line).trans caret
    rw [row,begins] at whole
    rw [picture,stack,stack,stack,stack,stack,overlay_blank,← overlay_assoc,← overlay_assoc]
    exact whole

/-- A prompt that goes on beyond the coordinates stops the system. -/
theorem render_reach {fb next : Framebuffer} (ran : term.render font theme fb = .ok next) :
    term.x.toInt + 8 * term.prompt.length < 2^15 := by
  obtain ⟨scrolled,_,ran⟩ := bind_ok.mp ran
  obtain ⟨inputY,_,ran⟩ := bind_ok.mp ran
  obtain ⟨⟨px,named⟩,prompt,_⟩ := bind_ok.mp ran
  rw [← drawChars_ok prompt]
  exact px.toInt_lt

end TerminalWidget

/-! The picture of a window. -/

theorem shifted (a : Int16) {k : Int16} {n : Int} (known : k.toInt = n) (low : -2^15 ≤ a.toInt + n)
    (high : a.toInt + n < 2^15) : ∃ place, add a k = .ok place ∧ place.toInt = a.toInt + n := by
  rw [Signed.add,known]
  exact checked_in_range low high

namespace Window

variable {window : Window δ μ} {font : Font} {theme : FullTheme} {ticks : Nat}

/-- A window as the kernel opens it. -/
structure Tidy (window : Window δ μ) : Prop where
  width : window.w = 280
  height : window.h = 160
  terminal : ∃ term, window.content = some (.terminal term)

/-- A window of that size has a pixel on the screen, or nearly so. -/
structure Near (window : Window δ μ) : Prop where
  left : -320 ≤ window.x.toInt
  right : window.x.toInt < 320
  top : -200 ≤ window.y.toInt
  bottom : window.y.toInt < 200

/-- The terminal of a window in the content area. -/
def settled (window : Window δ μ) (term : TerminalWidget) : TerminalWidget :=
  {term with x := Int16.ofInt (window.x.toInt + 1), y := Int16.ofInt (window.y.toInt + 12), w := 278, h := 147}

def settle (window : Window δ μ) : Window δ μ :=
  match window.content with
  | some (.terminal term) => {window with content := some (.terminal (window.settled term))}
  | _ => window

def contentPicture (font : Font) (theme : FullTheme) (window : Window δ μ) : ScreenPicture :=
  match window.content with
  | some (.terminal term) => (window.settled term).picture font theme.toTheme
  | _ => blank

/-- The border, the title bar, the title, the close button, its sign, the content area and the terminal. -/
def picture (font : Font) (theme : FullTheme) (window : Window δ μ) : ScreenPicture :=
  let x := window.x.toInt
  let y := window.y.toInt
  stack [framePicture x y 280 160 theme.border,rectPicture (x + 1) (y + 1) 278 11 theme.titleBg,
    textPicture font (y + 2) theme.titleText none windowTitle (x + 4),rectPicture (x + 269) (y + 1) 10 10 theme.closeBtn,
    textPicture font (y + 2) theme.textBright none (lit "x") (x + 270),
    rectPicture (x + 1) (y + 12) 278 147 theme.windowBg,window.contentPicture font theme]

/-- The prompt ends before the coordinates do. -/
def PromptFits (window : Window δ μ) : Prop :=
  ∀ term, window.content = some (.terminal term) → window.x.toInt + 1 + 8 * term.prompt.length < 2^15

theorem closeButtonRect_ok (tidy : window.Tidy) (near : window.Near) : ∃ x y, window.closeButtonRect = .ok ⟨x,y,10,10⟩ ∧
    x.toInt = window.x.toInt + 269 ∧ y.toInt = window.y.toInt + 1 := by
  obtain ⟨left,right,top,bottom⟩ := near
  obtain ⟨far,across,wide⟩ := shifted window.x (by decide : (280 : UInt16).toInt16.toInt = 280) (by omega) (by omega)
  obtain ⟨inner,back,short⟩ := checked_in_range (by omega : -2^15 ≤ far.toInt - 10) (by omega)
  obtain ⟨x,again,column⟩ := checked_in_range (by omega : -2^15 ≤ inner.toInt - 1) (by omega)
  obtain ⟨y,down,row⟩ := shifted window.y (by decide : (1 : Int16).toInt = 1) (by omega) (by omega)
  refine ⟨x,y,?_,by omega,row⟩
  have ten : (titleHeight - 2).toInt16.toInt = 10 := by decide
  have one : (1 : Int16).toInt = 1 := by decide
  rw [closeButtonRect,tidy.width,across,ok_bind,Signed.sub,ten,back,ok_bind,Signed.sub,one,again,ok_bind,down]
  rfl

theorem contentRect_near (tidy : window.Tidy) (near : window.Near) : ∃ x y, window.contentRect = .ok ⟨x,y,278,147⟩ ∧
    x.toInt = window.x.toInt + 1 ∧ y.toInt = window.y.toInt + 12 := by
  obtain ⟨left,right,top,bottom⟩ := near
  obtain ⟨x,across,column⟩ := shifted window.x (by decide : (1 : Int16).toInt = 1) (by omega) (by omega)
  obtain ⟨y,down,row⟩ := shifted window.y (by decide : titleHeight.toInt16.toInt = 12) (by omega) (by omega)
  refine ⟨x,y,?_,column,row⟩
  rw [contentRect,across,ok_bind,down,ok_bind,tidy.width,tidy.height]
  rfl

theorem settled_roomy (near : window.Near) {term : TerminalWidget} (reach : window.x.toInt + 1 + 8 * term.prompt.length < 2^15) :
    (window.settled term).Roomy := by
  obtain ⟨left,right,top,bottom⟩ := near
  have column : (Int16.ofInt (window.x.toInt + 1)).toInt = window.x.toInt + 1 :=
    Int16.toInt_ofInt_of_le (by omega) (by omega)
  have row : (Int16.ofInt (window.y.toInt + 12)).toInt = window.y.toInt + 12 :=
    Int16.toInt_ofInt_of_le (by omega) (by omega)
  have wide : (278 : UInt16).toNat = 278 := rfl
  have tall : (147 : UInt16).toNat = 147 := rfl
  constructor <;> simp only [settled,column,row,wide,tall]
  · decide
  · omega
  · decide
  · omega
  · exact reach

theorem render_draws (tidy : window.Tidy) (near : window.Near) (fits : window.PromptFits) (fb : Framebuffer) :
    ∃ next, window.render font theme fb = .ok (window.settle,next) ∧ Draws (window.picture font theme) fb next := by
  obtain ⟨term,content⟩ := tidy.terminal
  obtain ⟨cbX,cbY,close,closeColumn,closeRow⟩ := closeButtonRect_ok tidy near
  obtain ⟨crX,crY,area,areaColumn,areaRow⟩ := contentRect_near tidy near
  have room := settled_roomy near (fits term content)
  obtain ⟨left,right,top,bottom⟩ := near
  have one : (1 : Int16).toInt = 1 := by decide
  have two : (2 : Int16).toInt = 2 := by decide
  have four : (4 : Int16).toInt = 4 := by decide
  obtain ⟨barX,bar,barColumn⟩ := shifted window.x one (by omega) (by omega)
  obtain ⟨barY,barDown,barRow⟩ := shifted window.y one (by omega) (by omega)
  obtain ⟨titleX,title,titleColumn⟩ := shifted window.x four (by omega) (by omega)
  obtain ⟨titleY,titleDown,titleRow⟩ := shifted window.y two (by omega) (by omega)
  obtain ⟨markX,mark,markColumn⟩ := shifted cbX one (by omega) (by omega)
  obtain ⟨markY,markDown,markRow⟩ := shifted cbY one (by omega) (by omega)
  have wide : (280 : UInt16).toNat = 280 := rfl
  have tall : (160 : UInt16).toNat = 160 := rfl
  have inner : (278 : UInt16).toNat = 278 := rfl
  have strip : (titleHeight - 1).toNat = 11 := rfl
  have ten : (10 : UInt16).toNat = 10 := rfl
  have deep : (147 : UInt16).toNat = 147 := rfl
  have letters : windowTitle.length = 8 := rfl
  have single : (lit "x").length = 1 := rfl
  obtain ⟨fb1,ran1,drawn1⟩ := @drawRect_draws window.x window.y theme.border 280 160 (by omega) (by omega) (by omega)
    (by omega) (by omega) (by omega) fb
  obtain ⟨fb2,ran2,drawn2⟩ := @fillRect_draws barX barY theme.titleBg 278 (titleHeight - 1) (by omega) (by omega)
    (by omega) (by omega) fb1
  obtain ⟨fb3,ran3,drawn3⟩ := @drawText_draws titleX titleY font theme.titleText windowTitle (by omega) (by omega) fb2
  obtain ⟨fb4,ran4,drawn4⟩ := @fillRect_draws cbX cbY theme.closeBtn 10 10 (by omega) (by omega) (by omega) (by omega) fb3
  obtain ⟨fb5,ran5,drawn5⟩ := @drawText_draws markX markY font theme.textBright (lit "x") (by omega) (by omega) fb4
  obtain ⟨fb6,ran6,drawn6⟩ := @fillRect_draws crX crY theme.windowBg 278 147 (by omega) (by omega) (by omega) (by omega) fb5
  obtain ⟨fb7,ran7,drawn7⟩ := TerminalWidget.render_draws room font theme.toTheme fb6
  have moved : {term with x := crX, y := crY, w := 278, h := 147} = window.settled term := by
    rw [settled,← areaColumn,← areaRow,Int16.ofInt_toInt,Int16.ofInt_toInt]
  have less : lessThan 280 2 = .ok 278 := rfl
  refine ⟨fb7,?_,?_⟩
  · rw [render,tidy.width,tidy.height]
    simp only [ran1,bar,barDown,less,ran2,title,titleDown,ran3,close,ran4,mark,markDown,ran5,area,ran6,content,ok_bind,
      moved,ran7,settle,tidy.width,tidy.height]
    rfl
  · have whole := (((((drawn1.trans drawn2).trans drawn3).trans drawn4).trans drawn5).trans drawn6).trans drawn7
    have signColumn : markX.toInt = window.x.toInt + 270 := by omega
    have signRow : markY.toInt = window.y.toInt + 2 := by omega
    rw [wide,tall,inner,strip,ten,deep,barColumn,barRow,titleColumn,titleRow,signColumn,signRow,closeColumn,closeRow,
      areaColumn,areaRow] at whole
    rw [picture,contentPicture,content]
    simp only [stack,overlay_blank,← overlay_assoc]
    exact whole

end Window

/-! The picture of the desktop. -/

def wallpaperPicture (wallpaper : Wallpaper) : ScreenPicture :=
  gridPicture 0 0 320 186 fun row col => wallpaper.pixels[row * 320 + col]?

def iconPicture (font : Font) (theme : FullTheme) : ScreenPicture :=
  stack [rectPicture 8 8 32 28 theme.titleBg,framePicture 8 8 32 28 theme.border,
    textPicture font 12 theme.textBright none (lit ">_") 12,textPicture font 38 theme.textPrimary none (lit "Term") 4]

/-- The clock ends four pixels from the right edge. -/
def taskbarPicture (font : Font) (theme : FullTheme) (ticks : Nat) : ScreenPicture :=
  stack [rectPicture 0 186 320 14 theme.taskbarBg,
    textPicture font 189 theme.textBright (some theme.taskbarBg) (lit "PolarOs") 4,
    textPicture font 189 theme.taskbarText (some theme.taskbarBg) (clockText ticks) (316 - 8 * byteLength (clockText ticks))]

def desktopPicture (look : Appearance) (ticks : Nat) : ScreenPicture :=
  stack [wallpaperPicture look.wallpaper,iconPicture look.font look.theme,taskbarPicture look.font look.theme ticks]

variable {look : Appearance} {font : Font} {theme : FullTheme} {ticks : Nat}

theorem blit_draws (wallpaper : Wallpaper) (fb : Framebuffer) :
    ∃ next, blit wallpaper fb = .ok next ∧ Draws (wallpaperPicture wallpaper) fb next := by
  have width : screenWidth.toNat = 320 := rfl
  have height : wallpaperHeight = 186 := rfl
  have size := wallpaper.size
  rw [width,height] at size
  refine @rows_draws screenWidth.toNat wallpaperHeight _ _ _ _ ?_ fb
  intro row below fb
  refine row_draws ?_ fb
  intro col left fb
  have bound : row * 320 + col < wallpaper.pixels.length := by omega
  have line : (Int16.ofNat row).toInt = row := Int16.toInt_ofNat_of_lt (by omega)
  have column : (Int16.ofNat col).toInt = col := Int16.toInt_ofNat_of_lt (by omega)
  have painted := setPixel_draws (Int16.ofNat col) (Int16.ofNat row) wallpaper.pixels[row * 320 + col] fb
  rw [line,column] at painted
  refine ⟨fb.setPixel (Int16.ofNat col) (Int16.ofNat row) wallpaper.pixels[row * 320 + col],?_,?_⟩
  · rw [width,index_lt bound]
    rfl
  · rw [List.getElem?_eq_getElem bound,zero_add,zero_add]
    exact painted

theorem drawIcon_draws (font : Font) (theme : FullTheme) (fb : Framebuffer) :
    ∃ next, drawIcon font theme fb = .ok next ∧ Draws (iconPicture font theme) fb next := by
  obtain ⟨fb1,ran1,drawn1⟩ := @fillRect_draws 8 8 theme.titleBg 32 28 (by decide) (by decide) (by decide) (by decide) fb
  obtain ⟨fb2,ran2,drawn2⟩ := @drawRect_draws 8 8 theme.border 32 28 (by decide) (by decide) (by decide) (by decide)
    (by decide) (by decide) fb1
  obtain ⟨fb3,ran3,drawn3⟩ := @drawText_draws 12 12 font theme.textBright (lit ">_") (by decide) (by decide) fb2
  obtain ⟨next,ran4,drawn4⟩ := @drawText_draws 4 38 font theme.textPrimary (lit "Term") (by decide) (by decide) fb3
  refine ⟨next,?_,?_⟩
  · change (fillRect 8 8 32 28 theme.titleBg fb >>= fun fb => drawRect 8 8 32 28 theme.border fb >>= fun fb =>
      drawText font 12 theme.textBright (lit ">_") 12 fb >>= fun fb => drawText font 38 theme.textPrimary (lit "Term") 4 fb) = _
    rw [ran1,ok_bind,ran2,ok_bind,ran3,ok_bind,ran4]
  · have whole := ((drawn1.trans drawn2).trans drawn3).trans drawn4
    simp only [iconPicture,stack,overlay_blank,← overlay_assoc]
    exact whole

theorem byteLength_ofBytesOr (bytes : List UInt8) : byteLength (Str.ofBytesOr bytes []) ≤ bytes.length := by
  rw [Str.ofBytesOr]
  cases decoded : Utf8.decode bytes with
  | none => exact Nat.zero_le _
  | some text => rw [Option.getD_some,byteLength,Utf8.encode_of_decode decoded]

theorem byteLength_clockText (ticks : Nat) : byteLength (clockText ticks) ≤ 16 :=
  (byteLength_ofBytesOr _).trans (by rw [written_eq]; exact List.length_take_le _ _)

theorem drawTaskbar_draws (font : Font) (theme : FullTheme) (ticks : Nat) (fb : Framebuffer) :
    ∃ next, drawTaskbar font theme ticks fb = .ok next ∧ Draws (taskbarPicture font theme ticks) fb next := by
  have short := byteLength_clockText ticks
  have letters := length_le_byteLength (clockText ticks)
  have eight : (8 : Int16).toInt = 8 := by decide
  have four : (4 : Int16).toInt = 4 := by decide
  have wide : screenWidth.toInt16.toInt = 320 := by decide
  have row : (189 : Int16).toInt = 189 := by decide
  have value : (Int16.ofNat (byteLength (clockText ticks))).toInt = byteLength (clockText ticks) :=
    Int16.toInt_ofNat_of_lt (by omega)
  obtain ⟨tw,scaled,product⟩ := checked_in_range (by omega : -2^15 ≤ (byteLength (clockText ticks) : Int) * 8) (by omega)
  obtain ⟨edge,back,left⟩ := checked_in_range (by omega : -2^15 ≤ 320 - tw.toInt) (by omega)
  obtain ⟨clockX,further,column⟩ := checked_in_range (by omega : -2^15 ≤ edge.toInt - 4) (by omega)
  obtain ⟨fb1,ran1,drawn1⟩ := @fillRect_draws 0 186 theme.taskbarBg screenWidth taskbarHeight (by decide) (by decide)
    (by decide) (by decide) fb
  obtain ⟨fb2,ran2,drawn2⟩ := @drawTextBg_draws 4 189 font theme.textBright theme.taskbarBg (lit "PolarOs") (by decide)
    (by decide) fb1
  obtain ⟨next,ran3,drawn3⟩ := @drawTextBg_draws clockX 189 font theme.taskbarText theme.taskbarBg (clockText ticks)
    (by omega) (by omega) fb2
  refine ⟨next,?_,?_⟩
  · have bar : Signed.sub screenHeight.toInt16 taskbarHeight.toInt16 = .ok 186 := rfl
    have text : Signed.add 186 3 = .ok 189 := rfl
    rw [drawTaskbar,bar,ok_bind,ran1,ok_bind,text,ok_bind,ran2,ok_bind]
    dsimp only
    rw [Signed.mul,value,eight,scaled,ok_bind,Signed.sub,wide,back,ok_bind,Signed.sub,four,further,ok_bind,ran3]
  · have whole := (drawn1.trans drawn2).trans drawn3
    have place : clockX.toInt = 316 - 8 * byteLength (clockText ticks) := by omega
    rw [place] at whole
    simp only [taskbarPicture,stack,overlay_blank,← overlay_assoc]
    exact whole

theorem desktopRender_draws (look : Appearance) (ticks : Nat) (fb : Framebuffer) :
    ∃ next, desktopRender look ticks fb = .ok next ∧ Draws (desktopPicture look ticks) fb next := by
  obtain ⟨papered,ran1,drawn1⟩ := blit_draws look.wallpaper fb
  obtain ⟨marked,ran2,drawn2⟩ := drawIcon_draws look.font look.theme papered
  obtain ⟨next,ran3,drawn3⟩ := drawTaskbar_draws look.font look.theme ticks marked
  refine ⟨next,?_,?_⟩
  · rw [desktopRender,ran1,ok_bind,ran2,ok_bind,ran3]
  · have whole := (drawn1.trans drawn2).trans drawn3
    simp only [desktopPicture,stack,overlay_blank,← overlay_assoc]
    exact whole

/-! The picture of all layers. -/

namespace Layer

def picture (look : Appearance) (ticks : Nat) : Layer δ μ → ScreenPicture
  | .desktop _ => desktopPicture look ticks
  | .window win => win.picture look.font look.theme

def settle : Layer δ μ → Layer δ μ
  | .desktop id => .desktop id
  | .window win => .window win.settle

/-- A window that can be drawn. -/
structure Drawable (layer : Layer δ μ) : Prop where
  tidy : ∀ window, layer = .window window → window.Tidy
  near : ∀ window, layer = .window window → window.Near
  fits : ∀ window, layer = .window window → window.PromptFits

theorem render_draws {layer : Layer δ μ} (drawable : layer.Drawable) (look : Appearance) (ticks : Nat) (fb : Framebuffer) :
    ∃ next, layer.render look ticks fb = .ok (layer.settle,next) ∧ Draws (layer.picture look ticks) fb next := by
  cases layer with
  | desktop id =>
    obtain ⟨next,ran,drawn⟩ := desktopRender_draws look ticks fb
    refine ⟨next,?_,drawn⟩
    rw [render,ran]
    rfl
  | window win =>
    obtain ⟨next,ran,drawn⟩ := @Window.render_draws δ μ win look.font look.theme (drawable.tidy win rfl) (drawable.near win rfl)
      (drawable.fits win rfl) fb
    refine ⟨next,?_,drawn⟩
    rw [render,ran]
    rfl

end Layer

theorem renderLayers_draws {layers : List (Layer δ μ)} (drawable : ∀ layer ∈ layers, layer.Drawable) (fb : Framebuffer) :
    ∃ next, renderLayers look ticks layers fb = .ok (layers.map Layer.settle,next) ∧
      Draws (stack (layers.map (Layer.picture look ticks))) fb next := by
  induction layers generalizing fb with
  | nil => exact ⟨fb,rfl,.refl fb⟩
  | cons layer layers ih =>
    obtain ⟨below,ran,drawn⟩ := Layer.render_draws (drawable layer List.mem_cons_self) look ticks fb
    obtain ⟨next,rest,later⟩ := ih (fun other member => drawable other (List.mem_cons_of_mem _ member)) below
    refine ⟨next,?_,drawn.trans later⟩
    rw [renderLayers,ran,ok_bind]
    dsimp only
    rw [rest]
    rfl

namespace Compositor

/-- The layers from the bottom up. -/
def scene (look : Appearance) (ticks : Nat) (comp : Compositor δ μ) : ScreenPicture :=
  stack (comp.layers.map (Layer.picture look ticks))

def picture (look : Appearance) (ticks : Nat) (cursor : Cursor) (comp : Compositor δ μ) : ScreenPicture :=
  overlay (comp.scene look ticks) (cursorPicture cursor)

def settle (comp : Compositor δ μ) : Compositor δ μ := {comp with layers := comp.layers.map Layer.settle}

variable {comp : Compositor δ μ} {cursor : Cursor}

theorem render_draws (drawable : ∀ layer ∈ comp.layers, layer.Drawable) (pointer : OnScreen cursor.x cursor.y)
    (look : Appearance) (ticks : Nat) (fb : Framebuffer) :
    ∃ next, comp.render look ticks cursor fb = .ok (comp.settle,next) ∧ Draws (comp.picture look ticks cursor) fb next := by
  obtain ⟨⟨left,right⟩,top,low⟩ := Framebuffer.onScreen_iff.mp pointer
  obtain ⟨below,ran,drawn⟩ := renderLayers_draws drawable fb
  obtain ⟨next,pointed,later⟩ := @Cursor.render_draws cursor (by omega) (by omega) below
  refine ⟨next,?_,drawn.trans later⟩
  rw [render,ran,ok_bind]
  dsimp only
  rw [pointed]
  rfl

end Compositor

/-! What is drawn does not change when it is drawn again. -/

theorem Window.settle_picture (font : Font) (theme : FullTheme) (window : Window δ μ) :
    window.settle.picture font theme = window.picture font theme := by
  unfold settle
  split
  next term content =>
    rw [picture,picture,contentPicture,contentPicture,content]
    rfl
  next => rfl

theorem Compositor.settle_scene (look : Appearance) (ticks : Nat) (comp : Compositor δ μ) :
    comp.settle.scene look ticks = comp.scene look ticks := by
  rw [scene,scene,settle,List.map_map]
  refine congrArg stack (List.map_congr_left fun layer _ => ?_)
  cases layer with
  | desktop id => rfl
  | window win => exact Window.settle_picture look.font look.theme win

/-! A frame that was drawn shows that every prompt ended in time. -/

theorem Window.render_fits {window last : Window δ μ} (tidy : window.Tidy) (near : window.Near) {fb next : Framebuffer}
    (ran : window.render font theme fb = .ok (last,next)) : window.PromptFits := by
  intro term content
  obtain ⟨framed,_,ran⟩ := bind_ok.mp ran
  obtain ⟨barX,_,ran⟩ := bind_ok.mp ran
  obtain ⟨barY,_,ran⟩ := bind_ok.mp ran
  obtain ⟨inner,_,ran⟩ := bind_ok.mp ran
  obtain ⟨barred,_,ran⟩ := bind_ok.mp ran
  obtain ⟨titleX,_,ran⟩ := bind_ok.mp ran
  obtain ⟨titleY,_,ran⟩ := bind_ok.mp ran
  obtain ⟨titled,_,ran⟩ := bind_ok.mp ran
  obtain ⟨cb,_,ran⟩ := bind_ok.mp ran
  obtain ⟨closed,_,ran⟩ := bind_ok.mp ran
  obtain ⟨markX,_,ran⟩ := bind_ok.mp ran
  obtain ⟨markY,_,ran⟩ := bind_ok.mp ran
  obtain ⟨marked,_,ran⟩ := bind_ok.mp ran
  obtain ⟨cr,area,ran⟩ := bind_ok.mp ran
  obtain ⟨cleared,_,ran⟩ := bind_ok.mp ran
  rw [content] at ran
  obtain ⟨shown,written,_⟩ := bind_ok.mp ran
  obtain ⟨x,y,known,column,_⟩ := contentRect_near tidy near
  obtain rfl := Except.ok.inj (known.symm.trans area)
  have reach := TerminalWidget.render_reach written
  dsimp only [TerminalWidget.prompt] at reach ⊢
  rwa [column] at reach

theorem renderLayers_fits {layers last : List (Layer δ μ)} (tidy : ∀ window, .window window ∈ layers → window.Tidy)
    (near : ∀ window, .window window ∈ layers → window.Near) {fb next : Framebuffer}
    (ran : renderLayers look ticks layers fb = .ok (last,next)) : ∀ window, .window window ∈ layers → window.PromptFits := by
  induction layers generalizing fb last next with
  | nil =>
    intro window none
    cases none
  | cons layer layers ih =>
    obtain ⟨⟨settled,below⟩,drawn,ran⟩ := bind_ok.mp ran
    obtain ⟨⟨others,top⟩,later,_⟩ := bind_ok.mp ran
    intro window member
    rcases List.mem_cons.mp member with rfl | other
    · obtain ⟨⟨moved,painted⟩,first,_⟩ := bind_ok.mp drawn
      exact Window.render_fits (tidy window List.mem_cons_self) (near window List.mem_cons_self) first
    · exact ih (fun window member => tidy window (List.mem_cons_of_mem _ member))
        (fun window member => near window (List.mem_cons_of_mem _ member)) later window other

end PolarOs.Gui
