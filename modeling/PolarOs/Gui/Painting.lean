import PolarOs.Library.Picture
import PolarOs.Gui.TerminalDrawing

/-! What drawing puts on the screen, pixel by pixel: the rest of `gui/primitives.rs` and
`gui/font.rs`, the pointer (`gui/cursor.rs`), and the picture that each of them paints. -/
namespace PolarOs.Gui
open Library Library.Checked Library.Signed Library.Picture

def drawHline (x y : Int16) (w : UInt16) (color : UInt8) (fb : Framebuffer) : Checked Framebuffer :=
  (List.range w.toInt16.toInt.toNat).foldlM (fun fb dx => do
    let px ← add x (Int16.ofNat dx)
    return fb.setPixel px y color) fb

def drawVline (x y : Int16) (h : UInt16) (color : UInt8) (fb : Framebuffer) : Checked Framebuffer :=
  (List.range h.toInt16.toInt.toNat).foldlM (fun fb dy => do
    let py ← add y (Int16.ofNat dy)
    return fb.setPixel x py color) fb

def drawRect (x y : Int16) (w h : UInt16) (color : UInt8) (fb : Framebuffer) : Checked Framebuffer := do
  let fb ← drawHline x y w color fb
  let bottom ← sub (← add y h.toInt16) 1
  let fb ← drawHline x bottom w color fb
  let fb ← drawVline x y h color fb
  let right ← sub (← add x w.toInt16) 1
  drawVline right y h color fb

/-- Bit `col` of a row of a character. -/
def inked (bits : UInt8) (col : Nat) : Bool := bits &&& (1 <<< UInt8.ofNat col) ≠ 0

def drawChar (font : Font) (x y : Int16) (ch : Char) (color : UInt8) (fb : Framebuffer) : Checked Framebuffer :=
  if known : ch.toNat < 128 then
    let glyph := font ⟨ch.toNat,known⟩
    (List.range charHeight).foldlM (fun fb row => (List.range charWidth).foldlM (fun fb col =>
      if inked (glyph row) col then do
        let px ← add x (Int16.ofNat col)
        let py ← add y (Int16.ofNat row)
        return fb.setPixel px py color
      else .ok fb) fb) fb
  else .ok fb

def drawText (font : Font) (y : Int16) (color : UInt8) : Str → Int16 → Framebuffer → Checked Framebuffer
  | [],_,fb => .ok fb
  | ch::text,cx,fb => do
    let fb ← drawChar font cx y ch color fb
    let cx ← add cx 8
    drawText font y color text cx fb

def drawTextBg (font : Font) (y : Int16) (fg bg : UInt8) : Str → Int16 → Framebuffer → Checked Framebuffer
  | [],_,fb => .ok fb
  | ch::text,cx,fb => do
    let fb ← drawCharBg font cx y ch fg bg fb
    let cx ← add cx 8
    drawTextBg font y fg bg text cx fb

structure Cursor where
  x : Int16
  y : Int16
  visible : Bool

def cursorWidth : Nat := 8

def cursorHeight : Nat := 12

def cursorBitmap : List UInt8 := [0x80,0xC0,0xE0,0xF0,0xF8,0xFC,0xFE,0xF0,0xD8,0x8C,0x06,0x03]

def cursorOutline : List UInt8 := [0x80,0xC0,0xA0,0x90,0x88,0x84,0x82,0x90,0xD8,0x8C,0x06,0x03]

def Cursor.new (x y : Int16) : Cursor := ⟨x,y,true⟩

/-- Black where the outline has its bit, white where only the bitmap has it. -/
def cursorColor (fillBits outlineBits : UInt8) (col : Nat) : Option UInt8 :=
  let mask := 0x80 >>> UInt8.ofNat col
  if outlineBits &&& mask ≠ 0 then some 15
  else if fillBits &&& mask ≠ 0 then some 8
  else none

def Cursor.render (cursor : Cursor) (fb : Framebuffer) : Checked Framebuffer :=
  if cursor.visible then
    (List.range cursorHeight).foldlM (fun fb row => do
      let fillBits ← index cursorBitmap row
      let outlineBits ← index cursorOutline row
      (List.range cursorWidth).foldlM (fun fb col => do
        let px ← add cursor.x (Int16.ofNat col)
        let py ← add cursor.y (Int16.ofNat row)
        match cursorColor fillBits outlineBits col with
        | some color => return fb.setPixel px py color
        | none => return fb) fb) fb
  else .ok fb

/-! The pictures. -/

abbrev ScreenPicture := Picture (Int × Int) UInt8

def Framebuffer.colorAt (fb : Framebuffer) (pixel : Int × Int) : UInt8 :=
  fb.getPixel (Int16.ofInt pixel.1) (Int16.ofInt pixel.2)

/-- The pixels of the screen. -/
def screen : Region := block 0 0 320 200

abbrev Draws (picture : ScreenPicture) (fb next : Framebuffer) : Prop := Overlaid Framebuffer.colorAt screen picture fb next

/-- The pixels from this one on, each with the colour of its row and column, where it has one. -/
def gridPicture (x y w h : Int) (color : Nat → Nat → Option UInt8) : ScreenPicture := fun pixel =>
  if (x ≤ pixel.1 ∧ pixel.1 < x + w) ∧ y ≤ pixel.2 ∧ pixel.2 < y + h then
    color (pixel.2 - y).toNat (pixel.1 - x).toNat
  else none

def rectPicture (x y w h : Int) (color : UInt8) : ScreenPicture := gridPicture x y w h fun _ _ => some color

/-- The border of a rectangle. -/
def framePicture (x y w h : Int) (color : UInt8) : ScreenPicture :=
  stack [rectPicture x y w 1 color,rectPicture x (y + h - 1) w 1 color,rectPicture x y 1 h color,
    rectPicture (x + w - 1) y 1 h color]

/-- A character, with or without its background. -/
def charPicture (font : Font) (x y : Int) (ch : Char) (fg : UInt8) (bg : Option UInt8) : ScreenPicture :=
  if known : ch.toNat < 128 then
    gridPicture x y 8 8 fun row col => if inked (font ⟨ch.toNat,known⟩ row) col then some fg else bg
  else blank

def textPicture (font : Font) (y : Int) (fg : UInt8) (bg : Option UInt8) : Str → Int → ScreenPicture
  | [],_ => blank
  | ch::text,x => overlay (charPicture font x y ch fg bg) (textPicture font y fg bg text (x + 8))

def cursorPicture (cursor : Cursor) : ScreenPicture :=
  if cursor.visible then
    gridPicture cursor.x.toInt cursor.y.toInt 8 12 fun row col =>
      cursorColor (cursorBitmap[row]?.getD 0) (cursorOutline[row]?.getD 0) col
  else blank

/-! Each of them paints its picture. -/

variable {x y : Int16} {w h : Nat} {font : Font} {ch : Char} {fg bg ink : UInt8} {text : Str}

theorem screen_pixel {pixel : Int × Int} (seen : pixel ∈ screen) :
    ∃ x y : Int16, pixel = (x.toInt,y.toInt) ∧ OnScreen x y := by
  obtain ⟨px,py⟩ := pixel
  obtain ⟨⟨left,right⟩,top,low⟩ := seen
  dsimp only at left right top low
  obtain ⟨x,_,column⟩ := checked_in_range (by omega : -2^15 ≤ px) (by omega)
  obtain ⟨y,_,row⟩ := checked_in_range (by omega : -2^15 ≤ py) (by omega)
  exact ⟨x,y,by rw [column,row],Framebuffer.onScreen_iff.mpr (by omega)⟩

theorem mem_screen : (x.toInt,y.toInt) ∈ screen ↔ OnScreen x y := by
  rw [Framebuffer.onScreen_iff]
  simp [screen,block]

theorem Framebuffer.colorAt_eq (fb : Framebuffer) (x y : Int16) : fb.colorAt (x.toInt,y.toInt) = fb.getPixel x y := by
  simp [Framebuffer.colorAt]

theorem setPixel_draws (x y : Int16) (color : UInt8) (fb : Framebuffer) :
    Draws (spot (x.toInt,y.toInt) (some color)) fb (fb.setPixel x y color) := by
  intro pixel seen
  obtain ⟨px,py,rfl,on⟩ := screen_pixel seen
  rw [Framebuffer.colorAt_eq,Framebuffer.colorAt_eq,Framebuffer.getPixel_setPixel,spot]
  by_cases same : px = x ∧ py = y
  · obtain ⟨rfl,rfl⟩ := same
    simp [on]
  · have other : ¬(px.toInt,py.toInt) = (x.toInt,y.toInt) := by
      rw [Prod.mk.injEq,Int16.toInt_inj,Int16.toInt_inj]
      exact same
    rw [if_neg fun all => same all.2,if_neg other]
    rfl

theorem row_stack (x y : Int) (w : Nat) (color : Nat → Option UInt8) :
    stack ((List.range w).map fun (col : Nat) => spot (x + col,y) (color col)) = gridPicture x y w 1 fun _ => color := by
  funext ⟨px,py⟩
  by_cases inside : (x ≤ px ∧ px < x + w) ∧ y ≤ py ∧ py < y + 1
  · have member : (px - x).toNat ∈ List.range w := List.mem_range.mpr (by omega)
    have place : (px,py) = (x + ((px - x).toNat : Nat),y) := Prod.mk.injEq .. ▸ ⟨by omega,by omega⟩
    rw [gridPicture,if_pos inside,stack_pick member]
    · rw [spot,if_pos place]
    · intro col below other
      exact if_neg (by rw [Prod.mk.injEq]; omega)
  · rw [gridPicture,if_neg inside,stack_eq_none]
    intro picture shown
    obtain ⟨col,below,rfl⟩ := List.mem_map.mp shown
    rw [List.mem_range] at below
    exact if_neg (by rw [Prod.mk.injEq]; omega)

theorem grid_stack (x y : Int) (w h : Nat) (color : Nat → Nat → Option UInt8) :
    stack ((List.range h).map fun (row : Nat) => gridPicture x (y + row) w 1 fun _ => color row) =
      gridPicture x y w h color := by
  funext ⟨px,py⟩
  by_cases inside : (x ≤ px ∧ px < x + w) ∧ y ≤ py ∧ py < y + h
  · have member : (py - y).toNat ∈ List.range h := List.mem_range.mpr (by omega)
    rw [gridPicture,if_pos inside,stack_pick member]
    · rw [gridPicture,if_pos (by dsimp only; omega)]
    · intro row below other
      exact if_neg (by dsimp only; omega)
  · rw [gridPicture,if_neg inside,stack_eq_none]
    intro picture shown
    obtain ⟨row,below,rfl⟩ := List.mem_map.mp shown
    rw [List.mem_range] at below
    exact if_neg (by dsimp only; omega)

theorem grid_one (x y : Int) (color : Nat → Nat → Option UInt8) : gridPicture x y 1 1 color = spot (x,y) (color 0 0) := by
  funext ⟨px,py⟩
  rw [gridPicture,spot]
  by_cases same : (px,py) = (x,y)
  · obtain ⟨rfl,rfl⟩ := Prod.mk.inj same
    simp
  · rw [if_neg same]
    rw [Prod.mk.injEq] at same
    exact if_neg (by dsimp only; omega)

variable {color : Nat → Nat → Option UInt8}

/-- The loop over the columns of a row. -/
theorem row_draws {body : Framebuffer → Nat → Checked Framebuffer} {start line : Int} {color : Nat → Option UInt8}
    (each : ∀ col < w, ∀ fb, ∃ next, body fb col = .ok next ∧ Draws (spot (start + col,line) (color col)) fb next)
    (fb : Framebuffer) : ∃ next, (List.range w).foldlM body fb = .ok next ∧
      Draws (gridPicture start line w 1 fun _ => color) fb next := by
  rw [← row_stack]
  exact Overlaid.foldlM (fun col left => each col (List.mem_range.mp left)) fb

/-- The loop over the rows. -/
theorem rows_draws {body : Framebuffer → Nat → Checked Framebuffer} {start top : Int}
    (each : ∀ row < h, ∀ fb, ∃ next, body fb row = .ok next ∧
      Draws (gridPicture start (top + row) w 1 fun _ => color row) fb next)
    (fb : Framebuffer) : ∃ next, (List.range h).foldlM body fb = .ok next ∧ Draws (gridPicture start top w h color) fb next := by
  rw [← grid_stack]
  exact Overlaid.foldlM (fun row below => each row (List.mem_range.mp below)) fb

/-- The coordinates of a pixel of a grid. -/
theorem place_ok (right : x.toInt + w ≤ 2^15) (bottom : y.toInt + h ≤ 2^15) (few : w < 2^15) (low : h < 2^15)
    {row col : Nat} (below : row < h) (left : col < w) :
    ∃ px py, add x (Int16.ofNat col) = .ok px ∧ add y (Int16.ofNat row) = .ok py ∧
      (px.toInt,py.toInt) = (x.toInt + col,y.toInt + row) := by
  obtain ⟨px,across,column⟩ := @offset_ok x col (by omega) (by omega)
  obtain ⟨py,down,line⟩ := @offset_ok y row (by omega) (by omega)
  exact ⟨px,py,across,down,by rw [column,line]⟩

theorem paintBlock_draws {shade : Nat → Nat → UInt8} (few : w < 2^15) (low : h < 2^15) (right : x.toInt + w ≤ 2^15)
    (bottom : y.toInt + h ≤ 2^15) (fb : Framebuffer) : ∃ next, paintBlock x y w h shade fb = .ok next ∧
      Draws (gridPicture x.toInt y.toInt w h fun row col => some (shade row col)) fb next := by
  refine rows_draws ?_ fb
  intro row below fb
  refine row_draws ?_ fb
  intro col left fb
  obtain ⟨px,py,across,down,place⟩ := place_ok right bottom few low below left
  refine ⟨fb.setPixel px py (shade row col),?_,place ▸ setPixel_draws px py _ fb⟩
  rw [across,ok_bind,down]
  rfl

theorem fillRect_draws {w h : UInt16} (few : w.toNat < 2^15) (low : h.toNat < 2^15) (right : x.toInt + w.toNat ≤ 2^15)
    (bottom : y.toInt + h.toNat ≤ 2^15) (fb : Framebuffer) :
    ∃ next, fillRect x y w h ink fb = .ok next ∧ Draws (rectPicture x.toInt y.toInt w.toNat h.toNat ink) fb next := by
  rw [fillRect,toInt_of_small few,toInt_of_small low]
  exact paintBlock_draws few low right bottom fb

theorem drawHline_draws {w : UInt16} (few : w.toNat < 2^15) (right : x.toInt + w.toNat ≤ 2^15) (fb : Framebuffer) :
    ∃ next, drawHline x y w ink fb = .ok next ∧ Draws (rectPicture x.toInt y.toInt w.toNat 1 ink) fb next := by
  rw [drawHline,toInt_of_small few,rectPicture,← row_stack]
  refine Overlaid.foldlM ?_ fb
  intro dx left fb
  rw [List.mem_range] at left
  obtain ⟨px,across,column⟩ := @offset_ok x dx (by omega) (by omega)
  refine ⟨fb.setPixel px y ink,?_,column ▸ setPixel_draws px y ink fb⟩
  rw [across]
  rfl

theorem drawVline_draws {h : UInt16} (low : h.toNat < 2^15) (bottom : y.toInt + h.toNat ≤ 2^15) (fb : Framebuffer) :
    ∃ next, drawVline x y h ink fb = .ok next ∧ Draws (rectPicture x.toInt y.toInt 1 h.toNat ink) fb next := by
  have rows := grid_stack x.toInt y.toInt 1 h.toNat fun _ _ => some ink
  rw [Nat.cast_one] at rows
  rw [drawVline,toInt_of_small low,rectPicture,← rows]
  refine Overlaid.foldlM ?_ fb
  intro dy below fb
  rw [List.mem_range] at below
  obtain ⟨py,down,line⟩ := @offset_ok y dy (by omega) (by omega)
  refine ⟨fb.setPixel x py ink,?_,?_⟩
  · rw [down]
    rfl
  · rw [grid_one,← line]
    exact setPixel_draws x py ink fb

theorem drawRect_draws {w h : UInt16} (few : w.toNat < 2^15) (low : h.toNat < 2^15) (wide : 0 < w.toNat) (tall : 0 < h.toNat)
    (right : x.toInt + w.toNat < 2^15) (bottom : y.toInt + h.toNat < 2^15) (fb : Framebuffer) :
    ∃ next, drawRect x y w h ink fb = .ok next ∧ Draws (framePicture x.toInt y.toInt w.toNat h.toNat ink) fb next := by
  have left := x.le_toInt
  have top := y.le_toInt
  have one : (1 : Int16).toInt = 1 := by decide
  obtain ⟨far,across,column⟩ := checked_in_range (by omega : -2^15 ≤ x.toInt + w.toNat) (by omega)
  obtain ⟨edge,inward,last⟩ := checked_in_range (by omega : -2^15 ≤ far.toInt - 1) (by omega)
  obtain ⟨deep,down,line⟩ := checked_in_range (by omega : -2^15 ≤ y.toInt + h.toNat) (by omega)
  obtain ⟨floor,upward,row⟩ := checked_in_range (by omega : -2^15 ≤ deep.toInt - 1) (by omega)
  rw [column] at last
  rw [line] at row
  obtain ⟨upper,first,top⟩ := @drawHline_draws x y ink w few (by omega) fb
  obtain ⟨lower,second,base⟩ := @drawHline_draws x floor ink w few (by omega) upper
  obtain ⟨side,third,start⟩ := @drawVline_draws x y ink h low (by omega) lower
  obtain ⟨next,fourth,stop⟩ := @drawVline_draws edge y ink h low (by omega) side
  refine ⟨next,?_,?_⟩
  · rw [drawRect,first,ok_bind,Signed.add,toInt_of_small low,down,ok_bind,Signed.sub,one,upward,ok_bind,second,ok_bind,
      third,ok_bind,Signed.add,toInt_of_small few,across,ok_bind,Signed.sub,one,inward,ok_bind,fourth]
  · have whole := ((top.trans base).trans start).trans stop
    rw [row,last] at whole
    rw [framePicture,stack,stack,stack,stack,stack,overlay_blank,← overlay_assoc,← overlay_assoc]
    exact whole

theorem drawCharBg_draws (right : x.toInt + 8 ≤ 2^15) (bottom : y.toInt + 8 ≤ 2^15) (fb : Framebuffer) :
    ∃ next, drawCharBg font x y ch fg bg fb = .ok next ∧ Draws (charPicture font x.toInt y.toInt ch fg (some bg)) fb next := by
  rw [drawCharBg,charPicture]
  split
  next known =>
    obtain ⟨next,ran,painted⟩ := @paintBlock_draws x y charWidth charHeight (fun row col =>
      if font ⟨ch.toNat,known⟩ row &&& (1 <<< UInt8.ofNat col) ≠ 0 then fg else bg) (by decide) (by decide) right bottom fb
    refine ⟨next,ran,painted.congr fun pixel _ => ?_⟩
    change gridPicture x.toInt y.toInt 8 8 _ pixel = _
    congr 1
    funext row col
    rw [inked]
    split
    next set => rw [if_pos (decide_eq_true set)]
    next paper => rw [if_neg (by simpa using paper)]
  next => exact ⟨fb,rfl,.refl fb⟩

theorem drawChar_draws (right : x.toInt + 8 ≤ 2^15) (bottom : y.toInt + 8 ≤ 2^15) (fb : Framebuffer) :
    ∃ next, drawChar font x y ch ink fb = .ok next ∧ Draws (charPicture font x.toInt y.toInt ch ink none) fb next := by
  rw [drawChar,charPicture]
  split
  next known =>
    refine @rows_draws charWidth charHeight _ _ _ _ ?_ fb
    intro row below fb
    refine row_draws ?_ fb
    intro col left fb
    obtain ⟨px,py,across,down,place⟩ := @place_ok x y charWidth charHeight right bottom (by decide) (by decide) row col
      below left
    split
    next =>
      refine ⟨fb.setPixel px py ink,?_,place ▸ setPixel_draws px py _ fb⟩
      rw [across,ok_bind,down]
      rfl
    next =>
      refine ⟨fb,rfl,?_⟩
      rw [spot_none]
      exact .refl fb
  next => exact ⟨fb,rfl,.refl fb⟩

theorem next_char {cx : Int16} {length : Nat} (right : cx.toInt + 8 * (length + 1 : Nat) < 2^15) :
    ∃ next, add cx 8 = .ok next ∧ next.toInt = cx.toInt + 8 := by
  have eight : (8 : Int16).toInt = 8 := by decide
  have low := cx.le_toInt
  rw [Signed.add,eight]
  exact checked_in_range (by omega) (by omega)

theorem drawText_draws (right : x.toInt + 8 * text.length < 2^15) (bottom : y.toInt + 8 ≤ 2^15) (fb : Framebuffer) :
    ∃ next, drawText font y ink text x fb = .ok next ∧
      Draws (textPicture font y.toInt ink none text x.toInt) fb next := by
  induction text generalizing x fb with
  | nil => exact ⟨fb,rfl,.refl fb⟩
  | cons ch text ih =>
    rw [List.length_cons] at right
    obtain ⟨drawn,shown,painted⟩ := @drawChar_draws x y font ch ink (by omega) bottom fb
    obtain ⟨after,moved,place⟩ := next_char right
    obtain ⟨next,ran,later⟩ := @ih after (by omega) drawn
    rw [place] at later
    refine ⟨next,?_,painted.trans later⟩
    rw [drawText,shown,ok_bind,moved]
    exact ran

/-- The text of the terminals, which also tells where it ends. -/
theorem drawChars_draws (right : x.toInt + 8 * text.length < 2^15) (bottom : y.toInt + 8 ≤ 2^15) (fb : Framebuffer) :
    ∃ last next, drawChars font y fg bg text x fb = .ok (last,next) ∧ last.toInt = x.toInt + 8 * text.length ∧
      Draws (textPicture font y.toInt fg (some bg) text x.toInt) fb next := by
  induction text generalizing x fb with
  | nil => exact ⟨x,fb,rfl,by simp,.refl fb⟩
  | cons ch text ih =>
    rw [List.length_cons] at right
    obtain ⟨drawn,shown,painted⟩ := @drawCharBg_draws x y font ch fg bg (by omega) bottom fb
    obtain ⟨after,moved,place⟩ := next_char right
    obtain ⟨last,next,ran,ends,later⟩ := @ih after (by omega) drawn
    rw [place] at later ends
    refine ⟨last,next,?_,?_,painted.trans later⟩
    · rw [drawChars,shown,ok_bind,moved]
      exact ran
    · rw [ends,List.length_cons]
      omega

theorem drawTextBg_eq (font : Font) (y : Int16) (fg bg : UInt8) (text : Str) (x : Int16) (fb : Framebuffer) :
    drawTextBg font y fg bg text x fb = Prod.snd <$> drawChars font y fg bg text x fb := by
  induction text generalizing x fb with
  | nil => rfl
  | cons ch text ih =>
    rw [drawTextBg,drawChars,map_bind]
    congr 1
    funext drawn
    rw [map_bind]
    congr 1
    funext after
    exact ih after drawn

theorem drawTextBg_draws (right : x.toInt + 8 * text.length < 2^15) (bottom : y.toInt + 8 ≤ 2^15) (fb : Framebuffer) :
    ∃ next, drawTextBg font y fg bg text x fb = .ok next ∧
      Draws (textPicture font y.toInt fg (some bg) text x.toInt) fb next := by
  obtain ⟨last,next,ran,_,painted⟩ := @drawChars_draws x y font fg bg text right bottom fb
  refine ⟨next,?_,painted⟩
  rw [drawTextBg_eq,ran]
  rfl

theorem Cursor.render_draws {cursor : Cursor} (right : cursor.x.toInt + 8 ≤ 2^15) (bottom : cursor.y.toInt + 12 ≤ 2^15)
    (fb : Framebuffer) : ∃ next, cursor.render fb = .ok next ∧ Draws (cursorPicture cursor) fb next := by
  rw [Cursor.render,cursorPicture]
  split
  next =>
    refine @rows_draws cursorWidth cursorHeight _ _ _ _ ?_ fb
    intro row below fb
    have rows : row < cursorBitmap.length ∧ row < cursorOutline.length := ⟨below,below⟩
    rw [index_lt rows.1,ok_bind,index_lt rows.2,ok_bind,List.getElem?_eq_getElem rows.1,List.getElem?_eq_getElem rows.2]
    refine row_draws ?_ fb
    intro col left fb
    obtain ⟨px,py,across,down,place⟩ := @place_ok cursor.x cursor.y cursorWidth cursorHeight right bottom (by decide)
      (by decide) row col below left
    rw [across,ok_bind,down,ok_bind,Option.getD_some,Option.getD_some]
    cases cursorColor cursorBitmap[row] cursorOutline[row] col with
    | some ink => exact ⟨_,rfl,place ▸ setPixel_draws px py ink fb⟩
    | none =>
      refine ⟨fb,rfl,?_⟩
      rw [spot_none]
      exact .refl fb
  next => exact ⟨fb,rfl,.refl fb⟩

end PolarOs.Gui
