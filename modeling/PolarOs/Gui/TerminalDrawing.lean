import PolarOs.Gui.Drawing
import PolarOs.Gui.Wrapping

/-! Drawing of the terminal widget (`TerminalWidget::render`). The scrollback is clipped to whole
columns; the prompt is not clipped, the input and the cursor only by where they start. -/
namespace PolarOs.Gui
open Library Library.Checked Library.Signed

/-- The colours of the theme that the widget uses. -/
structure Theme where
  windowBg : UInt8
  textPrimary : UInt8

def promptColor : UInt8 := 10

/-- A text in one row, each character eight pixels after the one before. -/
def drawChars (font : Font) (y : Int16) (fg bg : UInt8) : Str → Int16 → Framebuffer → Checked (Int16 × Framebuffer)
  | [],px,fb => .ok (px,fb)
  | ch::text,px,fb => do
    let fb ← drawCharBg font px y ch fg bg fb
    let px ← add px 8
    drawChars font y fg bg text px fb

namespace TerminalWidget

def visibleRows (term : TerminalWidget) : Nat := term.h.toNat / charHeight - 1

def rowTop (term : TerminalWidget) (row : Nat) : Checked Int16 := do
  let down ← mul (Int16.ofNat row) 8
  add term.y down

def drawLines (font : Font) (fg bg : UInt8) (term : TerminalWidget) : Nat → List Str → Framebuffer → Checked Framebuffer
  | _,[],fb => .ok fb
  | row,line::lines,fb => do
    let py ← term.rowTop row
    let (_,fb) ← drawChars font py fg bg (line.take term.cols) term.x fb
    term.drawLines font fg bg (row + 1) lines fb

/-- The input, whose characters are left out from the right edge on. -/
def drawInput (font : Font) (y : Int16) (fg bg : UInt8) (term : TerminalWidget) :
    Str → Int16 → Framebuffer → Checked (Int16 × Framebuffer)
  | [],px,fb => .ok (px,fb)
  | ch::text,px,fb => do
    let stop ← add term.x term.w.toInt16
    if px < stop then
      let fb ← drawCharBg font px y ch fg bg fb
      let px ← add px 8
      term.drawInput font y fg bg text px fb
    else term.drawInput font y fg bg text px fb

def drawCursor (px y : Int16) (fg : UInt8) (term : TerminalWidget) (fb : Framebuffer) : Checked Framebuffer :=
  if term.cursorVisible then do
    let stop ← add term.x term.w.toInt16
    if px < stop then fillRect px y 8 8 fg fb
    else return fb
  else .ok fb

def render (font : Font) (theme : Theme) (term : TerminalWidget) (fb : Framebuffer) : Checked Framebuffer := do
  let bg := theme.windowBg
  let fg := theme.textPrimary
  let start := if term.visibleRows < term.lines.length then term.lines.length - term.visibleRows else 0
  let fb ← term.drawLines font fg bg 0 (term.lines.drop start) fb
  let inputY ← term.rowTop term.visibleRows
  let (px,fb) ← drawChars font inputY promptColor bg term.prompt term.x fb
  let (px,fb) ← term.drawInput font inputY fg bg term.inputBuf px fb
  term.drawCursor px inputY fg fb

end TerminalWidget

/-! What is painted. -/

variable {palette : Set UInt8} {font : Font} {theme : Theme} {term : TerminalWidget} {text : Str} {px py y : Int16}
variable {fg bg : UInt8} {fb next : Framebuffer}

def textRegion : Str → Int → Int → Region
  | [],_,_ => ∅
  | ch::text,x,y => cell ch x y ∪ textRegion text (x + 8) y

theorem mem_textRegion {x y : Int} {pixel : Int × Int} :
    pixel ∈ textRegion text x y ↔ ∃ (i : Nat) (ch : Char), text[i]? = some ch ∧ pixel ∈ cell ch (x + 8 * i) y := by
  induction text generalizing x with
  | nil => simp [textRegion]
  | cons ch text ih =>
    rw [textRegion,Set.mem_union,ih]
    constructor
    · rintro (here | ⟨i,other,found,later⟩)
      · exact ⟨0,ch,rfl,by simpa using here⟩
      · refine ⟨i + 1,other,found,?_⟩
        rw [Int.natCast_succ,mul_add,mul_one,add_comm _ (8 : Int),← add_assoc]
        exact later
    · rintro ⟨i,other,found,inside⟩
      cases i with
      | zero =>
        obtain rfl := Option.some.inj found
        exact Or.inl (by simpa using inside)
      | succ i =>
        rw [Int.natCast_succ,mul_add,mul_one,add_comm _ (8 : Int),← add_assoc] at inside
        exact Or.inr ⟨i,other,found,inside⟩

theorem drawChars_ok {last : Int16} (ran : drawChars font y fg bg text px fb = .ok (last,next)) :
    last.toInt = px.toInt + 8 * text.length := by
  induction text generalizing px fb with
  | nil =>
    cases ran
    simp
  | cons ch text ih =>
    obtain ⟨drawn,_,ran⟩ := bind_ok.mp ran
    obtain ⟨after,moved,ran⟩ := bind_ok.mp ran
    have eight : (8 : Int16).toInt = 8 := by decide
    rw [add_ok,eight] at moved
    rw [ih ran,moved,List.length_cons]
    omega

theorem drawChars_painted (right : px.toInt + 8 * text.length < 2^15) (bottom : y.toInt + 8 ≤ 2^15) (ink : fg ∈ palette)
    (paper : bg ∈ palette) (fb : Framebuffer) :
    ∃ last next, drawChars font y fg bg text px fb = .ok (last,next) ∧
      Painted palette (textRegion text px.toInt y.toInt) fb next := by
  induction text generalizing px fb with
  | nil => exact ⟨px,fb,rfl,.refl fb⟩
  | cons ch text ih =>
    rw [List.length_cons] at right
    obtain ⟨drawn,shown,painted⟩ := @drawCharBg_painted palette px y fg bg ch font (by omega) bottom ink paper fb
    have eight : (8 : Int16).toInt = 8 := by decide
    have low := px.le_toInt
    obtain ⟨after,moved,place⟩ := checked_in_range (by omega : -2^15 ≤ px.toInt + 8) (by omega)
    obtain ⟨last,next,ran,later⟩ := @ih after (by omega) drawn
    refine ⟨last,next,?_,?_⟩
    · rw [drawChars,shown,ok_bind,Signed.add,eight,moved]
      exact ran
    · rw [place] at later
      exact painted.trans later

namespace TerminalWidget

/-- The bounds lie on the screen and hold at least one row of characters. -/
structure FitsScreen (term : TerminalWidget) : Prop where
  left : 0 ≤ term.x.toInt
  right : term.x.toInt + term.w.toNat ≤ 320
  top : 0 ≤ term.y.toInt
  bottom : term.y.toInt + term.h.toNat ≤ 200
  tall : 8 ≤ term.h.toNat

def region (term : TerminalWidget) : Region := block term.x.toInt term.y.toInt term.w.toNat term.h.toNat

def stop (term : TerminalWidget) : Int := term.x.toInt + term.w.toNat

theorem stop_ok (screen : term.FitsScreen) : ∃ stop, add term.x term.w.toInt16 = .ok stop ∧ stop.toInt = term.stop := by
  have left := screen.left
  have right := screen.right
  rw [Signed.add,toInt_of_small (by omega)]
  exact checked_in_range (by omega) (by omega)

theorem rowTop_ok (screen : term.FitsScreen) {row : Nat} (within : 8 * row ≤ term.h.toNat) :
    ∃ place, term.rowTop row = .ok place ∧ place.toInt = term.y.toInt + 8 * row := by
  have top := screen.top
  have bottom := screen.bottom
  have eight : (8 : Int16).toInt = 8 := by decide
  have value : (Int16.ofNat row).toInt = row := Int16.toInt_ofNat_of_lt (by omega)
  obtain ⟨down,scaled,product⟩ := checked_in_range (by omega : -2^15 ≤ (row : Int) * 8) (by omega)
  obtain ⟨place,moved,sum⟩ := checked_in_range (by omega : -2^15 ≤ term.y.toInt + down.toInt) (by omega)
  refine ⟨place,?_,by omega⟩
  rw [rowTop,Signed.mul,value,eight,scaled,ok_bind]
  exact moved

theorem cols_le (term : TerminalWidget) : 8 * term.cols ≤ term.w.toNat := Nat.mul_div_le _ _

theorem rows_le (screen : term.FitsScreen) : 8 * term.visibleRows + 8 ≤ term.h.toNat := by
  have tall := screen.tall
  have eight : charHeight = 8 := rfl
  rw [visibleRows,eight]
  omega

/-- Whole columns of a row lie within the bounds. -/
theorem textRegion_subset (short : text.length ≤ term.cols) {row : Nat} (within : 8 * row + 8 ≤ term.h.toNat) :
    textRegion text term.x.toInt (term.y.toInt + 8 * row) ⊆ term.region := by
  intro pixel inside
  obtain ⟨i,ch,found,painted⟩ := mem_textRegion.mp inside
  have bound := (List.getElem?_eq_some_iff.mp found).1
  have columns := term.cols_le
  rw [cell] at painted
  split at painted
  next =>
    obtain ⟨⟨left,right⟩,top,bottom⟩ := painted
    have eight : charWidth = 8 := rfl
    have tall : charHeight = 8 := rfl
    rw [eight] at right
    rw [tall] at bottom
    exact ⟨⟨by omega,by omega⟩,by omega,by omega⟩
  next => exact painted.elim

theorem drawLines_painted (screen : term.FitsScreen) (ink : fg ∈ palette) (paper : bg ∈ palette) (lines : List Str)
    {row : Nat} (few : row + lines.length ≤ term.visibleRows) (fb : Framebuffer) :
    ∃ part next, part ⊆ term.region ∧ term.drawLines font fg bg row lines fb = .ok next ∧
      Painted palette part fb next := by
  have rows := rows_le screen
  have bottom := screen.bottom
  have right := screen.right
  induction lines generalizing row fb with
  | nil => exact ⟨∅,fb,Set.empty_subset _,rfl,.refl fb⟩
  | cons line lines ih =>
    rw [List.length_cons] at few
    obtain ⟨py,placed,value⟩ := rowTop_ok screen (show 8 * row ≤ term.h.toNat by omega)
    have short : (line.take term.cols).length ≤ term.cols := List.length_take_le _ _
    have columns := term.cols_le
    obtain ⟨last,drawn,shown,painted⟩ := @drawChars_painted palette font (line.take term.cols) term.x py fg bg
      (by omega) (by omega) ink paper fb
    obtain ⟨part,next,inside,ran,later⟩ := @ih (row + 1) (by omega) drawn
    refine ⟨_,next,Set.union_subset ?_ inside,?_,painted.trans later⟩
    · rw [value]
      exact textRegion_subset short (by omega)
    · rw [drawLines,placed,ok_bind,shown]
      exact ran

/-- The input is drawn up to the first character that starts at or behind the right edge. -/
theorem drawInput_painted (screen : term.FitsScreen) (bottom : y.toInt + 8 ≤ 2^15) (ink : fg ∈ palette)
    (paper : bg ∈ palette) (fb : Framebuffer) :
    ∃ shown last next, term.drawInput font y fg bg text px fb = .ok (last,next) ∧ shown ≤ text.length ∧
      last.toInt = px.toInt + 8 * shown ∧ (∀ i, i < shown → px.toInt + 8 * i < term.stop) ∧
      (shown < text.length → term.stop ≤ last.toInt) ∧
      Painted palette (textRegion (text.take shown) px.toInt y.toInt) fb next := by
  have right := screen.right
  obtain ⟨stop,edge,value⟩ := stop_ok screen
  induction text generalizing px fb with
  | nil => exact ⟨0,px,fb,rfl,Nat.le_refl _,by simp,by simp,by simp,.refl fb⟩
  | cons ch text ih =>
    rw [drawInput,edge,ok_bind]
    split
    next before =>
      rw [Int16.lt_iff_toInt_lt,value,TerminalWidget.stop] at before
      obtain ⟨drawn,inked,painted⟩ := @drawCharBg_painted palette px y fg bg ch font (by omega) bottom ink paper fb
      have eight : (8 : Int16).toInt = 8 := by decide
      have low := px.le_toInt
      obtain ⟨after,moved,place⟩ := checked_in_range (by omega : -2^15 ≤ px.toInt + 8) (by omega)
      obtain ⟨shown,last,next,ran,few,ends,inside,rest,later⟩ := @ih after drawn
      refine ⟨shown + 1,last,next,?_,by simpa using few,?_,?_,?_,?_⟩
      · rw [inked,ok_bind,Signed.add,eight,moved]
        exact ran
      · omega
      · intro i within
        cases i with
        | zero => simpa [TerminalWidget.stop] using before
        | succ i =>
          have := inside i (by omega)
          omega
      · intro more
        exact rest (by simpa using more)
      · rw [place] at later
        exact painted.trans later
    next behind =>
      obtain ⟨shown,last,next,ran,few,ends,inside,rest,later⟩ := @ih px fb
      rw [Int16.lt_iff_toInt_lt,value] at behind
      have none : shown = 0 := by
        rcases Nat.eq_zero_or_pos shown with none | some
        · exact none
        · have := inside 0 some
          omega
      subst none
      exact ⟨0,last,next,ran,Nat.zero_le _,ends,by simp,fun _ => by omega,by simpa [textRegion] using later⟩

/-! The columns of the input line: the prompt goes on behind the right edge, the input and the
cursor only start before it. -/

def Shows (term : TerminalWidget) (column : Nat) : Prop :=
  ∃ ch, (term.prompt ++ term.inputBuf)[column]? = some ch ∧ ch.toNat < 128 ∧
    (column < term.prompt.length ∨ 8 * column < term.w.toNat)

def CursorIn (term : TerminalWidget) (column : Nat) : Prop :=
  term.cursorVisible = true ∧ column = term.prompt.length + term.inputBuf.length ∧ 8 * column < term.w.toNat

def lineRegion (term : TerminalWidget) (y : Int) : Region :=
  {pixel | ∃ column : Nat, (term.Shows column ∨ term.CursorIn column) ∧ pixel ∈ block (term.x.toInt + 8 * column) y 8 8}

def cursorRegion (term : TerminalWidget) (y : Int) : Region :=
  {pixel | ∃ column : Nat, term.CursorIn column ∧ pixel ∈ block (term.x.toInt + 8 * column) y 8 8}

/-- The prompt ends before coordinates overflow, and each painted column lies within the width
or right of the screen, unless the terminal reaches the right edge of the screen itself. -/
structure LineFits (term : TerminalWidget) : Prop where
  reach : term.x.toInt + 8 * term.prompt.length < 2^15
  clipped : term.stop = 320 ∨ ∀ column, term.Shows column ∨ term.CursorIn column →
    8 * column + 8 ≤ term.w.toNat ∨ 320 ≤ term.x.toInt + 8 * column

theorem mem_cell {ch : Char} {x y : Int} {pixel : Int × Int} :
    pixel ∈ cell ch x y ↔ ch.toNat < 128 ∧ pixel ∈ block x y 8 8 := by
  rw [cell]
  split
  next known => exact (and_iff_right known).symm
  next unknown => exact iff_of_false (Set.notMem_empty _) (fun both => unknown both.1)

theorem mem_promptRegion {y : Int} {pixel : Int × Int} : pixel ∈ textRegion term.prompt term.x.toInt y ↔
    ∃ column : Nat, column < term.prompt.length ∧ term.Shows column ∧
      pixel ∈ block (term.x.toInt + 8 * column) y 8 8 := by
  rw [mem_textRegion]
  constructor
  · rintro ⟨column,ch,found,painted⟩
    have bound := (List.getElem?_eq_some_iff.mp found).1
    obtain ⟨known,inside⟩ := mem_cell.mp painted
    refine ⟨column,bound,⟨ch,?_,known,Or.inl bound⟩,inside⟩
    rw [List.getElem?_append_left bound]
    exact found
  · rintro ⟨column,bound,⟨ch,found,known,_⟩,inside⟩
    rw [List.getElem?_append_left bound] at found
    exact ⟨column,ch,found,mem_cell.mpr ⟨known,inside⟩⟩

theorem mem_inputRegion {shown : Nat} {last y : Int} {pixel : Int × Int} (few : shown ≤ term.inputBuf.length)
    (place : last = term.x.toInt + 8 * term.prompt.length + 8 * shown)
    (inside : ∀ i : Nat, i < shown → term.x.toInt + 8 * term.prompt.length + 8 * i < term.stop)
    (rest : shown < term.inputBuf.length → term.stop ≤ last) :
    pixel ∈ textRegion (term.inputBuf.take shown) (term.x.toInt + 8 * term.prompt.length) y ↔
      ∃ column : Nat, term.prompt.length ≤ column ∧ term.Shows column ∧
        pixel ∈ block (term.x.toInt + 8 * column) y 8 8 := by
  rw [mem_textRegion]
  constructor
  · rintro ⟨i,ch,found,painted⟩
    obtain ⟨known,within⟩ := mem_cell.mp painted
    rw [List.getElem?_take] at found
    split at found
    next early =>
      have before := inside i early
      refine ⟨term.prompt.length + i,Nat.le_add_right _ _,⟨ch,?_,known,Or.inr ?_⟩,?_⟩
      · rw [List.getElem?_append_right (Nat.le_add_right _ _),Nat.add_sub_cancel_left]
        exact found
      · rw [stop] at before
        omega
      · rw [Nat.cast_add,mul_add,← add_assoc]
        exact within
    next => cases found
  · rintro ⟨column,behind,⟨ch,found,known,starts⟩,within⟩
    rw [List.getElem?_append_right behind] at found
    obtain ⟨i,rfl⟩ := Nat.exists_eq_add_of_le behind
    rw [Nat.add_sub_cancel_left] at found
    have bound := (List.getElem?_eq_some_iff.mp found).1
    have early : i < shown := by
      by_contra late
      have := rest (by omega)
      rw [stop] at this
      omega
    refine ⟨i,ch,?_,mem_cell.mpr ⟨known,?_⟩⟩
    · rw [List.getElem?_take_of_lt early]
      exact found
    · rw [Nat.cast_add,mul_add,← add_assoc] at within
      exact within

/-- The cursor stands where the drawing of the input has ended, unless that is cut off. -/
theorem cursorIn_iff {shown : Nat} {last : Int} (few : shown ≤ term.inputBuf.length)
    (place : last = term.x.toInt + 8 * term.prompt.length + 8 * shown)
    (rest : shown < term.inputBuf.length → term.stop ≤ last) (column : Nat) :
    term.CursorIn column ↔ (term.cursorVisible = true ∧ last < term.stop) ∧ last = term.x.toInt + 8 * column := by
  rw [stop] at rest ⊢
  constructor
  · rintro ⟨visible,ends,starts⟩
    have whole : shown = term.inputBuf.length := by
      by_contra part
      omega
    exact ⟨⟨visible,by omega⟩,by omega⟩
  · rintro ⟨⟨visible,before⟩,stands⟩
    have whole : shown = term.inputBuf.length := by
      by_contra part
      have := rest (by omega)
      omega
    exact ⟨visible,by omega,by omega⟩

theorem cursorRegion_eq {shown : Nat} {last : Int} (few : shown ≤ term.inputBuf.length)
    (place : last = term.x.toInt + 8 * term.prompt.length + 8 * shown)
    (rest : shown < term.inputBuf.length → term.stop ≤ last) (y : Int) :
    term.cursorRegion y = if term.cursorVisible = true ∧ last < term.stop then block last y 8 8 else ∅ := by
  ext pixel
  simp only [cursorRegion,cursorIn_iff few place rest,Set.mem_ofPred_eq]
  split
  next drawn =>
    constructor
    · rintro ⟨column,⟨_,stands⟩,painted⟩
      rwa [stands]
    · intro painted
      have stands : last = term.x.toInt + 8 * (term.prompt.length + shown : Nat) := by omega
      exact ⟨_,⟨drawn,stands⟩,stands ▸ painted⟩
  next absent =>
    refine iff_of_false ?_ (Set.notMem_empty pixel)
    rintro ⟨_,⟨drawn,_⟩,_⟩
    exact absent drawn

theorem drawCursor_painted (screen : term.FitsScreen) {shown : Nat} (bottom : y.toInt + 8 ≤ 2^15) (ink : fg ∈ palette)
    (few : shown ≤ term.inputBuf.length) (place : px.toInt = term.x.toInt + 8 * term.prompt.length + 8 * shown)
    (rest : shown < term.inputBuf.length → term.stop ≤ px.toInt) (fb : Framebuffer) :
    ∃ next, term.drawCursor px y fg fb = .ok next ∧
      Painted palette (term.cursorRegion y.toInt) fb next := by
  have right := screen.right
  obtain ⟨edge,found,value⟩ := stop_ok screen
  rw [cursorRegion_eq few place rest,drawCursor]
  split
  next visible =>
    rw [found,ok_bind]
    split
    next before =>
      rw [Int16.lt_iff_toInt_lt,value] at before
      rw [if_pos ⟨visible,before⟩]
      rw [stop] at before
      exact @fillRect_painted palette px y 8 8 fg (by decide) (by decide) (by simp; omega) (by simp; omega) ink fb
    next behind =>
      rw [Int16.lt_iff_toInt_lt,value] at behind
      rw [if_neg (fun drawn => behind drawn.2)]
      exact ⟨fb,rfl,.refl fb⟩
  next hidden =>
    rw [if_neg (fun drawn => hidden drawn.1)]
    exact ⟨fb,rfl,.refl fb⟩

/-- The prompt, the drawn part of the input and the cursor are the columns of the input line. -/
theorem lineRegion_eq {shown : Nat} {last : Int} (few : shown ≤ term.inputBuf.length)
    (place : last = term.x.toInt + 8 * term.prompt.length + 8 * shown)
    (inside : ∀ i : Nat, i < shown → term.x.toInt + 8 * term.prompt.length + 8 * i < term.stop)
    (rest : shown < term.inputBuf.length → term.stop ≤ last) (y : Int) :
    textRegion term.prompt term.x.toInt y ∪
      textRegion (term.inputBuf.take shown) (term.x.toInt + 8 * term.prompt.length) y ∪ term.cursorRegion y =
      term.lineRegion y := by
  ext pixel
  simp only [Set.mem_union,mem_promptRegion,mem_inputRegion few place inside rest,cursorRegion,lineRegion,
    Set.mem_ofPred_eq]
  constructor
  · rintro ((⟨column,_,shows,painted⟩ | ⟨column,_,shows,painted⟩) | ⟨column,stands,painted⟩)
    · exact ⟨column,Or.inl shows,painted⟩
    · exact ⟨column,Or.inl shows,painted⟩
    · exact ⟨column,Or.inr stands,painted⟩
  · rintro ⟨column,shows | stands,painted⟩
    · rcases Nat.lt_or_ge column term.prompt.length with early | late
      · exact Or.inl (Or.inl ⟨column,early,shows,painted⟩)
      · exact Or.inl (Or.inr ⟨column,late,shows,painted⟩)
    · exact Or.inr ⟨column,stands,painted⟩

theorem inputRow_ok (screen : term.FitsScreen) : ∃ place, term.rowTop term.visibleRows = .ok place ∧
    place.toInt = term.y.toInt + 8 * term.visibleRows :=
  rowTop_ok screen (Nat.le_trans (Nat.le_add_right _ _) (rows_le screen))

theorem render_painted (screen : term.FitsScreen) (reach : term.x.toInt + 8 * term.prompt.length < 2^15) (fb : Framebuffer) :
    ∃ part next, part ⊆ term.region ∧ term.render font theme fb = .ok next ∧
      Painted {theme.windowBg,theme.textPrimary,promptColor}
        (part ∪ term.lineRegion (term.y.toInt + 8 * term.visibleRows)) fb next := by
  have bottom := screen.bottom
  have rows := rows_le screen
  have paper : theme.windowBg ∈ ({theme.windowBg,theme.textPrimary,promptColor} : Set UInt8) := by simp
  have ink : theme.textPrimary ∈ ({theme.windowBg,theme.textPrimary,promptColor} : Set UInt8) := by simp
  have prompted : promptColor ∈ ({theme.windowBg,theme.textPrimary,promptColor} : Set UInt8) := by simp
  let start := if term.visibleRows < term.lines.length then term.lines.length - term.visibleRows else 0
  have few : 0 + (term.lines.drop start).length ≤ term.visibleRows := by
    rw [List.length_drop]
    dsimp only [start]
    split <;> omega
  obtain ⟨part,scrolled,inside,lines,above⟩ := @drawLines_painted _ font term _ _ screen ink paper _ 0 few fb
  obtain ⟨inputY,placed,value⟩ := inputRow_ok screen
  obtain ⟨px,named,prompt,before⟩ := @drawChars_painted _ font term.prompt term.x inputY promptColor theme.windowBg
    reach (by omega) prompted paper scrolled
  have place := drawChars_ok prompt
  obtain ⟨shown,last,typed,input,short,ends,starts,rest,line⟩ := @drawInput_painted _ font term term.inputBuf px inputY _ _
    screen (by omega) ink paper named
  rw [place] at ends starts line
  obtain ⟨next,blinked,cursor⟩ := @drawCursor_painted _ term last inputY _ screen shown (by omega) ink short ends rest typed
  refine ⟨part,next,inside,?_,?_⟩
  · rw [render,lines,ok_bind,placed,ok_bind,prompt,ok_bind]
    simp only [input,ok_bind]
    exact blinked
  · have whole := ((above.trans before).trans line).trans cursor
    rwa [Set.union_assoc,Set.union_assoc,← Set.union_assoc (textRegion _ _ _),lineRegion_eq short ends starts rest,
      value] at whole

/-- Rendering returns, and no pixel outside the bounds changes. -/
def DrawsInside (font : Font) (theme : Theme) (term : TerminalWidget) : Prop :=
  ∀ fb, ∃ next, term.render font theme fb = .ok next ∧
    ∀ x y, (x.toInt,y.toInt) ∉ term.region → next.getPixel x y = fb.getPixel x y

theorem unused_color (a b c : UInt8) : ∃ color, color ∉ ({a,b,c} : Set UInt8) := by
  by_contra used
  have all : [0,1,2,3] ⊆ [a,b,c] := by
    intro color _
    simpa using not_not.mp (not_exists.mp used color)
  have more := (List.subperm_of_subset (by decide : [(0 : UInt8),1,2,3].Nodup) all).length_le
  simp at more

/-- Right of the terminal, in a column that is painted. -/
theorem painted_outside (screen : term.FitsScreen) {column : Nat} (short : term.stop ≠ 320)
    (wide : term.w.toNat < 8 * column + 8) (visible : term.x.toInt + 8 * column < 320) :
    ∃ x y, OnScreen x y ∧ (x.toInt,y.toInt) ∉ term.region ∧
      (x.toInt,y.toInt) ∈ block (term.x.toInt + 8 * column) (term.y.toInt + 8 * term.visibleRows) 8 8 := by
  have left := screen.left
  have right := screen.right
  have top := screen.top
  have bottom := screen.bottom
  have rows := rows_le screen
  rw [stop] at short
  have range : -2^15 ≤ max (term.x.toInt + 8 * column) (term.x.toInt + term.w.toNat) := by omega
  obtain ⟨x,_,place⟩ := checked_in_range range (by omega)
  obtain ⟨y,_,row⟩ := inputRow_ok screen
  refine ⟨x,y,Framebuffer.onScreen_iff.mpr ?_,?_,?_⟩
  · omega
  · rintro ⟨⟨_,inside⟩,_⟩
    dsimp only at inside
    omega
  · refine ⟨⟨?_,?_⟩,?_,?_⟩ <;> dsimp only <;> omega

theorem lineFits_of_drawsInside (screen : term.FitsScreen) (inside : term.DrawsInside font theme) : term.LineFits := by
  have reach : term.x.toInt + 8 * term.prompt.length < 2^15 := by
    obtain ⟨next,ran,_⟩ := inside (.filled 0)
    obtain ⟨scrolled,_,ran⟩ := bind_ok.mp ran
    obtain ⟨inputY,_,ran⟩ := bind_ok.mp ran
    obtain ⟨⟨px,named⟩,prompt,_⟩ := bind_ok.mp ran
    rw [← drawChars_ok prompt]
    exact px.toInt_lt
  refine ⟨reach,or_iff_not_imp_left.mpr ?_⟩
  intro short column stands
  by_contra sticks
  rw [not_or,Nat.not_le,not_le] at sticks
  obtain ⟨x,y,on,out,into⟩ := painted_outside screen short sticks.1 sticks.2
  obtain ⟨color,unused⟩ := unused_color theme.windowBg theme.textPrimary promptColor
  obtain ⟨next,ran,same⟩ := inside (.filled color)
  obtain ⟨part,drawn,_,ran',painted⟩ := @render_painted font theme term screen reach (.filled color)
  obtain rfl := Except.ok.inj (ran.symm.trans ran')
  have inked := painted.inside x y on (Or.inr ⟨column,stands,into⟩)
  rw [same x y out,Framebuffer.getPixel_filled on] at inked
  exact unused inked

theorem drawsInside_of_lineFits (screen : term.FitsScreen) (fits : term.LineFits) : term.DrawsInside font theme := by
  intro fb
  obtain ⟨part,next,scrollback,ran,painted⟩ := render_painted screen fits.reach fb
  refine ⟨next,ran,?_⟩
  intro x y out
  by_cases on : OnScreen x y
  · refine painted.outside x y ?_
    rintro (scrolled | ⟨column,stands,⟨leftEdge,rightEdge⟩,above,below⟩)
    · exact out (scrollback scrolled)
    · obtain ⟨⟨_,edge⟩,_⟩ := Framebuffer.onScreen_iff.mp on
      have rows := rows_le screen
      dsimp only at leftEdge rightEdge above below
      refine out ⟨⟨?_,?_⟩,?_,?_⟩ <;> dsimp only
      · omega
      · rcases fits.clipped with whole | columns
        · rw [stop] at whole
          omega
        · rcases columns column stands with within | beyond <;> omega
      · omega
      · omega
  · simp only [Framebuffer.getPixel,if_neg on]

/-- A terminal draws inside its bounds when the painted columns of its input line lie there. -/
theorem drawsInside_iff (font : Font) (theme : Theme) (screen : term.FitsScreen) :
    term.DrawsInside font theme ↔ term.LineFits :=
  ⟨lineFits_of_drawsInside screen,drawsInside_of_lineFits screen⟩

def blankFont : Font := fun _ _ => 0

def darkTheme : Theme := ⟨1,7⟩

theorem windowTerminal_fitsScreen : windowTerminal.FitsScreen := by constructor <;> decide

theorem windowTerminal_draws_inside : windowTerminal.DrawsInside blankFont darkTheme := by
  refine (drawsInside_iff blankFont darkTheme windowTerminal_fitsScreen).mpr ⟨by decide,Or.inr ?_⟩
  have width : windowTerminal.w.toNat = 278 := by decide
  rintro column (⟨ch,found,_⟩ | ⟨_,stands,_⟩)
  · have bound : column < 3 := (List.getElem?_eq_some_iff.mp found).1
    omega
  · have ends : column = 3 := stands
    omega

/-- A directory with a name of forty letters, whose prompt is wider than the window. -/
def deepTerminal : TerminalWidget := {windowTerminal with cwd := [List.replicate 40 'a']}

theorem long_prompt_sticks_out : deepTerminal.FitsScreen ∧ ¬deepTerminal.DrawsInside blankFont darkTheme := by
  have screen : deepTerminal.FitsScreen := by constructor <;> decide
  refine ⟨screen,?_⟩
  intro inside
  have shows : deepTerminal.Shows 34 := ⟨'a',by decide,by decide,Or.inl (by decide)⟩
  rcases (lineFits_of_drawsInside screen inside).clipped with whole | columns
  · exact absurd whole (by decide)
  · exact absurd (columns 34 (Or.inl shows)) (by decide)

end TerminalWidget

end PolarOs.Gui
