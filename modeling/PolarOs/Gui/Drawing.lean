import PolarOs.Gui.Framebuffer

/-! Filled rectangles and characters (`gui/primitives.rs`, `gui/font.rs`). -/
namespace PolarOs.Gui
open Library Library.Checked Library.Signed

/-- `BASIC_LEGACY`: the rows of each character of ASCII, of which the first eight are used. -/
abbrev Font := Fin 128 → Nat → UInt8

def charHeight : Nat := 8

/-- The loops over the rows and over the columns of a row. -/
def paintBlock (x y : Int16) (w h : Nat) (color : Nat → Nat → UInt8) (fb : Framebuffer) : Checked Framebuffer :=
  (List.range h).foldlM (fun fb row => (List.range w).foldlM (fun fb col => do
    let px ← add x (Int16.ofNat col)
    let py ← add y (Int16.ofNat row)
    return fb.setPixel px py (color row col)) fb) fb

def fillRect (x y : Int16) (w h : UInt16) (color : UInt8) (fb : Framebuffer) : Checked Framebuffer :=
  paintBlock x y w.toInt16.toInt.toNat h.toInt16.toInt.toNat (fun _ _ => color) fb

def drawCharBg (font : Font) (x y : Int16) (ch : Char) (fg bg : UInt8) (fb : Framebuffer) : Checked Framebuffer :=
  if known : ch.toNat < 128 then
    let glyph := font ⟨ch.toNat,known⟩
    paintBlock x y charWidth charHeight
      (fun row col => if glyph row &&& (1 <<< UInt8.ofNat col) ≠ 0 then fg else bg) fb
  else .ok fb

/-- The pixels from this one on, as many as the width and the height say. -/
def block (x y w h : Int) : Region := {pixel | (x ≤ pixel.1 ∧ pixel.1 < x + w) ∧ y ≤ pixel.2 ∧ pixel.2 < y + h}

variable {palette : Set UInt8} {x y : Int16} {w h : Nat} {fg bg : UInt8} {ch : Char} {color : Nat → Nat → UInt8}

theorem offset_ok {start : Int16} {steps : Nat} (few : steps < 2^15) (fits : start.toInt + steps < 2^15) :
    ∃ place, add start (Int16.ofNat steps) = .ok place ∧ place.toInt = start.toInt + steps := by
  have value : (Int16.ofNat steps).toInt = steps := Int16.toInt_ofNat_of_lt few
  have low := start.le_toInt
  rw [Signed.add,value]
  exact checked_in_range (by omega) fits

theorem block_eq (x y : Int) (w h : Nat) :
    (⋃ row ∈ List.range h, ⋃ col ∈ List.range w, {(x + col,y + row)} : Region) = block x y w h := by
  ext ⟨px,py⟩
  simp only [Set.mem_iUnion,List.mem_range,Set.mem_singleton_iff,Prod.mk.injEq,block,Set.mem_ofPred_eq,exists_prop]
  constructor
  · rintro ⟨row,below,col,left,rfl,rfl⟩
    omega
  · rintro ⟨⟨left,right⟩,top,low⟩
    exact ⟨(py - y).toNat,by omega,(px - x).toNat,by omega,by omega,by omega⟩

theorem paintBlock_painted (few : w < 2^15) (low : h < 2^15) (right : x.toInt + w ≤ 2^15) (bottom : y.toInt + h ≤ 2^15)
    (used : ∀ row col, color row col ∈ palette) (fb : Framebuffer) :
    ∃ next, paintBlock x y w h color fb = .ok next ∧ Painted palette (block x.toInt y.toInt w h) fb next := by
  rw [← block_eq]
  refine Painted.foldlM ?_ fb
  intro row below fb
  refine Painted.foldlM ?_ fb
  intro col left fb
  rw [List.mem_range] at below left
  obtain ⟨px,across,column⟩ := @offset_ok x col (by omega) (by omega)
  obtain ⟨py,down,line⟩ := @offset_ok y row (by omega) (by omega)
  refine ⟨fb.setPixel px py (color row col),?_,?_⟩
  · rw [across,ok_bind,down]
    rfl
  · rw [← column,← line]
    exact .setPixel (used row col)

/-- The pixels of a character; those outside ASCII have none. -/
def cell (ch : Char) (x y : Int) : Region := if ch.toNat < 128 then block x y charWidth charHeight else ∅

theorem drawCharBg_painted (font : Font) (right : x.toInt + 8 ≤ 2^15) (bottom : y.toInt + 8 ≤ 2^15) (ink : fg ∈ palette)
    (paper : bg ∈ palette) (fb : Framebuffer) :
    ∃ next, drawCharBg font x y ch fg bg fb = .ok next ∧ Painted palette (cell ch x.toInt y.toInt) fb next := by
  rw [drawCharBg,cell]
  split
  next known =>
    refine paintBlock_painted (by decide) (by decide) right bottom ?_ fb
    intro row col
    split
    next => exact ink
    next => exact paper
  next unknown => exact ⟨fb,rfl,.refl fb⟩

theorem fillRect_painted {w h : UInt16} {color : UInt8} (few : w.toNat < 2^15) (low : h.toNat < 2^15)
    (right : x.toInt + w.toNat ≤ 2^15) (bottom : y.toInt + h.toNat ≤ 2^15) (used : color ∈ palette) (fb : Framebuffer) :
    ∃ next, fillRect x y w h color fb = .ok next ∧ Painted palette (block x.toInt y.toInt w.toNat h.toNat) fb next := by
  rw [fillRect,toInt_of_small few,toInt_of_small low]
  exact paintBlock_painted few low right bottom (fun _ _ => used) fb

/-! What a rectangle changes on the screen. Both loops run to the size cast to `i16`, and not at
all when the cast gives a negative number. -/

/-- A pixel of the screen has the colour when it lies in the rectangle or had it before, no pixel
outside the rectangle changes, and every pixel of the screen has its place in the buffer. -/
structure PaintsVisible (x y : Int16) (w h : UInt16) (color : UInt8) (fb next : Framebuffer) : Prop where
  returns : fillRect x y w h color fb = .ok next
  painted : ∀ px py, OnScreen px py → (next.getPixel px py = color ↔
    (px.toInt,py.toInt) ∈ block x.toInt y.toInt w.toNat h.toNat ∨ fb.getPixel px py = color)
  outside : ∀ px py, (px.toInt,py.toInt) ∉ block x.toInt y.toInt w.toNat h.toNat →
    next.getPixel px py = fb.getPixel px py
  placed : ∀ px py, OnScreen px py → Framebuffer.position px py < fb.buffer.length

theorem fillRect_cast {w h : UInt16} (color : UInt8) (right : x.toInt + w.toNat ≤ 32767)
    (bottom : y.toInt + h.toNat ≤ 32767) (fb : Framebuffer) :
    ∃ next, fillRect x y w h color fb = .ok next ∧ Painted {color}
      (block x.toInt y.toInt (w.toInt16.toInt.toNat : Nat) (h.toInt16.toInt.toNat : Nat)) fb next := by
  have across := x.toInt_lt
  have down := y.toInt_lt
  have width := toNat_toInt w
  have height := toNat_toInt h
  refine paintBlock_painted ?_ ?_ ?_ ?_ (fun _ _ => Set.mem_singleton color) fb
  all_goals split at width <;> split at height <;> omega

theorem fillRect_wide {w h : UInt16} (color : UInt8) (right : x.toInt + w.toNat ≤ 32767)
    (bottom : y.toInt + h.toNat ≤ 32767) (fb : Framebuffer) (large : ¬(w.toNat < 2^15 ∧ h.toNat < 2^15)) :
    ∃ next, fillRect x y w h color fb = .ok next ∧ ∀ px py, next.getPixel px py = fb.getPixel px py := by
  obtain ⟨next,ran,painted⟩ := fillRect_cast color right bottom fb
  rw [toNat_toInt,toNat_toInt] at painted
  refine ⟨next,ran,?_⟩
  intro px py
  refine painted.outside px py ?_
  rintro ⟨⟨left,right⟩,top,low⟩
  split at right <;> split at low <;> omega

/-- The visible part of the rectangle is painted when no size is changed by the cast, and
otherwise when it has the colour already. -/
theorem fillRect_visible_iff {w h : UInt16} (right : x.toInt + w.toNat ≤ 32767) (bottom : y.toInt + h.toNat ≤ 32767)
    (color : UInt8) (fb : Framebuffer) : (∃ next, PaintsVisible x y w h color fb next) ↔
      (w.toNat < 2^15 ∧ h.toNat < 2^15) ∨ ∀ px py, OnScreen px py →
        (px.toInt,py.toInt) ∈ block x.toInt y.toInt w.toNat h.toNat → fb.getPixel px py = color := by
  have placed : ∀ px py, OnScreen px py → Framebuffer.position px py < fb.buffer.length :=
    fun _ _ on => fb.size ▸ Framebuffer.position_lt on
  by_cases small : w.toNat < 2^15 ∧ h.toNat < 2^15
  · obtain ⟨next,ran,painted⟩ := fillRect_cast color right bottom fb
    rw [toNat_toInt,toNat_toInt,if_pos small.1,if_pos small.2] at painted
    refine iff_of_true ⟨next,ran,?_,painted.outside,placed⟩ (Or.inl small)
    intro px py on
    by_cases inside : (px.toInt,py.toInt) ∈ block x.toInt y.toInt w.toNat h.toNat
    · exact iff_of_true (painted.inside px py on inside) (Or.inl inside)
    · rw [painted.outside px py inside,or_iff_right inside]
  · obtain ⟨next,ran,same⟩ := fillRect_wide color right bottom fb small
    rw [or_iff_right small]
    constructor
    · rintro ⟨other,again,exact_part,_⟩ px py on inside
      obtain rfl := Except.ok.inj (ran.symm.trans again)
      rw [← same px py]
      exact (exact_part px py on).mpr (Or.inl inside)
    · intro held
      refine ⟨next,ran,?_,fun px py _ => same px py,placed⟩
      intro px py on
      rw [same px py]
      exact ⟨Or.inr,fun either => either.elim (held px py on) id⟩

theorem corner_rect_painted : ∃ next, PaintsVisible (-2) (-1) 5 4 7 (.filled 0) next :=
  (fillRect_visible_iff (by decide) (by decide) 7 (.filled 0)).mpr (Or.inl ⟨by decide,by decide⟩)

/-- A rectangle that starts one column left of the screen and is 32768 pixels wide. -/
theorem wide_rect_missing : (-1 : Int16).toInt + (32768 : UInt16).toNat ≤ 32767 ∧
    ¬∃ next, PaintsVisible (-1) 0 32768 1 7 (.filled 0) next := by
  refine ⟨by decide,?_⟩
  obtain ⟨next,ran,same⟩ := @fillRect_wide (-1) 0 32768 1 7 (by decide) (by decide) (.filled 0) (by decide)
  rintro ⟨other,again,painted,_⟩
  obtain rfl := Except.ok.inj (ran.symm.trans again)
  have on : OnScreen 0 0 := by decide
  have colored := (painted 0 0 on).mpr (Or.inl (by constructor <;> decide))
  rw [same,Framebuffer.getPixel_filled on] at colored
  cases colored

end PolarOs.Gui
