import PolarOs.Gui.Compositor
import Mathlib.Data.Set.Lattice

/-! The framebuffer of the screen (`gui/framebuffer.rs`) and what drawing can do to it: pixels
in a region take colours of a palette, and no other pixel changes. -/
namespace PolarOs.Gui
open Library Library.Checked Library.Signed

def fbSize : Nat := screenWidth.toNat * screenHeight.toNat

structure Framebuffer where
  buffer : List UInt8
  size : buffer.length = fbSize

def OnScreen (x y : Int16) : Prop := 0 ≤ x ∧ x < screenWidth.toInt16 ∧ 0 ≤ y ∧ y < screenHeight.toInt16

instance (x y : Int16) : Decidable (OnScreen x y) := inferInstanceAs (Decidable (_ ∧ _ ∧ _ ∧ _))

namespace Framebuffer

/-- `y as usize * SCREEN_WIDTH as usize + x as usize`. -/
def position (x y : Int16) : Nat := y.toInt.toNat * screenWidth.toNat + x.toInt.toNat

def filled (color : UInt8) : Framebuffer := ⟨List.replicate fbSize color,List.length_replicate⟩

def setPixel (fb : Framebuffer) (x y : Int16) (color : UInt8) : Framebuffer :=
  if OnScreen x y then ⟨fb.buffer.set (position x y) color,(List.length_set ..).trans fb.size⟩ else fb

def getPixel (fb : Framebuffer) (x y : Int16) : UInt8 :=
  if OnScreen x y then fb.buffer[position x y]?.getD 0 else 0

variable {fb middle next : Framebuffer} {x y x' y' : Int16} {color : UInt8}

theorem onScreen_iff : OnScreen x y ↔ (0 ≤ x.toInt ∧ x.toInt < 320) ∧ 0 ≤ y.toInt ∧ y.toInt < 200 := by
  have zero : (0 : Int16).toInt = 0 := by decide
  have right : screenWidth.toInt16.toInt = 320 := by decide
  have low : screenHeight.toInt16.toInt = 200 := by decide
  rw [OnScreen,Int16.le_iff_toInt_le,Int16.lt_iff_toInt_lt,Int16.le_iff_toInt_le,Int16.lt_iff_toInt_lt,zero,right,low,
    and_assoc]

theorem position_lt (on : OnScreen x y) : position x y < fbSize := by
  obtain ⟨⟨left,right⟩,top,low⟩ := onScreen_iff.mp on
  have size : fbSize = 64000 := by decide
  have width : screenWidth.toNat = 320 := by decide
  rw [position,size,width]
  omega

theorem position_inj (on : OnScreen x y) (on' : OnScreen x' y') (same : position x y = position x' y') :
    x = x' ∧ y = y' := by
  obtain ⟨⟨left,right⟩,top,low⟩ := onScreen_iff.mp on
  obtain ⟨⟨left',right'⟩,top',low'⟩ := onScreen_iff.mp on'
  have width : screenWidth.toNat = 320 := by decide
  rw [position,position,width] at same
  rw [← Int16.toInt_inj,← Int16.toInt_inj]
  omega

theorem getPixel_setPixel (fb : Framebuffer) (x y x' y' : Int16) (color : UInt8) :
    (fb.setPixel x y color).getPixel x' y' = if OnScreen x y ∧ x' = x ∧ y' = y then color else fb.getPixel x' y' := by
  by_cases on : OnScreen x y
  · rw [setPixel,if_pos on]
    by_cases same : x' = x ∧ y' = y
    · obtain ⟨rfl,rfl⟩ := same
      have inside : position x' y' < fb.buffer.length := fb.size ▸ position_lt on
      simp [getPixel,on,inside]
    · rw [if_neg (fun all => same all.2),getPixel,getPixel]
      split
      next on' =>
        have other : position x y ≠ position x' y' := by
          intro equal
          obtain ⟨rfl,rfl⟩ := position_inj on on' equal
          exact same ⟨rfl,rfl⟩
        rw [List.getElem?_set_ne other]
      next => rfl
  · rw [setPixel,if_neg on,if_neg (fun all => on all.1)]

theorem getPixel_filled (on : OnScreen x y) : (filled color).getPixel x y = color := by
  simp [getPixel,on,filled,position_lt on]

end Framebuffer

/-- Pixels of the screen, by their coordinates. -/
abbrev Region := Set (Int × Int)

/-- The pixels of the region have taken colours of the palette. -/
structure Painted (palette : Set UInt8) (region : Region) (fb next : Framebuffer) : Prop where
  outside : ∀ x y, (x.toInt,y.toInt) ∉ region → next.getPixel x y = fb.getPixel x y
  inside : ∀ x y, OnScreen x y → (x.toInt,y.toInt) ∈ region → next.getPixel x y ∈ palette

namespace Painted

variable {palette : Set UInt8} {region other : Region} {fb middle next : Framebuffer} {x y : Int16} {color : UInt8}

theorem refl (fb : Framebuffer) : Painted palette ∅ fb fb := ⟨fun _ _ _ => rfl,fun _ _ _ none => none.elim⟩

theorem trans (first : Painted palette region fb middle) (second : Painted palette other middle next) :
    Painted palette (region ∪ other) fb next where
  outside x y out := by
    rw [Set.mem_union,not_or] at out
    rw [second.outside x y out.2,first.outside x y out.1]
  inside x y on into := by
    by_cases again : (x.toInt,y.toInt) ∈ other
    · exact second.inside x y on again
    · rw [second.outside x y again]
      exact first.inside x y on (into.resolve_right again)

theorem setPixel (used : color ∈ palette) : Painted palette {(x.toInt,y.toInt)} fb (fb.setPixel x y color) where
  outside x' y' out := by
    rw [Framebuffer.getPixel_setPixel,if_neg]
    rintro ⟨_,rfl,rfl⟩
    exact out rfl
  inside x' y' on into := by
    obtain ⟨column,row⟩ := Prod.mk.inj into
    obtain rfl := Int16.toInt_inj.mp column
    obtain rfl := Int16.toInt_inj.mp row
    rw [Framebuffer.getPixel_setPixel,if_pos ⟨on,rfl,rfl⟩]
    exact used

/-- A loop that paints a region in each round. -/
theorem foldlM {α : Type} {items : List α} {body : Framebuffer → α → Checked Framebuffer} {part : α → Region}
    (each : ∀ item ∈ items, ∀ fb, ∃ next, body fb item = .ok next ∧ Painted palette (part item) fb next)
    (fb : Framebuffer) :
    ∃ next, items.foldlM body fb = .ok next ∧ Painted palette (⋃ item ∈ items, part item) fb next := by
  induction items generalizing fb with
  | nil => exact ⟨fb,rfl,by simpa using refl fb⟩
  | cons item items ih =>
    obtain ⟨middle,first,painted⟩ := each item List.mem_cons_self fb
    obtain ⟨next,rest,later⟩ := ih (fun other member => each other (List.mem_cons_of_mem _ member)) middle
    refine ⟨next,?_,?_⟩
    · rw [List.foldlM_cons,first]
      exact rest
    · have both := painted.trans later
      simpa using both

end Painted

end PolarOs.Gui
