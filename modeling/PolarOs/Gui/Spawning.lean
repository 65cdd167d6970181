import PolarOs.Gui.Compositor
import PolarOs.Gui.Wrapping

/-! Terminal windows as they are opened (`spawn_terminal_window` in `gui/mod.rs`): their ids
come from a counter, and their places from their ids. -/
namespace PolarOs.Gui
open Library Library.Checked Library.Signed

variable {δ μ : Type}

/-- The subtraction of the widget sizes, which are unsigned. -/
def lessThan (a b : UInt16) : Checked UInt16 := if b ≤ a then .ok (a - b) else .error .panic

def Window.contentRect (window : Window δ μ) : Checked Rect := do
  let x ← add window.x 1
  let y ← add window.y titleHeight.toInt16
  let w ← lessThan window.w 2
  let h ← lessThan (← lessThan window.h titleHeight) 1
  return ⟨x,y,w,h⟩

/-- `NEXT_WIDGET_ID` at the start. -/
def nextWidgetId : UInt32 := 10

/-- The id and the counter afterwards; `fetch_add` wraps around. -/
def nextId (counter : UInt32) : UInt32 × UInt32 := (counter,counter + 1)

def spawnOffset (winId : UInt32) : Checked Int16 := do
  let steps ← sub winId.toUInt16.toInt16 10
  let shift ← mul steps 15
  return shift % 60

def spawnTerminalWindow (comp : Compositor δ μ) (counter : UInt32) : Checked (Compositor δ μ × UInt32) := do
  let (winId,counter) := nextId counter
  let (termId,counter) := nextId counter
  let offset ← spawnOffset winId
  let x ← add 20 offset
  let y ← add 10 offset
  let win : Window δ μ := ⟨winId.toNat,x,y,280,160,none⟩
  let cr ← win.contentRect
  let terminal ← TerminalWidget.new termId.toNat cr.x cr.y cr.w cr.h
  return (comp.addWidget (.window {win with content := some (.terminal terminal)}),counter)

/-- The counter after this many windows were opened. -/
def counterAfter (opened : Nat) : UInt32 := (fun counter => (nextId (nextId counter).2).2)^[opened] nextWidgetId

theorem counterAfter_toNat (opened : Nat) : (counterAfter opened).toNat = (10 + 2 * opened) % 2^32 := by
  induction opened with
  | zero => rfl
  | succ opened ih =>
    have next : counterAfter (opened + 1) = counterAfter opened + 1 + 1 := Function.iterate_succ_apply' _ _ _
    have one : (1 : UInt32).toNat = 1 := rfl
    simp only [next,UInt32.toNat_add,ih,one]
    omega

theorem winId_toInt (winId : UInt32) : winId.toUInt16.toInt16.toInt = (winId.toNat : Int).bmod (2^16) := by
  have bits : winId.toUInt16.toInt16.toInt = winId.toUInt16.toBitVec.toInt := rfl
  have low : winId.toUInt16.toBitVec.toNat = winId.toNat % 2^16 := rfl
  rw [bits,BitVec.toInt_eq_toNat_bmod,low,Int.natCast_mod]
  exact Int.emod_bmod _ _

/-- How far the id of the window is from the first one, in sixteen bits. -/
def steps (opened : Nat) : Int := ((10 + 2 * opened : Nat) : Int).bmod (2^16) - 10

theorem counterAfter_steps (opened : Nat) : (counterAfter opened).toUInt16.toInt16.toInt - 10 = steps opened := by
  have low : (((10 + 2 * opened) % 2^32 : Nat) : Int).bmod (2^16) = ((10 + 2 * opened : Nat) : Int).bmod (2^16) := by
    rw [Int.bmod_def,Int.bmod_def]
    omega
  unfold steps
  simp only [winId_toInt,counterAfter_toNat,low]

theorem spawnOffset_ok {winId : UInt32} {offset : Int16} : spawnOffset winId = .ok offset ↔
    (-2^15 ≤ (winId.toUInt16.toInt16.toInt - 10) * 15 ∧ (winId.toUInt16.toInt16.toInt - 10) * 15 < 2^15) ∧
      offset.toInt = ((winId.toUInt16.toInt16.toInt - 10) * 15).tmod 60 := by
  have ten : (10 : Int16).toInt = 10 := by decide
  have fifteen : (15 : Int16).toInt = 15 := by decide
  have sixty : (60 : Int16).toInt = 60 := by decide
  constructor
  · intro ran
    obtain ⟨steps,near,ran⟩ := bind_ok.mp ran
    obtain ⟨shift,scaled,ran⟩ := bind_ok.mp ran
    cases ran
    rw [sub_ok,ten] at near
    rw [mul_ok,fifteen,near] at scaled
    rw [← scaled,Int16.toInt_mod,sixty]
    exact ⟨⟨shift.le_toInt,shift.toInt_lt⟩,rfl⟩
  · rintro ⟨⟨low,high⟩,result⟩
    obtain ⟨steps,near,value⟩ := checked_in_range (by omega : -2^15 ≤ winId.toUInt16.toInt16.toInt - 10) (by omega)
    rw [← value] at low high result
    obtain ⟨shift,scaled,product⟩ := checked_in_range low high
    have same : shift % 60 = offset := by
      rw [← Int16.toInt_inj,Int16.toInt_mod,product,result,sixty]
    rw [spawnOffset,Signed.sub,ten,near,ok_bind,Signed.mul,fifteen,scaled,ok_bind,same]
    rfl

/-- The remainder takes the sign of the shift. -/
theorem shift_nonneg_iff (steps : Int) : 0 ≤ (steps * 15).tmod 60 ↔ 0 ≤ steps ∨ steps % 4 = 0 := by
  rw [Int.tmod_eq_emod]
  split
  next plain =>
    have left : 0 ≤ steps ∨ steps % 4 = 0 := by omega
    exact iff_of_true (by omega) left
  next negative =>
    have right : ¬(0 ≤ steps ∨ steps % 4 = 0) := by omega
    exact iff_of_false (by omega) right

/-- The first windows, and every other one shortly before the ids in sixteen bits start again. -/
def PlaceFits (opened : Nat) : Prop :=
  opened % 2^15 ≤ 1092 ∨ 31676 ≤ opened % 2^15 ∧ opened % 2 = 0

theorem placeFits_iff (opened : Nat) :
    ((-2^15 ≤ steps opened * 15 ∧ steps opened * 15 < 2^15) ∧ 0 ≤ (steps opened * 15).tmod 60) ↔ PlaceFits opened := by
  unfold PlaceFits steps
  rw [shift_nonneg_iff,Int.bmod_def]
  omega

/-- The new window, on top and near the top left corner. -/
def Placed (comp next : Compositor δ μ) : Prop :=
  ∃ window, next.layers = comp.layers ++ [.window window] ∧ (20 ≤ window.x.toInt ∧ window.x.toInt < 80) ∧
    (10 ≤ window.y.toInt ∧ window.y.toInt < 70)

theorem contentRect_ok {window : Window δ μ} (width : window.w = 280) (height : window.h = 160)
    (right : window.x.toInt < 80) (low : window.y.toInt < 70) :
    ∃ x y, window.contentRect = .ok ⟨x,y,278,147⟩ := by
  have across := window.x.le_toInt
  have down := window.y.le_toInt
  have one : (1 : Int16).toInt = 1 := by decide
  have title : titleHeight.toInt16.toInt = 12 := by decide
  obtain ⟨x,added,_⟩ := checked_in_range (by omega : -2^15 ≤ window.x.toInt + 1) (by omega)
  obtain ⟨y,lowered,_⟩ := checked_in_range (by omega : -2^15 ≤ window.y.toInt + 12) (by omega)
  refine ⟨x,y,?_⟩
  rw [Window.contentRect,Signed.add,one,added,ok_bind,Signed.add,title,lowered,ok_bind,width,height]
  rfl

theorem pushLines_ascii {term : TerminalWidget} {lines : List Str} (wide : 0 < term.cols)
    (ascii : ∀ line ∈ lines, ∀ c ∈ line, c.utf8Size = 1) : ∃ next, term.pushLines lines = .ok next := by
  induction lines generalizing term with
  | nil => exact ⟨term,rfl⟩
  | cons line lines ih =>
    have aligned := aligned_of_ascii (ascii line List.mem_cons_self) term.cols
    obtain ⟨pieces,wrapped⟩ := (wrapLine_ok_iff wide (Nat.lt_succ_self _)).mpr aligned
    have pushed : term.pushLine line =
        .ok {term with lines := (term.lines ++ pieces).rtake maxScrollback} := by
      rw [TerminalWidget.pushLine,if_neg (Nat.ne_of_gt wide),wrapped]
      rfl
    rw [TerminalWidget.pushLines,pushed]
    exact ih wide fun later member => ascii later (List.mem_cons_of_mem _ member)

theorem terminal_new (id : Nat) (x y : Int16) : ∃ term, TerminalWidget.new id x y 278 147 = .ok term := by
  refine pushLines_ascii (show 0 < 278 / charWidth by decide) ?_
  simp [lit,Char.utf8Size]

theorem spawnTerminalWindow_ok (comp : Compositor δ μ) {counter : UInt32} {offset : Int16}
    (moved : spawnOffset counter = .ok offset) (left : 0 ≤ offset.toInt) (right : offset.toInt < 60) :
    ∃ next counter', spawnTerminalWindow comp counter = .ok (next,counter') ∧ Placed comp next := by
  have twenty : (20 : Int16).toInt = 20 := by decide
  have ten : (10 : Int16).toInt = 10 := by decide
  obtain ⟨x,across,column⟩ := checked_in_range (by omega : -2^15 ≤ 20 + offset.toInt) (by omega)
  obtain ⟨y,down,row⟩ := checked_in_range (by omega : -2^15 ≤ 10 + offset.toInt) (by omega)
  obtain ⟨left',top,content⟩ := @contentRect_ok δ μ ⟨counter.toNat,x,y,280,160,none⟩ rfl rfl
    (column.trans_lt (by omega)) (row.trans_lt (by omega))
  obtain ⟨term,created⟩ := terminal_new (counter + 1).toNat left' top
  have ran : spawnTerminalWindow comp counter =
      .ok (comp.addWidget (.window ⟨counter.toNat,x,y,280,160,some (.terminal term)⟩),counter + 1 + 1) := by
    simp only [spawnTerminalWindow,nextId,moved,ok_bind,Signed.add,twenty,ten,across,down,content,created]
    rfl
  refine ⟨_,_,ran,_,rfl,?_,?_⟩ <;> dsimp only <;> omega

/-- Where the window of this number (the first is number zero) is opened. -/
theorem spawned_placed_iff (comp : Compositor δ μ) (opened : Nat) :
    (∃ next counter, spawnTerminalWindow comp (counterAfter opened) = .ok (next,counter) ∧ Placed comp next) ↔
      PlaceFits opened := by
  rw [← placeFits_iff,← counterAfter_steps]
  constructor
  · rintro ⟨next,counter,ran,win,layers,⟨left,right⟩,_⟩
    obtain ⟨offset,moved,ran⟩ := bind_ok.mp ran
    obtain ⟨x,across,ran⟩ := bind_ok.mp ran
    obtain ⟨y,down,ran⟩ := bind_ok.mp ran
    obtain ⟨content,_,ran⟩ := bind_ok.mp ran
    obtain ⟨term,_,ran⟩ := bind_ok.mp ran
    cases ran
    have twenty : (20 : Int16).toInt = 20 := by decide
    obtain rfl := Layer.window.inj (List.singleton_inj.mp (List.append_cancel_left layers))
    obtain ⟨fits,value⟩ := spawnOffset_ok.mp moved
    rw [add_ok,twenty] at across
    exact ⟨fits,by dsimp only at left; omega⟩
  · rintro ⟨fits,sign⟩
    have small := Int.tmod_lt_of_pos ((((counterAfter opened).toUInt16.toInt16.toInt - 10)) * 15) (by decide : (0 : Int) < 60)
    obtain ⟨offset,result⟩ : ∃ offset : Int16,
        offset.toInt = (((counterAfter opened).toUInt16.toInt16.toInt - 10) * 15).tmod 60 :=
      ⟨_,Int16.toInt_ofInt_of_le (by omega) (by omega)⟩
    refine spawnTerminalWindow_ok comp (spawnOffset_ok.mpr ⟨fits,result⟩) ?_ ?_
    · rwa [result]
    · rwa [result]

/-- The window whose shift no longer fits sixteen bits. -/
theorem window_1093_overflows : ¬∃ next counter,
    spawnTerminalWindow (Compositor.new : Compositor Unit Unit) (counterAfter 1093) = .ok (next,counter) ∧
      Placed Compositor.new next := by
  rintro ⟨next,counter,ran,_⟩
  obtain ⟨offset,moved,_⟩ := bind_ok.mp ran
  obtain ⟨⟨_,high⟩,_⟩ := spawnOffset_ok.mp moved
  have far : steps 1093 = 2186 := by decide
  rw [counterAfter_steps,far] at high
  omega

end PolarOs.Gui
