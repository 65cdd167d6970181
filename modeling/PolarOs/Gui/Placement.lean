import PolarOs.Gui.Frames
import PolarOs.Gui.Dragging

/-! Where windows can be: whatever the mouse does, each window keeps a place on the screen at
which it can be dragged, and no event of the mouse stops the compositor. -/
namespace PolarOs.Gui
open Library Library.Checked Library.Signed

variable {δ μ : Type} {p : Platform δ μ} {event : Event} {world after : World δ μ} {resp : EventResponse}
variable {comp next ready : Compositor δ μ} {layers left : List (Layer δ μ)} {window : Window δ μ} {hitId : Nat} {x y : Int16}

instance (x y w h : Int) (pixel : Int × Int) : Decidable (pixel ∈ block x y w h) := inferInstanceAs (Decidable (_ ∧ _))

def Rect.area (rect : Rect) : Region := block rect.x.toInt rect.y.toInt rect.w.toNat rect.h.toNat

instance (rect : Rect) (pixel : Int × Int) : Decidable (pixel ∈ rect.area) :=
  inferInstanceAs (Decidable (pixel ∈ block rect.x.toInt rect.y.toInt rect.w.toNat rect.h.toNat))

/-- The coordinates of the rectangle and its far edges fit sixteen bits. -/
structure Rect.Fits (rect : Rect) : Prop where
  wide : rect.w.toNat < 2^15
  tall : rect.h.toNat < 2^15
  right : rect.x.toInt + rect.w.toNat < 2^15
  bottom : rect.y.toInt + rect.h.toNat < 2^15

theorem within_eq {start : Int16} {extent : UInt16} (few : extent.toNat < 2^15) (far : start.toInt + extent.toNat < 2^15)
    (place : Int16) : within start extent place =
      .ok (decide (start.toInt ≤ place.toInt ∧ place.toInt < start.toInt + extent.toNat)) := by
  have low := start.le_toInt
  obtain ⟨stop,reached,edge⟩ := checked_in_range (by omega : -2^15 ≤ start.toInt + extent.toNat) far
  rw [within]
  split
  next begun =>
    rw [Int16.le_iff_toInt_le] at begun
    rw [Signed.add,toInt_of_small few,reached,ok_bind]
    simp only [Int16.lt_iff_toInt_lt,edge,begun,true_and]
    rfl
  next before =>
    rw [Int16.le_iff_toInt_le] at before
    rw [decide_eq_false (fun both => before both.1)]

theorem Rect.contains_eq {rect : Rect} (fits : rect.Fits) (x y : Int16) :
    rect.contains x y = .ok (decide ((x.toInt,y.toInt) ∈ rect.area)) := by
  rw [contains,within_eq fits.wide fits.right,ok_bind,within_eq fits.tall fits.bottom]
  split
  next across =>
    rw [decide_eq_true_iff] at across
    exact congrArg Except.ok (decide_eq_decide.mpr (and_iff_right across).symm)
  next outside =>
    rw [decide_eq_true_iff] at outside
    exact congrArg Except.ok (decide_eq_false fun both => outside both.1).symm

/-- The title bar of a window without its close button. -/
def handleAt (x y : Int) : Region := block x y 280 12 \ block (x + 269) (y + 1) 10 10

theorem handleAt_shift {x y px py : Int} : (px - x,py - y) ∈ handleAt 0 0 ↔ (px,py) ∈ handleAt x y := by
  simp only [handleAt,block,Set.mem_sdiff,Set.mem_ofPred_eq]
  omega

namespace Window

def handle (window : Window δ μ) : Region := handleAt window.x.toInt window.y.toInt

/-- Some pixel of the screen is one where a press begins a drag. -/
def Graspable (window : Window δ μ) : Prop := ∃ pixel ∈ screen, pixel ∈ window.handle

theorem Graspable.near (grasp : window.Graspable) : window.Near := by
  obtain ⟨⟨px,py⟩,⟨⟨left,right⟩,top,low⟩,⟨⟨column,far⟩,row,deep⟩,_⟩ := grasp
  dsimp only at left right top low column far row deep
  constructor <;> omega

theorem graspable_corner (on : OnScreen window.x window.y) : window.Graspable := by
  refine ⟨(window.x.toInt,window.y.toInt),mem_screen.mpr on,?_⟩
  rw [handle,← handleAt_shift,Int.sub_self,Int.sub_self]
  simp [handleAt,block]

/-- As the kernel opens windows, and as the mouse leaves them. -/
structure Kept (window : Window δ μ) : Prop where
  tidy : window.Tidy
  graspable : window.Graspable

theorem Kept.fits (kept : window.Kept) : window.bounds.Fits := by
  obtain ⟨left,right,top,bottom⟩ := kept.graspable.near
  obtain ⟨width,height,_⟩ := kept.tidy
  have wide : (280 : UInt16).toNat = 280 := rfl
  have tall : (160 : UInt16).toNat = 160 := rfl
  constructor <;> simp only [bounds,width,height,wide,tall]
  · decide
  · decide
  · omega
  · omega

end Window

def Layer.Kept (layer : Layer δ μ) : Prop := ∀ window, layer = .window window → window.Kept

theorem Layer.Kept.fits {layer : Layer δ μ} (kept : layer.Kept) : layer.bounds.Fits := by
  cases layer with
  | desktop id =>
    have sizes : (0 : Int16).toInt = 0 ∧ screenWidth.toNat = 320 ∧ screenHeight.toNat = 200 := by decide
    constructor <;> simp only [Layer.bounds,sizes] <;> decide
  | window win => exact (kept win rfl).fits

/-- The distance from the corner of a window to a pixel of its handle. -/
def DragState.Grips (drag : DragState) : Prop := (drag.offsetX.toInt,drag.offsetY.toInt) ∈ handleAt 0 0

namespace Compositor

structure Kept (comp : Compositor δ μ) : Prop where
  layers : ∀ layer ∈ comp.layers, layer.Kept
  grips : ∀ drag, comp.dragState = some drag → drag.Grips

theorem hitLoop_eq (kept : ∀ layer ∈ layers, layer.Kept) (x y : Int16) : hitLoop x y layers =
    .ok ((layers.find? fun layer => (x.toInt,y.toInt) ∈ layer.bounds.area).map Layer.id) := by
  induction layers with
  | nil => rfl
  | cons layer rest ih =>
    rw [hitLoop,Rect.contains_eq (kept layer List.mem_cons_self).fits,ok_bind,List.find?_cons]
    cases decide ((x.toInt,y.toInt) ∈ layer.bounds.area) with
    | true => rfl
    | false => exact ih fun other member => kept other (List.mem_cons_of_mem _ member)

/-- A press hits the topmost layer at its pixel. -/
theorem hitTest_eq (kept : comp.Kept) (x y : Int16) : comp.hitTest x y =
    .ok ((comp.layers.reverse.find? fun layer => (x.toInt,y.toInt) ∈ layer.bounds.area).map Layer.id) :=
  hitLoop_eq (fun layer member => kept.layers layer (List.mem_reverse.mp member)) x y

end Compositor

/-! The mouse. -/

namespace Window

theorem closeRect_ok (kept : window.Kept) : ∃ x y, Compositor.closeRect window.bounds = .ok ⟨x,y,10,10⟩ ∧
    x.toInt = window.x.toInt + 269 ∧ y.toInt = window.y.toInt + 1 := by
  obtain ⟨left,right,top,bottom⟩ := kept.graspable.near
  have twelve : titleHeight.toInt16.toInt = 12 := by decide
  have one : (1 : Int16).toInt = 1 := by decide
  obtain ⟨far,across,wide⟩ := shifted window.x (by decide : (280 : UInt16).toInt16.toInt = 280) (by omega) (by omega)
  obtain ⟨inner,back,short⟩ := checked_in_range (by omega : -2^15 ≤ far.toInt - 12) (by omega)
  obtain ⟨x,again,column⟩ := shifted inner one (by omega) (by omega)
  obtain ⟨y,down,row⟩ := shifted window.y one (by omega) (by omega)
  refine ⟨x,y,?_,by omega,row⟩
  rw [Compositor.closeRect,bounds,kept.tidy.width]
  dsimp only
  rw [across,ok_bind,Signed.sub,twelve,back,ok_bind,again,ok_bind,down]
  rfl

/-- The terminal of a window takes no part in what the mouse does. -/
theorem forward_mouse (p : Platform δ μ) (tidy : window.Tidy) (mouse : ∀ key, event ≠ .keyPress key) (still : event ≠ .tick)
    (world : World δ μ) : window.forward p event world = .ok (.ignored,window,world) := by
  obtain ⟨term,content⟩ := tidy.terminal
  have ignored : term.handleEvent p event world = .ok (.ignored,term,world) := by
    cases event with
    | keyPress key => exact absurd rfl (mouse key)
    | tick => exact absurd rfl still
    | _ => rfl
  rw [forward,content]
  dsimp only
  rw [Content.handleEvent,ignored,ok_bind]
  change Except.ok (EventResponse.ignored,{window with content := some (.terminal term)},world) = _
  rw [← content]

end Window

theorem Layer.handleEvent_mouse (p : Platform δ μ) {layer : Layer δ μ} (kept : layer.Kept) (mouse : ∀ key, event ≠ .keyPress key)
    (still : event ≠ .tick) (world : World δ μ) : ∃ resp, layer.handleEvent p event world = .ok (resp,layer,world) := by
  cases layer with
  | desktop id =>
    have answers : ∃ resp, desktopAnswer event = .ok resp := by
      unfold desktopAnswer
      split
      next x y =>
        rw [Rect.contains_eq (by constructor <;> decide : iconRect.Fits),ok_bind]
        split <;> exact ⟨_,rfl⟩
      next => exact ⟨_,rfl⟩
    obtain ⟨resp,answered⟩ := answers
    refine ⟨resp,?_⟩
    rw [handleEvent,answered]
    rfl
  | window win =>
    have known := kept win rfl
    have handled : ∃ resp, win.handleEvent p event world = .ok (resp,win,world) := by
      have forwarded := Window.forward_mouse p known.tidy mouse still world
      unfold Window.handleEvent
      split
      next x y =>
        obtain ⟨column,row,placed,across,down⟩ := Window.closeButtonRect_ok known.tidy known.graspable.near
        obtain ⟨_,right,_,bottom⟩ := known.graspable.near
        have ten : (10 : UInt16).toNat = 10 := rfl
        have small : (⟨column,row,10,10⟩ : Rect).Fits := by
          constructor <;> dsimp only <;> omega
        rw [placed,ok_bind,Rect.contains_eq small,ok_bind]
        split
        next => exact ⟨_,rfl⟩
        next =>
          rw [Rect.contains_eq known.fits,ok_bind]
          split
          next =>
            rw [forwarded,ok_bind]
            exact ⟨_,rfl⟩
          next => exact ⟨_,rfl⟩
      next => exact ⟨_,forwarded⟩
    obtain ⟨resp,answered⟩ := handled
    refine ⟨resp,?_⟩
    rw [handleEvent,answered]
    rfl

namespace Compositor

theorem forward_mouse (p : Platform δ μ) (kept : ∀ layer ∈ layers, layer.Kept) (mouse : ∀ key, event ≠ .keyPress key)
    (still : event ≠ .tick) (id : Nat) (world : World δ μ) : ∃ resp, forward p event id layers world = .ok (resp,layers,world) := by
  induction layers with
  | nil => exact ⟨_,rfl⟩
  | cons layer rest ih =>
    rw [forward]
    split
    next =>
      obtain ⟨resp,handled⟩ := Layer.handleEvent_mouse p (kept layer List.mem_cons_self) mouse still world
      refine ⟨resp,?_⟩
      rw [handled]
      rfl
    next =>
      obtain ⟨resp,handled⟩ := ih fun other member => kept other (List.mem_cons_of_mem _ member)
      refine ⟨resp,?_⟩
      rw [handled]
      rfl

theorem broadcast_mouse (p : Platform δ μ) (kept : ∀ layer ∈ layers, layer.Kept) (mouse : ∀ key, event ≠ .keyPress key)
    (still : event ≠ .tick) (world : World δ μ) : broadcast p event layers world = .ok (layers,world) := by
  induction layers with
  | nil => rfl
  | cons layer rest ih =>
    obtain ⟨resp,handled⟩ := Layer.handleEvent_mouse p (kept layer List.mem_cons_self) mouse still world
    rw [broadcast,handled,ok_bind]
    dsimp only
    rw [ih fun other member => kept other (List.mem_cons_of_mem _ member)]
    rfl

theorem startDrag_kept (windows : ∀ layer ∈ comp.layers, layer.id = hitId → ∃ window, layer = .window window)
    (kept : comp.Kept) (x y : Int16) :
    ∃ next, comp.startDrag hitId x y = .ok next ∧ next.layers = comp.layers ∧ next.Kept := by
  unfold startDrag
  split
  next => exact ⟨comp,rfl,rfl,kept⟩
  next widget found =>
    have member := List.mem_of_find?_eq_some found
    obtain ⟨window,rfl⟩ := windows widget member (by simpa using List.find?_some found)
    have known := kept.layers _ member window rfl
    obtain ⟨left,right,top,bottom⟩ := known.graspable.near
    obtain ⟨column,row,placed,across,down⟩ := Window.closeRect_ok known
    have wide : (280 : UInt16).toNat = 280 := rfl
    have strip : titleHeight.toNat = 12 := rfl
    have ten : (10 : UInt16).toNat = 10 := rfl
    have width : window.w.toNat = 280 := congrArg UInt16.toNat known.tidy.width
    have bar : (⟨window.x,window.y,window.w,titleHeight⟩ : Rect).Fits := by
      constructor <;> dsimp only <;> omega
    have small : (⟨column,row,10,10⟩ : Rect).Fits := by
      constructor <;> dsimp only <;> omega
    dsimp only [Layer.bounds,Window.bounds] at placed ⊢
    rw [placed,ok_bind,Rect.contains_eq bar,ok_bind]
    by_cases title : (x.toInt,y.toInt) ∈ (⟨window.x,window.y,window.w,titleHeight⟩ : Rect).area
    · rw [decide_eq_true title,Rect.contains_eq small,ok_bind]
      by_cases close : (x.toInt,y.toInt) ∈ (⟨column,row,10,10⟩ : Rect).area
      · rw [decide_eq_true close]
        exact ⟨comp,rfl,rfl,kept⟩
      · rw [decide_eq_false close]
        have gripped : (x.toInt,y.toInt) ∈ handleAt window.x.toInt window.y.toInt := by
          refine ⟨?_,?_⟩
          · rwa [Rect.area,width] at title
          · rwa [Rect.area,across,down] at close
        obtain ⟨⟨⟨begins,ends⟩,upper,lower⟩,_⟩ := handleAt_shift.mpr gripped
        dsimp only at begins ends upper lower
        obtain ⟨offsetX,aside,first⟩ := checked_in_range (by omega : -2^15 ≤ x.toInt - window.x.toInt) (by omega)
        obtain ⟨offsetY,below,second⟩ := checked_in_range (by omega : -2^15 ≤ y.toInt - window.y.toInt) (by omega)
        refine ⟨{comp with dragState := some ⟨hitId,offsetX,offsetY⟩},?_,rfl,kept.layers,?_⟩
        · simp only [Signed.sub,aside,below,ok_bind]
          rfl
        · intro drag begun
          cases begun
          rw [DragState.Grips,first,second]
          exact handleAt_shift.mpr gripped
    · rw [decide_eq_false title]
      exact ⟨comp,rfl,rfl,kept⟩

theorem press_kept (held : comp.WellFormed) (kept : comp.Kept) (present : ∃ layer ∈ comp.layers, layer.id = hitId)
    (x y : Int16) : ∃ next, comp.press hitId x y = .ok next ∧ next.Kept := by
  unfold press
  split
  next window =>
    obtain ⟨layer,_,up⟩ := raiseToTop_raised present
    have raised : {comp.raiseToTop hitId with focusedId := some hitId}.Kept := by
      refine ⟨fun other member => kept.layers other ((up.mem other).mp member),?_⟩
      dsimp only
      rw [raiseToTop_dragState]
      exact kept.grips
    obtain ⟨next,ran,_,known⟩ := @startDrag_kept δ μ _ hitId (by
      intro other member same
      have there := (up.mem other).mp member
      have named := held.window_name there (by rw [same]; exact window)
      cases other with
      | desktop id => cases named
      | window win => exact ⟨win,rfl⟩) raised x y
    exact ⟨next,ran,known⟩
  next => exact ⟨comp,rfl,kept⟩

/-- A dragged window keeps the pixel at which it was gripped under the pointer. -/
theorem moveTo_kept (kept : ∀ layer ∈ layers, layer.Kept) (id : Nat)
    (moved : ∀ window : Window δ μ, window.x = x → window.y = y → window.Graspable) :
    ∀ layer ∈ moveTo id x y layers, layer.Kept := by
  induction layers with
  | nil => exact kept
  | cons head rest ih =>
    unfold moveTo
    split
    next =>
      intro layer member
      rcases List.mem_cons.mp member with rfl | other
      · cases head with
        | desktop own => exact kept _ List.mem_cons_self
        | window win =>
          rintro window ⟨⟩
          have known := kept _ List.mem_cons_self win rfl
          exact ⟨⟨known.tidy.width,known.tidy.height,known.tidy.terminal⟩,moved _ rfl rfl⟩
      · exact kept layer (List.mem_cons_of_mem _ other)
    next =>
      intro layer member
      rcases List.mem_cons.mp member with rfl | other
      · exact kept _ List.mem_cons_self
      · exact ih (fun other member => kept other (List.mem_cons_of_mem _ member)) layer other

theorem drag_kept (kept : comp.Kept) (on : OnScreen x y) : ∃ next, comp.drag x y = .ok next ∧ next.Kept := by
  unfold drag
  split
  next => exact ⟨comp,rfl,kept⟩
  next drag dragging =>
    have grips := kept.grips drag dragging
    have seen := mem_screen.mpr on
    obtain ⟨⟨left,right⟩,top,bottom⟩ := seen
    dsimp only at left right top bottom
    obtain ⟨⟨⟨begins,ends⟩,upper,lower⟩,_⟩ := grips
    dsimp only at begins ends upper lower
    obtain ⟨newX,across,column⟩ := checked_in_range (by omega : -2^15 ≤ x.toInt - drag.offsetX.toInt) (by omega)
    obtain ⟨newY,down,row⟩ := checked_in_range (by omega : -2^15 ≤ y.toInt - drag.offsetY.toInt) (by omega)
    refine ⟨{comp with layers := moveTo drag.widgetId newX newY comp.layers},?_,?_,kept.grips⟩
    · rw [Signed.sub,across,ok_bind,Signed.sub,down,ok_bind]
      rfl
    · refine moveTo_kept kept.layers drag.widgetId ?_
      intro window atX atY
      refine ⟨(x.toInt,y.toInt),mem_screen.mpr on,?_⟩
      have place : window.x.toInt = x.toInt - drag.offsetX.toInt ∧ window.y.toInt = y.toInt - drag.offsetY.toInt := by
        rw [atX,atY]
        exact ⟨column,row⟩
      have distance : x.toInt - window.x.toInt = drag.offsetX.toInt ∧ y.toInt - window.y.toInt = drag.offsetY.toInt := by
        omega
      rw [Window.handle,← handleAt_shift,distance.1,distance.2]
      exact kept.grips drag dragging

end Compositor

/-- The events of the mouse lie on the screen. -/
def Event.Visible : Event → Prop
  | .mouseMove x y | .mouseDown x y _ | .mouseUp x y _ => OnScreen x y
  | .keyPress _ | .tick => True

namespace Compositor

theorem removeWidget_kept (kept : comp.Kept) (id : Nat) : (comp.removeWidget id).Kept where
  layers layer member := kept.layers layer (List.mem_of_mem_filter member)
  grips drag known := kept.grips drag (removeWidget_dragState known).1

theorem addWidget_kept (kept : comp.Kept) (known : window.Kept) : (comp.addWidget (.window window)).Kept where
  layers layer member := by
    rcases List.mem_append.mp member with there | added
    · exact kept.layers layer there
    · rw [List.mem_singleton.mp added]
      rintro _ ⟨⟩
      exact known
  grips := kept.grips

/-- What the compositor makes of the answer of a layer that was pressed. -/
def answered (resp : EventResponse) (comp : Compositor δ μ) (hitId : Nat) : Bool × Compositor δ μ :=
  match resp with
  | .closeRequest => (false,comp.removeWidget hitId)
  | .openTerminal => (true,comp)
  | _ => (false,comp)

theorem handleEvent_press (tested : comp.hitTest x y = .ok (some hitId)) (prepared : comp.press hitId x y = .ok ready)
    (forwarded : forward p (.mouseDown x y .left) hitId ready.layers world = .ok (resp,layers,after)) :
    comp.handleEvent p (.mouseDown x y .left) world =
      .ok ((answered resp {ready with layers} hitId).1,(answered resp {ready with layers} hitId).2,after) := by
  rw [handleEvent,tested,ok_bind]
  dsimp only
  rw [prepared,ok_bind,forwarded]
  cases resp <;> rfl

theorem answered_kept (kept : comp.Kept) (resp : EventResponse) (id : Nat) : (answered resp comp id).2.Kept := by
  cases resp with
  | closeRequest => exact removeWidget_kept kept id
  | _ => exact kept

/-- No event of the mouse stops the compositor or changes the world. -/
theorem mouse_kept (held : comp.WellFormed) (kept : comp.Kept) (mouse : ∀ key, event ≠ .keyPress key)
    (visible : event.Visible) (world : World δ μ) :
    ∃ spawn next, comp.handleEvent p event world = .ok (spawn,next,world) ∧ next.Kept := by
  cases event with
  | keyPress key => exact absurd rfl (mouse key)
  | tick => exact ⟨false,comp,rfl,kept⟩
  | mouseUp x y button =>
    refine ⟨false,{comp with dragState := none},?_,kept.layers,by intro drag known; cases known⟩
    rw [handleEvent,broadcast_mouse p kept.layers mouse (by simp)]
    rfl
  | mouseMove x y =>
    obtain ⟨dragged,ran,known⟩ := drag_kept kept visible
    refine ⟨false,dragged,?_,known⟩
    rw [handleEvent,ran,ok_bind,broadcast_mouse p known.layers mouse (by simp)]
    rfl
  | mouseDown x y button =>
    cases button with
    | left =>
      have tested := hitTest_eq kept x y
      cases hit : (comp.layers.reverse.find? fun layer => (x.toInt,y.toInt) ∈ layer.bounds.area).map Layer.id with
      | none =>
        refine ⟨false,comp,?_,kept⟩
        rw [handleEvent,tested,hit]
        rfl
      | some hitId =>
        rw [hit] at tested
        obtain ⟨below,layer,above,parts,same,_⟩ := hitTest_some tested
        obtain ⟨ready,prepared,known⟩ := press_kept held kept ⟨layer,parts ▸ by simp,same⟩ x y
        obtain ⟨resp,forwarded⟩ := forward_mouse p known.layers mouse (by simp) hitId world
        exact ⟨_,_,handleEvent_press tested prepared forwarded,answered_kept known resp hitId⟩
    | right => exact ⟨false,comp,rfl,kept⟩
    | middle => exact ⟨false,comp,rfl,kept⟩

end Compositor

/-! The keyboard. -/

/-- The terminal of the layer. -/
def Layer.terminal? : Layer δ μ → Option TerminalWidget
  | .desktop _ => none
  | .window win =>
    match win.content with
    | some (.terminal term) => some term
    | _ => none

variable {key : KeyCode}

theorem Window.forward_terminal {term : TerminalWidget} (content : window.content = some (.terminal term)) (world : World δ μ) :
    window.forward p event world = do
      let (resp,term,world) ← term.handleEvent p event world
      return (resp,{window with content := some (.terminal term)},world) := by
  rw [forward,content]
  dsimp only
  rw [Content.handleEvent,bind_assoc]
  rfl

theorem Layer.handleEvent_kept {layer moved : Layer δ μ} (kept : layer.Kept)
    (ran : layer.handleEvent p (.keyPress key) world = .ok (resp,moved,after)) : moved.Kept := by
  cases layer with
  | desktop id =>
    cases ran
    intro window none
    cases none
  | window win =>
    obtain ⟨tidy,grasp⟩ := kept win rfl
    obtain ⟨⟨answer,next,_⟩,handled,done⟩ := bind_ok.mp ran
    cases done
    rintro _ ⟨⟩
    obtain ⟨term,content⟩ := tidy.terminal
    change win.forward p (.keyPress key) world = _ at handled
    rw [Window.forward_terminal content] at handled
    obtain ⟨⟨answer,later,_⟩,_,done⟩ := bind_ok.mp handled
    cases done
    exact ⟨⟨tidy.width,tidy.height,later,rfl⟩,grasp⟩

theorem TerminalWidget.key_returns_iff (p : Platform δ μ) (term : TerminalWidget) (key : KeyCode) (world : World δ μ) :
    (∃ result, term.handleEvent p (.keyPress key) world = .ok result) ↔
      (key = .enter → ∃ result, term.executeCommand p world = .ok result) := by
  cases key with
  | enter =>
    rw [handleEvent_enter]
    constructor
    · rintro ⟨result,ran⟩ _
      obtain ⟨executed,known,_⟩ := bind_ok.mp ran
      exact ⟨executed,known⟩
    · intro runs
      obtain ⟨executed,known⟩ := runs rfl
      exact ⟨_,bind_ok.mpr ⟨executed,known,rfl⟩⟩
  | char ch => exact iff_of_true ⟨_,handleEvent_char p term ch world⟩ (by intro same; cases same)
  | _ => exact iff_of_true ⟨_,rfl⟩ (by intro same; cases same)

theorem Layer.key_returns_iff (p : Platform δ μ) {layer : Layer δ μ} (kept : layer.Kept) (key : KeyCode) (world : World δ μ) :
    (∃ result, layer.handleEvent p (.keyPress key) world = .ok result) ↔
      (key = .enter → ∀ term, layer.terminal? = some term → ∃ result, term.executeCommand p world = .ok result) := by
  cases layer with
  | desktop id => exact iff_of_true ⟨_,rfl⟩ (by intro _ term none; cases none)
  | window win =>
    obtain ⟨term,content⟩ := (kept win rfl).tidy.terminal
    have same : (Layer.window win).terminal? = some term := by
      rw [Layer.terminal?,content]
    have through : (∃ result, (Layer.window win).handleEvent p (.keyPress key) world = .ok result) ↔
        ∃ result, term.handleEvent p (.keyPress key) world = .ok result := by
      constructor
      · rintro ⟨result,ran⟩
        obtain ⟨moved,handled,_⟩ := bind_ok.mp ran
        change win.forward p (.keyPress key) world = _ at handled
        rw [Window.forward_terminal content] at handled
        obtain ⟨inner,known,_⟩ := bind_ok.mp handled
        exact ⟨inner,known⟩
      · rintro ⟨result,known⟩
        have moved : win.handleEvent p (.keyPress key) world = .ok _ :=
          (Window.forward_terminal content world).trans (bind_ok.mpr ⟨result,known,rfl⟩)
        exact ⟨_,bind_ok.mpr ⟨_,moved,rfl⟩⟩
    rw [through,TerminalWidget.key_returns_iff,same]
    exact ⟨fun runs enter other known => Option.some.inj known ▸ runs enter,fun runs enter => runs enter term rfl⟩

namespace Compositor

theorem forward_key_kept (kept : ∀ layer ∈ layers, layer.Kept)
    (ran : forward p (.keyPress key) hitId layers world = .ok (resp,left,after)) : ∀ layer ∈ left, layer.Kept := by
  induction layers generalizing resp left after with
  | nil =>
    cases ran
    exact kept
  | cons head rest ih =>
    unfold forward at ran
    split at ran
    next =>
      obtain ⟨⟨answer,moved,_⟩,handled,done⟩ := bind_ok.mp ran
      cases done
      refine List.forall_mem_cons.mpr ⟨Layer.handleEvent_kept (kept head List.mem_cons_self) handled,?_⟩
      exact fun layer member => kept layer (List.mem_cons_of_mem _ member)
    next =>
      obtain ⟨⟨answer,others,_⟩,handled,done⟩ := bind_ok.mp ran
      cases done
      exact List.forall_mem_cons.mpr ⟨kept head List.mem_cons_self,
        ih (fun layer member => kept layer (List.mem_cons_of_mem _ member)) handled⟩

/-- The event reaches the first layer of that id, and only that one can fail. -/
theorem forward_returns_iff (p : Platform δ μ) (event : Event) (id : Nat) (layers : List (Layer δ μ)) (world : World δ μ) :
    (∃ result, forward p event id layers world = .ok result) ↔
      ∀ layer, layers.find? (fun layer => layer.id = id) = some layer → ∃ result, layer.handleEvent p event world = .ok result := by
  induction layers with
  | nil => exact iff_of_true ⟨_,rfl⟩ (by intro layer none; cases none)
  | cons head rest ih =>
    rw [forward,List.find?_cons]
    by_cases here : head.id = id
    · rw [if_pos here,decide_eq_true here]
      constructor
      · rintro ⟨result,ran⟩ layer found
        cases found
        obtain ⟨handled,known,_⟩ := bind_ok.mp ran
        exact ⟨handled,known⟩
      · intro runs
        obtain ⟨handled,known⟩ := runs head rfl
        exact ⟨_,bind_ok.mpr ⟨handled,known,rfl⟩⟩
    · rw [if_neg here,decide_eq_false here,← ih]
      constructor
      · rintro ⟨result,ran⟩
        obtain ⟨handled,known,_⟩ := bind_ok.mp ran
        exact ⟨handled,known⟩
      · rintro ⟨handled,known⟩
        exact ⟨_,bind_ok.mpr ⟨handled,known,rfl⟩⟩

/-- The terminal that the keyboard goes to. -/
def focusedTerminal (comp : Compositor δ μ) : Option TerminalWidget := do
  let fid ← comp.focusedId
  let layer ← comp.layers.find? fun layer => layer.id = fid
  layer.terminal?

theorem handleEvent_focused {fid : Nat} (focus : comp.focusedId = some fid) (key : KeyCode) (world : World δ μ) :
    comp.handleEvent p (.keyPress key) world = do
      let (_,layers,world) ← forward p (.keyPress key) fid comp.layers world
      return (false,{comp with layers},world) := by
  simp only [handleEvent,focus]

theorem handleEvent_unfocused (focus : comp.focusedId = none) (key : KeyCode) (world : World δ μ) :
    comp.handleEvent p (.keyPress key) world = .ok (false,comp,world) := by
  simp only [handleEvent,focus]

/-- Only a command can fail. -/
theorem key_returns_iff (p : Platform δ μ) (kept : comp.Kept) (key : KeyCode) (world : World δ μ) :
    (∃ result, comp.handleEvent p (.keyPress key) world = .ok result) ↔
      (key = .enter → ∀ term, comp.focusedTerminal = some term → ∃ result, term.executeCommand p world = .ok result) := by
  cases focus : comp.focusedId with
  | none =>
    refine iff_of_true ⟨_,handleEvent_unfocused focus key world⟩ ?_
    intro _ term known
    rw [focusedTerminal,focus] at known
    cases known
  | some fid =>
    have through : (∃ result, comp.handleEvent p (.keyPress key) world = .ok result) ↔
        ∃ result, forward p (.keyPress key) fid comp.layers world = .ok result := by
      rw [handleEvent_focused focus]
      constructor
      · rintro ⟨result,ran⟩
        obtain ⟨handled,known,_⟩ := bind_ok.mp ran
        exact ⟨handled,known⟩
      · rintro ⟨handled,known⟩
        exact ⟨_,bind_ok.mpr ⟨handled,known,rfl⟩⟩
    rw [through,forward_returns_iff,focusedTerminal,focus]
    simp only [Option.bind_eq_bind,Option.bind_some]
    cases found : comp.layers.find? fun layer => layer.id = fid with
    | none => exact iff_of_true (by intro layer none; cases none) (by intro _ term none; cases none)
    | some layer =>
      have known := Layer.key_returns_iff p (kept.layers layer (List.mem_of_find?_eq_some found)) key world
      rw [Option.bind_some,← known]
      exact ⟨fun runs => runs layer rfl,fun runs other same => Option.some.inj same ▸ runs⟩

theorem key_kept (kept : comp.Kept) {spawn : Bool}
    (ran : comp.handleEvent p (.keyPress key) world = .ok (spawn,next,after)) : spawn = false ∧ next.Kept := by
  cases focus : comp.focusedId with
  | none =>
    rw [handleEvent_unfocused focus] at ran
    cases ran
    exact ⟨rfl,kept⟩
  | some fid =>
    rw [handleEvent_focused focus] at ran
    obtain ⟨⟨resp,layers,_⟩,forwarded,done⟩ := bind_ok.mp ran
    cases done
    exact ⟨rfl,forward_key_kept kept.layers forwarded,kept.grips⟩

end Compositor

end PolarOs.Gui
