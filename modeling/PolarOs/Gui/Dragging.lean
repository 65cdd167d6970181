import PolarOs.Gui.CompositorRuns

/-! A window that is dragged by its title bar. The drag lives through every event but a left
press and a release, and each movement of the pointer puts the window where it belongs. -/
namespace PolarOs.Gui
open Library Library.Checked Library.Signed Library.Stacking

variable {δ μ : Type} {p : Platform δ μ} {event : Event} {world after : World δ μ} {resp : EventResponse}
variable {comp next middle last : Compositor δ μ} {layers left : List (Layer δ μ)} {window : Window δ μ} {x y : Int16}

/-- Neither a left press nor a release of any button. -/
def Event.keepsDrag : Event → Bool
  | .mouseDown _ _ .left => false
  | .mouseUp _ _ _ => false
  | _ => true

def Window.titleBar (window : Window δ μ) : Rect := ⟨window.x,window.y,window.w,titleHeight⟩

/-- The window of that id is there, and it is at this position. -/
structure WindowAt (comp : Compositor δ μ) (id : Nat) (x y : Int) : Prop where
  present : ∃ window, .window window ∈ comp.layers ∧ window.id = id
  position : ∀ window, .window window ∈ comp.layers → window.id = id → window.x.toInt = x ∧ window.y.toInt = y

def Layer.place (layer : Layer δ μ) : LayerName × Rect := (layer.name,layer.bounds)

theorem Layer.handleEvent_place {layer moved : Layer δ μ}
    (ran : layer.handleEvent p event world = .ok (resp,moved,after)) : moved.place = layer.place := by
  refine Prod.ext (Layer.handleEvent_effect ran).1 ?_
  cases layer with
  | desktop own =>
    obtain ⟨answer,_,done⟩ := bind_ok.mp ran
    cases done
    rfl
  | window win =>
    obtain ⟨⟨answer,kept,_⟩,handled,done⟩ := bind_ok.mp ran
    cases done
    exact (Window.handleEvent_effect handled).bounds

namespace Compositor

theorem broadcast_places (ran : broadcast p event layers world = .ok (left,after)) :
    left.map Layer.place = layers.map Layer.place := by
  induction layers generalizing left world with
  | nil =>
    cases ran
    rfl
  | cons layer rest ih =>
    obtain ⟨⟨answer,moved,_⟩,handled,done⟩ := bind_ok.mp ran
    obtain ⟨⟨others,_⟩,later,last⟩ := bind_ok.mp done
    cases last
    rw [List.map_cons,List.map_cons,Layer.handleEvent_place handled,ih later]

theorem ids_eq (comp : Compositor δ μ) : comp.ids = comp.layers.map Layer.id := by
  rw [ids,names,List.map_map]
  exact List.map_congr_left fun layer _ => layer.name_id

theorem WellFormed.layer_unique (held : comp.WellFormed) {layer other : Layer δ μ} (member : layer ∈ comp.layers)
    (present : other ∈ comp.layers) (same : layer.id = other.id) : layer = other := by
  have distinct := held.distinct
  rw [ids_eq] at distinct
  exact List.inj_on_of_nodup_map distinct member present same

/-- With distinct ids there is no other layer to move. -/
theorem moveTo_position {id : Nat} (distinct : (layers.map Layer.id).Nodup)
    (member : .window window ∈ moveTo id x y layers) (same : window.id = id) : window.x = x ∧ window.y = y := by
  induction layers with
  | nil => cases member
  | cons layer rest ih =>
    rw [List.map_cons,List.nodup_cons] at distinct
    rw [moveTo] at member
    split at member
    next here =>
      rcases List.mem_cons.mp member with moved | other
      · cases layer with
        | desktop own => cases moved
        | window win =>
          cases moved
          exact ⟨rfl,rfl⟩
      · refine absurd ?_ distinct.1
        rw [here,← same]
        exact List.mem_map_of_mem other
    next elsewhere =>
      rcases List.mem_cons.mp member with head | other
      · rw [← head] at elsewhere
        exact absurd same elsewhere
      · exact ih distinct.2 other

/-- A movement of the pointer in a drag. -/
theorem move_places (held : comp.WellFormed) {drag : DragState} (dragging : comp.dragState = some drag)
    (moved : Step p comp (.event (.mouseMove x y)) next) :
    WindowAt next drag.widgetId (x.toInt - drag.offsetX.toInt) (y.toInt - drag.offsetY.toInt) := by
  obtain ⟨world,spawn,after,ran⟩ := moved
  obtain ⟨dragged,put,ran⟩ := bind_ok.mp ran
  obtain ⟨⟨told,_⟩,broadcasted,done⟩ := bind_ok.mp ran
  cases done
  have places := broadcast_places broadcasted
  have names : told.map Layer.name = comp.names := (broadcast_names broadcasted).trans (drag_effect put).1
  rw [Compositor.drag,dragging] at put
  obtain ⟨newX,across,put⟩ := bind_ok.mp put
  obtain ⟨newY,down,put⟩ := bind_ok.mp put
  cases put
  rw [sub_ok] at across down
  refine ⟨?present,?position⟩
  case present =>
    have known := held.dragged drag dragging
    rw [← names] at known
    obtain ⟨layer,member,named⟩ := List.mem_map.mp known
    cases layer with
    | desktop own => cases named
    | window win => exact ⟨win,member,LayerName.window.inj named⟩
  case position =>
    intro window member same
    have listed : (Layer.window window).place ∈ told.map Layer.place := List.mem_map_of_mem member
    rw [places] at listed
    obtain ⟨layer,before,placed⟩ := List.mem_map.mp listed
    obtain ⟨named,bounded⟩ := Prod.mk.inj placed
    cases layer with
    | desktop own => cases named
    | window win =>
      have distinct := held.distinct
      rw [ids_eq] at distinct
      obtain ⟨column,row⟩ := moveTo_position distinct before ((LayerName.window.inj named).trans same)
      have left : win.x = window.x := congrArg Rect.x bounded
      have top : win.y = window.y := congrArg Rect.y bounded
      rw [← left,← top,column,row]
      exact ⟨across,down⟩

theorem step_keeps_drag {input : Input δ μ} (quiet : ∀ event, input = .event event → event.keepsDrag)
    (step : Step p comp input next) : next.dragState = comp.dragState := by
  cases input with
  | addWidget window =>
    obtain ⟨_,rfl⟩ := step
    rfl
  | event event =>
    obtain ⟨world,spawn,after,ran⟩ := step
    have kept := quiet event rfl
    unfold handleEvent at ran
    split at ran
    next => cases kept
    next =>
      cases ran
      rfl
    next =>
      obtain ⟨dragged,moved,ran⟩ := bind_ok.mp ran
      obtain ⟨⟨others,_⟩,told,done⟩ := bind_ok.mp ran
      cases done
      exact (drag_effect moved).2.2
    next => cases kept
    next =>
      split at ran
      next =>
        cases ran
        rfl
      next =>
        obtain ⟨⟨answer,others,_⟩,forwarded,done⟩ := bind_ok.mp ran
        cases done
        rfl
    next =>
      cases ran
      rfl

/-- The press that begins a drag. -/
theorem startDrag_begins {hitId : Nat} (ran : comp.startDrag hitId x y = .ok next)
    (distinct : ∀ layer ∈ comp.layers, layer.id = hitId → layer = .window window) (member : .window window ∈ comp.layers)
    (same : window.id = hitId) (onTitle : window.titleBar.contains x y = .ok true) (offClose : ¬window.CloseHit x y) :
    ∃ drag, next.dragState = some drag ∧ drag.widgetId = hitId ∧
      drag.offsetX.toInt = x.toInt - window.x.toInt ∧ drag.offsetY.toInt = y.toInt - window.y.toInt := by
  unfold startDrag at ran
  split at ran
  next missing =>
    have other := List.find?_eq_none.mp missing _ member
    exact absurd (decide_eq_true same) other
  next widget found =>
    have named := List.find?_some found
    obtain rfl := distinct widget (List.mem_of_find?_eq_some found) (of_decide_eq_true named)
    obtain ⟨close,placed,ran⟩ := bind_ok.mp ran
    obtain ⟨title,tested,ran⟩ := bind_ok.mp ran
    obtain rfl : title = true := Except.ok.inj (tested.symm.trans onTitle)
    rw [if_neg (by decide)] at ran
    obtain ⟨closing,hit,ran⟩ := bind_ok.mp ran
    split at ran
    next yes =>
      rw [yes] at hit
      exact absurd ⟨close,closeRect_agrees placed,hit⟩ offClose
    next =>
      obtain ⟨offsetX,across,ran⟩ := bind_ok.mp ran
      obtain ⟨offsetY,down,ran⟩ := bind_ok.mp ran
      cases ran
      exact ⟨_,rfl,rfl,sub_ok.mp across,sub_ok.mp down⟩

theorem press_begins_drag (held : comp.WellFormed) (member : .window window ∈ comp.layers)
    (topmost : comp.hitTest x y = .ok (some window.id)) (onTitle : window.titleBar.contains x y = .ok true)
    (offClose : ¬window.CloseHit x y) (pressed : Step p comp (.event (.mouseDown x y .left)) next) :
    ∃ drag, next.dragState = some drag ∧ drag.widgetId = window.id ∧
      drag.offsetX.toInt = x.toInt - window.x.toInt ∧ drag.offsetY.toInt = y.toInt - window.y.toInt := by
  obtain ⟨world,spawn,after,ran⟩ := pressed
  obtain ⟨hit,tested,ran⟩ := bind_ok.mp ran
  obtain rfl : hit = some window.id := Except.ok.inj (tested.symm.trans topmost)
  obtain ⟨ready,prepared,ran⟩ := bind_ok.mp ran
  obtain ⟨⟨resp,layers,_⟩,forwarded,ran⟩ := bind_ok.mp ran
  have nonzero : window.id ≠ 0 := held.window_ne (List.mem_map_of_mem member)
  obtain ⟨ordered,_,_⟩ := press_effect nonzero prepared
  obtain ⟨layer,_,up⟩ := raiseToTop_raised ⟨_,member,rfl⟩
  have unique : ∀ layer ∈ (comp.raiseToTop window.id).layers, layer.id = window.id → layer = .window window :=
    fun layer present same => held.layer_unique ((up.mem _).mp present) member same
  rw [press,if_pos nonzero] at prepared
  obtain ⟨drag,begun,offsets⟩ := startDrag_begins prepared unique ((up.mem _).mpr member) rfl onTitle offClose
  rcases answer_cases ran with ⟨closing,_⟩ | rfl
  · obtain ⟨closed,present,same,x',y',event,button⟩ := (forward_effect forwarded).2 closing
    rw [ordered] at present
    cases unique _ present same
    cases event
    exact absurd button offClose
  · exact ⟨drag,begun,offsets⟩

theorem run_keeps_drag {inputs : List (Input δ μ)} (run : Run (Step p) comp inputs last) (held : comp.WellFormed)
    (kept : ∀ event, .event event ∈ inputs → event.keepsDrag) :
    last.WellFormed ∧ last.dragState = comp.dragState := by
  induction run with
  | nil => exact ⟨held,rfl⟩
  | cons step _ ih =>
    obtain ⟨known,same⟩ := ih (step_wellFormed held step) fun event later => kept event (List.mem_cons_of_mem _ later)
    refine ⟨known,same.trans (step_keeps_drag ?_ step)⟩
    rintro event rfl
    exact kept event List.mem_cons_self

/-- A dragged window follows the pointer as long as no button is released. -/
theorem dragged_window_follows {inputs : List (Input δ μ)} {toX toY : Int16} (held : comp.WellFormed)
    (member : .window window ∈ comp.layers) (topmost : comp.hitTest x y = .ok (some window.id))
    (onTitle : window.titleBar.contains x y = .ok true) (offClose : ¬window.CloseHit x y)
    (pressed : Step p comp (.event (.mouseDown x y .left)) next) (run : Run (Step p) next inputs middle)
    (kept : ∀ event, .event event ∈ inputs → event.keepsDrag) (moved : Step p middle (.event (.mouseMove toX toY)) last) :
    WindowAt last window.id (toX.toInt - (x.toInt - window.x.toInt)) (toY.toInt - (y.toInt - window.y.toInt)) := by
  obtain ⟨drag,begun,named,across,down⟩ := press_begins_drag held member topmost onTitle offClose pressed
  obtain ⟨known,same⟩ := run_keeps_drag run (step_wellFormed held pressed) kept
  have place := move_places known (same.trans begun) moved
  rwa [named,across,down] at place

def twoWindows : Compositor Unit Unit := ⟨[.desktop 0,.window lowerWindow,.window upperWindow],none,none⟩

theorem twoWindows_wellFormed : twoWindows.WellFormed := by
  have run : Run (Step bareMachine) bare [.addWidget lowerWindow,.addWidget upperWindow] twoWindows :=
    .cons ⟨by decide,rfl⟩ (.cons ⟨by decide,rfl⟩ (.nil _))
  exact run_wellFormed run

def lowerDragged : Compositor Unit Unit :=
  ⟨[.desktop 0,.window upperWindow,.window lowerWindow],some 1,some ⟨1,10,5⟩⟩

theorem lower_pressed : Step bareMachine twoWindows (.event (.mouseDown 30 15 .left)) lowerDragged :=
  ⟨bareWorld RamFs.new,false,_,press_lower _⟩

theorem lower_off_close : ¬lowerWindow.CloseHit 30 15 := by
  rintro ⟨rect,placed,hit⟩
  cases placed
  cases hit

/-- The right button is pressed while the left one is down. -/
theorem lower_follows :
    WindowAt ⟨[.desktop 0,.window upperWindow,.window (lowerWindow.setPosition 40 35)],some 1,some ⟨1,10,5⟩⟩ 1
      ((50 : Int16).toInt - ((30 : Int16).toInt - (20 : Int16).toInt))
      ((40 : Int16).toInt - ((15 : Int16).toInt - (10 : Int16).toInt)) := by
  have run : Run (Step bareMachine) lowerDragged [.event (.mouseDown 30 15 .right)] lowerDragged :=
    .cons ⟨bareWorld RamFs.new,false,_,rfl⟩ (.nil _)
  have title : lowerWindow.titleBar.contains 30 15 = .ok true := rfl
  have kept : ∀ event, .event event ∈ [(.event (.mouseDown 30 15 .right) : Input Unit Unit)] → event.keepsDrag := by
    intro event member
    cases Input.event.inj (List.mem_singleton.mp member)
    rfl
  exact dragged_window_follows twoWindows_wellFormed (List.mem_cons_of_mem _ List.mem_cons_self) rfl title
    lower_off_close lower_pressed run kept ⟨bareWorld RamFs.new,false,_,rfl⟩

/-- The release of the right button ends the drag of the left one. -/
theorem right_release_drops_window :
    ∃ middle last : Compositor Unit Unit, twoWindows.WellFormed ∧ .window lowerWindow ∈ twoWindows.layers ∧
      twoWindows.hitTest 30 15 = .ok (some lowerWindow.id) ∧ lowerWindow.titleBar.contains 30 15 = .ok true ∧
      ¬lowerWindow.CloseHit 30 15 ∧ Step bareMachine twoWindows (.event (.mouseDown 30 15 .left)) lowerDragged ∧
      Run (Step bareMachine) lowerDragged
        [.event (.mouseDown 30 15 .right),.event (.mouseUp 30 15 .right)] middle ∧
      Step bareMachine middle (.event (.mouseMove 50 40)) last ∧
      ¬WindowAt last lowerWindow.id ((50 : Int16).toInt - ((30 : Int16).toInt - (20 : Int16).toInt))
        ((40 : Int16).toInt - ((15 : Int16).toInt - (10 : Int16).toInt)) := by
  refine ⟨{lowerDragged with dragState := none},{lowerDragged with dragState := none},twoWindows_wellFormed,
    List.mem_cons_of_mem _ List.mem_cons_self,rfl,rfl,lower_off_close,lower_pressed,?_,
    ⟨bareWorld RamFs.new,false,_,rfl⟩,?_⟩
  · exact .cons ⟨bareWorld RamFs.new,false,_,rfl⟩ (.cons ⟨bareWorld RamFs.new,false,_,rfl⟩ (.nil _))
  · intro place
    have member : .window lowerWindow ∈ lowerDragged.layers :=
      List.mem_cons_of_mem _ (List.mem_cons_of_mem _ List.mem_cons_self)
    cases (place.position lowerWindow member rfl).1

end Compositor

end PolarOs.Gui
