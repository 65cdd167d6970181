import PolarOs.Gui.Compositor
import PolarOs.Library.Stacking
import PolarOs.Library.Transition
import PolarOs.Shell.Session

/-! The stack of the compositor over whole runs: what an event can do to the layers, the
focus and the drag, and what every sequence of events and new windows therefore keeps. -/
namespace PolarOs.Gui
open Library Library.Checked Library.Signed Library.Stacking

variable {δ μ : Type} {p : Platform δ μ} {event : Event} {world after : World δ μ} {resp : EventResponse}
variable {comp next : Compositor δ μ} {layers left : List (Layer δ μ)} {hitId : Nat} {x y : Int16}

inductive LayerName where
  | desktop (id : Nat)
  | window (id : Nat)
deriving DecidableEq

def LayerName.id : LayerName → Nat
  | .desktop id => id
  | .window id => id

def Layer.name : Layer δ μ → LayerName
  | .desktop id => .desktop id
  | .window win => .window win.id

@[simp] theorem Layer.name_id (layer : Layer δ μ) : layer.name.id = layer.id := by
  cases layer <;> rfl

/-- Where the compositor finds the close button, the window finds it. -/
theorem closeRect_agrees {window : Window δ μ} {rect : Rect} (found : Compositor.closeRect window.bounds = .ok rect) :
    window.closeButtonRect = .ok rect := by
  obtain ⟨far,reached,found⟩ := bind_ok.mp found
  obtain ⟨inner,shifted,found⟩ := bind_ok.mp found
  obtain ⟨left,moved,found⟩ := bind_ok.mp found
  obtain ⟨top,lowered,done⟩ := bind_ok.mp found
  cases done
  have twelve : inner.toInt = far.toInt - 12 := sub_ok.mp shifted
  have eleven : left.toInt = inner.toInt + 1 := add_ok.mp moved
  have low := left.le_toInt
  have high := far.toInt_lt
  -- the window subtracts ten and then one, so it passes through `left + 1`
  have short : (Int16.ofInt (left.toInt + 1)).toInt = left.toInt + 1 :=
    Int16.toInt_ofInt_of_le (by omega) (by omega)
  have ten : Signed.sub far (titleHeight - 2).toInt16 = .ok (Int16.ofInt (left.toInt + 1)) := by
    rw [sub_ok,short]
    change _ = far.toInt - 10
    omega
  have one : Signed.sub (Int16.ofInt (left.toInt + 1)) 1 = .ok left := by
    rw [sub_ok,short]
    exact (Int.add_sub_cancel _ 1).symm
  exact bind_ok.mpr ⟨far,reached,bind_ok.mpr ⟨_,ten,bind_ok.mpr ⟨left,one,bind_ok.mpr ⟨top,lowered,rfl⟩⟩⟩⟩

def ClosePress (event : Event) (window : Window δ μ) : Prop :=
  ∃ x y, event = .mouseDown x y .left ∧ window.CloseHit x y

namespace Compositor

def names (comp : Compositor δ μ) : List LayerName := comp.layers.map Layer.name

def ids (comp : Compositor δ μ) : List Nat := comp.names.map LayerName.id

def pressed (comp : Compositor δ μ) : Event → Option Nat
  | .mouseDown x y .left =>
    match comp.hitTest x y with
    | .ok hit => hit
    | .error _ => none
  | _ => none

/-- The desktop lies at the bottom, every other layer is a window, no id occurs twice, and
the focus and the drag name windows that are there. -/
structure WellFormed (comp : Compositor δ μ) : Prop where
  distinct : comp.ids.Nodup
  bottom : comp.names.head? = some (.desktop 0)
  windows : ∀ name ∈ comp.names, name = .desktop 0 ∨ ∃ id, name = .window id
  focused : ∀ id, comp.focusedId = some id → .window id ∈ comp.names
  dragged : ∀ drag, comp.dragState = some drag → .window drag.widgetId ∈ comp.names

/-! The layers and their names under the operations. -/

/-- The layer that is hit is the highest one that has the point inside its bounds. -/
theorem hitLoop_some (hit : hitLoop x y layers = .ok (some hitId)) :
    ∃ above layer below, layers = above ++ layer :: below ∧ layer.id = hitId ∧
      layer.bounds.contains x y = .ok true ∧ ∀ other ∈ above, other.bounds.contains x y = .ok false := by
  induction layers with
  | nil => cases hit
  | cons head rest ih =>
    obtain ⟨inside,tested,done⟩ := bind_ok.mp hit
    split at done
    next yes =>
      cases done
      exact ⟨[],head,rest,rfl,rfl,yes ▸ tested,by simp⟩
    next no =>
      obtain ⟨above,layer,below,rfl,same,contains,outside⟩ := ih done
      rw [Bool.not_eq_true] at no
      refine ⟨head::above,layer,below,rfl,same,contains,?_⟩
      intro other member
      rcases List.mem_cons.mp member with rfl | later
      · exact no ▸ tested
      · exact outside other later

theorem hitTest_some (hit : comp.hitTest x y = .ok (some hitId)) :
    ∃ below layer above, comp.layers = below ++ layer :: above ∧ layer.id = hitId ∧
      layer.bounds.contains x y = .ok true ∧ ∀ other ∈ above, other.bounds.contains x y = .ok false := by
  obtain ⟨above,layer,below,found,same,contains,outside⟩ := hitLoop_some hit
  have turned := congrArg List.reverse found
  rw [List.reverse_reverse,List.reverse_append,List.reverse_cons,List.append_assoc,List.singleton_append] at turned
  exact ⟨below.reverse,layer,above.reverse,turned,same,contains,
    fun other member => outside other (List.mem_reverse.mp member)⟩

theorem raiseToTop_raised (present : ∃ layer ∈ comp.layers, layer.id = hitId) :
    ∃ layer, layer.id = hitId ∧ Raised layer comp.layers (comp.raiseToTop hitId).layers := by
  unfold raiseToTop
  split
  next pos found =>
    obtain ⟨bound,same,_⟩ := List.findIdx?_eq_some_iff_getElem.mp found
    have parts : comp.layers = comp.layers.take pos ++ comp.layers[pos] :: comp.layers.drop (pos + 1) := by
      rw [List.getElem_cons_drop,List.take_append_drop]
    refine ⟨comp.layers[pos],of_decide_eq_true same,comp.layers.take pos,comp.layers.drop (pos + 1),parts,?_⟩
    split
    next => rw [List.eraseIdx_eq_take_drop_succ,List.getElem?_eq_getElem bound,Option.toList_some]
    next last =>
      -- nothing lies above it
      have none_above : comp.layers.drop (pos + 1) = [] := List.drop_eq_nil_of_le (by omega)
      rw [none_above,List.append_nil]
      rwa [none_above] at parts
  next missing =>
    obtain ⟨layer,member,same⟩ := present
    have differs := List.findIdx?_eq_none_iff.mp missing layer member
    exact absurd same (of_decide_eq_false differs)

@[simp] theorem raiseToTop_dragState (comp : Compositor δ μ) (id : Nat) :
    (comp.raiseToTop id).dragState = comp.dragState := by
  unfold raiseToTop
  split
  next => split <;> rfl
  next => rfl

theorem startDrag_effect (ran : comp.startDrag hitId x y = .ok next) :
    next.layers = comp.layers ∧ next.focusedId = comp.focusedId ∧
      ∀ drag, next.dragState = some drag → comp.dragState = some drag ∨ drag.widgetId = hitId := by
  unfold startDrag at ran
  split at ran
  next =>
    cases ran
    exact ⟨rfl,rfl,fun drag known => Or.inl known⟩
  next =>
    obtain ⟨close,_,ran⟩ := bind_ok.mp ran
    obtain ⟨onTitle,_,ran⟩ := bind_ok.mp ran
    split at ran
    next =>
      cases ran
      exact ⟨rfl,rfl,fun drag known => Or.inl known⟩
    next =>
      obtain ⟨onClose,_,ran⟩ := bind_ok.mp ran
      split at ran
      next =>
        cases ran
        exact ⟨rfl,rfl,fun drag known => Or.inl known⟩
      next =>
        obtain ⟨offsetX,_,ran⟩ := bind_ok.mp ran
        obtain ⟨offsetY,_,ran⟩ := bind_ok.mp ran
        cases ran
        exact ⟨rfl,rfl,fun drag begun => Or.inr (congrArg DragState.widgetId (Option.some.inj begun)).symm⟩

theorem press_effect (window : hitId ≠ 0) (ran : comp.press hitId x y = .ok next) :
    next.layers = (comp.raiseToTop hitId).layers ∧ next.focusedId = some hitId ∧
      ∀ drag, next.dragState = some drag → comp.dragState = some drag ∨ drag.widgetId = hitId := by
  unfold press at ran
  rw [if_pos window] at ran
  have effect := startDrag_effect ran
  rwa [raiseToTop_dragState] at effect

end Compositor

/-- A layer keeps its name, and only a window asks to be closed. -/
theorem Layer.handleEvent_effect {layer left : Layer δ μ}
    (ran : layer.handleEvent p event world = .ok (resp,left,after)) :
    left.name = layer.name ∧ (resp = .closeRequest → ∃ window, layer = .window window ∧ ClosePress event window) := by
  cases layer with
  | desktop own =>
    obtain ⟨answer,answered,done⟩ := bind_ok.mp ran
    cases done
    refine ⟨rfl,?_⟩
    intro closing
    subst closing
    unfold desktopAnswer at answered
    split at answered
    next =>
      obtain ⟨onIcon,_,last⟩ := bind_ok.mp answered
      split at last <;> cases last
    next => cases answered
  | window win =>
    obtain ⟨⟨answer,moved,_⟩,handled,done⟩ := bind_ok.mp ran
    cases done
    have effect := Window.handleEvent_effect handled
    refine ⟨congrArg LayerName.window effect.id,?_⟩
    intro closing
    rcases effect.answer with plain | asked
    · rcases plain with rfl | rfl <;> cases closing
    · exact ⟨win,rfl,asked.2⟩

namespace Compositor

theorem forward_effect (ran : forward p event hitId layers world = .ok (resp,left,after)) :
    left.map Layer.name = layers.map Layer.name ∧
      (resp = .closeRequest → ∃ window, .window window ∈ layers ∧ window.id = hitId ∧ ClosePress event window) := by
  induction layers generalizing resp left after with
  | nil =>
    cases ran
    exact ⟨rfl,nofun⟩
  | cons layer rest ih =>
    unfold forward at ran
    split at ran
    next same =>
      obtain ⟨⟨answer,moved,_⟩,handled,done⟩ := bind_ok.mp ran
      cases done
      have effect := Layer.handleEvent_effect handled
      refine ⟨congrArg (· :: rest.map Layer.name) effect.1,?_⟩
      intro closing
      obtain ⟨window,rfl,button⟩ := effect.2 closing
      exact ⟨window,List.mem_cons_self,same,button⟩
    next =>
      obtain ⟨⟨answer,others,_⟩,handled,done⟩ := bind_ok.mp ran
      cases done
      have effect := ih handled
      refine ⟨congrArg (layer.name :: ·) effect.1,?_⟩
      intro closing
      obtain ⟨window,member,same,button⟩ := effect.2 closing
      exact ⟨window,List.mem_cons_of_mem _ member,same,button⟩

theorem broadcast_names (ran : broadcast p event layers world = .ok (left,after)) :
    left.map Layer.name = layers.map Layer.name := by
  induction layers generalizing left world with
  | nil =>
    cases ran
    rfl
  | cons layer rest ih =>
    obtain ⟨⟨answer,moved,_⟩,handled,done⟩ := bind_ok.mp ran
    obtain ⟨⟨others,_⟩,later,last⟩ := bind_ok.mp done
    cases last
    rw [List.map_cons,List.map_cons,(Layer.handleEvent_effect handled).1,ih later]

theorem moveTo_names (id : Nat) (x y : Int16) (layers : List (Layer δ μ)) :
    (moveTo id x y layers).map Layer.name = layers.map Layer.name := by
  induction layers with
  | nil => rfl
  | cons layer rest ih =>
    unfold moveTo
    split
    next => cases layer <;> rfl
    next => rw [List.map_cons,List.map_cons,ih]

theorem drag_effect (ran : comp.drag x y = .ok next) :
    next.names = comp.names ∧ next.focusedId = comp.focusedId ∧ next.dragState = comp.dragState := by
  unfold drag at ran
  split at ran
  next =>
    cases ran
    exact ⟨rfl,rfl,rfl⟩
  next =>
    obtain ⟨newX,_,ran⟩ := bind_ok.mp ran
    obtain ⟨newY,_,ran⟩ := bind_ok.mp ran
    cases ran
    exact ⟨moveTo_names _ _ _ _,rfl,rfl⟩

theorem removeWidget_names (comp : Compositor δ μ) (id : Nat) :
    (comp.removeWidget id).names = comp.names.filter fun name => name.id ≠ id := by
  unfold names removeWidget
  rw [List.filter_map]
  exact congrArg (List.map Layer.name) (List.filter_congr fun layer _ => by simp)

theorem removeWidget_dragState {id : Nat} {drag : DragState} (left : (comp.removeWidget id).dragState = some drag) :
    comp.dragState = some drag ∧ drag.widgetId ≠ id := by
  have both := Option.filter_eq_some_iff.mp left
  exact ⟨both.1,of_decide_eq_true both.2⟩

namespace WellFormed

theorem unique (held : comp.WellFormed) {name other : LayerName} (member : name ∈ comp.names)
    (present : other ∈ comp.names) (same : name.id = other.id) : name = other :=
  List.inj_on_of_nodup_map held.distinct member present same

theorem window_ne (held : comp.WellFormed) {id : Nat} (member : .window id ∈ comp.names) : id ≠ 0 := by
  intro zero
  have desktop : .desktop 0 ∈ comp.names := List.mem_of_mem_head? held.bottom
  cases held.unique member desktop zero

theorem window_name (held : comp.WellFormed) {layer : Layer δ μ} (member : layer ∈ comp.layers)
    (above : layer.id ≠ 0) : layer.name = .window layer.id := by
  cases layer with
  | desktop id =>
    rcases held.windows _ (List.mem_map_of_mem member) with bottom | ⟨other,named⟩
    · cases bottom
      exact absurd rfl above
    · cases named
  | window win => rfl

end WellFormed

/-- What an event can do to the stack: nothing, raise the window that was pressed, or take
out the window whose own close button was pressed. -/
inductive Change (comp : Compositor δ μ) (event : Event) (next : Compositor δ μ) : Prop
  | kept (missed : ∀ id, comp.pressed event = some id → id = 0) (names : next.names = comp.names)
      (focus : next.focusedId = comp.focusedId)
      (drag : ∀ drag, next.dragState = some drag → comp.dragState = some drag)
  | raised (id : Nat) (hit : comp.pressed event = some id) (up : Raised (.window id) comp.names next.names)
      (focus : next.focusedId = some id)
      (drag : ∀ drag, next.dragState = some drag → comp.dragState = some drag ∨ drag.widgetId = id)
  | closed (window : Window δ μ) (hit : comp.pressed event = some window.id)
      (button : ClosePress event window) (member : .window window ∈ comp.layers)
      (gone : Removed (.window window.id) comp.names next.names) (focus : next.focusedId = none)
      (drag : ∀ drag, next.dragState = some drag → comp.dragState = some drag ∧ drag.widgetId ≠ window.id)

theorem answer_cases {ready : Compositor δ μ} {spawn : Bool}
    (ran : (match resp with
      | .closeRequest => .ok (false,ready.removeWidget hitId,world)
      | .openTerminal => .ok (true,ready,world)
      | _ => .ok (false,ready,world)) = (.ok (spawn,next,after) : Checked (Bool × Compositor δ μ × World δ μ))) :
    resp = .closeRequest ∧ next = ready.removeWidget hitId ∨ next = ready := by
  split at ran
  next =>
    cases ran
    exact Or.inl ⟨rfl,rfl⟩
  next =>
    cases ran
    exact Or.inr rfl
  next =>
    cases ran
    exact Or.inr rfl

theorem window_pressed {ready : Compositor δ μ} (held : comp.WellFormed) (window : hitId ≠ 0)
    (hit : comp.pressed event = some hitId) (present : ∃ layer ∈ comp.layers, layer.id = hitId)
    (prepared : comp.press hitId x y = .ok ready)
    (forwarded : forward p event hitId ready.layers world = .ok (resp,layers,after))
    (finished : resp = .closeRequest ∧ next = {ready with layers}.removeWidget hitId ∨ next = {ready with layers}) :
    Change comp event next := by
  obtain ⟨ordered,focus,drag⟩ := press_effect window prepared
  obtain ⟨layer,same,up⟩ := raiseToTop_raised present
  rw [← ordered] at up
  have named : layer.name = .window hitId := by
    obtain ⟨front,back,parts,_⟩ := up
    rw [← same] at window ⊢
    exact held.window_name (parts ▸ by simp) window
  obtain ⟨kept,asking⟩ := forward_effect forwarded
  have raised : Raised (.window hitId) comp.names ({ready with layers} : Compositor δ μ).names := by
    have lifted := up.map Layer.name
    rwa [named,← kept] at lifted
  rcases finished with ⟨closing,rfl⟩ | rfl
  · obtain ⟨closed,member,rfl,button⟩ := asking closing
    refine .closed closed hit button ((up.mem _).mp member) ?_ (if_pos focus) ?_
    · rw [removeWidget_names]
      refine raised.filter ?_ (held.distinct.of_map _)
      intro other known
      rw [decide_eq_true_iff]
      have there : .window closed.id ∈ comp.names := (raised.mem _).mp (List.mem_of_getLast? raised.top)
      exact ⟨fun differs equal => differs (equal ▸ rfl),fun differs equal => differs (held.unique known there equal)⟩
    · intro begun left
      obtain ⟨earlier,other⟩ := removeWidget_dragState left
      exact ⟨(drag begun earlier).resolve_right other,other⟩
  · exact .raised hitId hit raised focus drag

theorem desktop_pressed (held : comp.WellFormed) (hit : comp.pressed event = some 0)
    (forwarded : forward p event 0 comp.layers world = .ok (resp,layers,after))
    (finished : resp = .closeRequest ∧ next = {comp with layers}.removeWidget 0 ∨ next = {comp with layers}) :
    Change comp event next := by
  obtain ⟨kept,asking⟩ := forward_effect forwarded
  rcases finished with ⟨closing,_⟩ | rfl
  · obtain ⟨closed,member,zero,_⟩ := asking closing
    have known : .window closed.id ∈ comp.names := List.mem_map_of_mem member
    exact absurd zero (held.window_ne known)
  · refine .kept ?_ kept rfl (fun _ known => known)
    intro id pressed
    exact (Option.some.inj (hit.symm.trans pressed)).symm

theorem Change.silent (missed : comp.pressed event = none) (names : next.names = comp.names)
    (focus : next.focusedId = comp.focusedId)
    (drag : ∀ drag, next.dragState = some drag → comp.dragState = some drag) : Change comp event next :=
  .kept (fun _ known => nomatch missed.symm.trans known) names focus drag

theorem handleEvent_change (held : comp.WellFormed) {spawn : Bool}
    (ran : comp.handleEvent p event world = .ok (spawn,next,after)) : Change comp event next := by
  unfold handleEvent at ran
  split at ran
  next x y =>
    obtain ⟨hit,tested,ran⟩ := bind_ok.mp ran
    have target : comp.pressed (.mouseDown x y .left) = hit := by rw [pressed,tested]
    split at ran
    next =>
      cases ran
      exact .silent target rfl rfl (fun _ known => known)
    next hitId =>
      obtain ⟨ready,prepared,ran⟩ := bind_ok.mp ran
      obtain ⟨⟨resp,layers,_⟩,forwarded,ran⟩ := bind_ok.mp ran
      have finished := answer_cases ran
      by_cases window : hitId = 0
      · subst window
        cases prepared
        exact desktop_pressed held target forwarded finished
      · obtain ⟨below,layer,above,parts,same,_⟩ := hitTest_some tested
        have present : ∃ layer ∈ comp.layers, layer.id = hitId := ⟨layer,parts ▸ by simp,same⟩
        exact window_pressed held window target present prepared forwarded finished
  next x y button notLeft =>
    cases ran
    refine .silent ?_ rfl rfl (fun _ known => known)
    cases button with
    | left => exact absurd rfl notLeft
    | right => rfl
    | middle => rfl
  next x y =>
    obtain ⟨moved,dragged,ran⟩ := bind_ok.mp ran
    obtain ⟨⟨layers,_⟩,told,ran⟩ := bind_ok.mp ran
    cases ran
    obtain ⟨names,focus,drag⟩ := drag_effect dragged
    exact .silent rfl ((broadcast_names told).trans names) focus (drag ▸ fun _ known => known)
  next =>
    obtain ⟨⟨layers,_⟩,told,ran⟩ := bind_ok.mp ran
    cases ran
    exact .silent rfl (broadcast_names told) rfl nofun
  next key =>
    split at ran
    next =>
      cases ran
      exact .silent rfl rfl rfl (fun _ known => known)
    next fid _ =>
      obtain ⟨⟨resp,layers,_⟩,forwarded,ran⟩ := bind_ok.mp ran
      cases ran
      exact .silent rfl (forward_effect forwarded).1 rfl (fun _ known => known)
  next =>
    cases ran
    exact .silent rfl rfl rfl (fun _ known => known)

theorem Change.wellFormed (change : Change comp event next) (held : comp.WellFormed) : next.WellFormed := by
  cases change with
  | kept _ names focus drag => exact {
      distinct := by
        rw [ids,names]
        exact held.distinct
      bottom := names ▸ held.bottom
      windows := names ▸ held.windows
      focused := by
        rw [names,focus]
        exact held.focused
      dragged := fun begun known => names ▸ held.dragged begun (drag begun known) }
  | raised id _ up focus drag =>
    have top : .window id ∈ next.names := List.mem_of_getLast? up.top
    exact {
      distinct := (up.perm.map LayerName.id).nodup_iff.mp held.distinct
      bottom := up.bottom held.bottom nofun
      windows := fun name member => held.windows name ((up.mem name).mp member)
      focused := by
        intro other known
        obtain rfl := Option.some.inj (focus.symm.trans known)
        exact top
      dragged := by
        intro begun known
        rcases drag begun known with earlier | named
        · exact (up.mem _).mpr (held.dragged begun earlier)
        · rwa [named] }
  | closed window _ _ _ gone focus drag => exact {
      distinct := held.distinct.sublist (gone.sublist.map LayerName.id)
      bottom := gone.bottom held.bottom nofun
      windows := fun name member => held.windows name (gone.sublist.subset member)
      focused := fun other known => nomatch focus.symm.trans known
      dragged := by
        intro begun known
        obtain ⟨earlier,other⟩ := drag begun known
        refine (gone.mem (held.distinct.of_map _) _).mpr ⟨held.dragged begun earlier,?_⟩
        intro same
        exact other (congrArg LayerName.id same) }

theorem addWidget_wellFormed (held : comp.WellFormed) {window : Window δ μ} (fresh : window.id ∉ comp.ids) :
    (comp.addWidget (.window window)).WellFormed := by
  have names : (comp.addWidget (.window window)).names = comp.names ++ [.window window.id] := List.map_append
  exact {
    distinct := by
      rw [ids,names,List.map_append]
      refine List.nodup_append.mpr ⟨held.distinct,List.nodup_singleton _,?_⟩
      intro id known other added same
      rw [List.mem_singleton.mp added] at same
      rw [same] at known
      exact fresh known
    bottom := by
      rw [names,List.head?_append,held.bottom]
      rfl
    windows := by
      rw [names]
      intro name member
      rcases List.mem_append.mp member with known | added
      · exact held.windows name known
      · exact Or.inr ⟨window.id,List.mem_singleton.mp added⟩
    focused := fun id known => names ▸ List.mem_append_left _ (held.focused id known)
    dragged := fun drag known => names ▸ List.mem_append_left _ (held.dragged drag known) }

end Compositor

inductive Input (δ μ : Type) where
  | event (event : Event)
  | addWidget (window : Window δ μ)

namespace Input

def pressed (comp : Compositor δ μ) : Input δ μ → Option Nat
  | .event event => comp.pressed event
  | .addWidget _ => none

def added : Input δ μ → List Nat
  | .event _ => []
  | .addWidget window => [window.id]

end Input

namespace Compositor

/-- One input; the statics may have changed in any way since the last one, and a new window
has an id that no layer has. -/
def Step (p : Platform δ μ) (comp : Compositor δ μ) (input : Input δ μ) (next : Compositor δ μ) : Prop :=
  match input with
  | .event event => ∃ world spawn after, comp.handleEvent p event world = .ok (spawn,next,after)
  | .addWidget window => window.id ∉ comp.ids ∧ next = comp.addWidget (.window window)

/-- What one input does to the layers: only a window whose own close button is pressed goes,
the layers that are not pressed keep their order, and a pressed window that stays is on top
and has the focus. -/
structure Orderly (comp : Compositor δ μ) (input : Input δ μ) (next : Compositor δ μ) : Prop where
  closing : ∀ id ∈ comp.ids, id ∉ next.ids → input.pressed comp = some id ∧ ∃ window event,
    .window window ∈ comp.layers ∧ window.id = id ∧ input = .event event ∧ ClosePress event window
  order : (next.ids.filter fun id => input.pressed comp ≠ some id) =
    (comp.ids.filter fun id => input.pressed comp ≠ some id) ++ input.added
  raising : ∀ id, input.pressed comp = some id → id ≠ 0 → id ∈ next.ids →
    next.ids.getLast? = some id ∧ next.focusedId = some id

theorem others_pressed {id : Nat} (hit : comp.pressed event = some id) (all : List Nat) :
    (all.filter fun other => comp.pressed event ≠ some other) = all.filter fun other => other ≠ id := by
  refine List.filter_congr ?_
  intro other _
  rw [hit,decide_eq_decide,Ne,Ne,Option.some.injEq,eq_comm]

theorem Change.orderly (change : Change comp event next) (held : comp.WellFormed) :
    Orderly comp (.event event) next := by
  cases change with
  | kept missed names _ _ =>
    have same : next.ids = comp.ids := congrArg (List.map LayerName.id) names
    refine {
      closing := ?closing
      order := ?order
      raising := fun id hit above _ => absurd (missed id hit) above }
    case closing =>
      intro id known lost
      exact absurd (same ▸ known) lost
    case order => rw [same,Input.added,List.append_nil]
  | raised id hit up focus _ =>
    have moved : Raised id comp.ids next.ids := up.map LayerName.id
    refine {
      closing := ?closing
      order := ?order
      raising := ?raising }
    case closing =>
      intro other known lost
      exact absurd ((moved.mem other).mpr known) lost
    case order =>
      rw [Input.added,List.append_nil]
      exact (others_pressed hit _).trans (moved.others.trans (others_pressed hit _).symm)
    case raising =>
      intro other pressed _ _
      obtain rfl := Option.some.inj (hit.symm.trans pressed)
      exact ⟨moved.top,focus⟩
  | closed window hit button member gone _ _ =>
    have left : Removed window.id comp.ids next.ids := gone.map LayerName.id
    refine {
      closing := ?closing
      order := ?order
      raising := ?raising }
    case closing =>
      intro id known lost
      have same : id = window.id := by
        by_contra other
        exact lost ((left.mem held.distinct id).mpr ⟨known,other⟩)
      subst same
      exact ⟨hit,window,event,member,rfl,rfl,button⟩
    case order =>
      rw [Input.added,List.append_nil]
      exact (others_pressed hit _).trans (left.others.trans (others_pressed hit _).symm)
    case raising =>
      intro id pressed _ stays
      obtain rfl := Option.some.inj (hit.symm.trans pressed)
      exact absurd rfl ((left.mem held.distinct _).mp stays).2

theorem addWidget_orderly (comp : Compositor δ μ) (window : Window δ μ) :
    Orderly comp (.addWidget window) (comp.addWidget (.window window)) := by
  have ids : (comp.addWidget (.window window)).ids = comp.ids ++ [window.id] := by
    simp [ids,names,addWidget,Layer.name,LayerName.id]
  refine {
    closing := ?closing
    order := ?order
    raising := nofun }
  case closing =>
    intro id known lost
    exact absurd (ids ▸ List.mem_append_left _ known) lost
  case order =>
    rw [ids,List.filter_append]
    rfl

theorem step_wellFormed (held : comp.WellFormed) {input : Input δ μ} (step : Step p comp input next) :
    next.WellFormed := by
  cases input with
  | event event =>
    obtain ⟨world,spawn,after,ran⟩ := step
    exact (handleEvent_change held ran).wellFormed held
  | addWidget window =>
    obtain ⟨fresh,rfl⟩ := step
    exact addWidget_wellFormed held fresh

theorem step_orderly (held : comp.WellFormed) {input : Input δ μ} (step : Step p comp input next) :
    Orderly comp input next := by
  cases input with
  | event event =>
    obtain ⟨world,spawn,after,ran⟩ := step
    exact (handleEvent_change held ran).orderly held
  | addWidget window =>
    obtain ⟨_,rfl⟩ := step
    exact addWidget_orderly comp window

/-- The compositor of the GUI task before its first window. -/
def bare : Compositor δ μ := new.addWidget (.desktop 0)

theorem bare_wellFormed : (bare : Compositor δ μ).WellFormed where
  distinct := List.nodup_singleton _
  bottom := rfl
  windows := fun _ member => Or.inl (List.mem_singleton.mp member)
  focused := nofun
  dragged := nofun

theorem run_wellFormed {inputs : List (Input δ μ)} (run : Run (Step p) bare inputs comp) : comp.WellFormed :=
  run.keeps (fun _ _ _ known step => step_wellFormed known step) bare_wellFormed

/-- Whatever events and new windows have come, the desktop is at the bottom under windows of
distinct ids, and the next input leaves it so and moves no layer but the pressed one. -/
theorem layers_ordered {inputs : List (Input δ μ)} (run : Run (Step p) bare inputs comp) :
    comp.WellFormed ∧ ∀ input next, Step p comp input next → next.WellFormed ∧ Orderly comp input next := by
  have held := run_wellFormed run
  exact ⟨held,fun input next step => ⟨step_wellFormed held step,step_orderly held step⟩⟩

def lowerWindow : Window Unit Unit := ⟨1,20,10,100,80,none⟩

def upperWindow : Window Unit Unit := ⟨2,40,30,100,80,none⟩

theorem press_lower (world : World Unit Unit) :
    (⟨[.desktop 0,.window lowerWindow,.window upperWindow],none,none⟩ : Compositor Unit Unit).handleEvent bareMachine
      (.mouseDown 30 15 .left) world =
        .ok (false,⟨[.desktop 0,.window upperWindow,.window lowerWindow],some 1,some ⟨1,10,5⟩⟩,world) := rfl

theorem close_lower (world : World Unit Unit) :
    (⟨[.desktop 0,.window upperWindow,.window lowerWindow],some 1,some ⟨1,10,5⟩⟩ : Compositor Unit Unit).handleEvent
      bareMachine (.mouseDown 110 15 .left) world = .ok (false,⟨[.desktop 0,.window upperWindow],none,none⟩,world) := rfl

/-- The lower of two windows is pressed on its title bar and then closed. -/
theorem layers_ordered_two :
    Orderly ⟨[.desktop 0,.window upperWindow,.window lowerWindow],some 1,some ⟨1,10,5⟩⟩
      (.event (.mouseDown 110 15 .left)) ⟨[.desktop 0,.window upperWindow],none,none⟩ := by
  have run : Run (Step bareMachine) bare
      [.addWidget lowerWindow,.addWidget upperWindow,.event (.mouseDown 30 15 .left)] _ :=
    .cons ⟨by decide,rfl⟩ (.cons ⟨by decide,rfl⟩ (.cons ⟨bareWorld RamFs.new,_,_,press_lower _⟩ (.nil _)))
  exact ((layers_ordered run).2 (.event (.mouseDown 110 15 .left)) _ ⟨bareWorld RamFs.new,_,_,close_lower _⟩).2

end Compositor

end PolarOs.Gui
