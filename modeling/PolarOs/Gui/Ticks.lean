import PolarOs.Gui.Dragging
import PolarOs.Gui.Wrapping

/-! The blinking cursor of a terminal window. A window counts the ticks it is given, but the
compositor hands none on, so over a run of the compositor no cursor blinks. -/
namespace PolarOs.Gui
open Library Library.Checked Library.Stacking

variable {δ μ : Type} {p : Platform δ μ} {event : Event} {world after : World δ μ} {resp : EventResponse}

def Content.asTerminal : Content δ μ → Option TerminalWidget
  | .terminal term => some term
  | _ => none

def Window.asTerminal (window : Window δ μ) : Option TerminalWidget := window.content.bind Content.asTerminal

def Layer.asTerminal : Layer δ μ → Option TerminalWidget
  | .desktop _ => none
  | .window win => win.asTerminal

/-- The state of the cursor: whether it is shown, and the ticks since it last changed. -/
def TerminalWidget.blink (term : TerminalWidget) : Bool × Nat := (term.cursorVisible,term.cursorBlinkTick)

/-! No event but a tick touches the cursor of a terminal. -/
namespace TerminalWidget

variable {term next : TerminalWidget}

theorem pushLine_blink {text : Str} (ran : term.pushLine text = .ok next) : next.blink = term.blink := by
  rw [pushLine] at ran
  split at ran
  next =>
    cases ran
    rfl
  next =>
    obtain ⟨pieces,_,done⟩ := bind_ok.mp ran
    cases done
    rfl

theorem pushLines_blink {lines : List Str} (ran : term.pushLines lines = .ok next) : next.blink = term.blink := by
  induction lines generalizing term with
  | nil =>
    cases ran
    rfl
  | cons line lines ih =>
    obtain ⟨middle,pushed,rest⟩ := bind_ok.mp ran
    exact (ih rest).trans (pushLine_blink pushed)

theorem runPart_blink {part : Str} {pipeData output : Option Str}
    (ran : runPart p part pipeData term world = .ok (output,next,after)) : next.blink = term.blink := by
  unfold runPart at ran
  simp only at ran
  split at ran
  next =>
    cases ran
    rfl
  next =>
    split at ran
    next =>
      cases ran
      rfl
    next =>
      obtain ⟨result,_,done⟩ := bind_ok.mp ran
      cases done
      rfl

theorem runParts_blink {parts : List Str} {pipeData output : Option Str}
    (ran : runParts p parts pipeData term world = .ok (output,next,after)) : next.blink = term.blink := by
  induction parts generalizing pipeData term world with
  | nil =>
    cases ran
    rfl
  | cons part parts ih =>
    obtain ⟨⟨middleData,middle,_⟩,head,tail⟩ := bind_ok.mp ran
    exact (ih tail).trans (runPart_blink head)

theorem deliverOutput_blink {redirOut redirAppend pipeData : Option Str}
    (ran : deliverOutput redirOut redirAppend pipeData term world = .ok (next,after)) : next.blink = term.blink := by
  unfold deliverOutput at ran
  split at ran
  next =>
    cases ran
    rfl
  next =>
    split at ran
    next =>
      split at ran <;>
      next =>
        obtain ⟨shown,pushed,done⟩ := bind_ok.mp ran
        cases done
        exact pushLine_blink pushed
    next =>
      simp only at ran
      split at ran <;>
      next =>
        obtain ⟨shown,pushed,done⟩ := bind_ok.mp ran
        cases done
        exact pushLine_blink pushed
    next =>
      split at ran
      next =>
        cases ran
        rfl
      next =>
        obtain ⟨shown,pushed,done⟩ := bind_ok.mp ran
        cases done
        exact pushLines_blink pushed

theorem executeCommand_blink (ran : term.executeCommand p world = .ok (next,after)) : next.blink = term.blink := by
  unfold executeCommand at ran
  obtain ⟨shown,pushed,ran⟩ := bind_ok.mp ran
  have echoed : shown.blink = term.blink := pushLine_blink pushed
  simp only at ran
  split at ran
  next =>
    cases ran
    exact echoed
  next =>
    split at ran
    next =>
      obtain ⟨told,message,done⟩ := bind_ok.mp ran
      cases done
      exact (pushLine_blink message).trans echoed
    next =>
      obtain ⟨⟨output,middle,_⟩,commands,delivered⟩ := bind_ok.mp ran
      exact (deliverOutput_blink delivered).trans ((runParts_blink commands).trans echoed)

theorem handleEvent_blink (ran : term.handleEvent p event world = .ok (resp,next,after)) (other : event ≠ .tick) :
    next.blink = term.blink := by
  unfold handleEvent at ran
  cases event with
  | keyPress key =>
    cases key with
    | char ch =>
      dsimp only at ran
      split at ran <;> cases ran <;> rfl
    | enter =>
      obtain ⟨⟨executed,_⟩,command,done⟩ := bind_ok.mp ran
      cases done
      exact executeCommand_blink command
    | _ =>
      cases ran
      rfl
  | tick => exact absurd rfl other
  | _ =>
    cases ran
    rfl

end TerminalWidget

theorem Content.handleEvent_blink {content next : Content δ μ}
    (ran : content.handleEvent p event world = .ok (resp,next,after)) (other : event ≠ .tick) :
    next.asTerminal.map TerminalWidget.blink = content.asTerminal.map TerminalWidget.blink := by
  cases content with
  | terminal term =>
    obtain ⟨⟨answer,moved,_⟩,handled,done⟩ := bind_ok.mp ran
    cases done
    exact congrArg some (TerminalWidget.handleEvent_blink handled other)
  | button button =>
    obtain ⟨⟨answer,moved,_⟩,_,done⟩ := bind_ok.mp ran
    cases done
    rfl
  | label =>
    cases ran
    rfl
  | panel children =>
    obtain ⟨⟨answer,moved,_⟩,_,done⟩ := bind_ok.mp ran
    cases done
    rfl

namespace Window

variable {window next : Window δ μ}

theorem forward_blink (ran : window.forward p event world = .ok (resp,next,after)) (other : event ≠ .tick) :
    next.asTerminal.map TerminalWidget.blink = window.asTerminal.map TerminalWidget.blink := by
  unfold forward at ran
  split at ran
  next =>
    cases ran
    rfl
  next content holds =>
    obtain ⟨⟨answer,moved,_⟩,handled,done⟩ := bind_ok.mp ran
    cases done
    rw [asTerminal,asTerminal,holds]
    exact Content.handleEvent_blink handled other

theorem handleEvent_blink (ran : window.handleEvent p event world = .ok (resp,next,after)) (other : event ≠ .tick) :
    next.asTerminal.map TerminalWidget.blink = window.asTerminal.map TerminalWidget.blink := by
  unfold handleEvent at ran
  split at ran
  next x y =>
    obtain ⟨cb,_,ran⟩ := bind_ok.mp ran
    obtain ⟨closing,_,ran⟩ := bind_ok.mp ran
    split at ran
    next =>
      cases ran
      rfl
    next =>
      obtain ⟨inside,_,ran⟩ := bind_ok.mp ran
      split at ran
      next =>
        obtain ⟨⟨answer,moved,_⟩,forwarded,ran⟩ := bind_ok.mp ran
        have kept := forward_blink forwarded other
        dsimp only at ran
        split at ran <;> cases ran <;> exact kept
      next =>
        cases ran
        rfl
  next => exact forward_blink ran other

end Window

/-- What a layer is called and how its cursor stands. -/
def Layer.mark (layer : Layer δ μ) : Nat × Option (Bool × Nat) :=
  (layer.id,layer.asTerminal.map TerminalWidget.blink)

theorem Layer.handleEvent_mark {layer moved : Layer δ μ}
    (ran : layer.handleEvent p event world = .ok (resp,moved,after)) (other : event ≠ .tick) : moved.mark = layer.mark := by
  refine Prod.ext ?_ ?_
  · have named := congrArg LayerName.id (handleEvent_effect ran).1
    rwa [name_id,name_id] at named
  · cases layer with
    | desktop own =>
      obtain ⟨answer,_,done⟩ := bind_ok.mp ran
      cases done
      rfl
    | window win =>
      obtain ⟨⟨answer,kept,_⟩,handled,done⟩ := bind_ok.mp ran
      cases done
      exact Window.handleEvent_blink handled other

namespace Compositor

variable {comp next middle last : Compositor δ μ} {layers left : List (Layer δ μ)} {x y : Int16} {id : Nat}

def marks (comp : Compositor δ μ) : List (Nat × Option (Bool × Nat)) := comp.layers.map Layer.mark

theorem forward_marks (ran : forward p event id layers world = .ok (resp,left,after)) (other : event ≠ .tick) :
    left.map Layer.mark = layers.map Layer.mark := by
  induction layers generalizing resp left after with
  | nil =>
    cases ran
    rfl
  | cons layer rest ih =>
    unfold forward at ran
    split at ran
    next =>
      obtain ⟨⟨answer,moved,_⟩,handled,done⟩ := bind_ok.mp ran
      cases done
      rw [List.map_cons,List.map_cons,Layer.handleEvent_mark handled other]
    next =>
      obtain ⟨⟨answer,others,_⟩,handled,done⟩ := bind_ok.mp ran
      cases done
      rw [List.map_cons,List.map_cons,ih handled]

theorem broadcast_marks (ran : broadcast p event layers world = .ok (left,after)) (other : event ≠ .tick) :
    left.map Layer.mark = layers.map Layer.mark := by
  induction layers generalizing left world with
  | nil =>
    cases ran
    rfl
  | cons layer rest ih =>
    obtain ⟨⟨answer,moved,_⟩,handled,done⟩ := bind_ok.mp ran
    obtain ⟨⟨others,_⟩,later,last⟩ := bind_ok.mp done
    cases last
    rw [List.map_cons,List.map_cons,Layer.handleEvent_mark handled other,ih later]

theorem moveTo_marks (id : Nat) (x y : Int16) (layers : List (Layer δ μ)) :
    (moveTo id x y layers).map Layer.mark = layers.map Layer.mark := by
  induction layers with
  | nil => rfl
  | cons layer rest ih =>
    unfold moveTo
    split
    next => cases layer <;> rfl
    next => rw [List.map_cons,List.map_cons,ih]

theorem drag_marks (ran : comp.drag x y = .ok next) : next.marks = comp.marks := by
  unfold drag at ran
  split at ran
  next =>
    cases ran
    rfl
  next =>
    obtain ⟨newX,_,ran⟩ := bind_ok.mp ran
    obtain ⟨newY,_,ran⟩ := bind_ok.mp ran
    cases ran
    exact moveTo_marks _ _ _ _

theorem press_marks {hitId : Nat} (present : ∃ layer ∈ comp.layers, layer.id = hitId)
    (ran : comp.press hitId x y = .ok next) : next.marks ⊆ comp.marks := by
  by_cases window : hitId = 0
  · subst window
    cases ran
    exact List.Subset.refl _
  · obtain ⟨ordered,_,_⟩ := press_effect window ran
    obtain ⟨layer,_,up⟩ := raiseToTop_raised present
    rw [marks,ordered]
    exact (up.perm.map Layer.mark).symm.subset

theorem removeWidget_marks (comp : Compositor δ μ) (id : Nat) : (comp.removeWidget id).marks ⊆ comp.marks :=
  (List.filter_sublist.map Layer.mark).subset

/-- No event brings in a layer, and none, not even a tick, changes a cursor. -/
theorem handleEvent_marks {spawn : Bool} (ran : comp.handleEvent p event world = .ok (spawn,next,after)) :
    next.marks ⊆ comp.marks := by
  unfold handleEvent at ran
  split at ran
  next x y =>
    obtain ⟨hit,tested,ran⟩ := bind_ok.mp ran
    split at ran
    next =>
      cases ran
      exact List.Subset.refl _
    next hitId =>
      obtain ⟨ready,prepared,ran⟩ := bind_ok.mp ran
      obtain ⟨⟨resp,layers,_⟩,forwarded,ran⟩ := bind_ok.mp ran
      obtain ⟨below,layer,above,parts,same,_⟩ := hitTest_some tested
      have pressed := press_marks ⟨layer,parts ▸ by simp,same⟩ prepared
      have told : ({ready with layers} : Compositor δ μ).marks = ready.marks := forward_marks forwarded nofun
      rw [← told] at pressed
      rcases answer_cases ran with ⟨_,rfl⟩ | rfl
      · exact List.Subset.trans (removeWidget_marks _ _) pressed
      · exact pressed
  next =>
    cases ran
    exact List.Subset.refl _
  next x y =>
    obtain ⟨moved,dragged,ran⟩ := bind_ok.mp ran
    obtain ⟨⟨layers,_⟩,told,ran⟩ := bind_ok.mp ran
    cases ran
    exact (List.Perm.of_eq ((broadcast_marks told nofun).trans (drag_marks dragged))).subset
  next =>
    obtain ⟨⟨layers,_⟩,told,ran⟩ := bind_ok.mp ran
    cases ran
    exact (List.Perm.of_eq (broadcast_marks told nofun)).subset
  next =>
    split at ran
    next =>
      cases ran
      exact List.Subset.refl _
    next =>
      obtain ⟨⟨resp,layers,_⟩,forwarded,ran⟩ := bind_ok.mp ran
      cases ran
      exact (List.Perm.of_eq (forward_marks forwarded nofun)).subset
  next =>
    cases ran
    exact List.Subset.refl _

def terminal (comp : Compositor δ μ) (id : Nat) : Option TerminalWidget :=
  (comp.layers.find? fun layer => layer.id = id).bind Layer.asTerminal

/-- One when the cursor of that terminal has been turned on or off. -/
def toggles (id : Nat) (comp next : Compositor δ μ) : Nat :=
  match comp.terminal id,next.terminal id with
  | some old,some new => if new.cursorVisible = old.cursorVisible then 0 else 1
  | _,_ => 0

theorem terminal_mark {term : TerminalWidget} (found : comp.terminal id = some term) :
    (id,some term.blink) ∈ comp.marks := by
  obtain ⟨layer,first,holds⟩ := Option.bind_eq_some_iff.mp found
  refine List.mem_map.mpr ⟨layer,List.mem_of_find?_eq_some first,?_⟩
  have same := List.find?_some first
  exact Prod.ext (of_decide_eq_true same) (congrArg (Option.map TerminalWidget.blink) holds)

theorem terminal_id {term : TerminalWidget} (found : comp.terminal id = some term) : id ∈ comp.ids := by
  obtain ⟨layer,first,_⟩ := Option.bind_eq_some_iff.mp found
  have same := List.find?_some first
  rw [ids_eq,← of_decide_eq_true same]
  exact List.mem_map_of_mem (List.mem_of_find?_eq_some first)

theorem WellFormed.mark_unique (held : comp.WellFormed) {first second : Option (Bool × Nat)}
    (member : (id,first) ∈ comp.marks) (present : (id,second) ∈ comp.marks) : first = second := by
  obtain ⟨layer,known,marked⟩ := List.mem_map.mp member
  obtain ⟨other,there,named⟩ := List.mem_map.mp present
  have same : layer.id = other.id := (congrArg Prod.fst marked).trans (congrArg Prod.fst named).symm
  rw [held.layer_unique known there same] at marked
  exact congrArg Prod.snd (marked.symm.trans named)

/-- The cursor of no terminal is turned on or off by any input. -/
theorem step_toggles {input : Input δ μ} (held : comp.WellFormed) (step : Step p comp input next) :
    toggles id comp next = 0 := by
  unfold toggles
  split
  next old new before later =>
    have marked : (id,some new.blink) ∈ comp.marks := by
      cases input with
      | event event =>
        obtain ⟨world,spawn,after,ran⟩ := step
        exact handleEvent_marks ran (terminal_mark later)
      | addWidget window =>
        obtain ⟨fresh,rfl⟩ := step
        have known := terminal_mark later
        rw [marks,addWidget,List.map_append] at known
        rcases List.mem_append.mp known with old | added
        · exact old
        · obtain rfl : id = window.id := congrArg Prod.fst (List.mem_singleton.mp added)
          exact absurd (terminal_id before) fresh
    have blink := held.mark_unique marked (terminal_mark before)
    exact if_pos (congrArg Prod.fst (Option.some.inj blink))
  next => rfl

/-- A step of the compositor beside the number of times that cursor has been toggled. -/
def CountedStep (p : Platform δ μ) (id : Nat) (state : Compositor δ μ × Nat) (input : Input δ μ)
    (next : Compositor δ μ × Nat) : Prop :=
  Step p state.1 input next.1 ∧ next.2 = state.2 + toggles id state.1 next.1

theorem run_toggles {inputs : List (Input δ μ)} {start stop : Compositor δ μ × Nat}
    (run : Run (CountedStep p id) start inputs stop) (held : start.1.WellFormed) : stop.2 = start.2 := by
  have kept : ∀ first input last, first.1.WellFormed → first.2 = start.2 → CountedStep p id first input last →
      last.2 = start.2 := by
    intro first input last known same step
    rw [step.2,step_toggles known step.1,same,Nat.add_zero]
  exact run.keeps_under (fun _ _ _ known step => step_wellFormed known step.1) kept held rfl

end Compositor

def Input.isTick : Input δ μ → Bool
  | .event .tick => true
  | _ => false

def ticks (inputs : List (Input δ μ)) : Nat := inputs.countP Input.isTick

/-! Below the compositor the ticks count. -/

def TerminalWidget.ticked (term : TerminalWidget) : TerminalWidget :=
  if 25 ≤ term.cursorBlinkTick + 1 then {term with cursorBlinkTick := 0, cursorVisible := !term.cursorVisible}
  else {term with cursorBlinkTick := term.cursorBlinkTick + 1}

theorem Window.handleEvent_tick {window : Window δ μ} {term : TerminalWidget}
    (holds : window.content = some (.terminal term)) (phase : term.cursorBlinkTick < 25) :
    window.handleEvent p .tick world = .ok (.ignored,{window with content := some (.terminal term.ticked)},world) := by
  have counted : Checked.add 32 term.cursorBlinkTick 1 = .ok (term.cursorBlinkTick + 1) :=
    add_eq_ok.mpr ⟨by omega,rfl⟩
  have told : term.handleEvent p .tick world = .ok (.ignored,term.ticked,world) := by
    unfold TerminalWidget.handleEvent TerminalWidget.ticked
    dsimp only
    rw [counted,ok_bind]
    split <;> rfl
  simp only [handleEvent,forward,holds,Content.handleEvent,told,ok_bind]
  rfl

/-- The terminal toggles its cursor once for every twenty-five ticks that reach it. -/
theorem TerminalWidget.ticked_blink {term : TerminalWidget} (phase : term.cursorBlinkTick < 25) (n : Nat) :
    (ticked^[n] term).blink = ((term.cursorVisible ^^ decide ((term.cursorBlinkTick + n) / 25 % 2 = 1)),
      (term.cursorBlinkTick + n) % 25) := by
  induction n with
  | zero => simp [blink,Nat.div_eq_of_lt phase,Nat.mod_eq_of_lt phase]
  | succ n ih =>
    obtain ⟨shown,count⟩ := Prod.mk.inj ih
    rw [Function.iterate_succ_apply',ticked]
    split
    next full =>
      have turns : (term.cursorBlinkTick + (n + 1)) / 25 = (term.cursorBlinkTick + n) / 25 + 1 := by omega
      refine Prod.ext ?_ (by simp only [blink]; omega)
      rw [blink,turns,shown]
      rcases Nat.mod_two_eq_zero_or_one ((term.cursorBlinkTick + n) / 25) with even | odd
      · simp [even,Nat.add_mod]
      · simp [odd,Nat.add_mod]
    next early =>
      have same : (term.cursorBlinkTick + (n + 1)) / 25 = (term.cursorBlinkTick + n) / 25 := by omega
      exact Prod.ext (same ▸ shown) (by simp only [blink]; omega)

namespace Compositor

variable {comp last : Compositor δ μ} {id : Nat}

/-- A run toggles the cursor of a terminal as often as its ticks ask for when they are too
few for the first change. -/
theorem toggled_on_time_iff {inputs : List (Input δ μ)} {count : Nat} (held : comp.WellFormed)
    (run : Run (CountedStep p id) (comp,0) inputs (last,count)) {term : TerminalWidget}
    (_opened : comp.terminal id = some term) :
    count = (term.cursorBlinkTick + ticks inputs) / 25 ↔ term.cursorBlinkTick + ticks inputs < 25 := by
  obtain rfl : count = 0 := run_toggles run held
  rw [eq_comm,Nat.div_eq_zero_iff]
  simp

def terminalWindow : Window Unit Unit := ⟨10,20,10,280,160,some (.terminal TerminalWidget.windowTerminal)⟩

def oneTerminal : Compositor Unit Unit := bare.addWidget (.window terminalWindow)

theorem oneTerminal_wellFormed : oneTerminal.WellFormed :=
  addWidget_wellFormed bare_wellFormed (by simp [bare,new,addWidget,ids,names,Layer.name,LayerName.id,terminalWindow])

theorem ticks_run (n : Nat) :
    Run (CountedStep bareMachine 10) (oneTerminal,0) (List.replicate n (.event .tick)) (oneTerminal,0) := by
  induction n with
  | zero => exact .nil _
  | succ n ih =>
    have step : Step bareMachine oneTerminal (.event .tick) oneTerminal := ⟨bareWorld RamFs.new,false,_,rfl⟩
    have none : toggles 10 oneTerminal oneTerminal = 0 := step_toggles oneTerminal_wellFormed step
    exact .cons ⟨step,none.symm⟩ ih

theorem few_ticks_toggle_nothing :
    0 = (TerminalWidget.windowTerminal.cursorBlinkTick + ticks (List.replicate 24 (.event .tick : Input Unit Unit))) / 25 :=
  (toggled_on_time_iff oneTerminal_wellFormed (ticks_run 24) rfl).mpr (by decide)

/-- The cursor of an idle terminal does not blink. -/
theorem cursor_never_blinks : oneTerminal.WellFormed ∧
    oneTerminal.terminal 10 = some TerminalWidget.windowTerminal ∧
    Run (CountedStep bareMachine 10) (oneTerminal,0) (List.replicate 25 (.event .tick)) (oneTerminal,0) ∧
    0 ≠ (TerminalWidget.windowTerminal.cursorBlinkTick +
      ticks (List.replicate 25 (.event .tick : Input Unit Unit))) / 25 :=
  ⟨oneTerminal_wellFormed,rfl,ticks_run 25,by decide⟩

end Compositor

end PolarOs.Gui
