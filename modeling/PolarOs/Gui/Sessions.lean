import PolarOs.Gui.MainLoop

/-! The windows as sessions of their own: each terminal stands as if the keys that were handled while
it had the focus had been typed into a terminal alone, whatever else goes on. -/
namespace PolarOs.Gui
open Library Library.Checked Library.Signed PolarOs.Drivers

variable {κ ε δ μ : Type} {p : Platform δ μ} {world after : World δ μ} {resp : EventResponse} {key : KeyCode}

/-! A terminal works alike wherever it stands. -/
namespace TerminalWidget

variable {term next : TerminalWidget}

def place (x y : Int16) (term : TerminalWidget) : TerminalWidget := {term with x, y}

def size (term : TerminalWidget) : UInt16 × UInt16 := (term.w,term.h)

theorem pushLine_place {text : Str} (ran : term.pushLine text = .ok next) (x y : Int16) :
    next.size = term.size ∧ (term.place x y).pushLine text = .ok (next.place x y) := by
  by_cases narrow : term.cols = 0
  · rw [pushLine,if_pos narrow] at ran
    cases ran
    exact ⟨rfl,if_pos narrow⟩
  · rw [pushLine,if_neg narrow] at ran
    obtain ⟨pieces,wrapped,done⟩ := bind_ok.mp ran
    cases done
    exact ⟨rfl,(if_neg narrow).trans (bind_ok.mpr ⟨pieces,wrapped,rfl⟩)⟩

theorem pushLines_place {lines : List Str} (ran : term.pushLines lines = .ok next) (x y : Int16) :
    next.size = term.size ∧ (term.place x y).pushLines lines = .ok (next.place x y) := by
  induction lines generalizing term with
  | nil =>
    cases ran
    exact ⟨rfl,rfl⟩
  | cons line lines ih =>
    obtain ⟨middle,pushed,rest⟩ := bind_ok.mp ran
    obtain ⟨first,shown⟩ := pushLine_place pushed x y
    obtain ⟨second,others⟩ := ih rest
    exact ⟨second.trans first,bind_ok.mpr ⟨_,shown,others⟩⟩

theorem runPart_place {part : Str} {pipeData output : Option Str}
    (ran : runPart p part pipeData term world = .ok (output,next,after)) (x y : Int16) :
    next.size = term.size ∧ runPart p part pipeData (term.place x y) world = .ok (output,next.place x y,after) := by
  unfold runPart at ran ⊢
  simp only at ran ⊢
  split at ran
  next blank =>
    cases ran
    exact ⟨rfl,if_pos blank⟩
  next more =>
    rw [if_neg more]
    split at ran
    next clear =>
      cases ran
      exact ⟨rfl,if_pos clear⟩
    next other =>
      obtain ⟨result,ok,done⟩ := bind_ok.mp ran
      cases done
      exact ⟨rfl,(if_neg other).trans (bind_ok.mpr ⟨result,ok,rfl⟩)⟩

theorem runParts_place {parts : List Str} {pipeData output : Option Str}
    (ran : runParts p parts pipeData term world = .ok (output,next,after)) (x y : Int16) :
    next.size = term.size ∧ runParts p parts pipeData (term.place x y) world = .ok (output,next.place x y,after) := by
  induction parts generalizing pipeData term world with
  | nil =>
    cases ran
    exact ⟨rfl,rfl⟩
  | cons part parts ih =>
    obtain ⟨⟨middleData,middle,_⟩,head,tail⟩ := bind_ok.mp ran
    obtain ⟨first,moved⟩ := runPart_place head x y
    obtain ⟨second,others⟩ := ih tail
    exact ⟨second.trans first,bind_ok.mpr ⟨_,moved,others⟩⟩

theorem deliverOutput_place {redirOut redirAppend pipeData : Option Str}
    (ran : deliverOutput redirOut redirAppend pipeData term world = .ok (next,after)) (x y : Int16) :
    next.size = term.size ∧ deliverOutput redirOut redirAppend pipeData (term.place x y) world = .ok (next.place x y,after) := by
  have message : ∀ {text : Str} {fs : RamFs},
      (do return (← term.pushLine text,{world with fs}) : Checked (TerminalWidget × World δ μ)) = .ok (next,after) →
      next.size = term.size ∧ (do return (← (term.place x y).pushLine text,{world with fs}) :
        Checked (TerminalWidget × World δ μ)) = .ok (next.place x y,after) := by
    intro text fs ran
    obtain ⟨shown,pushed,done⟩ := bind_ok.mp ran
    cases done
    obtain ⟨kept,moved⟩ := pushLine_place pushed x y
    exact ⟨kept,bind_ok.mpr ⟨_,moved,rfl⟩⟩
  have cwd : (term.place x y).cwd = term.cwd := rfl
  unfold deliverOutput at ran ⊢
  rw [cwd]
  cases pipeData with
  | none =>
    cases ran
    exact ⟨rfl,rfl⟩
  | some output =>
    cases redirOut with
    | some filename =>
      dsimp only at ran ⊢
      rcases written : world.fs.write term.cwd filename (Utf8.encode output) with ⟨stored,fs⟩
      rw [written] at ran
      cases stored <;> exact message ran
    | none =>
      cases redirAppend with
      | some filename =>
        dsimp only at ran ⊢
        rcases written : world.fs.write term.cwd filename (appended ((world.fs.read term.cwd filename).getD []) output)
          with ⟨stored,fs⟩
        rw [written] at ran
        cases stored <;> exact message ran
      | none =>
        dsimp only at ran ⊢
        split at ran
        next blank =>
          cases ran
          exact ⟨rfl,if_pos blank⟩
        next more =>
          obtain ⟨shown,pushed,done⟩ := bind_ok.mp ran
          cases done
          obtain ⟨kept,moved⟩ := pushLines_place pushed x y
          exact ⟨kept,(if_neg more).trans (bind_ok.mpr ⟨_,moved,rfl⟩)⟩

theorem executeCommand_place (ran : term.executeCommand p world = .ok (next,after)) (x y : Int16) :
    next.size = term.size ∧ (term.place x y).executeCommand p world = .ok (next.place x y,after) := by
  obtain ⟨shown,pushed,ran⟩ := bind_ok.mp ran
  obtain ⟨echoed,moved⟩ := pushLine_place pushed x y
  unfold executeCommand
  have prompt : (term.place x y).prompt = term.prompt := rfl
  have line : (term.place x y).inputBuf = term.inputBuf := rfl
  dsimp only
  have emptied : {shown.place x y with inputBuf := []} = {shown with inputBuf := []}.place x y := rfl
  rw [prompt,line,moved,ok_bind,emptied]
  simp only at ran ⊢
  split at ran
  next blank =>
    cases ran
    exact ⟨echoed,if_pos blank⟩
  next more =>
    rw [if_neg more]
    split at ran
    next text missing =>
      obtain ⟨told,message,done⟩ := bind_ok.mp ran
      cases done
      obtain ⟨kept,placed⟩ := pushLine_place message x y
      have absent : inputText _ ({shown with inputBuf := []}.place x y) world = .error text := missing
      rw [absent]
      exact ⟨kept.trans echoed,bind_ok.mpr ⟨_,placed,rfl⟩⟩
    next pipeData given =>
      obtain ⟨⟨output,middle,_⟩,commands,delivered⟩ := bind_ok.mp ran
      obtain ⟨kept,placed⟩ := runParts_place commands x y
      obtain ⟨last,told⟩ := deliverOutput_place delivered x y
      have present : inputText _ ({shown with inputBuf := []}.place x y) world = .ok pipeData := given
      rw [present]
      exact ⟨last.trans (kept.trans echoed),bind_ok.mpr ⟨_,placed,told⟩⟩

theorem handleEvent_place (ran : term.handleEvent p (.keyPress key) world = .ok (resp,next,after)) (x y : Int16) :
    next.size = term.size ∧ (term.place x y).handleEvent p (.keyPress key) world = .ok (resp,next.place x y,after) := by
  cases key with
  | char ch =>
    rw [handleEvent_char] at ran ⊢
    cases ran
    have line : (term.place x y).inputBuf = term.inputBuf := rfl
    rw [line]
    split <;> exact ⟨rfl,rfl⟩
  | enter =>
    rw [handleEvent_enter] at ran ⊢
    obtain ⟨⟨executed,_⟩,command,done⟩ := bind_ok.mp ran
    cases done
    obtain ⟨kept,moved⟩ := executeCommand_place command x y
    exact ⟨kept,bind_ok.mpr ⟨_,moved,rfl⟩⟩
  | _ =>
    cases ran
    exact ⟨rfl,rfl⟩

end TerminalWidget

/-! Terminals of which each has a line, a directory and lines of its own, over one system. -/

/-- `fresh` is the id of the next terminal. -/
structure Desk (δ μ : Type) where
  terminals : Nat → Option TerminalWidget
  world : World δ μ
  fresh : Nat

inductive DeskAction (δ μ : Type) where
  | opened (id : Nat)
  | closed (id : Nat)
  | typed (id : Nat) (key : KeyCode)
  | outside (world : World δ μ)

def Event.keyFor (event : Event) (focus : Option Nat) : List (DeskAction δ μ) :=
  match event,focus with
  | .keyPress key,some id => [.typed id key]
  | _,_ => []

def DeskAction.given : DeskAction δ μ → Bool
  | .typed _ _ | .outside _ => true
  | .opened _ | .closed _ => false

def DeskAction.key? : DeskAction δ μ → Option (Nat × KeyCode)
  | .typed id key => some (id,key)
  | _ => none

namespace Desk

def empty (world : World δ μ) : Desk δ μ := ⟨fun _ => none,world,10⟩

/-- A key reaches one terminal and the system, and no other terminal. -/
inductive Step (p : Platform δ μ) : Desk δ μ → DeskAction δ μ → Desk δ μ → Prop
  | opened {desk : Desk δ μ} {term : TerminalWidget} (born : TerminalWidget.new (desk.fresh + 1) 0 0 278 147 = .ok term) :
      Step p desk (.opened desk.fresh)
        {desk with terminals := Function.update desk.terminals desk.fresh (some term), fresh := desk.fresh + 2}
  | closed {desk : Desk δ μ} {id : Nat} :
      Step p desk (.closed id) {desk with terminals := Function.update desk.terminals id none}
  | typed {desk : Desk δ μ} {id : Nat} {key : KeyCode} {term next : TerminalWidget} {resp : EventResponse} {after : World δ μ}
      (there : desk.terminals id = some term)
      (handled : term.handleEvent p (.keyPress key) desk.world = .ok (resp,next,after)) :
      Step p desk (.typed id key) {desk with terminals := Function.update desk.terminals id (some next), world := after}
  | outside {desk : Desk δ μ} (world : World δ μ) : Step p desk (.outside world) {desk with world}

def Sized (desk : Desk δ μ) : Prop := ∀ id term, desk.terminals id = some term → term.size = (278,147)

theorem Sized.step {desk next : Desk δ μ} {action : DeskAction δ μ} (sized : desk.Sized) (step : Step p desk action next) :
    next.Sized := by
  have put : ∀ {id : Nat} {content : Option TerminalWidget}, (∀ term, content = some term → term.size = (278,147)) →
      ∀ other term, Function.update desk.terminals id content other = some term → term.size = (278,147) := by
    intro id content known other term present
    by_cases here : other = id
    · rw [here,Function.update_self] at present
      exact known term present
    · rw [Function.update_of_ne here] at present
      exact sized other term present
  cases step with
  | opened born =>
    refine put ?_
    rintro _ ⟨⟩
    exact (TerminalWidget.pushLines_place born 0 0).1
  | closed => exact put nofun
  | typed there handled =>
    refine put ?_
    rintro _ ⟨⟩
    exact (TerminalWidget.handleEvent_place handled 0 0).1.trans (sized _ _ there)
  | outside world => exact sized

theorem Sized.run {desk last : Desk δ μ} {actions : List (DeskAction δ μ)} (sized : desk.Sized)
    (run : Run (Step p) desk actions last) : last.Sized :=
  run.keeps (fun _ _ _ known step => Sized.step known step) sized

end Desk

namespace Compositor

variable {comp next : Compositor δ μ} {layers left : List (Layer δ μ)} {event : Event} {id : Nat} {term : TerminalWidget}

def terminalOf (comp : Compositor δ μ) (id : Nat) : Option TerminalWidget :=
  (comp.layers.find? fun layer => layer.id = id).bind Layer.terminal?

theorem terminal?_eq {layer : Layer δ μ} (known : layer.terminal? = some term) :
    ∃ window, layer = .window window ∧ window.content = some (.terminal term) := by
  unfold Layer.terminal? at known
  split at known
  next => cases known
  next window =>
    split at known
    next content =>
      cases known
      exact ⟨window,rfl,content⟩
    next => cases known

theorem terminalOf_iff (held : comp.WellFormed) : comp.terminalOf id = some term ↔
    ∃ window, .window window ∈ comp.layers ∧ window.id = id ∧ window.content = some (.terminal term) := by
  constructor
  · intro known
    obtain ⟨layer,found,there⟩ := Option.bind_eq_some_iff.mp known
    obtain ⟨window,rfl,content⟩ := terminal?_eq there
    have same := List.find?_some found
    exact ⟨window,List.mem_of_find?_eq_some found,of_decide_eq_true same,content⟩
  · rintro ⟨window,member,rfl,content⟩
    obtain ⟨layer,found⟩ := Option.isSome_iff_exists.mp
      (List.find?_isSome.mpr ⟨_,member,decide_eq_true rfl⟩ :
        (comp.layers.find? fun layer => layer.id = window.id).isSome = true)
    have same := List.find?_some found
    obtain rfl := held.layer_unique (List.mem_of_find?_eq_some found) member (of_decide_eq_true same)
    rw [terminalOf,found,Option.bind_some,Layer.terminal?,content]

/-- The windows hold what they held before; none is new. -/
def Carries (comp next : Compositor δ μ) : Prop :=
  ∀ window, .window window ∈ next.layers → ∃ old, .window old ∈ comp.layers ∧ old.id = window.id ∧ old.content = window.content

theorem Carries.refl (comp : Compositor δ μ) : Carries comp comp := fun window member => ⟨window,member,rfl,rfl⟩

theorem Carries.subset (fewer : ∀ layer ∈ next.layers, layer ∈ comp.layers) : Carries comp next :=
  fun window member => ⟨window,fewer _ member,rfl,rfl⟩

theorem drag_carries {x y : Int16} (ran : comp.drag x y = .ok next) : Carries comp next := by
  have moved : ∀ (id : Nat) (x y : Int16) (layers : List (Layer δ μ)) window, .window window ∈ moveTo id x y layers →
      ∃ old, .window old ∈ layers ∧ old.id = window.id ∧ old.content = window.content := by
    intro id x y layers window member
    induction layers with
    | nil => cases member
    | cons head rest ih =>
      unfold moveTo at member
      split at member
      next =>
        rcases List.mem_cons.mp member with same | other
        · cases head with
          | desktop own => cases same
          | window old =>
            cases same
            exact ⟨old,List.mem_cons_self,rfl,rfl⟩
        · exact ⟨window,List.mem_cons_of_mem _ other,rfl,rfl⟩
      next =>
        rcases List.mem_cons.mp member with rfl | other
        · exact ⟨window,List.mem_cons_self,rfl,rfl⟩
        · obtain ⟨old,there,same⟩ := ih other
          exact ⟨old,List.mem_cons_of_mem _ there,same⟩
  unfold drag at ran
  split at ran
  next =>
    cases ran
    exact Carries.refl comp
  next =>
    obtain ⟨newX,_,ran⟩ := bind_ok.mp ran
    obtain ⟨newY,_,ran⟩ := bind_ok.mp ran
    cases ran
    exact moved _ _ _ _

/-- An event of the mouse leaves every window with what it holds. -/
theorem mouse_carries (held : comp.WellFormed) (kept : comp.Kept) (mouse : ∀ key, event ≠ .keyPress key) {spawn : Bool}
    (visible : event.Visible) (ran : comp.handleEvent p event world = .ok (spawn,next,after)) :
    after = world ∧ Carries comp next := by
  cases event with
  | keyPress key => exact absurd rfl (mouse key)
  | tick =>
    cases ran
    exact ⟨rfl,Carries.refl comp⟩
  | mouseUp x y button =>
    rw [handleEvent,broadcast_mouse p kept.layers mouse (by simp)] at ran
    cases ran
    exact ⟨rfl,Carries.subset fun _ member => member⟩
  | mouseMove x y =>
    obtain ⟨dragged,moved,known⟩ := drag_kept kept visible
    rw [handleEvent,moved,ok_bind,broadcast_mouse p known.layers mouse (by simp)] at ran
    cases ran
    exact ⟨rfl,drag_carries moved⟩
  | mouseDown x y button =>
    cases button with
    | left =>
      have tested := hitTest_eq kept x y
      cases hit : (comp.layers.reverse.find? fun layer => (x.toInt,y.toInt) ∈ layer.bounds.area).map Layer.id with
      | none =>
        rw [handleEvent,tested,hit] at ran
        cases ran
        exact ⟨rfl,Carries.refl comp⟩
      | some hitId =>
        rw [hit] at tested
        obtain ⟨below,layer,above,parts,same,_⟩ := hitTest_some tested
        have present : ∃ layer ∈ comp.layers, layer.id = hitId := ⟨layer,parts ▸ by simp,same⟩
        obtain ⟨ready,prepared,known⟩ := press_kept held kept present x y
        obtain ⟨answer,forwarded⟩ := forward_mouse p known.layers mouse (by simp) hitId world
        have stayed : ∀ layer ∈ ready.layers, layer ∈ comp.layers := by
          by_cases desktop : hitId = 0
          · subst desktop
            cases prepared
            exact fun _ member => member
          · obtain ⟨_,_,up⟩ := raiseToTop_raised present
            rw [(press_effect desktop prepared).1]
            exact fun layer member => (up.mem layer).mp member
        cases (handleEvent_press tested prepared forwarded).symm.trans ran
        refine ⟨rfl,Carries.subset ?_⟩
        cases answer with
        | closeRequest => exact fun layer member => stayed layer (List.mem_of_mem_filter member)
        | _ => exact stayed
    | right =>
      cases ran
      exact ⟨rfl,Carries.refl comp⟩
    | middle =>
      cases ran
      exact ⟨rfl,Carries.refl comp⟩

theorem terminalOf_zero (held : comp.WellFormed) : comp.terminalOf 0 = none := by
  by_contra present
  obtain ⟨term,known⟩ := Option.ne_none_iff_exists'.mp present
  obtain ⟨window,member,zero,_⟩ := (terminalOf_iff held).mp known
  exact held.window_ne (List.mem_map_of_mem member) zero

theorem terminalOf_absent (held : comp.WellFormed) (absent : id ∉ comp.ids) : comp.terminalOf id = none := by
  by_contra present
  obtain ⟨term,known⟩ := Option.ne_none_iff_exists'.mp present
  obtain ⟨window,member,rfl,_⟩ := (terminalOf_iff held).mp known
  rw [ids_eq] at absent
  exact absent (List.mem_map_of_mem member)

theorem Carries.terminalOf (carries : Carries comp next) (held : comp.WellFormed) (later : next.WellFormed) (kept : next.Kept)
    (present : id ∈ next.ids) : next.terminalOf id = comp.terminalOf id := by
  rw [ids_eq] at present
  obtain ⟨layer,member,rfl⟩ := List.mem_map.mp present
  cases layer with
  | desktop own =>
    rcases later.windows _ (List.mem_map_of_mem member) with bottom | ⟨other,named⟩
    · cases bottom
      exact (terminalOf_zero later).trans (terminalOf_zero held).symm
    · cases named
  | window window =>
    obtain ⟨term,content⟩ := (kept.layers _ member window rfl).tidy.terminal
    obtain ⟨old,there,same,before⟩ := carries window member
    exact ((terminalOf_iff later).mpr ⟨window,member,rfl,content⟩).trans
      ((terminalOf_iff held).mpr ⟨old,there,same,before.trans content⟩).symm

/-- The mouse can close a terminal and does nothing else to any. -/
theorem mouse_terminals (held : comp.WellFormed) (kept : comp.Kept) (mouse : ∀ key, event ≠ .keyPress key) {spawn : Bool}
    (visible : event.Visible) (ran : comp.handleEvent p event world = .ok (spawn,next,after)) : after = world ∧
      (next.terminalOf = comp.terminalOf ∨ ∃ id, next.terminalOf = Function.update comp.terminalOf id none) := by
  have change := handleEvent_change held ran
  have later := change.wellFormed held
  obtain ⟨_,_,again,tidy⟩ := mouse_kept (p := p) held kept mouse visible world
  cases ran.symm.trans again
  obtain ⟨_,carries⟩ := mouse_carries held kept mouse visible ran
  have same : ∀ {id}, (id ∈ next.ids ↔ id ∈ comp.ids) → next.terminalOf id = comp.terminalOf id := by
    intro id names
    by_cases present : id ∈ next.ids
    · exact carries.terminalOf held later tidy present
    · rw [terminalOf_absent later present,terminalOf_absent held (mt names.mpr present)]
  refine ⟨rfl,?_⟩
  cases change with
  | kept _ names =>
    refine Or.inl (funext fun id => same ?_)
    rw [ids,ids,names]
  | raised top _ up => exact Or.inl (funext fun id => same (up.perm.map LayerName.id).symm.mem_iff)
  | closed window _ _ _ gone =>
    refine Or.inr ⟨window.id,funext fun id => ?_⟩
    have left := (gone.map LayerName.id).mem held.distinct id
    by_cases closed : id = window.id
    · rw [closed,Function.update_self]
      exact terminalOf_absent later fun present => (left.mp (closed ▸ present)).2 closed
    · rw [Function.update_of_ne closed]
      exact same (left.trans (and_iff_left closed))

theorem forward_terminal (kept : ∀ layer ∈ layers, layer.Kept)
    (windows : ∀ layer ∈ layers, layer.id = id → ∃ window, layer = .window window)
    (present : ∃ layer ∈ layers, layer.id = id) (ran : forward p (.keyPress key) id layers world = .ok (resp,left,after)) :
    ∃ front window term answer moved back, layers = front ++ .window window :: back ∧ window.id = id ∧
      window.content = some (.terminal term) ∧ term.handleEvent p (.keyPress key) world = .ok (answer,moved,after) ∧
      left = front ++ .window {window with content := some (.terminal moved)} :: back ∧ ∀ layer ∈ front, layer.id ≠ id := by
  induction layers generalizing resp left after with
  | nil =>
    obtain ⟨layer,none,_⟩ := present
    cases none
  | cons head rest ih =>
    unfold forward at ran
    split at ran
    next here =>
      obtain ⟨⟨answer,moved,_⟩,handled,done⟩ := bind_ok.mp ran
      cases done
      obtain ⟨window,rfl⟩ := windows head List.mem_cons_self here
      obtain ⟨term,content⟩ := (kept _ List.mem_cons_self window rfl).tidy.terminal
      obtain ⟨⟨_,changed,_⟩,forwarded,done⟩ := bind_ok.mp handled
      cases done
      change window.forward p (.keyPress key) world = _ at forwarded
      rw [Window.forward_terminal content] at forwarded
      obtain ⟨⟨_,typed,_⟩,taken,done⟩ := bind_ok.mp forwarded
      cases done
      exact ⟨[],window,term,_,typed,rest,rfl,here,content,taken,rfl,List.forall_mem_nil _⟩
    next there =>
      obtain ⟨⟨answer,others,_⟩,handled,done⟩ := bind_ok.mp ran
      cases done
      have later : ∃ layer ∈ rest, layer.id = id := by
        obtain ⟨layer,member,same⟩ := present
        rcases List.mem_cons.mp member with rfl | other
        · exact absurd same there
        · exact ⟨layer,other,same⟩
      obtain ⟨front,window,term,answer,moved,back,rfl,same,content,typed,rfl,before⟩ :=
        ih (fun layer member => kept layer (List.mem_cons_of_mem _ member))
          (fun layer member => windows layer (List.mem_cons_of_mem _ member)) later handled
      exact ⟨head::front,window,term,answer,moved,back,rfl,same,content,typed,rfl,List.forall_mem_cons.mpr ⟨there,before⟩⟩

/-- A key goes to the terminal in focus. -/
theorem key_terminals (held : comp.WellFormed) (kept : comp.Kept) (focus : comp.focusedId = some id) {spawn : Bool}
    (ran : comp.handleEvent p (.keyPress key) world = .ok (spawn,next,after)) :
    ∃ term answer moved, comp.terminalOf id = some term ∧ term.handleEvent p (.keyPress key) world = .ok (answer,moved,after) ∧
      next.terminalOf = Function.update comp.terminalOf id (some moved) := by
  rw [handleEvent_focused focus] at ran
  obtain ⟨⟨resp,layers,_⟩,forwarded,done⟩ := bind_ok.mp ran
  cases done
  have named := held.focused id focus
  have windows : ∀ layer ∈ comp.layers, layer.id = id → ∃ window, layer = .window window := by
    rintro layer member rfl
    have known := held.window_name member (held.window_ne named)
    cases layer with
    | desktop own => cases known
    | window window => exact ⟨window,rfl⟩
  have present : ∃ layer ∈ comp.layers, layer.id = id := by
    obtain ⟨layer,member,same⟩ := List.mem_map.mp named
    exact ⟨layer,member,by rw [← Layer.name_id,same]; rfl⟩
  obtain ⟨front,window,term,answer,moved,back,parts,rfl,content,typed,rfl,before⟩ :=
    forward_terminal kept.layers windows present forwarded
  have missing : front.find? (fun layer => layer.id = window.id) = none :=
    List.find?_eq_none.mpr fun layer member => by simpa using before layer member
  refine ⟨term,answer,moved,?_,typed,funext fun other => ?_⟩
  · exact (terminalOf_iff held).mpr ⟨window,parts ▸ by simp,rfl,content⟩
  · by_cases here : other = window.id
    · subst here
      rw [Function.update_self,terminalOf,List.find?_append,missing]
      simp [Layer.id,Layer.terminal?]
    · have apart : ∀ content : Option (Content δ μ), (Layer.window {window with content}).id ≠ other := fun _ => Ne.symm here
      rw [Function.update_of_ne here,terminalOf,terminalOf,parts,List.find?_append,List.find?_append]
      rw [List.find?_cons_of_neg (by simpa using apart _),List.find?_cons_of_neg (by simpa using apart window.content)]

end Compositor

theorem Layer.settle_terminal {layer : Layer δ μ} (sized : ∀ term, layer.terminal? = some term → term.size = (278,147)) :
    layer.settle.terminal?.map (TerminalWidget.place 0 0) = layer.terminal?.map (TerminalWidget.place 0 0) := by
  cases layer with
  | desktop id => rfl
  | window window =>
    obtain ⟨id,x,y,w,h,content⟩ := window
    rcases content with _ | ⟨term | _ | _ | _⟩
    · rfl
    · obtain ⟨wide,tall⟩ := Prod.mk.inj (sized term rfl)
      change some {term with x := 0, y := 0, w := 278, h := 147} = some {term with x := 0, y := 0}
      rw [← wide,← tall]
    · rfl
    · rfl
    · rfl

namespace Compositor

variable {comp next : Compositor δ μ}

/-- Drawing puts the terminals where the windows are. -/
theorem settle_terminals (sized : ∀ id term, comp.terminalOf id = some term → term.size = (278,147)) (id : Nat) :
    (comp.settle.terminalOf id).map (TerminalWidget.place 0 0) = (comp.terminalOf id).map (TerminalWidget.place 0 0) := by
  have named : (fun layer : Layer δ μ => decide (layer.settle.id = id)) = fun layer => decide (layer.id = id) := by
    funext layer
    cases layer with
    | desktop own => rfl
    | window window =>
      rw [Layer.settle,Window.settle]
      split <;> rfl
  have across : comp.settle.layers.find? (fun layer => layer.id = id) =
      (comp.layers.find? fun layer => layer.id = id).map Layer.settle := by
    rw [settle,List.find?_map]
    exact congrArg (fun test => (comp.layers.find? test).map Layer.settle) named
  have known := sized id
  rw [terminalOf] at known
  rw [terminalOf,terminalOf,across]
  cases found : comp.layers.find? fun layer => layer.id = id with
  | none => rfl
  | some layer =>
    rw [found] at known
    exact Layer.settle_terminal known

/-- A new window is known under its number and holds a fresh terminal. -/
theorem spawn_terminals {counter later : UInt32} (ran : spawnTerminalWindow comp counter = .ok (next,later))
    (unused : counter.toNat ∉ comp.ids) (fits : counter.toNat + 2 < 2^32) : later.toNat = counter.toNat + 2 ∧
      ∃ term x y, TerminalWidget.new (counter.toNat + 1) x y 278 147 = .ok term ∧
        next.terminalOf = Function.update comp.terminalOf counter.toNat (some term) := by
  obtain ⟨offset,_,opening⟩ := bind_ok.mp ran
  obtain ⟨x,_,opening⟩ := bind_ok.mp opening
  obtain ⟨y,_,opening⟩ := bind_ok.mp opening
  obtain ⟨content,area,opening⟩ := bind_ok.mp opening
  obtain ⟨term,created,opening⟩ := bind_ok.mp opening
  cases opening
  obtain ⟨left,_,area⟩ := bind_ok.mp area
  obtain ⟨top,_,area⟩ := bind_ok.mp area
  have wide : lessThan 280 2 = .ok 278 := rfl
  have tall : lessThan 160 titleHeight = .ok 148 := rfl
  have inner : lessThan 148 1 = .ok 147 := rfl
  rw [wide,ok_bind,tall,ok_bind,inner] at area
  cases area
  have one : (1 : UInt32).toNat = 1 := rfl
  have second : (counter + 1).toNat = counter.toNat + 1 := by
    rw [UInt32.toNat_add,one]
    omega
  have third : (counter + 1 + 1).toNat = counter.toNat + 2 := by
    rw [UInt32.toNat_add,second,one]
    omega
  refine ⟨third,term,left,top,?_,funext fun id => ?_⟩
  · rw [← second]
    exact created
  · rw [ids_eq] at unused
    rw [terminalOf,addWidget,List.find?_append]
    by_cases here : id = counter.toNat
    · subst here
      have missing : comp.layers.find? (fun layer => layer.id = counter.toNat) = none :=
        List.find?_eq_none.mpr fun layer member => by
          simpa using fun same : layer.id = counter.toNat => unused (same ▸ List.mem_map_of_mem member)
      rw [missing,Function.update_self]
      simp [Layer.id,Layer.terminal?]
    · rw [Function.update_of_ne here,terminalOf]
      simp [Layer.id,Ne.symm here]

end Compositor

namespace MainLoop

variable {env : Environment κ ε δ μ} {gui next last : MainLoop κ δ μ} {events : List Event} {opened : Nat}

/-- The terminals without their places. -/
def desk (gui : MainLoop κ δ μ) : Desk δ μ where
  terminals id := (gui.comp.terminalOf id).map (TerminalWidget.place 0 0)
  world := gui.world
  fresh := gui.counter.toNat

/-- What comes from outside: a key for the window in focus, or what other programs do. -/
def received (gui : MainLoop κ δ μ) (action : GuiAction δ μ) : List (DeskAction δ μ) :=
  match action with
  | .advance =>
    match gui.loop.point with
    | .handle (some event) => event.keyFor gui.comp.focusedId
    | _ => []
  | .interrupt _ => []
  | .outside world => [.outside world]

def journal (env : Environment κ ε δ μ) (gui : MainLoop κ δ μ) : List (GuiAction δ μ) → List (DeskAction δ μ)
  | [] => []
  | action::actions =>
    match gui.step env action with
    | .ok next => gui.received action ++ next.journal env actions
    | .error _ => []

theorem desk_update {terminals : Nat → Option TerminalWidget} {id : Nat} {content : Option TerminalWidget} :
    (fun other => (Function.update terminals id content other).map (TerminalWidget.place 0 0)) =
      Function.update (fun other => (terminals other).map (TerminalWidget.place 0 0)) id (content.map (TerminalWidget.place 0 0)) := by
  funext other
  by_cases here : other = id
  · rw [here,Function.update_self,Function.update_self]
  · rw [Function.update_of_ne here,Function.update_of_ne here]

/-- An event is a key for one terminal, closes a terminal, or is nothing to them. -/
theorem Sound.handle_desk (sound : gui.Sound opened events) {event : Event} (visible : event.Visible)
    (ran : gui.handle env event = .ok next) :
    ∃ actions, Run (Desk.Step env.platform) gui.desk actions next.desk ∧
      actions.filter DeskAction.given = event.keyFor gui.comp.focusedId := by
  obtain ⟨spawn,known,_,counter,_⟩ := handle_parts ran
  by_cases mouse : ∀ key, event ≠ .keyPress key
  · have silent : (event.keyFor gui.comp.focusedId : List (DeskAction δ μ)) = [] := by
      cases event with
      | keyPress key => exact absurd rfl (mouse key)
      | _ => rfl
    rw [silent]
    obtain ⟨world,same | ⟨id,closed⟩⟩ := Compositor.mouse_terminals sound.stacked sound.kept mouse visible known
    · refine ⟨[],?_,rfl⟩
      rw [desk,desk,same,world,counter]
      exact .nil _
    · refine ⟨[.closed id],?_,rfl⟩
      rw [desk,desk,closed,world,counter,desk_update]
      exact .cons .closed (.nil _)
  · obtain ⟨key,same⟩ := not_forall.mp mouse
    obtain rfl := not_not.mp same
    cases focus : gui.comp.focusedId with
    | none =>
      rw [Compositor.handleEvent_unfocused focus] at known
      obtain ⟨_,there⟩ := Prod.mk.inj (Except.ok.inj known)
      obtain ⟨comp,world⟩ := Prod.mk.inj there
      refine ⟨[],?_,rfl⟩
      rw [desk,desk,comp,world,counter]
      exact .nil _
    | some id =>
      obtain ⟨term,answer,moved,there,typed,after⟩ := Compositor.key_terminals sound.stacked sound.kept focus known
      refine ⟨[.typed id key],?_,rfl⟩
      rw [desk,desk,after,counter,desk_update]
      exact .cons (.typed (congrArg (Option.map (TerminalWidget.place 0 0)) there)
        (TerminalWidget.handleEvent_place typed 0 0).2) (.nil _)

theorem Sound.openTerminal_desk (sound : gui.Sound opened events) (ran : gui.openTerminal = .ok next) (p : Platform δ μ) :
    ∃ actions, Run (Desk.Step p) gui.desk actions next.desk ∧ actions.filter DeskAction.given = [] := by
  unfold MainLoop.openTerminal at ran
  split at ran
  next =>
    obtain ⟨⟨comp,counter⟩,spawned,done⟩ := bind_ok.mp ran
    cases done
    have limit := sound.limit
    have number : gui.counter.toNat = 10 + 2 * opened := sound.counted ▸ counter_small limit
    have unused : gui.counter.toNat ∉ gui.comp.ids := by
      intro member
      have below := sound.fresh _ member
      omega
    obtain ⟨later,term,x,y,created,shown⟩ := Compositor.spawn_terminals spawned unused (by omega)
    refine ⟨[.opened gui.counter.toNat],?_,rfl⟩
    rw [desk,desk]
    dsimp only
    rw [shown,later,desk_update]
    exact .cons (.opened (TerminalWidget.pushLines_place created 0 0).2) (.nil _)
  next =>
    cases ran
    exact ⟨[],.nil _,rfl⟩

theorem Sound.frame_desk (sound : gui.Sound opened events) (sized : gui.desk.Sized) (ran : gui.frame env = .ok next) :
    next.desk = gui.desk := by
  have rounds := sound.rounds
  rcases sound.frame env with ⟨_,_,stuck⟩ | ⟨fits,_⟩
  · exact absurd ran (stuck next)
  · unfold MainLoop.frame at ran
    rw [Checked.add,if_pos (by omega),ok_bind] at ran
    split at ran
    next due =>
      obtain ⟨fb,drawn,_⟩ := sound.drawn (fits (by omega)) env.look gui.world.ticks gui.fb
      rw [Compositor.handleEvent,ok_bind] at ran
      dsimp only at ran
      rw [drawn] at ran
      cases ran
      have all : ∀ id term, gui.comp.terminalOf id = some term → term.size = (278,147) :=
        fun id term known => sized id (term.place 0 0) (congrArg (Option.map (TerminalWidget.place 0 0)) known)
      rw [desk,desk]
      dsimp only
      rw [funext (Compositor.settle_terminals all)]
    next =>
      cases ran
      rfl

theorem Sound.finishRound_desk (sound : gui.Sound opened events) (sized : gui.desk.Sized) (ran : gui.finishRound env = .ok next) :
    ∃ actions, Run (Desk.Step env.platform) gui.desk actions next.desk ∧ actions.filter DeskAction.given = [] := by
  obtain ⟨between,ready,ran⟩ := bind_ok.mp ran
  obtain ⟨framed,drawn,done⟩ := bind_ok.mp ran
  cases done
  obtain ⟨actions,run,silent⟩ := sound.openTerminal_desk ready env.platform
  rcases sound.openTerminal with ⟨_,_,stuck⟩ | ⟨_,same,later,again,known,_⟩
  · exact absurd ready (stuck between)
  · cases ready.symm.trans again
    refine ⟨actions,?_,silent⟩
    have still := known.frame_desk (sized.run run) drawn
    change Run _ _ _ framed.desk
    rw [still]
    exact run

theorem Sound.step_desk (sound : gui.Sound opened events) (sized : gui.desk.Sized) {action : GuiAction δ μ}
    (stepped : gui.step env action = .ok next) :
    ∃ actions, Run (Desk.Step env.platform) gui.desk actions next.desk ∧
      actions.filter DeskAction.given = gui.received action := by
  cases action with
  | outside world =>
    cases stepped
    exact ⟨[.outside world],.cons (.outside world) (.nil _),rfl⟩
  | interrupt source =>
    obtain ⟨result,_,done⟩ := bind_ok.mp stepped
    cases done
    exact ⟨[],.nil _,rfl⟩
  | advance =>
    rw [step,MainLoop.advance] at stepped
    rw [received]
    cases point : gui.loop.point with
    | handle event =>
      rw [point] at stepped
      cases event with
      | none =>
        obtain ⟨finished,ran,more⟩ := bind_ok.mp stepped
        obtain ⟨loop,_,done⟩ := bind_ok.mp more
        cases done
        have whole := sound.finishRound_desk sized ran
        exact whole
      | some event =>
        obtain ⟨taken,ran,more⟩ := bind_ok.mp stepped
        obtain ⟨loop,_,done⟩ := bind_ok.mp more
        cases done
        have whole := sound.handle_desk (sound.current event (Or.inr point)) ran
        exact whole
    | _ =>
      rw [point] at stepped
      obtain ⟨loop,_,done⟩ := bind_ok.mp stepped
      cases done
      exact ⟨[],.nil _,rfl⟩

theorem run_desk {actions : List (GuiAction δ μ)} (run : Run (Step env) gui actions last)
    (sound : ∃ opened events, gui.Sound opened events) (sized : gui.desk.Sized) :
    ∃ all, Run (Desk.Step env.platform) gui.desk all last.desk ∧ all.filter DeskAction.given = gui.journal env actions := by
  induction run with
  | nil gui => exact ⟨[],.nil _,rfl⟩
  | cons stepped rest ih =>
    obtain ⟨opened,events,known⟩ := sound
    obtain ⟨first,begun,given⟩ := known.step_desk sized stepped
    obtain ⟨others,more,later⟩ := ih (run_sound (.cons stepped (.nil _)) ⟨opened,events,known⟩)
      (sized.run begun)
    refine ⟨first ++ others,begun.append more,?_⟩
    rw [List.filter_append,given,later,journal,stepped]

theorem start_desk {keyboard : κ} {world : World δ μ} (began : start keyboard world = .ok gui) (p : Platform δ μ) :
    Desk.Step p (Desk.empty world) (.opened 10) gui.desk := by
  obtain ⟨⟨comp,counter⟩,spawned,done⟩ := bind_ok.mp began
  cases done
  have bare : (Compositor.new.addWidget (.desktop 0) : Compositor δ μ).terminalOf = fun _ => none := by
    funext id
    by_cases bottom : 0 = id <;> simp [Compositor.terminalOf,Compositor.addWidget,Compositor.new,Layer.id,Layer.terminal?,bottom]
  have unused : nextWidgetId.toNat ∉ (Compositor.new.addWidget (.desktop 0) : Compositor δ μ).ids := by
    simp [Compositor.ids,Compositor.names,Compositor.addWidget,Compositor.new,Layer.name,LayerName.id,nextWidgetId]
  obtain ⟨later,term,x,y,created,shown⟩ := Compositor.spawn_terminals spawned unused (by decide)
  rw [desk]
  dsimp only
  rw [shown,later,bare,desk_update]
  exact .opened (TerminalWidget.pushLines_place created 0 0).2

/-- The windows are terminals each on its own over one system: whatever the mouse, the interrupts and the
frames do between them, a key is typed into the terminal in focus when it is handled, and into no other.
A command is one step here; in the system other programs can also act while it runs. -/
theorem windows_are_terminals (env : Environment κ ε δ μ) (keyboard : κ) (world : World δ μ) :
    ∃ gui, start keyboard world = .ok gui ∧ ∀ actions last, Run (Step env) gui actions last →
      ∃ all, Run (Desk.Step env.platform) (Desk.empty world) all last.desk ∧
        all.filter DeskAction.given = gui.journal env actions := by
  obtain ⟨gui,began,sound⟩ := start_sound keyboard world
  refine ⟨gui,began,?_⟩
  intro actions last run
  have first := start_desk began env.platform
  have empty : (Desk.empty world).Sized := nofun
  obtain ⟨all,more,given⟩ := run_desk run ⟨1,[],sound⟩ (empty.step first)
  exact ⟨.opened 10::all,.cons first more,given⟩

theorem typing_reached : ∃ last, played typing = .ok last ∧ last.desk.terminals 10 = some (typedTerminal.place 0 0) := by
  decide +kernel

theorem typing_received : ∃ gui, start () (bareWorld RamFs.new) = .ok gui ∧
    (gui.journal sampleEnvironment typing).map DeskAction.key? = [some (10,.char 'a')] := by
  decide +kernel

/-- The press gives the first terminal the focus, and the letter is typed into it. -/
theorem windows_are_terminals_typed : ∃ gui last all, start () (bareWorld RamFs.new) = .ok gui ∧
    Run (Step sampleEnvironment) gui typing last ∧
    Run (Desk.Step bareMachine) (Desk.empty (bareWorld RamFs.new)) all last.desk ∧
    (all.filter DeskAction.given).map DeskAction.key? = [some (10,.char 'a')] ∧
    last.desk.terminals 10 = some (typedTerminal.place 0 0) := by
  obtain ⟨last,ran,typed⟩ := typing_reached
  obtain ⟨gui,began,run⟩ := played_run ran
  obtain ⟨first,again,sessions⟩ := windows_are_terminals sampleEnvironment () (bareWorld RamFs.new)
  obtain ⟨same,started,received⟩ := typing_received
  cases began.symm.trans again
  cases began.symm.trans started
  obtain ⟨all,desks,given⟩ := sessions typing last run
  exact ⟨gui,last,all,began,run,desks,given ▸ received,typed⟩

end MainLoop

end PolarOs.Gui
