import PolarOs.Gui.EventLoop
import PolarOs.Gui.Visible

/-! The whole of `gui::run`: the loop over the events, the windows it opens and the frames it
presents, beside the keyboard and mouse interrupts and the rest of the system. The heap is taken
as large enough: an allocation that fails stops the system wherever it is made. -/
namespace PolarOs.Gui
open Library Library.Checked Library.Picture Library.Signed PolarOs.Drivers

variable {κ ε δ μ : Type}

/-- The locals of `run` and the statics it works on; `shown` is the memory of the screen. -/
structure MainLoop (κ δ μ : Type) where
  loop : EventLoop κ
  comp : Compositor δ μ
  world : World δ μ
  counter : UInt32
  needNewTerminal : Bool
  cursor : Cursor
  frameCounter : Nat
  fb : Framebuffer
  shown : Framebuffer

/-- What does not change while the loop runs. -/
structure Environment (κ ε δ μ : Type) where
  platform : Platform δ μ
  decoder : Decoder κ ε
  look : Appearance

inductive GuiAction (δ μ : Type) where
  | advance
  | interrupt (source : Interrupt)
  | outside (world : World δ μ)

namespace MainLoop

/-- `run` up to its loop. -/
def start (keyboard : κ) (world : World δ μ) : Checked (MainLoop κ δ μ) := do
  let comp : Compositor δ μ := Compositor.new.addWidget (.desktop 0)
  let (comp,counter) ← spawnTerminalWindow comp nextWidgetId
  return ⟨.new keyboard world.layout,comp,world,counter,false,Cursor.new 160 100,0,.filled 0,.filled 0⟩

variable (env : Environment κ ε δ μ)

/-- The arms of the match on an event. -/
def handle (event : Event) (gui : MainLoop κ δ μ) : Checked (MainLoop κ δ μ) :=
  match event with
  | .mouseMove x y => do
    let (_,comp,world) ← gui.comp.handleEvent env.platform event gui.world
    return {gui with comp, world, cursor := {gui.cursor with x, y}}
  | .mouseDown _ _ _ => do
    let (spawn,comp,world) ← gui.comp.handleEvent env.platform event gui.world
    return {gui with comp, world, needNewTerminal := spawn || gui.needNewTerminal}
  | _ => do
    let (_,comp,world) ← gui.comp.handleEvent env.platform event gui.world
    return {gui with comp, world}

def openTerminal (gui : MainLoop κ δ μ) : Checked (MainLoop κ δ μ) :=
  if gui.needNewTerminal then do
    let (comp,counter) ← spawnTerminalWindow gui.comp gui.counter
    return {gui with comp, counter}
  else .ok gui

/-- Every third round a frame is drawn and presented. -/
def frame (gui : MainLoop κ δ μ) : Checked (MainLoop κ δ μ) := do
  let frameCounter ← add 32 gui.frameCounter 1
  if 3 ≤ frameCounter then do
    let (_,comp,world) ← gui.comp.handleEvent env.platform .tick gui.world
    let (comp,fb) ← comp.render env.look world.ticks gui.cursor gui.fb
    return {gui with comp, world, fb, shown := fb, frameCounter := 0}
  else return {gui with frameCounter}

/-- The end of a round of the outer loop, up to the `hlt`. -/
def finishRound (gui : MainLoop κ δ μ) : Checked (MainLoop κ δ μ) := do
  let gui ← gui.openTerminal
  let gui ← gui.frame env
  return {gui with needNewTerminal := false}

def advance (gui : MainLoop κ δ μ) : Checked (MainLoop κ δ μ) :=
  match gui.loop.point with
  | .handle (some event) => do
    let gui ← gui.handle env event
    let loop ← gui.loop.advance
    return {gui with loop}
  | .handle none => do
    let gui ← gui.finishRound env
    let loop ← gui.loop.advance
    return {gui with loop}
  | _ => do
    let loop ← gui.loop.advance
    return {gui with loop}

/-- The handlers read the layout that the commands and other tasks select. -/
def interrupt (source : Interrupt) (gui : MainLoop κ δ μ) : Checked (MainLoop κ δ μ) := do
  let (_,loop) ← {gui.loop with layout := gui.world.layout}.interrupt env.decoder source
  return {gui with loop}

def step (action : GuiAction δ μ) (gui : MainLoop κ δ μ) : Checked (MainLoop κ δ μ) :=
  match action with
  | .advance => gui.advance env
  | .interrupt source => gui.interrupt env source
  | .outside world => .ok {gui with world}

def Step (gui : MainLoop κ δ μ) (action : GuiAction δ μ) (next : MainLoop κ δ μ) : Prop := gui.step env action = .ok next

end MainLoop

/-! The events of the mouse lie where the pointer is. -/

theorem emitButtonEvent_at {buttons prev mask : UInt8} {button : MouseButton} {x y : Int16} {event : Event}
    (member : event ∈ emitButtonEvent buttons prev mask button x y) :
    event = .mouseDown x y button ∨ event = .mouseUp x y button := by
  rcases List.mem_append.mp member with down | up
  · split at down
    next => exact Or.inl (List.mem_singleton.mp down)
    next => exact absurd down List.not_mem_nil
  · split at up
    next => exact Or.inr (List.mem_singleton.mp up)
    next => exact absurd up List.not_mem_nil

theorem handlePacket_visible {state next : MouseState} {events : List Event} (inside : next.OnScreen)
    (handled : state.handlePacket = .ok (next,events)) : ∀ event ∈ events, event.Visible := by
  have on : OnScreen next.x next.y :=
    Framebuffer.onScreen_iff.mpr ⟨⟨inside.left,inside.right⟩,inside.top,inside.bottom⟩
  obtain ⟨dx,_,handled⟩ := bind_ok.mp handled
  obtain ⟨dy,_,handled⟩ := bind_ok.mp handled
  split at handled
  next =>
    cases handled
    intro event none
    exact absurd none List.not_mem_nil
  next =>
    obtain ⟨up,_,handled⟩ := bind_ok.mp handled
    obtain ⟨newX,_,handled⟩ := bind_ok.mp handled
    obtain ⟨newY,_,handled⟩ := bind_ok.mp handled
    cases handled
    intro event member
    rcases List.mem_append.mp member with before | right
    · rcases List.mem_append.mp before with move | left
      · split at move
        next =>
          rw [List.mem_singleton.mp move]
          exact on
        next => exact absurd move List.not_mem_nil
      · rcases emitButtonEvent_at left with rfl | rfl <;> exact on
    · rcases emitButtonEvent_at right with rfl | rfl <;> exact on

theorem handleByte_visible {state next : MouseState} {events : List Event} {byte : UInt8} (inside : next.OnScreen)
    (handled : state.handleByte byte = .ok (next,events)) : ∀ event ∈ events, event.Visible := by
  have silent : ∀ event ∈ ([] : List Event), event.Visible := fun event none => absurd none List.not_mem_nil
  unfold MouseState.handleByte at handled
  split at handled
  next =>
    split at handled <;> cases handled <;> exact silent
  next =>
    split at handled
    next =>
      cases handled
      exact silent
    next =>
      split at handled
      next => exact handlePacket_visible inside handled
      next =>
        cases handled
        exact silent

theorem addScancodeGui_visible (decoder : Decoder κ ε) (layout : LayoutId) (scancode : UInt8) (keyboard : κ) :
    ∀ event ∈ (addScancodeGui decoder layout scancode keyboard).1.toList, event.Visible := by
  intro event member
  unfold addScancodeGui at member
  split at member
  next =>
    obtain ⟨key,_,rfl⟩ := Option.map_eq_some_iff.mp (Option.mem_toList.mp member)
    trivial
  next => exact absurd member List.not_mem_nil

/-- An interrupt hands out events on the screen and leaves the loop where it was. -/
theorem interrupt_visible (decoder : Decoder κ ε) (source : Interrupt) {loop : EventLoop κ} {events : List Event}
    (sound : EventLoop.Sound loop events) : ∃ produced next, EventLoop.Returns decoder source loop events produced next ∧
      ∀ event ∈ produced, event.Visible := by
  obtain ⟨produced,next,returns⟩ := EventLoop.interrupt_returns decoder source sound
  refine ⟨produced,next,returns,?_⟩
  have ran := returns.returns
  cases source with
  | keyboard scancode =>
    obtain ⟨offered,_,done⟩ := bind_ok.mp ran
    cases done
    exact addScancodeGui_visible decoder loop.layout scancode loop.keyboard
  | mouse byte =>
    obtain ⟨⟨mouse,handed⟩,handled,ran⟩ := bind_ok.mp ran
    obtain ⟨offered,stored,done⟩ := bind_ok.mp ran
    cases done
    obtain ⟨queue,kept,_⟩ := EventLoop.offerAll_kept produced {loop with mouse} sound.contains
    have pointer := returns.sound.pointer
    rw [stored] at kept
    cases kept
    exact handleByte_visible pointer handled

namespace MainLoop

variable {env : Environment κ ε δ μ} {gui next : MainLoop κ δ μ} {events : List Event} {opened : Nat} {event : Event}

/-- What every run keeps; `opened` counts the windows so far. -/
structure Sound (gui : MainLoop κ δ μ) (opened : Nat) (events : List Event) : Prop where
  loop : EventLoop.Sound gui.loop events
  visible : ∀ event ∈ events, event.Visible
  current : ∀ event, gui.loop.point = .unlock (some event) ∨ gui.loop.point = .handle (some event) → event.Visible
  stacked : gui.comp.WellFormed
  kept : gui.comp.Kept
  counted : gui.counter = counterAfter opened
  limit : opened ≤ 1093
  fresh : ∀ id ∈ gui.comp.ids, id < 10 + 2 * opened
  pointer : OnScreen gui.cursor.x gui.cursor.y
  rounds : gui.frameCounter < 3

theorem counter_small (limit : opened ≤ 1093) : (counterAfter opened).toNat = 10 + 2 * opened := by
  rw [counterAfter_toNat]
  omega

theorem counterAfter_succ (opened : Nat) : counterAfter (opened + 1) = counterAfter opened + 1 + 1 :=
  Function.iterate_succ_apply' _ _ _

/-- A window opens on the screen as long as its number fits. -/
theorem spawn_kept {comp : Compositor δ μ} (held : comp.WellFormed) (kept : comp.Kept) (few : opened ≤ 1092)
    (fresh : ∀ id ∈ comp.ids, id < 10 + 2 * opened) :
    ∃ next, spawnTerminalWindow comp (counterAfter opened) = .ok (next,counterAfter opened + 1 + 1) ∧
      next.WellFormed ∧ next.Kept ∧ (∀ id ∈ next.ids, id < 10 + 2 * (opened + 1)) ∧
      ∃ window, next.layers = comp.layers ++ [.window window] ∧ window.PromptFits := by
  obtain ⟨next,counter,ran,placed⟩ := (spawned_placed_iff comp opened).mpr (Or.inl (by omega))
  obtain ⟨offset,_,opening⟩ := bind_ok.mp ran
  obtain ⟨x,_,opening⟩ := bind_ok.mp opening
  obtain ⟨y,_,opening⟩ := bind_ok.mp opening
  obtain ⟨content,area,opening⟩ := bind_ok.mp opening
  obtain ⟨term,created,opening⟩ := bind_ok.mp opening
  obtain ⟨other,layers,⟨left,right⟩,top,bottom⟩ := placed
  cases opening
  obtain rfl := Layer.window.inj (List.singleton_inj.mp (List.append_cancel_left layers))
  dsimp only at left right top bottom
  have number := counter_small (Nat.le_succ_of_le few)
  have cwd : term.cwd = [] := congrArg Prod.snd (TerminalWidget.pushLines_entry created)
  have known : (⟨(counterAfter opened).toNat,x,y,280,160,some (.terminal term)⟩ : Window δ μ).Kept :=
    ⟨⟨rfl,rfl,term,rfl⟩,Window.graspable_corner (Framebuffer.onScreen_iff.mpr (by dsimp only; omega))⟩
  have unused : (counterAfter opened).toNat ∉ comp.ids := by
    intro member
    have below := fresh _ member
    omega
  refine ⟨_,ran,Compositor.addWidget_wellFormed held unused,Compositor.addWidget_kept kept known,?_,_,rfl,?_⟩
  · intro id member
    rw [Compositor.ids_eq,Compositor.addWidget,List.map_append] at member
    rcases List.mem_append.mp member with there | added
    · rw [← Compositor.ids_eq] at there
      have below := fresh id there
      omega
    · have same : id = (counterAfter opened).toNat := List.mem_singleton.mp added
      omega
  · intro other same
    cases same
    have three : term.prompt.length = 3 := by
      rw [TerminalWidget.prompt,cwd]
      rfl
    rw [three]
    dsimp only
    omega

theorem spawn_refused {comp : Compositor δ μ} (result : Compositor δ μ × UInt32) :
    spawnTerminalWindow comp (counterAfter 1093) ≠ .ok result := by
  intro ran
  obtain ⟨offset,moved,_⟩ := bind_ok.mp ran
  obtain ⟨⟨_,high⟩,_⟩ := spawnOffset_ok.mp moved
  have far : steps 1093 = 2186 := by decide
  rw [counterAfter_steps,far] at high
  omega

end MainLoop

namespace Compositor

variable {comp next : Compositor δ μ} {event : Event}

theorem Change.ids_subset (change : Change comp event next) : ∀ id ∈ next.ids, id ∈ comp.ids := by
  intro id member
  cases change with
  | kept _ names => rwa [ids,← names]
  | raised top _ up => exact (up.perm.map LayerName.id).mem_iff.mpr member
  | closed window _ _ _ gone => exact (gone.sublist.map LayerName.id).subset member

theorem settle_names (comp : Compositor δ μ) : comp.settle.names = comp.names := by
  rw [names,names,settle,List.map_map]
  refine List.map_congr_left fun layer _ => ?_
  cases layer with
  | desktop id => rfl
  | window win =>
    rw [Function.comp_apply,Layer.settle,Layer.name,Window.settle]
    split <;> rfl

theorem settle_wellFormed (held : comp.WellFormed) : comp.settle.WellFormed := by
  have names := settle_names comp
  exact {
    distinct := by
      rw [ids,names]
      exact held.distinct
    bottom := names ▸ held.bottom
    windows := names ▸ held.windows
    focused := names ▸ held.focused
    dragged := names ▸ held.dragged }

theorem settle_kept (kept : comp.Kept) : comp.settle.Kept := by
  refine ⟨?_,kept.grips⟩
  intro layer member
  obtain ⟨before,known,rfl⟩ := List.mem_map.mp member
  cases before with
  | desktop id =>
    intro window none
    cases none
  | window win =>
    obtain ⟨tidy,grasp⟩ := kept.layers _ known win rfl
    obtain ⟨term,content⟩ := tidy.terminal
    rintro _ ⟨⟩
    rw [Window.settle,content]
    exact ⟨⟨tidy.width,tidy.height,_,rfl⟩,grasp⟩

theorem kept_drawable (kept : comp.Kept) (fits : ∀ window, .window window ∈ comp.layers → window.PromptFits) :
    ∀ layer ∈ comp.layers, layer.Drawable := by
  intro layer member
  exact ⟨fun window same => (kept.layers layer member window same).tidy,
    fun window same => (kept.layers layer member window same).graspable.near,
    fun window same => fits window (same ▸ member)⟩

end Compositor

namespace MainLoop

variable {env : Environment κ ε δ μ} {gui next : MainLoop κ δ μ} {events : List Event} {opened : Nat} {event : Event}

/-- The command that Enter runs does not return. -/
def Refused (env : Environment κ ε δ μ) (gui : MainLoop κ δ μ) : Prop :=
  ∃ term, gui.comp.focusedTerminal = some term ∧ ∀ result, term.executeCommand env.platform gui.world ≠ .ok result

/-- What the handling of an event does beside the command that it may run. -/
structure Handled (gui next : MainLoop κ δ μ) : Prop where
  loop : next.loop = gui.loop
  counter : next.counter = gui.counter
  rounds : next.frameCounter = gui.frameCounter
  stacked : next.comp.WellFormed
  kept : next.comp.Kept
  ids : ∀ id ∈ next.comp.ids, id ∈ gui.comp.ids
  pointer : OnScreen next.cursor.x next.cursor.y

theorem handleEvent_kept {comp after : Compositor δ μ} {p : Platform δ μ} {world later : World δ μ} {spawn : Bool}
    (held : comp.WellFormed) (kept : comp.Kept) (visible : event.Visible)
    (ran : comp.handleEvent p event world = .ok (spawn,after,later)) :
    after.WellFormed ∧ after.Kept ∧ ∀ id ∈ after.ids, id ∈ comp.ids := by
  have change := Compositor.handleEvent_change held ran
  refine ⟨change.wellFormed held,?_,change.ids_subset⟩
  by_cases mouse : ∀ key, event ≠ .keyPress key
  · obtain ⟨_,_,again,known⟩ := Compositor.mouse_kept held kept mouse visible world
    cases ran.symm.trans again
    exact known
  · obtain ⟨key,same⟩ := not_forall.mp mouse
    rw [not_not.mp same] at ran
    exact (Compositor.key_kept kept ran).2

theorem handle_parts (ran : gui.handle env event = .ok next) :
    ∃ spawn, gui.comp.handleEvent env.platform event gui.world = .ok (spawn,next.comp,next.world) ∧
      next.loop = gui.loop ∧ next.counter = gui.counter ∧ next.frameCounter = gui.frameCounter ∧
      (next.cursor = gui.cursor ∨ ∃ x y, event = .mouseMove x y ∧ next.cursor = {gui.cursor with x, y}) := by
  unfold handle at ran
  split at ran
  next x y =>
    obtain ⟨⟨spawn,comp,world⟩,known,done⟩ := bind_ok.mp ran
    cases done
    exact ⟨spawn,known,rfl,rfl,rfl,Or.inr ⟨x,y,rfl,rfl⟩⟩
  next =>
    obtain ⟨⟨spawn,comp,world⟩,known,done⟩ := bind_ok.mp ran
    cases done
    exact ⟨spawn,known,rfl,rfl,rfl,Or.inl rfl⟩
  next =>
    obtain ⟨⟨spawn,comp,world⟩,known,done⟩ := bind_ok.mp ran
    cases done
    exact ⟨spawn,known,rfl,rfl,rfl,Or.inl rfl⟩

theorem Sound.handled (sound : gui.Sound opened events) (visible : event.Visible) (ran : gui.handle env event = .ok next) :
    gui.Handled next := by
  obtain ⟨spawn,known,loop,counter,rounds,pointer⟩ := handle_parts ran
  obtain ⟨stacked,kept,ids⟩ := handleEvent_kept sound.stacked sound.kept visible known
  refine ⟨loop,counter,rounds,stacked,kept,ids,?_⟩
  rcases pointer with same | ⟨x,y,rfl,moved⟩
  · rw [same]
    exact sound.pointer
  · rw [moved]
    exact visible

theorem Sound.handle_returns_iff (sound : gui.Sound opened events) (visible : event.Visible) :
    (∃ next, gui.handle env event = .ok next) ↔ ¬(event = .keyPress .enter ∧ gui.Refused env) := by
  have through : (∃ next, gui.handle env event = .ok next) ↔
      ∃ result, gui.comp.handleEvent env.platform event gui.world = .ok result := by
    constructor
    · rintro ⟨next,ran⟩
      unfold handle at ran
      split at ran <;> obtain ⟨result,known,_⟩ := bind_ok.mp ran <;> exact ⟨result,known⟩
    · rintro ⟨result,known⟩
      unfold handle
      split <;> exact ⟨_,bind_ok.mpr ⟨result,known,rfl⟩⟩
  rw [through]
  by_cases mouse : ∀ key, event ≠ .keyPress key
  · obtain ⟨spawn,after,known,_⟩ := Compositor.mouse_kept (p := env.platform) sound.stacked sound.kept mouse visible gui.world
    exact iff_of_true ⟨_,known⟩ fun both => mouse _ both.1
  · obtain ⟨key,same⟩ := not_forall.mp mouse
    obtain rfl := not_not.mp same
    rw [Compositor.key_returns_iff env.platform sound.kept key gui.world,Event.keyPress.injEq,Refused]
    constructor
    · rintro runs ⟨enter,term,focus,refused⟩
      obtain ⟨result,known⟩ := runs enter term focus
      exact refused result known
    · intro accepted enter term focus
      by_contra none
      exact accepted ⟨enter,term,focus,not_exists.mp none⟩

/-- The command of Enter, the window whose number no longer fits, or a prompt without end. -/
inductive Halts (env : Environment κ ε δ μ) (gui : MainLoop κ δ μ) : Prop
  | command (key : gui.loop.point = .handle (some (.keyPress .enter))) (refused : gui.Refused env)
  | window (idle : gui.loop.point = .handle none) (wanted : gui.needNewTerminal = true)
      (full : gui.counter = counterAfter 1093)
  | prompt (idle : gui.loop.point = .handle none) (due : gui.frameCounter = 2) (window : Window δ μ)
      (member : .window window ∈ gui.comp.layers) (long : ¬window.PromptFits)

def PromptsFit (comp : Compositor δ μ) : Prop := ∀ window, .window window ∈ comp.layers → window.PromptFits

theorem Sound.full_iff (sound : gui.Sound opened events) : gui.counter = counterAfter 1093 ↔ opened = 1093 := by
  have number := counter_small sound.limit
  have last := counter_small (Nat.le_refl 1093)
  rw [sound.counted,← UInt32.toNat_inj,number,last]
  omega

/-- A new window is opened unless its number no longer fits. -/
theorem Sound.openTerminal (sound : gui.Sound opened events) :
    gui.needNewTerminal = true ∧ gui.counter = counterAfter 1093 ∧ (∀ next, gui.openTerminal ≠ .ok next) ∨
    ¬(gui.needNewTerminal = true ∧ gui.counter = counterAfter 1093) ∧ ∃ next later, gui.openTerminal = .ok next ∧
      next.Sound later events ∧ next.loop = gui.loop ∧ next.frameCounter = gui.frameCounter ∧
      (PromptsFit next.comp ↔ PromptsFit gui.comp) := by
  unfold MainLoop.openTerminal
  split
  next wanted =>
    by_cases full : gui.counter = counterAfter 1093
    · refine Or.inl ⟨wanted,full,?_⟩
      intro next ran
      obtain ⟨result,spawned,_⟩ := bind_ok.mp ran
      rw [full] at spawned
      exact spawn_refused result spawned
    · have few : opened ≤ 1092 := by
        have limit := sound.limit
        have other := mt sound.full_iff.mpr full
        omega
      obtain ⟨comp,ran,stacked,kept,fresh,window,layers,fits⟩ := spawn_kept sound.stacked sound.kept few sound.fresh
      refine Or.inr ⟨fun both => full both.2,{gui with comp, counter := counterAfter opened + 1 + 1},opened + 1,?_,?_,rfl,rfl,?_⟩
      · rw [sound.counted,ran]
        rfl
      · exact {sound with
          stacked
          kept
          counted := (counterAfter_succ opened).symm
          limit := Nat.succ_le_succ few
          fresh }
      · simp only [PromptsFit,layers,List.mem_append,List.mem_singleton,Layer.window.injEq]
        exact ⟨fun all window member => all window (Or.inl member),
          fun all other member => member.elim (all other) fun same => same ▸ fits⟩
  next unwanted => exact Or.inr ⟨fun both => unwanted both.1,gui,opened,rfl,sound,rfl,rfl,Iff.rfl⟩

theorem Sound.drawn (sound : gui.Sound opened events) (fits : PromptsFit gui.comp) (look : Appearance) (ticks : Nat)
    (fb : Framebuffer) : ∃ next, gui.comp.render look ticks gui.cursor fb = .ok (gui.comp.settle,next) ∧
      Draws (gui.comp.picture look ticks gui.cursor) fb next :=
  Compositor.render_draws (Compositor.kept_drawable sound.kept fits) sound.pointer look ticks fb

/-- A frame is drawn unless some prompt goes on beyond the coordinates. -/
theorem Sound.frame (sound : gui.Sound opened events) (env : Environment κ ε δ μ) :
    gui.frameCounter = 2 ∧ ¬PromptsFit gui.comp ∧ (∀ next, gui.frame env ≠ .ok next) ∨
    (gui.frameCounter = 2 → PromptsFit gui.comp) ∧ ∃ next, gui.frame env = .ok next ∧ next.Sound opened events ∧
      next.loop = gui.loop ∧ (gui.frameCounter = 2 →
        Draws (next.comp.picture env.look next.world.ticks next.cursor) gui.fb next.shown) := by
  have rounds := sound.rounds
  unfold MainLoop.frame
  rw [Checked.add,if_pos (by omega),ok_bind]
  split
  next due =>
    have second : gui.frameCounter = 2 := by omega
    by_cases fits : PromptsFit gui.comp
    · obtain ⟨fb,ran,drawn⟩ := sound.drawn fits env.look gui.world.ticks gui.fb
      refine Or.inr ⟨fun _ => fits,{gui with comp := gui.comp.settle, fb, shown := fb, frameCounter := 0},?_,?_,rfl,fun _ => ?_⟩
      · rw [Compositor.handleEvent,ok_bind]
        dsimp only
        rw [ran]
        rfl
      · exact {sound with
          stacked := Compositor.settle_wellFormed sound.stacked
          kept := Compositor.settle_kept sound.kept
          fresh := by
            dsimp only [Compositor.ids]
            rw [Compositor.settle_names]
            exact sound.fresh
          rounds := Nat.zero_lt_succ 2 }
      · rw [Compositor.picture,Compositor.settle_scene]
        exact drawn
    · refine Or.inl ⟨second,fits,?_⟩
      intro next ran
      rw [Compositor.handleEvent,ok_bind] at ran
      obtain ⟨⟨comp,fb⟩,rendered,_⟩ := bind_ok.mp ran
      obtain ⟨⟨layers,below⟩,layered,_⟩ := bind_ok.mp rendered
      refine fits (renderLayers_fits ?_ ?_ layered)
      · exact fun window member => (sound.kept.layers _ member window rfl).tidy
      · exact fun window member => (sound.kept.layers _ member window rfl).graspable.near
  next early =>
    have other : gui.frameCounter ≠ 2 := by omega
    exact Or.inr ⟨fun due => absurd due other,_,rfl,{sound with rounds := by dsimp only; omega},rfl,fun due => absurd due other⟩

theorem Sound.finishRound (sound : gui.Sound opened events) (env : Environment κ ε δ μ) :
    (gui.needNewTerminal = true ∧ gui.counter = counterAfter 1093 ∨ gui.frameCounter = 2 ∧ ¬PromptsFit gui.comp) ∧
      (∀ next, gui.finishRound env ≠ .ok next) ∨
    ¬(gui.needNewTerminal = true ∧ gui.counter = counterAfter 1093 ∨ gui.frameCounter = 2 ∧ ¬PromptsFit gui.comp) ∧
      ∃ next later fb, gui.finishRound env = .ok next ∧ next.Sound later events ∧ next.loop = gui.loop ∧
        (gui.frameCounter = 2 → Draws (next.comp.picture env.look next.world.ticks next.cursor) fb next.shown) := by
  unfold MainLoop.finishRound
  rcases sound.openTerminal with ⟨wanted,full,stuck⟩ | ⟨free,between,later,ready,known,same,rounds,prompts⟩
  · refine Or.inl ⟨Or.inl ⟨wanted,full⟩,?_⟩
    intro next ran
    obtain ⟨between,ready,_⟩ := bind_ok.mp ran
    exact stuck between ready
  · rw [ready,ok_bind,← rounds,← prompts]
    rcases known.frame env with ⟨due,long,stuck⟩ | ⟨fits,framed,drawn,kept,still,shown⟩
    · refine Or.inl ⟨Or.inr ⟨due,long⟩,?_⟩
      intro next ran
      obtain ⟨framed,drawn,_⟩ := bind_ok.mp ran
      exact stuck framed drawn
    · refine Or.inr ⟨?_,{framed with needNewTerminal := false},later,between.fb,?_,{kept with},still.trans same,shown⟩
      · rintro (wanted | ⟨due,long⟩)
        · exact free wanted
        · exact long (fits due)
      · rw [drawn]
        rfl

/-- The events that the loop has in hand and in the queue. -/
structure Seen (loop : EventLoop κ) (events : List Event) : Prop where
  sound : EventLoop.Sound loop events
  queued : ∀ event ∈ events, event.Visible
  current : ∀ event, loop.point = .unlock (some event) ∨ loop.point = .handle (some event) → event.Visible

theorem Seen.advance {loop : EventLoop κ} (seen : Seen loop events) :
    ∃ next rest, loop.advance = .ok next ∧ Seen next rest := by
  obtain ⟨point,locked,queue,mouse,keyboard,layout⟩ := loop
  obtain ⟨⟨contains,lock,pointer⟩,queued,current⟩ := seen
  have none : ∀ {event : Event} {point : LoopPoint}, (∀ other, point ≠ .unlock (some other)) →
      (∀ other, point ≠ .handle (some other)) →
      point = .unlock (some event) ∨ point = .handle (some event) → event.Visible :=
    fun before after either => either.elim (absurd · (before _)) (absurd · (after _))
  cases point with
  | tryLock =>
    cases lock
    exact ⟨_,events,rfl,⟨contains,rfl,pointer⟩,queued,fun _ => none (by simp) (by simp)⟩
  | pop =>
    obtain ⟨next,popped,rest⟩ := EventQueue.contains_pop contains
    refine ⟨⟨.unlock events.head?,locked,next,mouse,keyboard,layout⟩,events.tail,?_,⟨rest,lock,pointer⟩,?_,?_⟩
    · rw [EventLoop.advance]
      dsimp only at popped ⊢
      rw [popped]
      rfl
    · exact fun event member => queued event (List.mem_of_mem_tail member)
    · intro event either
      have first : events.head? = some event := by simpa using either
      exact queued event (List.mem_of_mem_head? first)
  | unlock event =>
    refine ⟨_,events,rfl,⟨contains,rfl,pointer⟩,queued,?_⟩
    intro other either
    exact current other (by simpa using either)
  | handle event => exact ⟨_,events,rfl,⟨contains,lock,pointer⟩,queued,fun _ => none (by simp) (by simp)⟩

theorem Sound.seen (sound : gui.Sound opened events) : Seen gui.loop events := ⟨sound.loop,sound.visible,sound.current⟩

/-- The loop goes on with its next event, or the system has stopped. -/
theorem Sound.advance (sound : gui.Sound opened events) (env : Environment κ ε δ μ) :
    gui.Halts env ∧ (∀ next, gui.advance env ≠ .ok next) ∨
    ¬gui.Halts env ∧ ∃ next later rest, gui.advance env = .ok next ∧ next.Sound later rest := by
  obtain ⟨loop,rest,advanced,seen⟩ := sound.seen.advance
  have busy : (∀ event, gui.loop.point ≠ .handle event) → ¬gui.Halts env := by
    rintro other (⟨key,_⟩ | ⟨idle,_,_⟩ | ⟨idle,_,_,_,_⟩)
    · exact other _ key
    · exact other _ idle
    · exact other _ idle
  have turned : (∀ event, gui.loop.point ≠ .handle event) → ¬gui.Halts env ∧ ∃ next later rest,
      (do let loop ← gui.loop.advance; return {gui with loop} : Checked (MainLoop κ δ μ)) = .ok next ∧
        next.Sound later rest := by
    intro other
    refine ⟨busy other,{gui with loop},opened,rest,?_,?_⟩
    · rw [advanced]
      rfl
    · exact {sound with loop := seen.sound, visible := seen.queued, current := seen.current}
  unfold MainLoop.advance
  split
  next event point =>
    have visible := sound.current event (Or.inr point)
    by_cases refused : event = .keyPress .enter ∧ gui.Refused env
    · refine Or.inl ⟨.command (refused.1 ▸ point) refused.2,?_⟩
      intro next ran
      obtain ⟨taken,known,_⟩ := bind_ok.mp ran
      exact (sound.handle_returns_iff visible).mp ⟨taken,known⟩ refused
    · obtain ⟨taken,known⟩ := (sound.handle_returns_iff visible).mpr refused
      have handled := sound.handled visible known
      refine Or.inr ⟨?_,{taken with loop},opened,rest,?_,?_⟩
      · rintro (⟨key,failed⟩ | ⟨idle,_,_⟩ | ⟨idle,_,_,_,_⟩)
        · rw [point] at key
          cases key
          exact refused ⟨rfl,failed⟩
        · cases point.symm.trans idle
        · cases point.symm.trans idle
      · rw [known,ok_bind,handled.loop,advanced]
        rfl
      · exact {
          loop := seen.sound
          visible := seen.queued
          current := seen.current
          stacked := handled.stacked
          kept := handled.kept
          counted := handled.counter.trans sound.counted
          limit := sound.limit
          fresh := fun id member => sound.fresh id (handled.ids id member)
          pointer := handled.pointer
          rounds := handled.rounds.trans_lt sound.rounds }
  next point =>
    rcases sound.finishRound env with ⟨refused,stuck⟩ | ⟨free,finished,later,_,ran,kept,same,_⟩
    · refine Or.inl ⟨?_,?_⟩
      · rcases refused with ⟨wanted,full⟩ | ⟨due,long⟩
        · exact .window point wanted full
        · obtain ⟨window,refused⟩ := not_forall.mp long
          obtain ⟨member,endless⟩ := Classical.not_imp.mp refused
          exact .prompt point due window member endless
      · intro next ran
        obtain ⟨finished,round,_⟩ := bind_ok.mp ran
        exact stuck finished round
    · refine Or.inr ⟨?_,{finished with loop},later,rest,?_,?_⟩
      · rintro (⟨key,_⟩ | ⟨_,wanted,full⟩ | ⟨_,due,window,member,long⟩)
        · cases point.symm.trans key
        · exact free (Or.inl ⟨wanted,full⟩)
        · exact free (Or.inr ⟨due,fun fits => long (fits window member)⟩)
      · rw [ran,ok_bind,same,advanced]
        rfl
      · exact {kept with loop := seen.sound, visible := seen.queued, current := seen.current}
  next other more =>
    refine Or.inr (turned ?_)
    intro event same
    cases event with
    | none => exact more same
    | some event => exact other event same

theorem Sound.interrupt (sound : gui.Sound opened events) (env : Environment κ ε δ μ) (source : Interrupt) :
    ∃ next rest, gui.interrupt env source = .ok next ∧ next.Sound opened rest := by
  have layered : EventLoop.Sound {gui.loop with layout := gui.world.layout} events := ⟨sound.loop.contains,sound.loop.lock,
    sound.loop.pointer⟩
  obtain ⟨produced,loop,returns,visible⟩ := interrupt_visible env.decoder source layered
  refine ⟨{gui with loop},_,?_,{sound with loop := returns.sound, visible := ?_, current := ?_}⟩
  · rw [MainLoop.interrupt,returns.returns]
    rfl
  · intro event member
    rw [EventLoop.kept] at member
    split at member
    next => exact sound.visible event member
    next =>
      rcases List.mem_append.mp member with queued | taken
      · exact sound.visible event queued
      · exact visible event (List.mem_of_mem_take taken)
  · rw [returns.resumes]
    exact sound.current

theorem start_sound (keyboard : κ) (world : World δ μ) : ∃ gui, start keyboard world = .ok gui ∧ gui.Sound 1 [] := by
  have desktop : (Compositor.new.addWidget (.desktop 0) : Compositor δ μ).WellFormed := by
    constructor <;> simp [Compositor.new,Compositor.addWidget,Compositor.ids,Compositor.names,Layer.name]
  have kept : (Compositor.new.addWidget (.desktop 0) : Compositor δ μ).Kept := by
    refine ⟨?_,by intro drag none; cases none⟩
    intro layer member
    rw [List.mem_singleton.mp member]
    intro window none
    cases none
  have fresh : ∀ id ∈ (Compositor.new.addWidget (.desktop 0) : Compositor δ μ).ids, id < 10 + 2 * 0 := by
    intro id member
    rw [List.mem_singleton.mp member]
    exact Nat.zero_lt_succ 9
  obtain ⟨comp,ran,stacked,placed,later,_⟩ := spawn_kept desktop kept (by decide) fresh
  refine ⟨_,bind_ok.mpr ⟨_,ran,rfl⟩,?_⟩
  exact {
    loop := EventLoop.new_sound keyboard world.layout
    visible := fun event none => absurd none List.not_mem_nil
    current := by simp [EventLoop.new]
    stacked
    kept := placed
    counted := (counterAfter_succ 0).symm
    limit := by decide
    fresh := later
    pointer := by dsimp only [Cursor.new]; decide
    rounds := Nat.zero_lt_succ 2 }

theorem run_sound {actions : List (GuiAction δ μ)} (run : Run (Step env) gui actions next)
    (sound : ∃ opened events, gui.Sound opened events) : ∃ opened events, next.Sound opened events := by
  have each : ∀ first action last, (∃ opened events, Sound first opened events) → Step env first action last →
      ∃ opened events, last.Sound opened events := by
    rintro first action last ⟨opened,events,sound⟩ stepped
    cases action with
    | advance =>
      rcases sound.advance env with ⟨_,stuck⟩ | ⟨_,next,later,rest,ran,kept⟩
      · exact absurd stepped (stuck last)
      · cases ran.symm.trans stepped
        exact ⟨later,rest,kept⟩
    | interrupt source =>
      obtain ⟨next,rest,ran,kept⟩ := sound.interrupt env source
      cases ran.symm.trans stepped
      exact ⟨opened,rest,kept⟩
    | outside world =>
      cases stepped
      exact ⟨opened,events,{sound with}⟩
  exact run.keeps each sound

theorem start_run (env : Environment κ ε δ μ) (keyboard : κ) (world : World δ μ) : ∃ gui, start keyboard world = .ok gui ∧
    ∀ actions last, Run (Step env) gui actions last → ∃ opened events, last.Sound opened events := by
  obtain ⟨gui,began,sound⟩ := start_sound keyboard world
  exact ⟨gui,began,fun actions last run => run_sound run ⟨1,[],sound⟩⟩

theorem Sound.presented (sound : gui.Sound opened events) (idle : gui.loop.point = .handle none) (due : gui.frameCounter = 2)
    (stepped : gui.step env .advance = .ok next) : (∃ later rest, next.Sound later rest) ∧
      ∃ fb, Draws (next.comp.picture env.look next.world.ticks next.cursor) fb next.shown := by
  refine ⟨?_,?_⟩
  · rcases sound.advance env with ⟨_,stuck⟩ | ⟨_,other,later,rest,ran,kept⟩
    · exact absurd stepped (stuck next)
    · cases ran.symm.trans stepped
      exact ⟨later,rest,kept⟩
  · rw [step,MainLoop.advance,idle] at stepped
    obtain ⟨finished,ran,more⟩ := bind_ok.mp stepped
    obtain ⟨loop,_,done⟩ := bind_ok.mp more
    cases done
    rcases sound.finishRound env with ⟨_,stuck⟩ | ⟨_,other,_,fb,round,_,_,drawn⟩
    · exact absurd ran (stuck finished)
    · cases round.symm.trans ran
      exact ⟨fb,drawn due⟩

/-- A round in which the frame is due ends with it, if the prompts fit and no window is wanted. -/
theorem Sound.presents (sound : gui.Sound opened events) (idle : gui.loop.point = .handle none) (due : gui.frameCounter = 2)
    (unwanted : gui.needNewTerminal = false) (fits : PromptsFit gui.comp) :
    ∃ next, gui.step env .advance = .ok next ∧ next.comp = gui.comp.settle := by
  obtain ⟨fb,rendered,_⟩ := sound.drawn fits env.look gui.world.ticks gui.fb
  obtain ⟨loop,_,advanced,_⟩ := sound.seen.advance
  have ready : gui.openTerminal = .ok gui := if_neg (ne_true_of_eq_false unwanted)
  have framed : gui.frame env = .ok {gui with comp := gui.comp.settle, fb, shown := fb, frameCounter := 0} := by
    rw [MainLoop.frame,due,Compositor.handleEvent,Checked.add,if_pos (by decide),ok_bind,if_pos (by decide),ok_bind]
    dsimp only
    rw [rendered]
    rfl
  refine ⟨{gui with comp := gui.comp.settle, fb, shown := fb, frameCounter := 0, needNewTerminal := false, loop},?_,rfl⟩
  rw [step,MainLoop.advance,idle]
  dsimp only
  rw [MainLoop.finishRound,ready,ok_bind,framed,ok_bind]
  change (gui.loop.advance >>= _) = _
  rw [advanced]
  rfl

theorem Sound.shows (sound : gui.Sound opened events) (idle : gui.loop.point = .handle none) (due : gui.frameCounter = 2)
    (stepped : gui.step env .advance = .ok next) {x y : Int16} (on : OnScreen x y) :
    next.comp.picture env.look next.world.ticks next.cursor (x.toInt,y.toInt) = some (next.shown.getPixel x y) := by
  obtain ⟨⟨later,rest,kept⟩,fb,drawn⟩ := sound.presented idle due stepped
  have seen := mem_screen.mpr on
  have whole : (x.toInt,y.toInt) ∈ (next.comp.picture env.look next.world.ticks next.cursor).region := by
    rw [Compositor.picture,region_overlay]
    exact Or.inl (Compositor.scene_covers kept.stacked env.look next.world.ticks seen)
  obtain ⟨color,colored⟩ := Option.ne_none_iff_exists'.mp whole
  have painted := drawn _ seen
  rw [Framebuffer.colorAt_eq,colored] at painted
  rw [colored,painted]
  rfl

/-- Every line ends before the edge of its window. -/
def Short (comp : Compositor δ μ) : Prop :=
  ∀ layer ∈ comp.layers, ∀ term ∈ layer.terminal?, term.prompt.length + term.inputBuf.length < 34

theorem Short.window {comp : Compositor δ μ} (short : Short comp) {window : Window δ μ} (member : .window window ∈ comp.layers)
    {term : TerminalWidget} (content : window.content = some (.terminal term)) :
    term.prompt.length + term.inputBuf.length < 34 := by
  refine short _ member term ?_
  rw [Layer.terminal?,content]
  rfl

theorem Short.promptsFit {comp : Compositor δ μ} (short : Short comp) (kept : comp.Kept) : PromptsFit comp := by
  intro window member term content
  have line := short.window member content
  have column := (kept.layers _ member window rfl).graspable.near.right
  omega

theorem Short.inside {comp : Compositor δ μ} (short : Short comp) (kept : comp.Kept) (look : Appearance) :
    ∀ window, .window window ∈ comp.settle.layers → window.Inside look := by
  intro window member
  have known := (Compositor.settle_kept kept).layers _ member window rfl
  obtain ⟨layer,before,same⟩ := List.mem_map.mp member
  cases layer with
  | desktop id => cases same
  | window old =>
    cases same
    obtain ⟨term,content⟩ := (kept.layers _ before old rfl).tidy.terminal
    have placed : old.settle.content = some (.terminal (old.settled term)) := by rw [Window.settle,content]
    have line := short.window before content
    exact Window.inside_of_short known.tidy known.graspable.near placed line

/-! Runs on a system with the key a, a mouse and a black wallpaper. -/

def sampleEnvironment : Environment Unit Bool Unit Unit where
  platform := bareMachine
  decoder := EventLoop.letterDecoder
  look := ⟨TerminalWidget.blankFont,defaultDarkTheme,⟨List.replicate 59520 0,List.length_replicate⟩⟩

/-- The loop after these actions from its start. -/
def played (actions : List (GuiAction Unit Unit)) : Checked (MainLoop Unit Unit Unit) := do
  let gui ← start () (bareWorld RamFs.new)
  actions.foldlM (fun gui action => gui.step sampleEnvironment action) gui

theorem played_run {actions : List (GuiAction Unit Unit)} {last : MainLoop Unit Unit Unit} (ran : played actions = .ok last) :
    ∃ gui, start () (bareWorld RamFs.new) = .ok gui ∧ Run (Step sampleEnvironment) gui actions last := by
  obtain ⟨gui,began,rest⟩ := bind_ok.mp ran
  exact ⟨gui,began,.of_foldlM rest⟩

/-- What a layer is called, where it lies and which terminal it holds. -/
def listed (layer : Layer δ μ) : Nat × Rect × Option TerminalWidget := (layer.id,layer.bounds,layer.terminal?)

/-- A press into the first window and the key a; the third frame is due when both are handled. -/
def typing : List (GuiAction Unit Unit) :=
  [.interrupt (.mouse 0x09),.interrupt (.mouse 0),.interrupt (.mouse 0),.interrupt (.keyboard 0x1E)] ++
    List.replicate 19 .advance

def typedTerminal : TerminalWidget := {TerminalWidget.windowTerminal with
  lines := [lit "PolarOs Terminal v0.1.0",lit "Wpisz 'help' aby zobaczyc komendy.",[]]
  inputBuf := ['a'] }

theorem played_typing : ∃ last, played typing = .ok last ∧ last.loop.point = .handle none ∧ last.frameCounter = 2 ∧
    last.needNewTerminal = false ∧ Short last.comp ∧
    last.comp.layers.map listed = [(0,⟨0,0,320,200⟩,none),(10,⟨20,10,280,160⟩,some typedTerminal)] := by
  unfold Short
  decide +kernel

/-- A frame shows the letter that was typed. -/
theorem typing_presents : ∃ gui last next, start () (bareWorld RamFs.new) = .ok gui ∧
    Run (Step sampleEnvironment) gui typing last ∧ last.loop.point = .handle none ∧ last.frameCounter = 2 ∧
    last.step sampleEnvironment .advance = .ok next ∧
    last.comp.layers.map listed = [(0,⟨0,0,320,200⟩,none),(10,⟨20,10,280,160⟩,some typedTerminal)] ∧
    ∀ window, .window window ∈ next.comp.layers → window.Inside sampleEnvironment.look := by
  obtain ⟨last,ran,idle,due,unwanted,short,layers⟩ := played_typing
  obtain ⟨gui,began,run⟩ := played_run ran
  obtain ⟨first,again,sound⟩ := start_sound () (bareWorld RamFs.new)
  cases began.symm.trans again
  obtain ⟨opened,events,known⟩ := run_sound run ⟨1,[],sound⟩
  obtain ⟨next,stepped,settled⟩ := known.presents idle due unwanted (short.promptsFit known.kept)
  exact ⟨gui,last,next,began,run,idle,due,stepped,layers,settled ▸ short.inside known.kept _⟩

/-- Every frame shows the windows, the desktop and the pointer as they are, and nothing of what was drawn before. -/
theorem frame_shows_state (env : Environment κ ε δ μ) (keyboard : κ) (world : World δ μ) :
    ∃ gui, start keyboard world = .ok gui ∧ ∀ actions last, Run (Step env) gui actions last →
      last.loop.point = .handle none → last.frameCounter = 2 → ∀ next, last.step env .advance = .ok next →
      ∀ x y, OnScreen x y →
        next.comp.picture env.look next.world.ticks next.cursor (x.toInt,y.toInt) = some (next.shown.getPixel x y) := by
  obtain ⟨gui,began,runs⟩ := start_run env keyboard world
  refine ⟨gui,began,?_⟩
  intro actions last run idle due next stepped x y on
  obtain ⟨opened,events,sound⟩ := runs actions last run
  exact sound.shows idle due stepped on

theorem frame_shows_state_typed : ∃ gui last next, start () (bareWorld RamFs.new) = .ok gui ∧
    Run (Step sampleEnvironment) gui typing last ∧ last.step sampleEnvironment .advance = .ok next ∧
    last.comp.layers.map listed = [(0,⟨0,0,320,200⟩,none),(10,⟨20,10,280,160⟩,some typedTerminal)] ∧
    ∀ x y, OnScreen x y → next.comp.picture sampleEnvironment.look next.world.ticks next.cursor (x.toInt,y.toInt) =
      some (next.shown.getPixel x y) := by
  obtain ⟨gui,last,next,began,run,idle,due,stepped,layers,_⟩ := typing_presents
  obtain ⟨first,again,shows⟩ := frame_shows_state sampleEnvironment () (bareWorld RamFs.new)
  cases began.symm.trans again
  exact ⟨gui,last,next,began,run,stepped,layers,shows typing last run idle due next stepped⟩

/-- A press hits the layer that the pixel shows, as long as no terminal writes beyond its window. -/
theorem pressed_is_seen (env : Environment κ ε δ μ) (keyboard : κ) (world : World δ μ) :
    ∃ gui, start keyboard world = .ok gui ∧ ∀ actions last, Run (Step env) gui actions last →
      last.loop.point = .handle none → last.frameCounter = 2 → ∀ next, last.step env .advance = .ok next →
      (∀ window, .window window ∈ next.comp.layers → window.Inside env.look) →
      ∀ x y, OnScreen x y → cursorPicture next.cursor (x.toInt,y.toInt) = none →
        ∃ layer ∈ next.comp.layers, next.comp.hitTest x y = .ok (some layer.id) ∧
          layer.picture env.look next.world.ticks (x.toInt,y.toInt) = some (next.shown.getPixel x y) := by
  obtain ⟨gui,began,runs⟩ := start_run env keyboard world
  refine ⟨gui,began,?_⟩
  intro actions last run idle due next stepped inside x y on clear
  obtain ⟨opened,events,sound⟩ := runs actions last run
  obtain ⟨⟨_,_,kept⟩,_⟩ := sound.presented idle due stepped
  obtain ⟨layer,color,member,hit,own,shown⟩ := Compositor.hit_shown kept.stacked kept.kept inside on next.world.ticks
  have pixel := sound.shows idle due stepped on
  rw [Compositor.picture,overlay_of_none clear,shown] at pixel
  exact ⟨layer,member,hit,own.trans pixel⟩

theorem pressed_is_seen_typed : ∃ gui last next, start () (bareWorld RamFs.new) = .ok gui ∧
    Run (Step sampleEnvironment) gui typing last ∧ last.step sampleEnvironment .advance = .ok next ∧
    ∀ x y, OnScreen x y → cursorPicture next.cursor (x.toInt,y.toInt) = none →
      ∃ layer ∈ next.comp.layers, next.comp.hitTest x y = .ok (some layer.id) ∧
        layer.picture sampleEnvironment.look next.world.ticks (x.toInt,y.toInt) = some (next.shown.getPixel x y) := by
  obtain ⟨gui,last,next,began,run,idle,due,stepped,_,inside⟩ := typing_presents
  obtain ⟨first,again,seen⟩ := pressed_is_seen sampleEnvironment () (bareWorld RamFs.new)
  cases began.symm.trans again
  exact ⟨gui,last,next,began,run,stepped,seen typing last run idle due next stepped inside⟩

/-- The pointer up to the title bar of the first window, a press, and a hundred rows down. -/
def dragging : List (GuiAction Unit Unit) :=
  [.interrupt (.mouse 0x08),.interrupt (.mouse 0),.interrupt (.mouse 85),
    .interrupt (.mouse 0x09),.interrupt (.mouse 0),.interrupt (.mouse 0),
    .interrupt (.mouse 0x29),.interrupt (.mouse 0),.interrupt (.mouse 156)] ++ List.replicate 12 .advance

end MainLoop

end PolarOs.Gui
