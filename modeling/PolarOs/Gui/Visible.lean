import PolarOs.Gui.Placement

/-! What is seen is what is pressed: the layer that a press reaches is the one whose picture is
on top at that pixel, as long as no input line sticks out of its window. -/
namespace PolarOs.Gui
open Library Library.Checked Library.Signed Library.Picture

variable {δ μ : Type} {look : Appearance} {font : Font} {theme : FullTheme} {ticks : Nat} {color fg : UInt8} {bg : Option UInt8}
variable {text : Str} {pixel : Int × Int} {comp : Compositor δ μ} {window : Window δ μ}

theorem region_grid (x y w h : Int) (shade : Nat → Nat → Option UInt8) : (gridPicture x y w h shade).region ⊆ block x y w h := by
  intro pixel colored
  by_contra outside
  exact colored (if_neg outside)

@[simp] theorem region_rect (x y w h : Int) (color : UInt8) : (rectPicture x y w h color).region = block x y w h := by
  refine Set.Subset.antisymm (region_grid x y w h _) ?_
  intro pixel inside none
  have colored : rectPicture x y w h color pixel = some color := if_pos inside
  rw [none] at colored
  cases colored

theorem region_char (font : Font) (x y : Int) (ch : Char) (fg : UInt8) (bg : Option UInt8) :
    (charPicture font x y ch fg bg).region ⊆ block x y 8 8 := by
  rw [charPicture]
  split
  next => exact region_grid x y 8 8 _
  next => exact fun pixel colored => absurd rfl colored

theorem region_text (font : Font) (y : Int) (fg : UInt8) (bg : Option UInt8) (text : Str) (x : Int) :
    (textPicture font y fg bg text x).region ⊆ block x y (8 * text.length) 8 := by
  induction text generalizing x with
  | nil => exact fun pixel colored => absurd rfl colored
  | cons ch text ih =>
    rw [textPicture,region_overlay,List.length_cons]
    rintro pixel (first | later)
    · obtain ⟨⟨left,right⟩,rows⟩ := region_char font x y ch fg bg first
      exact ⟨⟨left,by omega⟩,rows⟩
    · obtain ⟨⟨left,right⟩,rows⟩ := ih (x + 8) later
      exact ⟨⟨by omega,by omega⟩,rows⟩

@[simp] theorem region_stack_cons (picture : ScreenPicture) (pictures : List ScreenPicture) :
    (stack (picture::pictures)).region = picture.region ∪ (stack pictures).region := region_overlay ..

@[simp] theorem region_stack_nil : (stack ([] : List ScreenPicture)).region = ∅ := by
  ext pixel
  exact iff_of_false (fun colored => colored rfl) (Set.notMem_empty _)

theorem region_frame (x y w h : Int) (color : UInt8) : (framePicture x y w h color).region =
    block x y w 1 ∪ (block x (y + h - 1) w 1 ∪ (block x y 1 h ∪ block (x + w - 1) y 1 h)) := by
  simp [framePicture]

/-- The desktop leaves no pixel of the screen free. -/
theorem desktop_covers (look : Appearance) (ticks : Nat) : screen ⊆ (desktopPicture look ticks).region := by
  rintro ⟨px,py⟩ ⟨⟨left,right⟩,top,low⟩
  dsimp only at left right top low
  rw [desktopPicture,region_stack_cons,region_stack_cons,region_stack_cons]
  by_cases above : py < 186
  · have size := look.wallpaper.size
    have area : screenWidth.toNat * wallpaperHeight = 320 * 186 := rfl
    have bound : (py - 0).toNat * 320 + (px - 0).toNat < look.wallpaper.pixels.length := by omega
    have colored : wallpaperPicture look.wallpaper (px,py) = some look.wallpaper.pixels[(py - 0).toNat * 320 + (px - 0).toNat] :=
      (if_pos (by dsimp only; omega)).trans (List.getElem?_eq_getElem bound)
    refine Or.inl ?_
    intro none
    rw [none] at colored
    cases colored
  · refine Or.inr (Or.inr (Or.inl ?_))
    rw [taskbarPicture,region_stack_cons,region_rect]
    exact Or.inl ⟨⟨left,by dsimp only; omega⟩,by dsimp only; omega,by dsimp only; omega⟩

namespace TerminalWidget

variable {term : TerminalWidget}

theorem region_lines (tall : 8 ≤ term.h.toNat) (fg bg : UInt8) (lines : List Str) {row : Nat}
    (few : row + lines.length ≤ term.visibleRows) : (term.linesPicture font fg bg row lines).region ⊆ term.region := by
  have eight : charHeight = 8 := rfl
  have rows : 8 * term.visibleRows + 8 ≤ term.h.toNat := by
    rw [visibleRows,eight]
    omega
  have columns := term.cols_le
  induction lines generalizing row with
  | nil => exact fun pixel colored => absurd rfl colored
  | cons line lines ih =>
    rw [List.length_cons] at few
    rw [linesPicture,region_overlay]
    rintro pixel (here | later)
    · have short : (line.take term.cols).length ≤ term.cols := List.length_take_le _ _
      obtain ⟨⟨left,right⟩,top,low⟩ := region_text _ _ _ _ _ _ here
      exact ⟨⟨left,by omega⟩,by omega,by omega⟩
    · exact ih (by omega) later

/-- A line that ends within the columns, with room for the caret. -/
theorem region_picture (tall : 8 ≤ term.h.toNat) (short : 8 * (term.prompt.length + term.inputBuf.length + 1) ≤ term.w.toNat) :
    (term.picture font theme.toTheme).region ⊆ term.region := by
  have eight : charHeight = 8 := rfl
  have rows : 8 * term.visibleRows + 8 ≤ term.h.toNat := by
    rw [visibleRows,eight]
    omega
  have few : 0 + term.shownLines.length ≤ term.visibleRows := by
    rw [shownLines,List.length_drop]
    omega
  have typed : term.shownInput.length ≤ term.inputBuf.length := List.length_take_le' ..
  rw [picture,region_stack_cons,region_stack_cons,region_stack_cons,region_stack_cons,region_stack_nil,Set.union_empty]
  rintro pixel (scrolled | prompt | input | caret)
  · exact region_lines tall _ _ _ few scrolled
  · obtain ⟨⟨left,right⟩,top,low⟩ := region_text _ _ _ _ _ _ prompt
    rw [inputRow] at top low
    exact ⟨⟨left,by omega⟩,by omega,by omega⟩
  · obtain ⟨⟨left,right⟩,top,low⟩ := region_text _ _ _ _ _ _ input
    rw [inputRow] at top low
    exact ⟨⟨by omega,by omega⟩,by omega,by omega⟩
  · rw [caretPicture] at caret
    split at caret
    next =>
      rw [region_rect,inputColumn,inputRow] at caret
      obtain ⟨⟨left,right⟩,top,low⟩ := caret
      exact ⟨⟨by omega,by omega⟩,by omega,by omega⟩
    next => exact absurd rfl caret

end TerminalWidget

namespace Window

/-- The border, the title bar and the content area leave no pixel of a window free. -/
theorem picture_covers (font : Font) (theme : FullTheme) (window : Window δ μ) :
    block window.x.toInt window.y.toInt 280 160 ⊆ (window.picture font theme).region := by
  rintro ⟨px,py⟩ ⟨⟨left,right⟩,top,low⟩
  dsimp only at left right top low
  simp only [picture,region_stack_cons,region_rect,region_frame,Set.mem_union,block,Set.mem_ofPred_eq]
  by_cases border : px = window.x.toInt ∨ px = window.x.toInt + 279 ∨ py = window.y.toInt ∨ py = window.y.toInt + 159
  · exact Or.inl (by omega)
  · by_cases bar : py < window.y.toInt + 12
    · exact Or.inr (Or.inl (by omega))
    · refine Or.inr (Or.inr (Or.inr (Or.inr (Or.inr (Or.inl ?_)))))
      omega

/-- No line of the terminal sticks out of the window onto the screen. -/
def Inside (look : Appearance) (window : Window δ μ) : Prop :=
  ∀ pixel ∈ screen, pixel ∈ (window.contentPicture look.font look.theme).region → pixel ∈ window.bounds.area

theorem Tidy.area (tidy : window.Tidy) : window.bounds.area = block window.x.toInt window.y.toInt 280 160 := by
  rw [Rect.area,bounds,tidy.width,tidy.height]
  rfl

theorem picture_inside (tidy : window.Tidy) (inside : window.Inside look) (seen : pixel ∈ screen)
    (colored : pixel ∈ (window.picture look.font look.theme).region) : pixel ∈ window.bounds.area := by
  have content := inside pixel seen
  have title := @region_text look.font (window.y.toInt + 2) look.theme.titleText none windowTitle (window.x.toInt + 4) pixel
  have sign := @region_text look.font (window.y.toInt + 2) look.theme.textBright none (lit "x") (window.x.toInt + 270) pixel
  have letters : windowTitle.length = 8 := rfl
  have single : (lit "x").length = 1 := rfl
  rw [letters] at title
  rw [single] at sign
  rw [tidy.area] at content ⊢
  simp only [picture,region_stack_cons,region_stack_nil,region_rect,region_frame,Set.union_empty] at colored
  rcases colored with border | bar | named | button | cross | area | shown
  · simp only [Set.mem_union,block,Set.mem_ofPred_eq] at border ⊢
    omega
  · simp only [block,Set.mem_ofPred_eq] at bar ⊢
    omega
  · have cells := title named
    simp only [block,Set.mem_ofPred_eq] at cells ⊢
    omega
  · simp only [block,Set.mem_ofPred_eq] at button ⊢
    omega
  · have cells := sign cross
    simp only [block,Set.mem_ofPred_eq] at cells ⊢
    omega
  · simp only [block,Set.mem_ofPred_eq] at area ⊢
    omega
  · exact content shown

/-- The line ends before the thirty-fourth column. -/
theorem inside_of_short (tidy : window.Tidy) (near : window.Near) {term : TerminalWidget}
    (content : window.content = some (.terminal term)) (short : term.prompt.length + term.inputBuf.length < 34) :
    window.Inside look := by
  intro pixel _ colored
  obtain ⟨left,right,top,bottom⟩ := near
  have column : (Int16.ofInt (window.x.toInt + 1)).toInt = window.x.toInt + 1 :=
    Int16.toInt_ofInt_of_le (by omega) (by omega)
  have row : (Int16.ofInt (window.y.toInt + 12)).toInt = window.y.toInt + 12 :=
    Int16.toInt_ofInt_of_le (by omega) (by omega)
  have tall : (window.settled term).h.toNat = 147 := rfl
  have wide : (window.settled term).w.toNat = 278 := rfl
  have line : 8 * ((window.settled term).prompt.length + (window.settled term).inputBuf.length + 1) ≤ 278 := by
    change 8 * (term.prompt.length + term.inputBuf.length + 1) ≤ 278
    omega
  rw [contentPicture,content] at colored
  have within := TerminalWidget.region_picture (by omega) (wide ▸ line) colored
  rw [TerminalWidget.region,tall,wide,settled] at within
  dsimp only at within
  rw [column,row] at within
  rw [tidy.area]
  simp only [block,Set.mem_ofPred_eq] at within ⊢
  omega

end Window

/-- A layer has a colour exactly where a press can hit it. -/
theorem Layer.colored_iff {layer : Layer δ μ} (kept : layer.Kept)
    (inside : ∀ window, layer = .window window → window.Inside look) (seen : pixel ∈ screen) :
    pixel ∈ (layer.picture look ticks).region ↔ pixel ∈ layer.bounds.area := by
  cases layer with
  | desktop id => exact iff_of_true (desktop_covers look ticks seen) seen
  | window win =>
    have tidy := (kept win rfl).tidy
    refine ⟨Window.picture_inside tidy (inside win rfl) seen,?_⟩
    intro within
    apply Window.picture_covers
    rwa [← tidy.area]

namespace Compositor

variable {x y : Int16}

/-- The layer that a press hits is the one that the scene shows. -/
theorem scene_hit (kept : comp.Kept) (inside : ∀ window, .window window ∈ comp.layers → window.Inside look)
    (on : OnScreen x y) {layer : Layer δ μ}
    (found : comp.layers.reverse.find? (fun layer => (x.toInt,y.toInt) ∈ layer.bounds.area) = some layer) :
    ∃ color, layer.picture look ticks (x.toInt,y.toInt) = some color ∧ comp.scene look ticks (x.toInt,y.toInt) = some color := by
  have seen := mem_screen.mpr on
  have colored : ∀ other ∈ comp.layers, (x.toInt,y.toInt) ∈ (other.picture look ticks).region ↔
      (x.toInt,y.toInt) ∈ other.bounds.area := by
    intro other member
    exact Layer.colored_iff (kept.layers other member) (fun window same => inside window (same ▸ member)) seen
  obtain ⟨covers,above,below,parts,missed⟩ := List.find?_eq_some_iff_append.mp found
  have order : comp.layers = below.reverse ++ layer :: above.reverse := by
    have turned := congrArg List.reverse parts
    rwa [List.reverse_reverse,List.reverse_append,List.reverse_cons,List.append_assoc,List.singleton_append] at turned
  obtain ⟨color,shown⟩ := Option.ne_none_iff_exists'.mp
    ((colored layer (by rw [order]; simp)).mpr (of_decide_eq_true covers))
  refine ⟨color,shown,?_⟩
  rw [scene,stack_eq_some]
  refine ⟨below.reverse.map (Layer.picture look ticks),layer.picture look ticks,above.reverse.map (Layer.picture look ticks),
    ?_,shown,?_⟩
  · rw [order,List.map_append,List.map_cons]
  · intro picture member
    obtain ⟨other,higher,rfl⟩ := List.mem_map.mp member
    have clear := missed other (List.mem_reverse.mp higher)
    rw [Bool.not_eq_true',decide_eq_false_iff_not] at clear
    by_contra some
    exact clear ((colored other (by rw [order]; simp [List.mem_reverse.mp higher])).mp some)

/-- On the screen a press always hits some layer. -/
theorem hit_exists (held : comp.WellFormed) (on : OnScreen x y) :
    ∃ layer, comp.layers.reverse.find? (fun layer => (x.toInt,y.toInt) ∈ layer.bounds.area) = some layer := by
  obtain ⟨layer,member,named⟩ := List.mem_map.mp (List.mem_of_mem_head? held.bottom)
  cases layer with
  | window win => cases named
  | desktop id =>
    have covers : (x.toInt,y.toInt) ∈ (Layer.desktop id : Layer δ μ).bounds.area := mem_screen.mpr on
    exact Option.isSome_iff_exists.mp
      (List.find?_isSome.mpr ⟨_,List.mem_reverse.mpr member,decide_eq_true covers⟩)

/-- Every pixel of the screen has the colour of the layer that a press there hits. -/
theorem hit_shown (held : comp.WellFormed) (kept : comp.Kept)
    (inside : ∀ window, .window window ∈ comp.layers → window.Inside look) (on : OnScreen x y) (ticks : Nat) :
    ∃ layer color, layer ∈ comp.layers ∧ comp.hitTest x y = .ok (some layer.id) ∧
      layer.picture look ticks (x.toInt,y.toInt) = some color ∧ comp.scene look ticks (x.toInt,y.toInt) = some color := by
  obtain ⟨layer,found⟩ := hit_exists held on
  obtain ⟨color,own,shown⟩ := @scene_hit δ μ look ticks comp x y kept inside on layer found
  refine ⟨layer,color,List.mem_reverse.mp (List.mem_of_find?_eq_some found),?_,own,shown⟩
  rw [hitTest_eq kept,found]
  rfl

/-- The picture has no gaps, whatever sticks out of the windows. -/
theorem scene_covers (held : comp.WellFormed) (look : Appearance) (ticks : Nat) : screen ⊆ (comp.scene look ticks).region := by
  intro pixel seen none
  obtain ⟨layer,member,named⟩ := List.mem_map.mp (List.mem_of_mem_head? held.bottom)
  cases layer with
  | window win => cases named
  | desktop id =>
    have clear := stack_eq_none.mp none _ (List.mem_map_of_mem member)
    exact desktop_covers look ticks seen clear

end Compositor

end PolarOs.Gui
