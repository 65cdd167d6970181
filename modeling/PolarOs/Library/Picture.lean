import Mathlib.Data.Set.Lattice

/-! Pictures: the colours of some points, one laid over another, and what a canvas shows once a
picture has been painted on it. -/
namespace Library

/-- The colours of the points that have one. -/
abbrev Picture (ι κ : Type) := ι → Option κ

namespace Picture

variable {ι κ α σ : Type} {point : ι} {color : κ}

def blank : Picture ι κ := fun _ => none

/-- One point, or nothing. -/
def spot [DecidableEq ι] (place : ι) (color : Option κ) : Picture ι κ := fun point => if point = place then color else none

/-- Two pictures, the second one on top. -/
def overlay (below above : Picture ι κ) : Picture ι κ := fun point => (above point).or (below point)

/-- Many pictures, each on top of those before it. -/
def stack : List (Picture ι κ) → Picture ι κ
  | [] => blank
  | picture::pictures => overlay picture (stack pictures)

/-- The points that have a colour. -/
def region (picture : Picture ι κ) : Set ι := {point | picture point ≠ none}

@[simp] theorem overlay_blank (picture : Picture ι κ) : overlay picture blank = picture := by
  funext point
  simp [overlay,blank]

@[simp] theorem blank_overlay (picture : Picture ι κ) : overlay blank picture = picture := by
  funext point
  simp [overlay,blank]

@[simp] theorem spot_none [DecidableEq ι] (place : ι) : spot place (none : Option κ) = blank := by
  funext point
  simp [spot,blank]

theorem overlay_assoc (low middle high : Picture ι κ) : overlay (overlay low middle) high = overlay low (overlay middle high) := by
  funext point
  simp [overlay,Option.or_assoc]

theorem overlay_eq_none {below above : Picture ι κ} : overlay below above point = none ↔ below point = none ∧ above point = none := by
  rw [overlay,Option.or_eq_none_iff,and_comm]

theorem overlay_of_none {below above : Picture ι κ} (clear : above point = none) : overlay below above point = below point := by
  rw [overlay,clear,Option.none_or]

@[simp] theorem region_overlay (below above : Picture ι κ) : (overlay below above).region = below.region ∪ above.region := by
  ext point
  simp only [region,Set.mem_ofPred_eq,Set.mem_union,ne_eq,overlay_eq_none]
  exact not_and_or

theorem stack_append (below above : List (Picture ι κ)) : stack (below ++ above) = overlay (stack below) (stack above) := by
  induction below with
  | nil => rw [List.nil_append,stack,blank_overlay]
  | cons picture below ih => rw [List.cons_append,stack,stack,ih,overlay_assoc]

theorem stack_eq_none {pictures : List (Picture ι κ)} :
    stack pictures point = none ↔ ∀ picture ∈ pictures, picture point = none := by
  induction pictures with
  | nil => simp [stack,blank]
  | cons picture pictures ih => rw [stack,overlay_eq_none,ih,List.forall_mem_cons]

/-- The colour of a point is the one that the topmost picture with a colour there gives it. -/
theorem stack_eq_some {pictures : List (Picture ι κ)} : stack pictures point = some color ↔
    ∃ below picture above, pictures = below ++ picture :: above ∧ picture point = some color ∧
      ∀ other ∈ above, other point = none := by
  constructor
  · intro shown
    induction pictures with
    | nil => cases shown
    | cons picture pictures ih =>
      rw [stack,overlay] at shown
      cases rest : stack pictures point with
      | none =>
        rw [rest,Option.none_or] at shown
        exact ⟨[],picture,pictures,rfl,shown,stack_eq_none.mp rest⟩
      | some hidden =>
        rw [rest,Option.some_or] at shown
        obtain ⟨below,top,above,rfl,colored,clear⟩ := ih (rest.trans shown)
        exact ⟨picture::below,top,above,rfl,colored,clear⟩
  · rintro ⟨below,picture,above,rfl,colored,clear⟩
    rw [stack_append,stack,overlay,overlay_of_none (stack_eq_none.mpr clear),colored,Option.some_or]

/-- Where all pictures that have a colour agree on it, their order does not matter. -/
theorem stack_agree {pictures : List (Picture ι κ)} {picture : Picture ι κ} (member : picture ∈ pictures)
    (colored : picture point = some color) (agree : ∀ other ∈ pictures, other point = none ∨ other point = some color) :
    stack pictures point = some color := by
  cases shown : stack pictures point with
  | none =>
    rw [stack_eq_none.mp shown picture member] at colored
    cases colored
  | some found =>
    obtain ⟨below,top,above,rfl,same,_⟩ := stack_eq_some.mp shown
    rcases agree top (by simp) with clear | equal
    · rw [clear] at same
      cases same
    · exact same.symm.trans equal

/-- Only one of the pictures can have a colour at the point. -/
theorem stack_pick {items : List α} {part : α → Picture ι κ} {pick : α} (member : pick ∈ items)
    (others : ∀ item ∈ items, item ≠ pick → part item point = none) : stack (items.map part) point = part pick point := by
  cases colored : part pick point with
  | none =>
    refine stack_eq_none.mpr ?_
    intro picture shown
    obtain ⟨item,known,rfl⟩ := List.mem_map.mp shown
    by_cases same : item = pick
    · rw [same,colored]
    · exact others item known same
  | some color =>
    refine stack_agree (List.mem_map_of_mem member) colored ?_
    intro picture shown
    obtain ⟨item,known,rfl⟩ := List.mem_map.mp shown
    by_cases same : item = pick
    · rw [same,colored]
      exact Or.inr rfl
    · exact Or.inl (others item known same)

variable (read : σ → ι → κ) (visible : Set ι)

/-- The second canvas shows the picture on top of what the first one showed. -/
def Overlaid (picture : Picture ι κ) (before after : σ) : Prop :=
  ∀ point ∈ visible, read after point = (picture point).getD (read before point)

namespace Overlaid

variable {read visible} {below above picture : Picture ι κ} {before middle after other : σ}

theorem refl (canvas : σ) : Overlaid read visible blank canvas canvas := fun _ _ => rfl

theorem trans (first : Overlaid read visible below before middle) (second : Overlaid read visible above middle after) :
    Overlaid read visible (overlay below above) before after := by
  intro point seen
  rw [second point seen,first point seen,overlay]
  cases above point <;> rfl

theorem congr (painted : Overlaid read visible below before after) (same : ∀ point ∈ visible, below point = above point) :
    Overlaid read visible above before after := by
  intro point seen
  rw [painted point seen,same point seen]

/-- A loop that paints a picture in each round. -/
theorem foldlM {ε : Type} {items : List α} {body : σ → α → Except ε σ} {part : α → Picture ι κ}
    (each : ∀ item ∈ items, ∀ canvas, ∃ next, body canvas item = .ok next ∧
      Overlaid read visible (part item) canvas next) (canvas : σ) :
    ∃ next, items.foldlM body canvas = .ok next ∧ Overlaid read visible (stack (items.map part)) canvas next := by
  induction items generalizing canvas with
  | nil => exact ⟨canvas,rfl,refl canvas⟩
  | cons item items ih =>
    obtain ⟨middle,first,painted⟩ := each item List.mem_cons_self canvas
    obtain ⟨next,rest,later⟩ := ih (fun other member => each other (List.mem_cons_of_mem _ member)) middle
    refine ⟨next,?_,painted.trans later⟩
    rw [List.foldlM_cons,first]
    exact rest

end Overlaid

end Picture

end Library
