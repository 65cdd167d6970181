import PolarOs.Library.Checked
import Mathlib.Data.Set.Lattice

/-! Loops of computations that may fault: what every round keeps holds at the end, and loops
that write one value into cells of a list fill the union of what their rounds fill. -/
namespace Library.Loops
open Library.Checked

variable {σ ι α : Type}

/-- The rule of a loop `for i in start..start + count`. -/
theorem foldlM_range {invariant : Nat → σ → Prop} {body : σ → Nat → Checked σ} {start count : Nat}
    (each : ∀ i state, start ≤ i → i < start + count → invariant i state →
      ∃ next, body state i = .ok next ∧ invariant (i + 1) next)
    {first : σ} (holds : invariant start first) :
    ∃ last, (List.range' start count).foldlM body first = .ok last ∧ invariant (start + count) last := by
  induction count generalizing start first with
  | zero => exact ⟨first,rfl,holds⟩
  | succ count ih =>
    obtain ⟨middle,ran,kept⟩ := each start first (Nat.le_refl _) (by omega) holds
    obtain ⟨last,rest,final⟩ := ih (fun i state low high => each i state (by omega) (by omega)) kept
    refine ⟨last,?_,?_⟩
    · rw [List.range'_succ,List.foldlM_cons,ran]
      exact rest
    · rwa [Nat.add_right_comm] at final

theorem bind_comm {α β γ τ : Type} {first : Checked α} {other : Checked β} {next : α → Checked γ} {next' : β → Checked τ}
    {f : α → β} {g : γ → τ} (start : other = first.map f) (rest : ∀ value, next' (f value) = (next value).map g) :
    (other >>= next') = (first >>= next).map g := by
  rw [start]
  cases first with
  | error fault => rfl
  | ok value => exact rest value

/-- A change of the state that every round commutes with, the whole loop commutes with. -/
theorem foldlM_comm {f : σ → σ} {body : σ → ι → Checked σ} {items : List ι}
    (each : ∀ item ∈ items, ∀ state, body (f state) item = (body state item).map f) (state : σ) :
    items.foldlM body (f state) = (items.foldlM body state).map f := by
  induction items generalizing state with
  | nil => rfl
  | cons item items ih =>
    rw [List.foldlM_cons,List.foldlM_cons,each item List.mem_cons_self]
    cases body state item with
    | error fault => rfl
    | ok next => exact ih (fun other member => each other (List.mem_cons_of_mem _ member)) next

/-- The cells of the region hold the value, the others what they held. -/
structure Filled (value : α) (region : Set Nat) (cells next : List α) : Prop where
  length : next.length = cells.length
  inside : ∀ i ∈ region, i < cells.length → next[i]? = some value
  outside : ∀ i, i ∉ region → next[i]? = cells[i]?

namespace Filled

variable {value : α} {region other : Set Nat} {cells middle next : List α}

theorem refl (cells : List α) : Filled value ∅ cells cells := ⟨rfl,fun _ none => none.elim,fun _ _ => rfl⟩

theorem trans (first : Filled value region cells middle) (second : Filled value other middle next) :
    Filled value (region ∪ other) cells next where
  length := second.length.trans first.length
  inside i into bound := by
    by_cases again : i ∈ other
    · exact second.inside i again (first.length ▸ bound)
    · rw [second.outside i again]
      exact first.inside i (into.resolve_right again) bound
  outside i out := by
    rw [Set.mem_union,not_or] at out
    rw [second.outside i out.2,first.outside i out.1]

theorem store {i : Nat} (bound : i < cells.length) :
    ∃ next, Checked.store cells i value = .ok next ∧ Filled value {i} cells next := by
  refine ⟨cells.set i value,store_lt bound,List.length_set ..,?_,?_⟩
  · rintro _ rfl bound
    simp [bound]
  · intro j out
    exact List.getElem?_set_ne (Ne.symm out)

/-- Each round of a loop fills its part, whatever the rounds before have filled. -/
theorem foldlM {items : List ι} {body : List α → ι → Checked (List α)} {part : ι → Set Nat} {size : Nat}
    (each : ∀ item ∈ items, ∀ cells : List α, cells.length = size →
      ∃ next, body cells item = .ok next ∧ Filled value (part item) cells next)
    (sized : cells.length = size) :
    ∃ next, items.foldlM body cells = .ok next ∧ Filled value (⋃ item ∈ items, part item) cells next := by
  induction items generalizing cells with
  | nil => exact ⟨cells,rfl,by simpa using refl cells⟩
  | cons item items ih =>
    obtain ⟨middle,first,filled⟩ := each item List.mem_cons_self cells sized
    obtain ⟨next,rest,later⟩ :=
      ih (fun other member => each other (List.mem_cons_of_mem _ member)) (filled.length.trans sized)
    refine ⟨next,?_,?_⟩
    · rw [List.foldlM_cons,first]
      exact rest
    · have both := filled.trans later
      simpa using both

/-- Two regions have been filled when they differ only in cells that held the value before. -/
theorem iff_of_filled (filled : Filled value region cells next) :
    Filled value other cells next ↔ ∀ i < cells.length, (i ∈ region ↔ i ∈ other) ∨ cells[i]? = some value := by
  constructor
  · intro also i bound
    by_cases first : i ∈ region <;> by_cases second : i ∈ other
    · exact Or.inl (iff_of_true first second)
    · exact Or.inr ((also.outside i second).symm.trans (filled.inside i first bound))
    · exact Or.inr ((filled.outside i first).symm.trans (also.inside i second bound))
    · exact Or.inl (iff_of_false first second)
  · intro agree
    refine ⟨filled.length,?_,?_⟩
    · intro i into bound
      rcases agree i bound with same | held
      · exact filled.inside i (same.mpr into) bound
      · by_cases first : i ∈ region
        · exact filled.inside i first bound
        · exact (filled.outside i first).trans held
    · intro i out
      by_cases bound : i < cells.length
      · rcases agree i bound with same | held
        · exact filled.outside i (fun into => out (same.mp into))
        · by_cases first : i ∈ region
          · exact (filled.inside i first bound).trans held.symm
          · exact filled.outside i first
      · have past := Nat.not_lt.mp bound
        rw [List.getElem?_eq_none past,List.getElem?_eq_none (filled.length ▸ past)]

end Filled

end Library.Loops
