import Mathlib.Order.Lattice
import Mathlib.Data.List.Basic

/-! Strictly ascending lists consumed from the front: what lies at or above a bound is
the least such element followed by what lies above it. -/
namespace Library.Ascending

variable {α : Type} [LinearOrder α]

/-- The element of the list an upward search from a bound stops at. -/
structure Least (items : List α) (bound item : α) : Prop where
  mem : item ∈ items
  above : bound ≤ item
  least : ∀ other ∈ items, bound ≤ other → item ≤ other

theorem filter_least {items : List α} {bound item : α} (ascending : items.Pairwise (· < ·))
    (found : Least items bound item) :
    items.filter (fun other => bound ≤ other) = item :: items.filter (fun other => item < other) := by
  induction items with
  | nil => cases found.mem
  | cons first items ih =>
    obtain ⟨smaller,rest⟩ := List.pairwise_cons.mp ascending
    cases List.mem_cons.mp found.mem with
    | inl same =>
      subst same
      have all : ∀ other ∈ items, decide (bound ≤ other) = decide (item < other) := by
        intro other member
        have later := smaller other member
        simp [later,found.above.trans later.le]
      rw [List.filter_cons_of_pos (by simpa using found.above),List.filter_cons_of_neg (by simp),
        List.filter_congr all]
    | inr later =>
      have below : first < item := smaller item later
      have passed : ¬bound ≤ first := by
        intro above
        exact below.not_ge (found.least first List.mem_cons_self above)
      rw [List.filter_cons_of_neg (by simpa using passed),List.filter_cons_of_neg (by simpa using below.le)]
      apply ih rest
      exact ⟨later,found.above,fun other member => found.least other (List.mem_cons_of_mem _ member)⟩

theorem filter_exhausted {items : List α} {bound : α} (below : ∀ other ∈ items, other < bound) :
    items.filter (fun other => bound ≤ other) = [] := by
  apply List.filter_eq_nil_iff.mpr
  intro other member
  simpa using below other member

end Library.Ascending
