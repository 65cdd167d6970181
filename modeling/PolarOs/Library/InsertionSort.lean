import PolarOs.Library.Loops
import Mathlib.Data.List.Induction

/-! Insertion sort in place, over the first elements of an array. -/
namespace Library.InsertionSort
open Library.Checked Library.Loops

section

variable {α : Type} [LE α] [LT α] [Std.IsLinearOrder α] [Std.LawfulOrderLT α]

/-- An ascending list stays ascending with the key between what is not larger and the rest. -/
theorem pairwise_insert {key : α} {kept larger : List α} (sorted : (kept ++ larger).Pairwise (· ≤ ·))
    (below : ∀ item ∈ kept.getLast?, item ≤ key) (above : ∀ item ∈ larger, key < item) :
    (kept ++ key :: larger).Pairwise (· ≤ ·) := by
  obtain ⟨low,high,across⟩ := List.pairwise_append.mp sorted
  have most : ∀ item ∈ kept, item ≤ key := by
    intro item member
    obtain rfl | ⟨front,last,rfl⟩ := kept.eq_nil_or_concat
    · cases member
    · rw [List.concat_eq_append] at below low member
      have final := below last (by simp)
      rcases List.mem_append.mp member with earlier | same
      · exact Std.le_trans ((List.pairwise_append.mp low).2.2 item earlier last (by simp)) final
      · rwa [List.mem_singleton.mp same]
  refine List.pairwise_append.mpr ⟨low,List.pairwise_cons.mpr ⟨fun item member => Std.le_of_lt (above item member),high⟩,?_⟩
  intro item member other later
  rcases List.mem_cons.mp later with rfl | rest
  · exact most item member
  · exact across item member other rest

end

variable {α : Type} [LT α] [DecidableLT α]

/-- The inner loop: elements larger than the key move one place up, from `j` down. -/
def shift (key : α) : Nat → List α → Checked (Nat × List α)
  | 0,items => .ok (0,items)
  | j + 1,items => do
    let item ← index items j
    if key < item then
      let items ← store items (j + 1) item
      shift key j items
    else return (j + 1,items)

def insertAt (items : List α) (i : Nat) : Checked (List α) := do
  let key ← index items i
  let (j,items) ← shift key i items
  store items j key

/-- The loop `for i in 1..n`. -/
def sort (n : Nat) (items : List α) : Checked (List α) := (List.range' 1 (n - 1)).foldlM insertAt items

variable [LE α] [Std.IsLinearOrder α] [Std.LawfulOrderLT α] {key : α}

/-- The hole stops above the last element that is not larger. -/
theorem shift_ok (key : α) (front : List α) (hole : α) (tail : List α) :
    ∃ kept larger left, front = kept ++ larger ∧ (∀ item ∈ larger, key < item) ∧
      (∀ item ∈ kept.getLast?, item ≤ key) ∧
      shift key front.length (front ++ hole :: tail) = .ok (kept.length,kept ++ left :: (larger ++ tail)) := by
  induction front using List.reverseRecOn generalizing hole tail with
  | nil => exact ⟨[],[],hole,rfl,by simp,by simp,rfl⟩
  | append_singleton front last ih =>
    have read : index (front ++ [last] ++ hole :: tail) front.length = .ok last := by simp [index]
    rw [List.length_append,List.length_singleton,shift,read,ok_bind]
    by_cases larger : key < last
    · have moved : store (front ++ [last] ++ hole :: tail) (front.length + 1) last = .ok (front ++ last :: last :: tail) := by
        rw [store_lt (by simp)]
        simp
      obtain ⟨kept,more,left,parts,above,below,ran⟩ := ih last (last :: tail)
      refine ⟨kept,more ++ [last],left,by rw [parts,List.append_assoc],?_,below,?_⟩
      · intro item member
        rcases List.mem_append.mp member with earlier | final
        · exact above item earlier
        · exact List.mem_singleton.mp final ▸ larger
      · rw [if_pos larger,moved,ok_bind,ran]
        simp
    · refine ⟨front ++ [last],[],hole,by simp,by simp,?_,?_⟩
      · intro item found
        rw [List.getLast?_concat] at found
        cases found
        exact Std.not_lt.mp larger
      · rw [if_neg larger]
        simp [pure,Except.pure]

theorem insertAt_ok {front tail : List α} (sorted : front.Pairwise (· ≤ ·)) :
    ∃ next, insertAt (front ++ key :: tail) front.length = .ok (next ++ tail) ∧ next.Perm (front ++ [key]) ∧
      next.Pairwise (· ≤ ·) := by
  obtain ⟨kept,larger,left,rfl,above,below,ran⟩ := shift_ok key front key tail
  refine ⟨kept ++ key :: larger,?_,?_,pairwise_insert sorted below above⟩
  · have read : index (kept ++ larger ++ key :: tail) (kept ++ larger).length = .ok key := by simp [index]
    rw [insertAt,read,ok_bind,ran,ok_bind]
    simp [store]
  · rw [List.append_assoc]
    exact (List.perm_append_left_iff kept).mpr (List.perm_append_singleton key larger).symm

/-- The first `n` elements are sorted, the others stay. -/
theorem sort_ok {n : Nat} {items : List α} (bound : n ≤ items.length) :
    ∃ sorted, sort n items = .ok (sorted ++ items.drop n) ∧ sorted.Perm (items.take n) ∧ sorted.Pairwise (· ≤ ·) := by
  by_cases none : n = 0
  · subst none
    exact ⟨[],rfl,by simp,by simp⟩
  · let invariant (i : Nat) (state : List α) : Prop :=
      ∃ sorted, state = sorted ++ items.drop i ∧ sorted.Perm (items.take i) ∧ sorted.Pairwise (· ≤ ·)
    have each : ∀ i state, 1 ≤ i → i < 1 + (n - 1) → invariant i state →
        ∃ next, insertAt state i = .ok next ∧ invariant (i + 1) next := by
      rintro i _ _ high ⟨sorted,rfl,perm,ascending⟩
      have size : sorted.length = i := by
        rw [perm.length_eq,List.length_take]
        omega
      have inside : i < items.length := by omega
      obtain ⟨next,ran,also,kept⟩ := @insertAt_ok _ _ _ _ _ _ items[i] sorted (items.drop (i + 1)) ascending
      rw [List.getElem_cons_drop,size] at ran
      refine ⟨_,ran,next,rfl,also.trans ?_,kept⟩
      rw [← List.take_append_getElem inside]
      exact perm.append_right _
    have first : invariant 1 items := by
      refine ⟨items.take 1,(List.take_append_drop 1 items).symm,List.Perm.refl _,?_⟩
      cases items with
      | nil => exact List.Pairwise.nil
      | cons item items => exact List.pairwise_singleton _ _
    obtain ⟨last,ran,sorted,rfl,rest⟩ := foldlM_range each first
    rw [show 1 + (n - 1) = n by omega] at ran rest
    exact ⟨sorted,ran,rest⟩

end Library.InsertionSort
