import Mathlib.Data.List.Destutter
import Mathlib.Data.List.DropRight

/-! The newest entries of a list that grows at its end, as a log of bounded length keeps
them, and its repeats collapsed. -/
namespace Library.Recent

variable {α : Type}

@[simp] theorem length_rtake (items : List α) (limit : Nat) : (items.rtake limit).length = min limit items.length := by
  simp only [List.rtake,List.length_drop]
  omega

theorem rtake_of_length_le {items : List α} {limit : Nat} (short : items.length ≤ limit) : items.rtake limit = items := by
  simp [List.rtake,Nat.sub_eq_zero_of_le short]

/-- What the limit has dropped does not come back. -/
theorem rtake_rtake_append (items more : List α) (limit : Nat) :
    (items.rtake limit ++ more).rtake limit = (items ++ more).rtake limit := by
  have amount : (items.length - limit) + ((items.rtake limit ++ more).length - limit) = (items ++ more).length - limit := by
    simp only [List.length_append,length_rtake]
    omega
  have both : (items ++ more).drop (items.length - limit) = items.drop (items.length - limit) ++ more :=
    List.drop_append_of_le_length (Nat.sub_le _ _)
  rw [List.rtake,List.rtake.eq_def (items ++ more),← amount,← List.drop_drop,both,List.rtake]

/-- The last entry is kept unless none is. -/
theorem getLast?_rtake {items : List α} {limit : Nat} (some : limit ≠ 0) : (items.rtake limit).getLast? = items.getLast? := by
  rcases List.eq_nil_or_concat items with rfl | ⟨init,last,rfl⟩
  · simp
  · obtain ⟨limit,rfl⟩ := Nat.exists_eq_succ_of_ne_zero some
    simp

variable [DecidableEq α]

theorem destutter'_concat (first last : α) (items : List α) :
    (items ++ [last]).destutter' (· ≠ ·) first =
      if (first::items).getLast? = some last then items.destutter' (· ≠ ·) first
      else items.destutter' (· ≠ ·) first ++ [last] := by
  induction items generalizing first with
  | nil => by_cases same : first = last <;> simp [same]
  | cons item items ih =>
    have tail : (first::item::items).getLast? = (item::items).getLast? := List.getLast?_cons_cons
    by_cases same : first = item
    · subst same
      simp [ih]
    · rw [tail,List.cons_append,List.destutter'_cons_pos _ (Ne.intro same),List.destutter'_cons_pos _ (Ne.intro same),ih]
      split <;> rfl

/-- An entry is added unless it repeats the last one. -/
theorem destutter_concat (items : List α) (last : α) :
    (items ++ [last]).destutter (· ≠ ·) =
      if items.getLast? = some last then items.destutter (· ≠ ·) else items.destutter (· ≠ ·) ++ [last] := by
  cases items with
  | nil => simp
  | cons first items => exact destutter'_concat first last items

theorem getLast?_destutter (items : List α) : (items.destutter (· ≠ ·)).getLast? = items.getLast? := by
  induction items using List.reverseRecOn with
  | nil => rfl
  | append_singleton items last ih =>
    rw [destutter_concat]
    split
    next repeated => simp [ih,repeated]
    next => simp

end Library.Recent
