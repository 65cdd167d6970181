import Mathlib.Data.List.Basic

/-! What all lists of a family begin with. The longest common prefix is the one that no further
element continues in all of them. -/
namespace Library.CommonPrefix

variable {α : Type} {lists : List (List α)} {shorter longer shared : List α}

def Shares (lists : List (List α)) (shared : List α) : Prop := ∀ list ∈ lists, shared <+: list

structure Longest (lists : List (List α)) (shared : List α) : Prop where
  shares : Shares lists shared
  longest : ∀ other, Shares lists other → other.length ≤ shared.length

theorem Shares.of_prefix (shares : Shares lists longer) (begins : shorter <+: longer) : Shares lists shorter :=
  fun list member => begins.trans (shares list member)

theorem Shares.prefix_of_length_le (first : Shares lists shorter) (second : Shares lists longer)
    (some_list : lists ≠ []) (length : shorter.length ≤ longer.length) : shorter <+: longer := by
  obtain ⟨list,member⟩ := List.exists_mem_of_ne_nil lists some_list
  exact List.prefix_of_prefix_length_le (first list member) (second list member) length

/-- A prefix that is not the longest goes on with the same element in every list. -/
theorem Shares.continues (first : Shares lists shorter) (second : Shares lists longer) (some_list : lists ≠ [])
    (length : shorter.length < longer.length) : ∃ item, Shares lists (shorter ++ [item]) := by
  obtain ⟨rest,rfl⟩ := first.prefix_of_length_le second some_list (Nat.le_of_lt length)
  cases rest with
  | nil => simp at length
  | cons item rest =>
    refine ⟨item,second.of_prefix ⟨rest,?_⟩⟩
    rw [List.append_assoc,List.singleton_append]

theorem longest_iff (some_list : lists ≠ []) :
    Longest lists shared ↔ Shares lists shared ∧ ∀ item, ¬Shares lists (shared ++ [item]) := by
  constructor
  · intro most
    refine ⟨most.shares,?_⟩
    intro item continued
    have length := most.longest _ continued
    rw [List.length_append,List.length_singleton] at length
    omega
  · rintro ⟨shares,ends⟩
    refine ⟨shares,?_⟩
    intro other more
    by_contra longer
    obtain ⟨item,continued⟩ := shares.continues more some_list (Nat.not_le.mp longer)
    exact ends item continued

end Library.CommonPrefix
