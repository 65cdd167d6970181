import Mathlib.Data.List.Nodup

/-! Stacks of distinct names, the last one on top: a name raised to the top, a name taken
out, and what either leaves of the others. -/
namespace Library.Stacking

variable {κ ι : Type}

/-- The name goes to the top, the others keep their order. -/
def Raised (name : κ) (names next : List κ) : Prop :=
  ∃ front back, names = front ++ name :: back ∧ next = front ++ back ++ [name]

/-- The name goes, the others keep their order. -/
def Removed (name : κ) (names next : List κ) : Prop :=
  ∃ front back, names = front ++ name :: back ∧ next = front ++ back

variable {name : κ} {names next : List κ}

theorem Raised.perm (raised : Raised name names next) : names.Perm next := by
  obtain ⟨front,back,rfl,rfl⟩ := raised
  rw [List.append_assoc]
  exact (List.perm_append_left_iff front).mpr (List.perm_append_singleton name back).symm

theorem Raised.mem (raised : Raised name names next) (other : κ) : other ∈ next ↔ other ∈ names :=
  raised.perm.symm.mem_iff

theorem Raised.map (f : κ → ι) (raised : Raised name names next) : Raised (f name) (names.map f) (next.map f) := by
  obtain ⟨front,back,rfl,rfl⟩ := raised
  exact ⟨front.map f,back.map f,by simp,by simp⟩

theorem Removed.map (f : κ → ι) (removed : Removed name names next) : Removed (f name) (names.map f) (next.map f) := by
  obtain ⟨front,back,rfl,rfl⟩ := removed
  exact ⟨front.map f,back.map f,by simp,by simp⟩

theorem Raised.top (raised : Raised name names next) : next.getLast? = some name := by
  obtain ⟨front,back,rfl,rfl⟩ := raised
  rw [List.getLast?_concat]

theorem Raised.bottom (raised : Raised name names next) {lowest : κ} (first : names.head? = some lowest)
    (different : lowest ≠ name) : next.head? = some lowest := by
  obtain ⟨front,back,rfl,rfl⟩ := raised
  cases front with
  | nil => exact absurd (Option.some.inj first).symm different
  | cons head front => exact first

theorem Removed.bottom (removed : Removed name names next) {lowest : κ} (first : names.head? = some lowest)
    (different : lowest ≠ name) : next.head? = some lowest := by
  obtain ⟨front,back,rfl,rfl⟩ := removed
  cases front with
  | nil => exact absurd (Option.some.inj first).symm different
  | cons head front => exact first

theorem removed_sublist (front back : List κ) : (front ++ back).Sublist (front ++ name :: back) :=
  (List.sublist_cons_self name back).append_left front

theorem Removed.sublist (removed : Removed name names next) : next.Sublist names := by
  obtain ⟨front,back,rfl,rfl⟩ := removed
  exact removed_sublist front back

theorem Removed.mem (removed : Removed name names next) (distinct : names.Nodup) (other : κ) :
    other ∈ next ↔ other ∈ names ∧ other ≠ name := by
  obtain ⟨front,back,rfl,rfl⟩ := removed
  have absent : name ∉ front ++ back := (List.nodup_middle.mp distinct).notMem
  constructor
  · intro member
    exact ⟨(removed_sublist front back).subset member,fun same => absent (same ▸ member)⟩
  · intro both
    obtain ⟨member,different⟩ := both
    rcases List.mem_append.mp member with before | after
    · exact List.mem_append_left _ before
    · exact List.mem_append_right _ ((List.mem_cons.mp after).resolve_left different)

/-- Taking out the name that was raised takes it out of the stack it was raised in. -/
theorem Raised.filter (raised : Raised name names next) {keep : κ → Bool}
    (others : ∀ other ∈ names, keep other = true ↔ other ≠ name) (distinct : names.Nodup) :
    Removed name names (next.filter keep) := by
  obtain ⟨front,back,rfl,rfl⟩ := raised
  have absent : name ∉ front ++ back := (List.nodup_middle.mp distinct).notMem
  have gone : ¬keep name = true := fun kept => (others name (by simp)).mp kept rfl
  refine ⟨front,back,rfl,?_⟩
  rw [List.filter_append,List.filter_eq_self.mpr,List.filter_eq_nil_iff.mpr,List.append_nil]
  · intro other member
    rwa [List.mem_singleton.mp member]
  · intro other member
    have known : other ∈ front ++ name :: back := (removed_sublist front back).subset member
    exact (others other known).mpr fun same => absent (same ▸ member)

variable [DecidableEq κ]

theorem Raised.others (raised : Raised name names next) :
    next.filter (fun other => other ≠ name) = names.filter fun other => other ≠ name := by
  obtain ⟨front,back,rfl,rfl⟩ := raised
  simp

theorem Removed.others (removed : Removed name names next) :
    next.filter (fun other => other ≠ name) = names.filter fun other => other ≠ name := by
  obtain ⟨front,back,rfl,rfl⟩ := removed
  simp

end Library.Stacking
