import Mathlib.Order.Lattice
import Mathlib.Data.List.Perm.Basic

/-! Finite maps as association lists with strictly increasing keys. Lookup laws
need no ordering hypothesis; the order makes equal lookups force equal lists, so
one list stands for one map. -/
namespace Library.SortedMap

variable {κ α : Type} [LinearOrder κ]

def Sorted (map : List (κ × α)) : Prop :=
  map.Pairwise (fun a b => a.1 < b.1)

instance (map : List (κ × α)) : Decidable (Sorted map) :=
  inferInstanceAs (Decidable (map.Pairwise (fun a b => a.1 < b.1)))

def find : List (κ × α) → κ → Option α
  | [],_ => none
  | (k,v)::rest,key => if k = key then some v else find rest key

def insert : List (κ × α) → κ → α → List (κ × α)
  | [],key,value => [(key,value)]
  | (k,v)::rest,key,value =>
    if key < k then (key,value)::(k,v)::rest
    else if key = k then (key,value)::rest
    else (k,v)::insert rest key value

def erase (map : List (κ × α)) (key : κ) : List (κ × α) :=
  map.filter (fun entry => entry.1 ≠ key)

@[simp] theorem find_nil (key : κ) : find ([] : List (κ × α)) key = none := rfl

@[simp] theorem find_insert_self (map : List (κ × α)) (key : κ) (value : α) :
    find (insert map key value) key = some value := by
  induction map with
  | nil => simp [insert,find]
  | cons entry rest ih =>
    simp only [insert]
    split_ifs with before same
    · simp [find]
    · simp [find]
    · simp [find,Ne.symm same,ih]

theorem find_insert_ne (map : List (κ × α)) {key other : κ} (value : α) (different : other ≠ key) :
    find (insert map key value) other = find map other := by
  induction map with
  | nil => simp [insert,find,different.symm]
  | cons entry rest ih =>
    simp only [insert]
    split_ifs with before same
    · simp [find,different.symm]
    · simp [find,different.symm,← same]
    · by_cases here : entry.1 = other <;> simp [find,here,ih]

theorem find_erase (map : List (κ × α)) (key other : κ) :
    find (erase map key) other = if other = key then none else find map other := by
  induction map with
  | nil => simp [erase]
  | cons entry rest ih =>
    unfold erase at ih ⊢
    by_cases gone : entry.1 = key
    · rw [List.filter_cons_of_neg (by simp [gone]),ih]
      by_cases same : other = key
      · simp [same]
      · simp [same,find,gone,Ne.symm same]
    · rw [List.filter_cons_of_pos (by simp [gone])]
      by_cases here : entry.1 = other
      · have kept : other ≠ key := here ▸ gone
        simp [find,here,kept]
      · simp only [find,if_neg here,ih]

theorem mem_of_find {map : List (κ × α)} {key : κ} {value : α}
    (found : find map key = some value) : (key,value) ∈ map := by
  induction map with
  | nil => simp at found
  | cons entry rest ih =>
    simp only [find] at found
    split_ifs at found with here
    · cases Option.some.inj found
      exact List.mem_cons.mpr (Or.inl (by rw [← here]))
    · exact List.mem_cons_of_mem _ (ih found)

theorem find_of_mem {map : List (κ × α)} (sorted : Sorted map) {key : κ} {value : α}
    (member : (key,value) ∈ map) : find map key = some value := by
  induction map with
  | nil => simp at member
  | cons entry rest ih =>
    obtain ⟨first,tail⟩ := List.pairwise_cons.mp sorted
    rcases List.mem_cons.mp member with rfl | later
    · simp [find]
    · have different : entry.1 ≠ key := (first _ later).ne
      simp [find,different,ih tail later]

theorem mem_iff_find {map : List (κ × α)} (sorted : Sorted map) (key : κ) (value : α) :
    (key,value) ∈ map ↔ find map key = some value :=
  ⟨find_of_mem sorted,mem_of_find⟩

theorem find_eq_none_iff (map : List (κ × α)) (key : κ) :
    find map key = none ↔ ∀ entry ∈ map, entry.1 ≠ key := by
  induction map with
  | nil => simp
  | cons entry rest ih => by_cases here : entry.1 = key <;> simp [find,here,ih]

theorem mem_insert {map : List (κ × α)} {key : κ} {value : α} {entry : κ × α}
    (member : entry ∈ insert map key value) : entry = (key,value) ∨ entry ∈ map := by
  induction map with
  | nil => simpa [insert] using member
  | cons head rest ih =>
    simp only [insert] at member
    split_ifs at member with before same
    · simpa using member
    · rcases List.mem_cons.mp member with here | later
      · exact Or.inl here
      · exact Or.inr (List.mem_cons_of_mem _ later)
    · rcases List.mem_cons.mp member with here | later
      · exact Or.inr (List.mem_cons.mpr (Or.inl here))
      · exact (ih later).imp_right (List.mem_cons_of_mem _)

theorem length_insert_le (map : List (κ × α)) (key : κ) (value : α) :
    (insert map key value).length ≤ map.length + 1 := by
  induction map with
  | nil => exact Nat.le_refl _
  | cons entry rest ih =>
    rw [insert]
    split_ifs with before same
    · exact Nat.le_refl _
    · exact Nat.le_succ _
    · exact Nat.succ_le_succ ih

theorem sorted_insert {map : List (κ × α)} (sorted : Sorted map) (key : κ) (value : α) :
    Sorted (insert map key value) := by
  induction map with
  | nil => simp [insert,Sorted]
  | cons head rest ih =>
    obtain ⟨first,tail⟩ := List.pairwise_cons.mp sorted
    simp only [insert]
    split_ifs with before same
    · refine List.pairwise_cons.mpr ⟨?_,sorted⟩
      intro entry member
      rcases List.mem_cons.mp member with rfl | later
      · exact before
      · exact before.trans (first entry later)
    · exact List.pairwise_cons.mpr ⟨fun entry later => same ▸ first entry later,tail⟩
    · refine List.pairwise_cons.mpr ⟨?_,ih tail⟩
      intro entry member
      rcases mem_insert member with rfl | later
      · exact lt_of_le_of_ne (not_lt.mp before) (Ne.symm same)
      · exact first entry later

theorem sorted_erase {map : List (κ × α)} (sorted : Sorted map) (key : κ) :
    Sorted (erase map key) :=
  sorted.filter _

/-- A key above every present key goes to the end, so inserting the entries of a
sorted list one after the other rebuilds that list. -/
theorem insert_last {map : List (κ × α)} {key : κ} (above : ∀ entry ∈ map, entry.1 < key)
    (value : α) : insert map key value = map ++ [(key,value)] := by
  induction map with
  | nil => rfl
  | cons head rest ih =>
    have below := above head (by simp)
    rw [insert,if_neg below.not_gt,if_neg below.ne',
      ih (fun entry member => above entry (List.mem_cons_of_mem _ member))]
    rfl

theorem foldl_insert {before rest : List (κ × α)} (sorted : Sorted (before ++ rest)) :
    rest.foldl (fun map entry => insert map entry.1 entry.2) before = before ++ rest := by
  induction rest generalizing before with
  | nil => simp
  | cons entry rest ih =>
    have above : ∀ earlier ∈ before, earlier.1 < entry.1 := fun earlier member =>
      (List.pairwise_append.mp sorted).2.2 earlier member entry (by simp)
    rw [List.foldl_cons,insert_last above,ih (by simpa using sorted)]
    simp

theorem ext {first second : List (κ × α)} (firstSorted : Sorted first) (secondSorted : Sorted second)
    (same : ∀ key, find first key = find second key) : first = second := by
  refine List.Perm.eq_of_pairwise ?_ firstSorted secondSorted ?_
  · intro a b _ _ below above
    exact absurd below above.not_gt
  · have nodup {map : List (κ × α)} (sorted : Sorted map) : map.Nodup :=
      sorted.imp (fun below equal => absurd (congrArg Prod.fst equal) below.ne)
    refine (List.perm_ext_iff_of_nodup (nodup firstSorted) (nodup secondSorted)).mpr ?_
    intro entry
    obtain ⟨key,value⟩ := entry
    rw [mem_iff_find firstSorted,mem_iff_find secondSorted,same]

end Library.SortedMap
