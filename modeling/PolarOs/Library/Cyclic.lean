import Mathlib.Data.List.Sort
import Mathlib.Data.List.Range
import Mathlib.Data.Int.ModEq

/-! The places `0 … n - 1` on a circle: the first marked place from a start on, and the
order in which going on from marked place to marked place meets them all. -/
namespace Library.Cyclic

variable {marked : Nat → Prop} {n start found : Nat}

/-- `found` is the first marked place from `start` on. -/
def First (marked : Nat → Prop) (n start found : Nat) : Prop :=
  ∃ distance < n, found = (start + distance) % n ∧ marked found ∧
    ∀ nearer < distance, ¬marked ((start + nearer) % n)

theorem First.holds (first : First marked n start found) : marked found := by
  obtain ⟨_,_,_,holds,_⟩ := first
  exact holds

theorem First.lt (first : First marked n start found) : found < n := by
  obtain ⟨distance,near,rfl,_⟩ := first
  exact Nat.mod_lt _ (by omega)

theorem First.unique {other : Nat} (first : First marked n start found) (second : First marked n start other) :
    found = other := by
  obtain ⟨distance,_,rfl,holds,none⟩ := first
  obtain ⟨farther,_,rfl,otherHolds,otherNone⟩ := second
  rcases Nat.lt_trichotomy distance farther with less | same | more
  · exact absurd holds (otherNone _ less)
  · rw [same]
  · exact absurd otherHolds (none _ more)

/-- Every place lies at some distance less than `n` from every start. -/
theorem at_distance {i : Nat} (within : i < n) (inside : start < n) :
    ∃ distance < n, (start + distance) % n = i := by
  by_cases before : i < start
  · refine ⟨n - start + i,by omega,?_⟩
    rw [show start + (n - start + i) = i + n by omega,Nat.add_mod_right,Nat.mod_eq_of_lt within]
  · refine ⟨i - start,by omega,?_⟩
    rw [show start + (i - start) = i by omega,Nat.mod_eq_of_lt within]

theorem distance_unique {distance other : Nat} (near : distance < n) (otherNear : other < n)
    (same : (start + distance) % n = (start + other) % n) : distance = other := by
  have residues : distance % n = other % n := Nat.ModEq.add_left_cancel' start same
  rwa [Nat.mod_eq_of_lt near,Nat.mod_eq_of_lt otherNear] at residues

/-- When the search comes back to where it began, nothing else is marked. -/
theorem First.alone {i j : Nat} (first : First marked n ((i + 1) % n) i) (below : j < n) (marks : marked j) :
    j = i := by
  have bound := first.lt
  obtain ⟨distance,near,reached,_,gap⟩ := first
  have last : distance = n - 1 := by
    have back : ((i + 1) % n + distance) % n = ((i + 1) % n + (n - 1)) % n := by
      rw [← reached,Nat.mod_add_mod,show i + 1 + (n - 1) = i + n by omega,Nat.add_mod_right,
        Nat.mod_eq_of_lt bound]
    exact distance_unique near (by omega) back
  obtain ⟨other,otherNear,rfl⟩ := at_distance below (Nat.mod_lt (i + 1) (by omega))
  rcases Nat.lt_or_ge other distance with nearer | farther
  · exact absurd marks (gap other nearer)
  · rw [show other = distance by omega,← reached]

theorem first_ahead {i j : Nat} (less : i < j) (below : j < n) (marks : marked j)
    (gap : ∀ place, i < place → place < j → ¬marked place) : First marked n ((i + 1) % n) j := by
  refine ⟨j - i - 1,by omega,?_,marks,fun nearer near holds => ?_⟩
  · rw [Nat.mod_add_mod,show i + 1 + (j - i - 1) = j by omega,Nat.mod_eq_of_lt below]
  · rw [Nat.mod_add_mod,Nat.mod_eq_of_lt (by omega)] at holds
    exact gap _ (by omega) (by omega) holds

theorem first_around {i j : Nat} (order : j ≤ i) (below : i < n) (marks : marked j)
    (last : ∀ place, i < place → place < n → ¬marked place) (first : ∀ place < j, ¬marked place) :
    First marked n ((i + 1) % n) j := by
  refine ⟨n - 1 - i + j,by omega,?_,marks,fun nearer near holds => ?_⟩
  · rw [Nat.mod_add_mod,show i + 1 + (n - 1 - i + j) = j + n by omega,Nat.add_mod_right,
      Nat.mod_eq_of_lt (by omega)]
  · rw [Nat.mod_add_mod] at holds
    by_cases inside : i + 1 + nearer < n
    · rw [Nat.mod_eq_of_lt inside] at holds
      exact last _ (by omega) inside holds
    · rw [Nat.mod_eq_sub_mod (by omega),Nat.mod_eq_of_lt (by omega)] at holds
      exact first _ (by omega) holds

def places (marked : Nat → Prop) [DecidablePred marked] (n : Nat) : List Nat :=
  (List.range n).filter (fun i => marked i)

section Places
variable [DecidablePred marked]

theorem mem_places {i : Nat} : i ∈ places marked n ↔ i < n ∧ marked i := by
  simp [places]

theorem places_sorted : (places marked n).Pairwise (· < ·) :=
  List.Pairwise.filter _ List.pairwise_lt_range

theorem places_lt {i j : Nat} (within : j < (places marked n).length) (less : i < j) :
    (places marked n)[i] < (places marked n)[j] :=
  List.pairwise_iff_getElem.mp places_sorted i j (by omega) within less

theorem places_place {k : Nat} (within : k < (places marked n).length) :
    (places marked n)[k] < n ∧ marked (places marked n)[k] :=
  mem_places.mp (List.getElem_mem within)

theorem places_inj {i j place : Nat} (found : (places marked n)[i]? = some place)
    (other : (places marked n)[j]? = some place) : i = j := by
  have distinct : (places marked n).Nodup := places_sorted.imp Nat.ne_of_lt
  exact (List.getElem?_inj (List.getElem?_eq_some_iff.mp found).1 distinct).mp (found.trans other.symm)

/-- No place is marked between two neighbours of the list. -/
theorem places_gap {i k : Nat} (marks : marked i) (below : i < n) (within : k + 1 < (places marked n).length)
    (above : (places marked n)[k] < i) : (places marked n)[k + 1] ≤ i := by
  obtain ⟨j,inside,rfl⟩ := List.mem_iff_getElem.mp (mem_places.mpr ⟨below,marks⟩)
  rcases Nat.lt_trichotomy (k + 1) j with less | same | more
  · exact Nat.le_of_lt (places_lt inside less)
  · simp [same]
  · rcases Nat.lt_or_eq_of_le (Nat.le_of_lt_succ more) with before | same
    · have order := places_lt (by omega : k < (places marked n).length) before
      omega
    · subst same
      omega

theorem places_first {i : Nat} (marks : marked i) (below : i < n) (some : 0 < (places marked n).length) :
    (places marked n)[0] ≤ i := by
  obtain ⟨j,inside,rfl⟩ := List.mem_iff_getElem.mp (mem_places.mpr ⟨below,marks⟩)
  cases j with
  | zero => exact Nat.le_refl _
  | succ j => exact Nat.le_of_lt (places_lt inside (Nat.succ_pos j))

theorem places_last {i k : Nat} (marks : marked i) (below : i < n) (last : k + 1 = (places marked n).length) :
    i ≤ (places marked n)[k] := by
  obtain ⟨j,inside,rfl⟩ := List.mem_iff_getElem.mp (mem_places.mpr ⟨below,marks⟩)
  rcases Nat.lt_or_eq_of_le (Nat.le_of_lt_succ (by omega : j < k + 1)) with before | same
  · exact Nat.le_of_lt (places_lt (by omega) before)
  · simp [same]

/-- From a marked place, the first one further on is the next of the list, the first
of the list after the last. -/
theorem first_places {k i j : Nat} (here : (places marked n)[k]? = some i)
    (next : (places marked n)[(k + 1) % (places marked n).length]? = some j) :
    First marked n ((i + 1) % n) j := by
  obtain ⟨within,rfl⟩ := List.getElem?_eq_some_iff.mp here
  obtain ⟨inside,rfl⟩ := List.getElem?_eq_some_iff.mp next
  obtain ⟨below,_⟩ := places_place within
  obtain ⟨target,marks⟩ := places_place inside
  rcases Nat.lt_or_eq_of_le (Nat.succ_le_of_lt within) with more | last
  · simp only [Nat.mod_eq_of_lt more] at target marks ⊢
    refine first_ahead (places_lt more (Nat.lt_succ_self k)) target marks fun place above before holds => ?_
    exact absurd (places_gap holds (by omega) more above) (Nat.not_le.mpr before)
  · simp only [show k + 1 = (places marked n).length from last,Nat.mod_self] at target marks ⊢
    refine first_around (places_first (places_place within).2 below (by omega)) below marks ?_ ?_
    · intro place above bound holds
      have beyond := places_last holds bound last
      omega
    · intro place before holds
      have first := places_first holds (before.trans target) (by omega)
      omega

end Places

end Library.Cyclic
