import Mathlib.Data.List.Defs

/-! Lists cut into pieces of one length, the last of which may be shorter. -/
namespace Library.Chunks

inductive Chunked {α : Type} (n : Nat) : List (List α) → Prop
  | nil : Chunked n []
  | last {chunk : List α} (some_item : chunk ≠ []) (short : chunk.length ≤ n) : Chunked n [chunk]
  | cons {chunk : List α} {rest : List (List α)} (full : chunk.length = n) (chunked : Chunked n rest) :
      Chunked n (chunk::rest)

variable {α : Type} {n : Nat} {items : List α} {chunks : List (List α)}

theorem Chunked.length (chunked : Chunked n chunks) (positive : 0 < n) :
    chunks.length = (chunks.flatten.length + (n - 1)) / n := by
  induction chunked with
  | nil =>
    rw [List.flatten_nil,List.length_nil,List.length_nil,Nat.zero_add,Nat.div_eq_of_lt (by omega)]
  | last some_item short =>
    have := List.length_pos_iff.mpr some_item
    rw [List.flatten_singleton,List.length_singleton]
    exact (Nat.div_eq_of_lt_le (by omega) (by omega)).symm
  | cons full chunked ih =>
    rw [List.flatten_cons,List.length_append,full,List.length_cons,Nat.add_assoc,Nat.add_div_left _ positive,ih]

theorem Chunked.length_le (chunked : Chunked n chunks) : ∀ chunk ∈ chunks, chunk.length ≤ n := by
  induction chunked with
  | nil => simp
  | last some_item short => simpa using short
  | cons full chunked ih => exact List.forall_mem_cons.mpr ⟨Nat.le_of_eq full,ih⟩

theorem go_chunked (positive : 0 < n) (before : Array α) (done : Array (List α)) (some_item : before.toList ≠ [])
    (short : before.size ≤ n) : ∃ chunks, List.toChunks.go n items before done = done.toList ++ chunks ∧
      Chunked n chunks ∧ chunks.flatten = before.toList ++ items := by
  induction items generalizing before done with
  | nil => exact ⟨[before.toList],by simp [List.toChunks.go],.last some_item short,by simp⟩
  | cons item items ih =>
    rw [List.toChunks.go]
    split
    next full =>
      obtain ⟨chunks,cut,chunked,joined⟩ := ih #[item] (done.push before.toList) (by simp) positive
      refine ⟨before.toList::chunks,?_,.cons (by simpa using full) chunked,?_⟩
      · simpa using cut
      · simp [joined]
    next more =>
      have room : before.size ≠ n := by simpa using more
      obtain ⟨chunks,cut,chunked,joined⟩ := ih (before.push item) done (by simp) (by rw [Array.size_push]; omega)
      exact ⟨chunks,cut,chunked,by simp [joined]⟩

theorem toChunks_chunked (positive : 0 < n) (items : List α) :
    Chunked n (items.toChunks n) ∧ (items.toChunks n).flatten = items := by
  obtain ⟨m,rfl⟩ := Nat.exists_eq_add_one.mpr positive
  cases items with
  | nil => exact ⟨by simpa [List.toChunks] using .nil,by simp [List.toChunks]⟩
  | cons item items =>
    obtain ⟨chunks,cut,chunked,joined⟩ := @go_chunked α (m + 1) items positive #[item] #[] (by simp) positive
    have start : (item::items).toChunks (m + 1) = chunks := cut
    rw [start]
    exact ⟨chunked,joined⟩

end Library.Chunks
