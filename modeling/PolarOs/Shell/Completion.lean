import PolarOs.Library.CommonPrefix
import PolarOs.Shell.LineEditor

/-! The common prefix of the completions (`common_prefix` in `shell/completion.rs`). The bytes are
compared one by one, and the first string is cut after those that all strings share, which must
be between two characters. -/
namespace PolarOs
open Library Library.Checked Library.CommonPrefix

variable {first s : Bytes} {word : Str} {strings rest : List Str} {n : Nat}

theorem take_prefix_iff (within : n ≤ first.length) :
    first.take n <+: s ↔ n ≤ s.length ∧ ∀ i ∈ firstMismatch first s, n ≤ i := by
  induction first generalizing s n with
  | nil =>
    obtain rfl := Nat.le_zero.mp within
    simp [firstMismatch]
  | cons a first ih =>
    cases n with
    | zero => simp
    | succ n =>
      cases s with
      | nil => simp
      | cons b s =>
        rw [List.take_succ_cons,List.cons_prefix_cons,firstMismatch,ih (Nat.succ_le_succ_iff.mp within)]
        by_cases same : a = b
        · simp [same]
        · simp [same]

theorem commonLength_le (first s : Str) (len : Nat) : commonLength first len s ≤ len := by
  rw [commonLength]
  split <;> omega

theorem le_commonLength_iff {first s : Str} {len : Nat} (within : len ≤ Gui.byteLength first) :
    n ≤ commonLength first len s ↔ n ≤ len ∧ (Utf8.encode first).take n <+: Utf8.encode s := by
  by_cases inside : n ≤ len
  · rw [take_prefix_iff (Nat.le_trans inside within),commonLength,Gui.byteLength]
    split
    next i found => simp [found,inside]
    next none => simp [none,inside]
  · have less := commonLength_le first s len
    exact iff_of_false (by omega) fun both => inside both.1

theorem le_sharedLength_iff {first : Str} :
    n ≤ sharedLength first rest ↔
      n ≤ Gui.byteLength first ∧ ∀ s ∈ rest, (Utf8.encode first).take n <+: Utf8.encode s := by
  have fold (len : Nat) (within : len ≤ Gui.byteLength first) :
      n ≤ rest.foldl (commonLength first) len ↔ n ≤ len ∧ ∀ s ∈ rest, (Utf8.encode first).take n <+: Utf8.encode s := by
    induction rest generalizing len with
    | nil => simp
    | cons s rest ih =>
      rw [List.foldl_cons,ih _ (Nat.le_trans (commonLength_le first s len) within),le_commonLength_iff within,
        List.forall_mem_cons,and_assoc]
  exact fold _ (Nat.le_refl _)

/-- The bytes that are kept are the longest that all strings begin with. -/
theorem longest_bytes (first : Str) (rest : List Str) :
    Longest ((first::rest).map Utf8.encode) ((Utf8.encode first).take (sharedLength first rest)) := by
  obtain ⟨inside,shared⟩ := le_sharedLength_iff.mp (Nat.le_refl (sharedLength first rest))
  constructor
  · rw [Shares,List.forall_mem_map,List.forall_mem_cons]
    exact ⟨List.take_prefix _ _,shared⟩
  · intro other shares
    rw [Shares,List.forall_mem_map,List.forall_mem_cons] at shares
    obtain ⟨begins,shares⟩ := shares
    have same := List.prefix_iff_eq_take.mp begins
    rw [List.length_take_of_le inside,le_sharedLength_iff]
    exact ⟨begins.length_le,fun s member => same ▸ shares s member⟩

theorem shares_encode_iff {shared : Str} :
    Shares (strings.map Utf8.encode) (Utf8.encode shared) ↔ Shares strings shared := by
  simp only [Shares,List.forall_mem_map,Utf8.encode_prefix_iff]

/-- No single byte continues the whole characters that all strings begin with, so that the strings
do not differ first inside a character. -/
def PartsBetween (strings : List Str) : Prop :=
  ∃ shared, Shares strings shared ∧ ∀ byte, ¬Shares (strings.map Utf8.encode) (Utf8.encode shared ++ [byte])

theorem partsBetween_iff (some_string : strings ≠ []) :
    PartsBetween strings ↔ ∃ shared, Longest (strings.map Utf8.encode) (Utf8.encode shared) := by
  have some_bytes : strings.map Utf8.encode ≠ [] := by simpa using some_string
  simp only [PartsBetween,longest_iff some_bytes,shares_encode_iff]

theorem longest_of_bytes {shared : Str} (some_string : strings ≠ [])
    (most : Longest (strings.map Utf8.encode) (Utf8.encode shared)) : Longest strings shared := by
  refine ⟨shares_encode_iff.mp most.shares,?_⟩
  intro other shares
  have bytes := shares_encode_iff.mpr shares
  have begins := bytes.prefix_of_length_le most.shares (by simpa using some_string) (most.longest _ bytes)
  exact (Utf8.encode_prefix_iff.mp begins).length_le

theorem commonPrefix_ok_iff {first result : Str} :
    commonPrefix (first::rest) = .ok result ↔
      Utf8.encode result = (Utf8.encode first).take (sharedLength first rest) := by
  rw [commonPrefix]
  constructor
  · intro ran
    obtain ⟨⟨shared,after⟩,cut,done⟩ := bind_ok.mp ran
    cases done
    obtain ⟨rfl,size⟩ := Gui.splitAt_ok.mp cut
    rw [← size,Utf8.encode_append]
    exact List.take_left.symm
  · intro same
    have begins := List.take_prefix (sharedLength first rest) (Utf8.encode first)
    obtain ⟨after,rfl⟩ := Utf8.encode_prefix_iff.mp (same ▸ begins)
    have inside := (le_sharedLength_iff.mp (Nat.le_refl (sharedLength (result ++ after) rest))).1
    have size : Gui.byteLength result = sharedLength (result ++ after) rest := by
      rw [Gui.byteLength,same,List.length_take_of_le inside]
    rw [Gui.splitAt_ok.mpr ⟨rfl,size⟩]
    rfl

theorem commonPrefix_longest_iff (some_string : strings ≠ []) :
    (∃ result, commonPrefix strings = .ok result ∧ Longest strings result) ↔ PartsBetween strings := by
  rw [partsBetween_iff some_string]
  obtain ⟨first,rest,rfl⟩ := List.exists_cons_of_ne_nil some_string
  have most := longest_bytes first rest
  constructor
  · rintro ⟨result,ran,_⟩
    exact ⟨result,commonPrefix_ok_iff.mp ran ▸ most⟩
  · rintro ⟨shared,longest⟩
    have begins := longest.shares.prefix_of_length_le most.shares (by simp) (most.longest _ longest.shares)
    have same := begins.eq_of_length_le (longest.longest _ most.shares)
    exact ⟨shared,commonPrefix_ok_iff.mpr same,longest_of_bytes some_string longest⟩

theorem load_ls_share_l :
    ∃ result, commonPrefix [lit "load",lit "ls"] = .ok result ∧ Longest [lit "load",lit "ls"] result :=
  (commonPrefix_longest_iff (List.cons_ne_nil _ _)).mpr <|
    (partsBetween_iff (List.cons_ne_nil _ _)).mpr ⟨lit "l",longest_bytes (lit "load") [lit "ls"]⟩

theorem accents_cut_inside :
    commonPrefix [lit "é",lit "è"] = .error .panic ∧
      ¬∃ result, commonPrefix [lit "é",lit "è"] = .ok result ∧ Longest [lit "é",lit "è"] result := by
  have cut : commonPrefix [lit "é",lit "è"] = .error .panic := by decide
  refine ⟨cut,?_⟩
  rintro ⟨result,ran,_⟩
  simp [cut] at ran

end PolarOs
