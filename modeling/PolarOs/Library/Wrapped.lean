import Mathlib.Data.List.Basic

/-! Text in rows of a fixed width: cut line by line, and typed character by character, where a
full row is left only when the next character comes. Both give the same rows. -/
namespace Library.Wrapped

variable {α : Type} {width : Nat} {newline c : α} {line text row : List α} {above rows : List (List α)}

/-- A line cut into rows; an empty line is one empty row. -/
def cut (width : Nat) (line : List α) : List (List α) :=
  if 0 < width ∧ width < line.length then line.take width :: cut width (line.drop width) else [line]
termination_by line.length
decreasing_by
  rw [List.length_drop]
  omega

/-- The character goes into the last row while that has room. -/
def addChar (width : Nat) (c : α) : List (List α) → List (List α)
  | [] => [[c]]
  | [row] => if row.length < width then [row ++ [c]] else [row,[c]]
  | row::next::rows => row :: addChar width c (next::rows)

theorem addChar_append (above : List (List α)) (row : List α) :
    addChar width c (above ++ [row]) = if row.length < width then above ++ [row ++ [c]] else above ++ [row,[c]] := by
  induction above with
  | nil => rfl
  | cons first above ih =>
    cases above with
    | nil =>
      simp only [List.cons_append,List.nil_append,addChar]
      split <;> rfl
    | cons second above =>
      rw [List.cons_append,List.cons_append,addChar,← List.cons_append,ih]
      split <;> rfl

theorem addChar_append_of_ne (above : List (List α)) (some_row : rows ≠ []) :
    addChar width c (above ++ rows) = above ++ addChar width c rows := by
  obtain ⟨front,last,rfl⟩ := rows.eq_nil_or_concat'.resolve_left some_row
  rw [← List.append_assoc,addChar_append,addChar_append]
  split <;> simp

theorem cut_ne_nil (line : List α) : cut width line ≠ [] := by
  rw [cut]
  split <;> simp

theorem cut_of_short (short : line.length ≤ width) : cut width line = [line] := by
  rw [cut,if_neg (by omega)]

/-- One more character of a line is one more character of its last row. -/
theorem cut_concat (wide : 0 < width) (line : List α) (c : α) : cut width (line ++ [c]) = addChar width c (cut width line) := by
  induction line using cut.induct width with
  | case1 line long ih =>
    rw [cut,if_pos ⟨wide,by rw [List.length_append]; omega⟩,cut.eq_def width line,if_pos long]
    rw [List.take_append_of_le_length (by omega),List.drop_append_of_le_length (by omega),ih]
    exact (addChar_append_of_ne [_] (cut_ne_nil _)).symm
  | case2 line short =>
    have fits : line.length ≤ width := by omega
    rw [cut_of_short fits,addChar]
    split
    next room => exact cut_of_short (by rw [List.length_append,List.length_singleton]; omega)
    next full =>
      have whole : line.length = width := by omega
      rw [cut,if_pos ⟨wide,by rw [List.length_append,List.length_singleton]; omega⟩,← whole,List.take_left,List.drop_left,
        cut_of_short (by simp; omega)]

variable [DecidableEq α]

/-- The rows of a text: its lines, each cut. -/
def wrapped (width : Nat) (newline : α) (text : List α) : List (List α) := (text.splitOn newline).flatMap (cut width)

def typeChar (width : Nat) (newline : α) (rows : List (List α)) (c : α) : List (List α) :=
  if c = newline then rows ++ [[]] else addChar width c rows

theorem foldl_typeChar (wide : 0 < width) (above : List (List α)) (line text : List α) :
    text.foldl (typeChar width newline) (above ++ cut width line) =
      above ++ ((text.splitOn newline).modifyHead (line ++ ·)).flatMap (cut width) := by
  induction text generalizing above line with
  | nil => simp
  | cons c text ih =>
    rw [List.foldl_cons,typeChar,List.splitOn_cons_eq_if_modifyHead]
    simp only [beq_iff_eq]
    split
    next ends =>
      -- the next line starts with an empty row
      rw [← cut_of_short (Nat.zero_le width),ih]
      cases text.splitOn newline <;> simp
    next inside =>
      rw [addChar_append_of_ne _ (cut_ne_nil line),← cut_concat wide,ih]
      cases text.splitOn newline <;> simp

/-- Typing gives the rows of the text. -/
theorem typed_eq_wrapped (wide : 0 < width) (text : List α) :
    text.foldl (typeChar width newline) [[]] = wrapped width newline text := by
  have typed := @foldl_typeChar _ width newline _ wide [] [] text
  rw [cut_of_short (Nat.zero_le _),List.nil_append,List.nil_append] at typed
  rw [typed,wrapped]
  cases text.splitOn newline <;> simp

end Library.Wrapped
