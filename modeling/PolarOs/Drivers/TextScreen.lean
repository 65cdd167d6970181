import PolarOs.Drivers.Vga
import PolarOs.Library.Wrapped

/-! What the text screen shows. The writer types into the last of the rows of the text so far,
and the screen shows the newest twenty-four of them. -/
namespace PolarOs.Drivers
open Library Library.Checked Library.Wrapped

/-- What a cell shows of some rows, the last of them at the bottom. -/
def cellOf (rows : List (List UInt8)) (row col : Nat) : UInt8 := (rows.reverse.getD (23 - row) []).getD col 32

namespace Writer

variable {writer next : Writer} {above rows : List (List UInt8)} {last bytes : List UInt8} {byte : UInt8}

/-! The row that is typed into. -/

/-- The lowest text row shows these bytes and nothing behind them, and the writer stands there. -/
structure Row (writer : Writer) (bytes : List UInt8) : Prop where
  short : bytes.length ≤ 80
  column : writer.columnPosition = bytes.length
  cells : ∀ col < 80, (writer.buffer 23 col).asciiCharacter = bytes.getD col 32

theorem newLine_row (writer : Writer) : ∃ next, writer.newLine = .ok next ∧ next.Row [] := by
  obtain ⟨next,ran,scrolled⟩ := newLine_ok writer
  refine ⟨next,ran,Nat.zero_le _,scrolled.column,?_⟩
  intro col left
  rw [scrolled.blank col left,List.getD_nil]

theorem typed_row (row : writer.Row bytes) (room : bytes.length < 80)
    (behind : next.columnPosition = writer.columnPosition + 1) (typed : Typed writer writer.columnPosition byte next) :
    next.Row (bytes ++ [byte]) := by
  refine ⟨by rw [List.length_append,List.length_singleton]; omega,?_,?_⟩
  · rw [behind,row.column,List.length_append,List.length_singleton]
  · intro col left
    rw [typed.cells,row.column]
    rcases Nat.lt_trichotomy col bytes.length with before | rfl | after
    · rw [if_neg (by omega),row.cells col left]
      simp [List.getD_eq_getElem?_getD,List.getElem?_append_left before]
    · simp
    · rw [if_neg (by omega),row.cells col left,List.getD_eq_getElem?_getD,List.getD_eq_getElem?_getD,
        List.getElem?_eq_none after.le,List.getElem?_eq_none (by simp; omega)]

theorem deleteLastChar_row (row : writer.Row (bytes ++ [byte])) :
    ∃ next, writer.deleteLastChar = .ok next ∧ next.Row bytes := by
  obtain ⟨short,column,cells⟩ := row
  rw [List.length_append,List.length_singleton] at short column
  obtain ⟨next,ran,behind,typed⟩ := @deleteLastChar_ok writer (by omega) (by omega)
  have place : writer.columnPosition - 1 = bytes.length := by omega
  rw [place] at behind typed
  refine ⟨next,ran,by omega,behind,?_⟩
  intro col left
  rw [typed.cells]
  rcases Nat.lt_trichotomy col bytes.length with before | rfl | after
  · rw [if_neg (by omega),cells col left]
    simp [List.getD_eq_getElem?_getD,List.getElem?_append_left before]
  · simp
  · rw [if_neg (by omega),cells col left,List.getD_eq_getElem?_getD,List.getD_eq_getElem?_getD,
      List.getElem?_eq_none (by simp; omega),List.getElem?_eq_none after.le]

theorem setColor_row (row : writer.Row bytes) (foreground background : Color) :
    (writer.setColor foreground background).Row bytes := ⟨row.short,row.column,row.cells⟩

/-! All text rows. -/

/-- The text rows show these rows, and the writer stands behind the last one. -/
structure Shows (writer : Writer) (above : List (List UInt8)) (last : List UInt8) : Prop where
  short : last.length ≤ 80
  column : writer.columnPosition = last.length
  cells : ∀ row < 24, ∀ col < 80, (writer.buffer row col).asciiCharacter = cellOf (above ++ [last]) row col

theorem newLine_shows (shows : writer.Shows above last) :
    ∃ next, writer.newLine = .ok next ∧ next.Shows (above ++ [last]) [] ∧
      ∀ col, next.buffer 24 col = writer.buffer 24 col := by
  obtain ⟨next,ran,scrolled⟩ := newLine_ok writer
  refine ⟨next,ran,⟨Nat.zero_le _,scrolled.column,?_⟩,fun col => scrolled.status 24 col (Nat.le_refl _)⟩
  intro row text col left
  by_cases bottom : row = 23
  · subst bottom
    rw [scrolled.blank col left]
    simp [cellOf]
  · rw [scrolled.moved row col (by omega) left,shows.cells (row + 1) (by omega) col left]
    have distance : 23 - row = 23 - (row + 1) + 1 := by omega
    simp [cellOf,distance]

theorem Shows.row (shows : writer.Shows above last) : writer.Row last := by
  refine ⟨shows.short,shows.column,?_⟩
  intro col left
  rw [shows.cells 23 (by decide) col left]
  simp [cellOf]

theorem typed_shows (shows : writer.Shows above last) (room : last.length < 80)
    (behind : next.columnPosition = writer.columnPosition + 1) (typed : Typed writer writer.columnPosition byte next) :
    next.Shows above (last ++ [byte]) := by
  have bottom := typed_row shows.row room behind typed
  refine ⟨bottom.short,bottom.column,?_⟩
  intro row text col left
  by_cases lowest : row = 23
  · subst lowest
    rw [bottom.cells col left]
    simp [cellOf]
  · rw [typed.cells,if_neg (by omega),shows.cells row text col left]
    have distance : 23 - row = 22 - row + 1 := by omega
    simp [cellOf,distance]

theorem writeByte_shows (shows : writer.Shows above last) (byte : UInt8) :
    ∃ next above' last', writer.writeByte byte = .ok next ∧ next.Shows above' last' ∧
      typeChar 80 10 (above ++ [last]) byte = above' ++ [last'] ∧ ∀ col, next.buffer 24 col = writer.buffer 24 col := by
  by_cases ends : byte = 10
  · obtain ⟨next,ran,shown,status⟩ := newLine_shows shows
    exact ⟨next,_,_,(if_pos ends).trans ran,shown,if_pos ends,status⟩
  · rw [typeChar,if_neg ends,addChar_append]
    by_cases room : last.length < 80
    · obtain ⟨next,ran,behind,typed⟩ := writeByte_ok ends (shows.column ▸ room)
      refine ⟨next,above,last ++ [byte],ran,typed_shows shows room behind typed,if_pos room,?_⟩
      intro col
      rw [typed.cells,if_neg (by omega)]
    · -- the full row is left first
      obtain ⟨middle,left,shown,status⟩ := newLine_shows shows
      have empty : middle.columnPosition = 0 := shown.column
      obtain ⟨next,ran,behind,typed⟩ := @writeByte_ok middle byte ends (by omega)
      have full : 80 ≤ writer.columnPosition := by
        rw [shows.column]
        omega
      refine ⟨next,above ++ [last],[byte],?_,typed_shows shown (by simp) behind typed,?_,?_⟩
      · rw [writeByte_full ends full,left,ok_bind,ran]
      · rw [if_neg room,List.append_assoc,List.singleton_append]
      · intro col
        rw [typed.cells,if_neg (by omega),status col]

theorem writeBytes_shows (shows : writer.Shows above last) (bytes : List UInt8) :
    ∃ next above' last', bytes.foldlM (fun writer byte => writer.writeByte (shownByte byte)) writer = .ok next ∧
      next.Shows above' last' ∧ (bytes.map shownByte).foldl (typeChar 80 10) (above ++ [last]) = above' ++ [last'] ∧
      ∀ col, next.buffer 24 col = writer.buffer 24 col := by
  induction bytes generalizing writer above last with
  | nil => exact ⟨writer,above,last,rfl,shows,rfl,fun _ => rfl⟩
  | cons byte bytes ih =>
    obtain ⟨middle,above',last',first,shown,rows,status⟩ := writeByte_shows shows (shownByte byte)
    obtain ⟨next,above'',last'',rest,final,typed,kept⟩ := ih shown
    refine ⟨next,above'',last'',?_,final,?_,fun col => (kept col).trans (status col)⟩
    · rw [List.foldlM_cons,first]
      exact rest
    · rw [List.map_cons,List.foldl_cons,rows,typed]

theorem writeString_append (first second : Str) (writer : Writer) :
    writeString (first ++ second) writer = writeString first writer >>= writeString second := by
  rw [writeString,Utf8.encode,List.flatMap_append,List.foldlM_append]
  rfl

theorem writeStrings_eq (texts : List Str) (writer : Writer) :
    texts.foldlM (fun writer s => writeString s writer) writer = writeString texts.flatten writer := by
  induction texts generalizing writer with
  | nil => rfl
  | cons text texts ih =>
    rw [List.foldlM_cons,List.flatten_cons,writeString_append]
    exact congrArg (writeString text writer >>= ·) (funext ih)

theorem clearScreen_shows (writer : Writer) : ∃ next, writer.clearScreen = .ok next ∧ next.Shows [] [] ∧
    ∀ col, next.buffer 24 col = writer.buffer 24 col := by
  obtain ⟨next,ran,column,cells⟩ := clearScreen_ok writer
  refine ⟨next,ran,⟨Nat.zero_le _,column,?_⟩,?_⟩
  · intro row text col left
    rw [cells,if_pos ⟨text,left⟩]
    by_cases bottom : row = 23
    · simp [cellOf,bottom]
    · have distance : 23 - row = 22 - row + 1 := by omega
      simp [cellOf,distance]
  · intro col
    rw [cells,if_neg (by omega)]

/-- Printable ASCII and the newline are written as they are. -/
def Plain (c : Char) : Prop := c = '\n' ∨ ' ' ≤ c ∧ c ≤ '~'

theorem plain_byte {c : Char} (plain : Plain c) :
    String.utf8EncodeChar c = [c.val.toUInt8] ∧ shownByte c.val.toUInt8 = c.val.toUInt8 := by
  have code : c.val.toNat = 10 ∨ 32 ≤ c.val.toNat ∧ c.val.toNat ≤ 126 := by
    rcases plain with rfl | ⟨low,high⟩
    · exact Or.inl rfl
    · exact Or.inr ⟨UInt32.le_iff_toNat_le.mp low,UInt32.le_iff_toNat_le.mp high⟩
  have byte : c.val.toUInt8.toNat = c.val.toNat := by
    rw [UInt32.toNat_toUInt8]
    omega
  constructor
  · refine String.utf8EncodeChar_eq_singleton (Char.utf8Size_eq_one_iff.mpr (UInt32.le_iff_toNat_le.mpr ?_))
    change c.val.toNat ≤ 127
    omega
  · refine if_pos ?_
    rw [UInt8.le_iff_toNat_le,UInt8.le_iff_toNat_le,← UInt8.toNat_inj,byte]
    change 32 ≤ _ ∧ _ ≤ 126 ∨ _ = 10
    omega

theorem plain_shown {text : Str} (plain : ∀ c ∈ text, Plain c) :
    (Utf8.encode text).map shownByte = Utf8.encode text := by
  have same : ∀ byte ∈ Utf8.encode text, shownByte byte = byte := by
    intro byte member
    obtain ⟨c,inside,encoded⟩ := List.mem_flatMap.mp member
    obtain ⟨one,shown⟩ := plain_byte (plain c inside)
    rw [one] at encoded
    rw [List.mem_singleton.mp encoded,shown]
  rw [List.map_congr_left same]
  exact List.map_id' _

/-- After a cleared screen any strings show the newest rows of their text. -/
theorem screen_shows_tail (writer : Writer) (texts : List Str) (plain : ∀ text ∈ texts, ∀ c ∈ text, Plain c) :
    ∃ cleared final, writer.clearScreen = .ok cleared ∧
      texts.foldlM (fun writer s => writeString s writer) cleared = .ok final ∧ final.columnPosition ≤ 80 ∧
      (∀ row < 24, ∀ col < 80, (final.buffer row col).asciiCharacter =
        cellOf (wrapped 80 10 (Utf8.encode texts.flatten)) row col) ∧
      ∀ col, final.buffer 24 col = writer.buffer 24 col := by
  obtain ⟨cleared,started,blank,kept⟩ := clearScreen_shows writer
  obtain ⟨final,above,last,ran,shows,rows,status⟩ := writeBytes_shows blank (Utf8.encode texts.flatten)
  have all : ∀ c ∈ texts.flatten, Plain c := by
    intro c member
    obtain ⟨text,listed,inside⟩ := List.mem_flatten.mp member
    exact plain text listed c inside
  rw [plain_shown all,List.nil_append,typed_eq_wrapped (by decide)] at rows
  refine ⟨cleared,final,started,?_,shows.column ▸ shows.short,?_,fun col => (status col).trans (kept col)⟩
  · rw [writeStrings_eq,writeString,ran]
  · rw [rows]
    exact shows.cells

def twoLines : List Str := [lit "a",lit "b\nc"]

theorem twoLines_plain : ∀ text ∈ twoLines, ∀ c ∈ text, Plain c := by
  simp [twoLines,lit,Plain]

/-- A screen full of letters, with the writer amid a row. -/
def dirty : Writer := ⟨5,7,fun _ _ => ⟨65,7⟩⟩

/-- Two lines end in the two lowest text rows. -/
theorem twoLines_shown : ∃ cleared final, dirty.clearScreen = .ok cleared ∧
    twoLines.foldlM (fun writer s => writeString s writer) cleared = .ok final ∧
    (final.buffer 22 1).asciiCharacter = 98 ∧ (final.buffer 23 0).asciiCharacter = 99 := by
  obtain ⟨cleared,final,started,ran,_,cells,_⟩ := screen_shows_tail dirty twoLines twoLines_plain
  refine ⟨cleared,final,started,ran,?_,?_⟩
  · rw [cells 22 (by decide) 1 (by decide),← typed_eq_wrapped (by decide)]
    decide
  · rw [cells 23 (by decide) 0 (by decide),← typed_eq_wrapped (by decide)]
    decide

end Writer

end PolarOs.Drivers
