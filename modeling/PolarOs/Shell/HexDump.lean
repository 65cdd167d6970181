import PolarOs.Library.Chunks
import PolarOs.Library.Hex
import PolarOs.Shell.Filters

/-! The hex dump of a file (`cmd_hexdump`). The characters stand in the same column in every row,
and the byte fields of the rows read back as the file. -/
namespace PolarOs
open Library Library.Chunks

variable {data chunk : Bytes} {fs : RamFs} {args name : Str} {cwd : List Str} {width i n : Nat} {c : Char} {s : Str}

/-! Words between spaces. -/

namespace Str

theorem splitWhitespace_append {before : Str} (space : isWhitespace c = true) (after : Str) :
    splitWhitespace (before ++ c :: after) = splitWhitespace before ++ splitWhitespace after := by
  rw [splitWhitespace,splitBy_append space,List.filter_append]
  rfl

theorem splitWhitespace_space (space : isWhitespace c = true) (s : Str) : splitWhitespace (c::s) = splitWhitespace s :=
  @splitWhitespace_append c [] space s

theorem splitWhitespace_blank (blank : ∀ c ∈ s, isWhitespace c = true) : splitWhitespace s = [] := by
  induction s with
  | nil => rfl
  | cons c s ih =>
    rw [splitWhitespace_space (blank c List.mem_cons_self),ih fun d member => blank d (List.mem_cons_of_mem _ member)]

end Str

/-! Numbers of a fixed width. -/

theorem length_hex (positive : 0 < width) (small : n < 16^width) : (hex width n).length = width := by
  have digits := (Nat.length_toDigits_le_iff (by decide) positive).mpr small
  rw [hex,padLeft,List.length_append,List.length_replicate]
  omega

theorem value_hex (width n : Nat) : Hex.value (hex width n) = some n :=
  (Hex.value_zeros _ _).trans (Hex.value_toDigits n)

theorem digit_of_mem_hex (member : c ∈ hex width n) : Hex.Digit c := by
  rcases List.mem_append.mp member with zero | digit
  · rw [List.eq_of_mem_replicate zero]
    rfl
  · exact Hex.digit_toDigits n c digit

theorem visible_of_digit (digit : Hex.Digit c) : Str.isWhitespace c = false ∧ c ≠ '|' := by
  have range := digit.range
  constructor
  · simp [Str.isWhitespace]
    omega
  · rintro rfl
    revert range
    decide

theorem hex_isWord (positive : 0 < width) (small : n < 16^width) : Str.IsWord (hex width n) := by
  refine ⟨?_,fun c member => (visible_of_digit (digit_of_mem_hex member)).1⟩
  intro empty
  have length := length_hex positive small
  rw [empty,List.length_nil] at length
  omega

theorem fields_hex (positive : 0 < width) (small : n < 16^width) (space : Str.isWhitespace c = true) (after : Str) :
    Str.splitWhitespace (hex width n ++ c :: after) = hex width n :: Str.splitWhitespace after := by
  rw [Str.splitWhitespace_append space,Str.splitWhitespace_word (hex_isWord positive small)]
  rfl

/-! A row. -/

namespace HexDump

def gap (j : Nat) : Str := if j = 7 then [' '] else []

/-- The loop over the bytes, from the column `j` on. -/
def byteColumns (chunk : Bytes) (j : Nat) : Str :=
  (chunk.zipIdx j).flatMap fun (byte,j) => hex 2 byte.toNat ++ [' '] ++ gap j

/-- The loop over the columns after the last byte. -/
def padding (j count : Nat) : Str := (List.range' j count).flatMap fun j => lit "   " ++ gap j

/-- What stands before the characters. -/
def rowColumns (i : Nat) (chunk : Bytes) : Str :=
  hex 8 (i * 16) ++ ' ' :: ' ' :: (byteColumns chunk 0 ++ (padding chunk.length (16 - chunk.length) ++ [' ']))

def printable (byte : UInt8) : Char := if 0x20 ≤ byte ∧ byte ≤ 0x7e then Char.ofNat byte.toNat else '.'

theorem hexdumpRow_eq (i : Nat) (chunk : Bytes) :
    hexdumpRow i chunk = rowColumns i chunk ++ '|' :: (chunk.map printable ++ ['|']) := by
  change hex 8 (i * 16) ++ [' ',' '] ++ byteColumns chunk 0 ++ padding chunk.length (16 - chunk.length) ++
    [' ','|'] ++ chunk.map printable ++ ['|'] = _
  simp [rowColumns]

theorem blank_gap (j : Nat) : ∀ c ∈ gap j, c = ' ' := by
  rw [gap]
  split <;> simp

theorem blank_padding (j count : Nat) : ∀ c ∈ padding j count, c = ' ' := by
  intro c member
  obtain ⟨k,_,inside⟩ := List.mem_flatMap.mp member
  rcases List.mem_append.mp inside with blank | between
  · exact List.eq_of_mem_replicate (n := 3) blank
  · exact blank_gap k c between

theorem mem_byteColumns {j : Nat} (member : c ∈ byteColumns chunk j) : Hex.Digit c ∨ c = ' ' := by
  obtain ⟨⟨byte,k⟩,_,inside⟩ := List.mem_flatMap.mp member
  rcases List.mem_append.mp inside with column | between
  · rcases List.mem_append.mp column with digit | space
    · exact Or.inl (digit_of_mem_hex digit)
    · exact Or.inr (List.mem_singleton.mp space)
  · exact Or.inr (blank_gap k c between)

theorem mem_rowColumns (member : c ∈ rowColumns i chunk) : Hex.Digit c ∨ c = ' ' := by
  simp only [rowColumns,List.mem_append,List.mem_cons,List.not_mem_nil,or_false] at member
  rcases member with digit | space | space | column | blank | space
  · exact Or.inl (digit_of_mem_hex digit)
  · exact Or.inr space
  · exact Or.inr space
  · exact mem_byteColumns column
  · exact Or.inr (blank_padding _ _ c blank)
  · exact Or.inr space

/-- Each column is three characters wide, and the gap comes once when the columns have the eighth
among them. -/
theorem length_flatMap_gap {α : Type} (items : List α) (column : α → Str) (index : α → Nat)
    (three : ∀ item, (column item).length = 3) :
    (items.flatMap fun item => column item ++ gap (index item)).length =
      3 * items.length + (items.map index).count 7 := by
  induction items with
  | nil => rfl
  | cons item items ih =>
    rw [List.flatMap_cons,List.length_append,List.length_append,ih,three,List.map_cons,List.count_cons,List.length_cons,
      gap]
    split
    next eighth => simp [eighth]; omega
    next other => simp [other]; omega

theorem length_byteColumns (chunk : Bytes) :
    (byteColumns chunk 0).length = 3 * chunk.length + (List.range' 0 chunk.length).count 7 := by
  have three (item : UInt8 × Nat) : (hex 2 item.1.toNat ++ [' ']).length = 3 := by
    rw [List.length_append,length_hex (by decide) item.1.toNat_lt]
    rfl
  have columns := length_flatMap_gap (chunk.zipIdx 0) _ Prod.snd three
  rw [List.length_zipIdx,List.zipIdx_map_snd] at columns
  exact columns

theorem length_padding (j count : Nat) : (padding j count).length = 3 * count + (List.range' j count).count 7 := by
  have columns := length_flatMap_gap (List.range' j count) (fun _ => lit "   ") id fun _ => rfl
  rw [List.length_range',List.map_id] at columns
  exact columns

/-- The bytes and the padding have the gap once between them. -/
theorem length_rowColumns (small : i * 16 < 16^8) (short : chunk.length ≤ 16) : (rowColumns i chunk).length = 60 := by
  have gaps : (List.range' 0 chunk.length).count 7 + (List.range' chunk.length (16 - chunk.length)).count 7 = 1 := by
    rw [← List.count_append]
    have all := @List.range'_append_1 0 chunk.length (16 - chunk.length)
    rw [Nat.zero_add,Nat.add_sub_cancel' short] at all
    rw [all]
    rfl
  simp only [rowColumns,List.length_append,List.length_cons,List.length_nil,length_byteColumns,length_padding,
    length_hex (by decide : 0 < 8) small]
  omega

/-! Reading the dump. -/

/-- A row up to its characters. -/
def columns (row : Str) : Str := row.takeWhile (· ≠ '|')

/-- The words after the offset. -/
def fields (row : Str) : List Str := Str.splitWhitespace ((columns row).drop 8)

/-- A byte written with two digits. -/
def readField (field : Str) : Option UInt8 := if field.length = 2 then (Hex.value field).map UInt8.ofNat else none

theorem columns_row (i : Nat) (chunk : Bytes) : columns (hexdumpRow i chunk) = rowColumns i chunk := by
  rw [columns,hexdumpRow_eq,List.takeWhile_append_of_pos]
  · exact List.append_nil _
  · intro c member
    rcases mem_rowColumns member with digit | rfl
    · exact decide_eq_true (visible_of_digit digit).2
    · rfl

theorem splitWhitespace_byteColumns (chunk : Bytes) (j : Nat) (after : Str) :
    Str.splitWhitespace (byteColumns chunk j ++ after) =
      chunk.map (fun byte => hex 2 byte.toNat) ++ Str.splitWhitespace after := by
  induction chunk generalizing j with
  | nil => rfl
  | cons byte chunk ih =>
    have between (after : Str) : Str.splitWhitespace (gap j ++ after) = Str.splitWhitespace after := by
      rw [gap]
      split
      next => exact Str.splitWhitespace_space rfl after
      next => rfl
    have first : byteColumns (byte::chunk) j ++ after =
        hex 2 byte.toNat ++ ' ' :: (gap j ++ (byteColumns chunk (j + 1) ++ after)) := by
      simp [byteColumns]
    rw [first,fields_hex (by decide) byte.toNat_lt rfl,between,ih]
    rfl

theorem fields_row (small : i * 16 < 16^8) : fields (hexdumpRow i chunk) = chunk.map fun byte => hex 2 byte.toNat := by
  rw [fields,columns_row,rowColumns,List.drop_left' (length_hex (by decide) small),Str.splitWhitespace_space rfl,
    Str.splitWhitespace_space rfl,splitWhitespace_byteColumns,Str.splitWhitespace_blank,List.append_nil]
  intro c member
  rcases List.mem_append.mp member with blank | space
  · rw [blank_padding _ _ c blank]
    rfl
  · rw [List.mem_singleton.mp space]
    rfl

theorem take_row (small : i * 16 < 16^8) : (hexdumpRow i chunk).take 8 = hex 8 (i * 16) := by
  rw [hexdumpRow_eq,rowColumns,List.append_assoc,List.take_left' (length_hex (by decide) small)]

theorem readField_hex (byte : UInt8) : readField (hex 2 byte.toNat) = some byte := by
  rw [readField,if_pos (length_hex (by decide) byte.toNat_lt),value_hex,Option.map_some,UInt8.ofNat_toNat]

theorem printable_ne_newline (byte : UInt8) : printable byte ≠ '\n' := by
  rw [printable]
  split
  next shown =>
    have all : ∀ n < 127, 32 ≤ n → Char.ofNat n ≠ '\n' := by decide
    exact all _ (Nat.lt_succ_of_le (UInt8.le_iff_toNat_le.mp shown.2)) (UInt8.le_iff_toNat_le.mp shown.1)
  next => decide

theorem newline_not_mem_row (i : Nat) (chunk : Bytes) : '\n' ∉ hexdumpRow i chunk := by
  rw [hexdumpRow_eq]
  intro member
  rcases List.mem_append.mp member with column | character
  · rcases mem_rowColumns column with digit | space
    · exact absurd (visible_of_digit digit).1 (by decide)
    · cases space
  · rcases List.mem_append.mp (List.mem_of_ne_of_mem (by decide) character) with shown | bar
    · obtain ⟨byte,_,same⟩ := List.mem_map.mp shown
      exact printable_ne_newline byte same
    · cases List.mem_singleton.mp bar

theorem getLast?_row (i : Nat) (chunk : Bytes) : (hexdumpRow i chunk).getLast? = some '|' := by
  have all : hexdumpRow i chunk = (rowColumns i chunk ++ '|' :: chunk.map printable) ++ ['|'] := by
    rw [hexdumpRow_eq,List.append_assoc]
    rfl
  rw [all,List.getLast?_concat]

theorem idxOf?_row (small : i * 16 < 16^8) (short : chunk.length ≤ 16) : (hexdumpRow i chunk).idxOf? '|' = some 60 := by
  have before : (rowColumns i chunk).idxOf? '|' = none := by
    rw [List.idxOf?_eq_none_iff]
    intro member
    rcases mem_rowColumns member with digit | space
    · exact (visible_of_digit digit).2 rfl
    · cases space
  rw [hexdumpRow_eq,List.idxOf?,List.findIdx?_append,← List.idxOf?,before,length_rowColumns small short]
  rfl

/-! All rows. -/

/-- As many rows as there are sixteens in the data, each with its offset and its characters in the
same place, and the data read back from the fields of all rows. -/
structure Dumps (data : Bytes) (rows : List Str) : Prop where
  count : rows.length = (data.length + 15) / 16
  offset : ∀ i row, rows[i]? = some row → Hex.value (row.take 8) = some (16 * i) ∧ (row.take 8).length = 8
  aligned : ∀ row ∈ rows, row.idxOf? '|' = some 60
  lossless : (rows.flatMap fields).mapM readField = some data

def dumpRows (chunks : List Bytes) : List Str := chunks.zipIdx.map fun (chunk,i) => hexdumpRow i chunk

theorem mem_dumpRows {chunks : List Bytes} {row : Str} :
    row ∈ dumpRows chunks ↔ ∃ i chunk, chunks[i]? = some chunk ∧ hexdumpRow i chunk = row := by
  constructor
  · intro member
    obtain ⟨⟨chunk,i⟩,inside,same⟩ := List.mem_map.mp member
    exact ⟨i,chunk,List.mem_zipIdx_iff_getElem?.mp inside,same⟩
  · rintro ⟨i,chunk,inside,same⟩
    exact List.mem_map.mpr ⟨(chunk,i),List.mem_zipIdx_iff_getElem?.mpr inside,same⟩

theorem lines_dumpRows (chunks : List Bytes) : Str.lines (joinLines (dumpRows chunks)) = dumpRows chunks := by
  refine (lines_joinLines_iff ?_).mpr ⟨?_,?_⟩
  · intro row member
    obtain ⟨i,chunk,_,rfl⟩ := mem_dumpRows.mp member
    exact newline_not_mem_row i chunk
  · intro empty
    obtain ⟨i,chunk,_,same⟩ := mem_dumpRows.mp (List.mem_of_getLast? empty)
    have last := getLast?_row i chunk
    rw [same] at last
    cases last
  · intro row member
    obtain ⟨i,chunk,_,rfl⟩ := mem_dumpRows.mp (List.mem_of_mem_dropLast member)
    rw [getLast?_row]
    decide

theorem fields_dumpRows {chunks : List Bytes} (small : ∀ i chunk, chunks[i]? = some chunk → i * 16 < 16^8) :
    (dumpRows chunks).flatMap fields = chunks.flatten.map fun byte => hex 2 byte.toNat := by
  have parts : chunks.flatten.map (fun byte => hex 2 byte.toNat) =
      (chunks.zipIdx.map Prod.fst).flatMap (List.map fun byte => hex 2 byte.toNat) := by
    rw [List.zipIdx_map_fst,List.map_flatten,List.flatMap_def]
  rw [parts,dumpRows,List.flatMap_map,List.flatMap_map]
  apply List.flatMap_congr
  intro ⟨chunk,i⟩ inside
  exact fields_row (small i chunk (List.mem_zipIdx_iff_getElem?.mp inside))

theorem dumps_dumpRows {chunks : List Bytes} (chunked : Chunked 16 chunks) (small : chunks.flatten.length < 2^32) :
    Dumps chunks.flatten (dumpRows chunks) := by
  have count := chunked.length (by decide)
  have offset (i : Nat) (chunk : Bytes) (inside : chunks[i]? = some chunk) : i * 16 < 16^8 := by
    obtain ⟨within,_⟩ := List.getElem?_eq_some_iff.mp inside
    omega
  refine ⟨?count,?offset,?aligned,?lossless⟩
  case count =>
    rw [dumpRows,List.length_map,List.length_zipIdx]
    exact count
  case offset =>
    intro i row found
    rw [dumpRows,List.getElem?_map,List.getElem?_zipIdx,Option.map_map,Option.map_eq_some_iff] at found
    obtain ⟨chunk,inside,rfl⟩ := found
    rw [Function.comp_apply,Nat.zero_add,take_row (offset i chunk inside),value_hex,Nat.mul_comm]
    exact ⟨rfl,Nat.mul_comm i 16 ▸ length_hex (by decide) (offset i chunk inside)⟩
  case aligned =>
    intro row member
    obtain ⟨i,chunk,inside,rfl⟩ := mem_dumpRows.mp member
    exact idxOf?_row (offset i chunk inside) (chunked.length_le chunk (List.mem_of_getElem? inside))
  case lossless =>
    have fieldwise : readField ∘ (fun byte : UInt8 => hex 2 byte.toNat) = pure := funext readField_hex
    rw [fields_dumpRows offset,List.mapM_map,fieldwise]
    exact List.mapM_pure.trans (congrArg some (List.map_id _))

theorem cmdHexdump_dumps (named : (Str.splitWhitespace args).head? = some name) (found : fs.read cwd name = some data)
    (small : data.length < 2^32) : Dumps data (Str.lines (cmdHexdump fs args cwd)) := by
  obtain ⟨chunked,joined⟩ := toChunks_chunked (by decide : 0 < 16) data
  have printed : cmdHexdump fs args cwd = joinLines (dumpRows (data.toChunks 16)) := by
    rw [cmdHexdump,named]
    simp only [found]
    rfl
  rw [printed,lines_dumpRows]
  have dumps := dumps_dumpRows chunked (joined.symm ▸ small)
  rwa [joined] at dumps

theorem two_rows_dumped : Dumps (List.replicate 17 65)
    (Str.lines (cmdHexdump (RamFs.new.write [] (lit "f") (List.replicate 17 65)).2 (lit "f") [])) :=
  @cmdHexdump_dumps _ _ (lit "f") (lit "f") [] (by decide) (by decide) (by decide)

end HexDump

end PolarOs
