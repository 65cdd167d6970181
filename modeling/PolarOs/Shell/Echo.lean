import PolarOs.Shell.LineEditor

/-! The echo of the line editor. After a key the lowest text row is the prompt and the line,
as long as the key takes away and adds as many cells as the line has bytes. -/
namespace PolarOs
open Library Library.Checked Drivers

/-- The cell of a byte of the line. -/
def echoByte (byte : UInt8) : UInt8 := if 0x20 ≤ byte ∧ byte ≤ 0x7e then byte else 0xfe

def echoed (s : Str) : List UInt8 := (Utf8.encode s).map echoByte

variable {s text : Str} {bytes more : List UInt8} {writer : Writer} {cwd : List Str} {fs : RamFs}

theorem echoed_append (first second : Str) : echoed (first ++ second) = echoed first ++ echoed second := by
  simp [echoed,Utf8.encode]

@[simp] theorem length_echoed (s : Str) : (echoed s).length = Gui.byteLength s := List.length_map _

theorem shownByte_eq {byte : UInt8} (printed : byte ≠ 10) : Writer.shownByte byte = echoByte byte := by
  simp [Writer.shownByte,echoByte,printed]

theorem echoByte_ne (byte : UInt8) : echoByte byte ≠ 10 := by
  rw [echoByte]
  split
  next printable =>
    rintro rfl
    exact absurd printable.1 (by decide)
  next => decide

/-! Printing on the row. -/

theorem writeByte_total (inside : writer.columnPosition ≤ 80) (byte : UInt8) :
    ∃ next, writer.writeByte byte = .ok next ∧ next.columnPosition ≤ 80 := by
  obtain ⟨below,broken,scrolled⟩ := Writer.newLine_ok writer
  have empty := scrolled.column
  by_cases ends : byte = 10
  · exact ⟨below,(if_pos ends).trans broken,by omega⟩
  · by_cases room : writer.columnPosition < 80
    · obtain ⟨next,ran,behind,_⟩ := Writer.writeByte_ok ends room
      exact ⟨next,ran,by omega⟩
    · obtain ⟨next,ran,behind,_⟩ := @Writer.writeByte_ok below byte ends (by omega)
      refine ⟨next,?_,by omega⟩
      rw [Writer.writeByte_full ends (by omega),broken,ok_bind,ran]

theorem writeString_total (inside : writer.columnPosition ≤ 80) (s : Str) :
    ∃ next, writer.writeString s = .ok next ∧ next.columnPosition ≤ 80 := by
  rw [Writer.writeString]
  induction Utf8.encode s generalizing writer with
  | nil => exact ⟨writer,rfl,inside⟩
  | cons byte bytes ih =>
    obtain ⟨middle,first,narrow⟩ := writeByte_total inside (Writer.shownByte byte)
    obtain ⟨next,rest,final⟩ := ih narrow
    refine ⟨next,?_,final⟩
    rw [List.foldlM_cons,first]
    exact rest

theorem writeString_row (row : writer.Row bytes) (quiet : '\n' ∉ s) (fits : bytes.length + Gui.byteLength s ≤ 80) :
    ∃ next, writer.writeString s = .ok next ∧ next.Row (bytes ++ echoed s) := by
  have printed : ∀ byte ∈ Utf8.encode s, byte ≠ 10 := by
    rintro _ member rfl
    exact quiet (Utf8.newline_of_mem member)
  rw [Writer.writeString,echoed]
  change bytes.length + (Utf8.encode s).length ≤ 80 at fits
  generalize Utf8.encode s = encoded at *
  induction encoded generalizing writer bytes with
  | nil => exact ⟨writer,rfl,by rwa [List.map_nil,List.append_nil]⟩
  | cons byte encoded ih =>
    rw [List.length_cons] at fits
    have room : bytes.length < 80 := by omega
    rw [List.foldlM_cons,shownByte_eq (printed byte List.mem_cons_self)]
    obtain ⟨middle,first,behind,typed⟩ := Writer.writeByte_ok (echoByte_ne byte) (row.column ▸ room)
    have longer := Writer.typed_row row room behind typed
    have left : (bytes ++ [echoByte byte]).length + encoded.length ≤ 80 := by
      rw [List.length_append,List.length_singleton]
      omega
    obtain ⟨next,rest,final⟩ := ih longer (fun other member => printed other (List.mem_cons_of_mem _ member)) left
    refine ⟨next,?_,?_⟩
    · rw [first]
      exact rest
    · rwa [List.map_cons,List.append_cons]

theorem writeString_newline (writer : Writer) : ∃ next, writer.writeString (lit "\n") = .ok next ∧ next.Row [] := by
  obtain ⟨next,ran,row⟩ := Writer.newLine_row writer
  refine ⟨next,?_,row⟩
  change writer.newLine >>= pure = _
  rw [ran]
  rfl

/-- A loop of prints is one print. -/
theorem writeEach_eq (f : Str → Str) (texts : List Str) (writer : Writer) :
    texts.foldlM (fun (writer : Writer) text => writer.writeString (f text)) writer =
      writer.writeString (texts.flatMap f) := by
  rw [List.flatMap,← Writer.writeStrings_eq,List.foldlM_map]

theorem clearInput_row (row : writer.Row (bytes ++ more)) :
    ∃ next, clearInput more.length writer = .ok next ∧ next.Row bytes := by
  rw [clearInput]
  induction more using List.reverseRecOn generalizing writer with
  | nil => exact ⟨writer,rfl,by rwa [List.append_nil] at row⟩
  | append_singleton more byte ih =>
    rw [← List.append_assoc] at row
    obtain ⟨middle,deleted,shorter⟩ := Writer.deleteLastChar_row row
    obtain ⟨next,rest,final⟩ := ih shorter
    refine ⟨next,?_,final⟩
    rw [List.length_append,List.length_singleton,List.range_succ_eq_map,List.foldlM_cons,deleted,ok_bind,
      List.foldlM_map]
    exact rest

/-! The prompt. -/

def promptText (cwd : List Str) : Str :=
  lit "myos:" ++ (if cwd.isEmpty then lit "/" else cwd.flatMap ('/' :: ·)) ++ lit "> "

theorem printPath_eq (cwd : List Str) (writer : Writer) :
    printPath cwd writer = writer.writeString (if cwd.isEmpty then lit "/" else cwd.flatMap ('/' :: ·)) := by
  rw [printPath]
  split
  next => rfl
  next => exact writeEach_eq (lit "/" ++ ·) cwd writer

theorem printPrompt_row (row : writer.Row []) (quiet : '\n' ∉ promptText cwd)
    (fits : Gui.byteLength (promptText cwd) ≤ 80) :
    ∃ next, printPrompt cwd writer = .ok next ∧ next.Row (echoed (promptText cwd)) := by
  have parts : promptText cwd = lit "myos" ++ lit ":" ++ (if cwd.isEmpty then lit "/" else cwd.flatMap ('/' :: ·)) ++
    lit "> " := rfl
  rw [parts] at quiet fits ⊢
  simp only [printPrompt,printPath_eq]
  generalize (if cwd.isEmpty then lit "/" else cwd.flatMap ('/' :: ·)) = path at *
  simp only [List.mem_append,not_or] at quiet
  simp only [Gui.byteLength_append] at fits
  obtain ⟨first,named,row⟩ := writeString_row (Writer.setColor_row row .lightCyan .black) quiet.1.1.1
    (by rw [List.length_nil]; omega)
  rw [List.nil_append] at row
  obtain ⟨second,parted,row⟩ := writeString_row (Writer.setColor_row row .white .black) quiet.1.1.2
    (by rw [length_echoed]; omega)
  rw [← echoed_append] at row
  obtain ⟨third,placed,row⟩ := writeString_row row quiet.1.2
    (by rw [length_echoed,Gui.byteLength_append]; omega)
  rw [← echoed_append] at row
  obtain ⟨last,ended,row⟩ := writeString_row row quiet.2
    (by rw [length_echoed,Gui.byteLength_append,Gui.byteLength_append]; omega)
  rw [← echoed_append] at row
  refine ⟨last.setColor .lightGreen .black,?_,Writer.setColor_row row _ _⟩
  rw [named,ok_bind,parted,ok_bind,placed,ok_bind,ended]
  rfl

/-! The line behind the prompt. -/

namespace LineEditor

variable {editor : LineEditor} {key : KeyEvent}

/-- What the user sees of the line. -/
def ShowsLine (cwd : List Str) (editor : LineEditor) : Prop :=
  ∀ col < 80, (editor.writer.buffer 23 col).asciiCharacter = (echoed (promptText cwd ++ editor.buf)).getD col 32

def Fits (cwd : List Str) (buf : Str) : Prop := Gui.byteLength (promptText cwd ++ buf) ≤ 80

structure Echoes (cwd : List Str) (editor : LineEditor) : Prop where
  row : editor.writer.Row (echoed (promptText cwd ++ editor.buf))
  quiet : '\n' ∉ editor.buf
  bounded : editor.history.cursor ≤ editor.history.entries.length

theorem Echoes.showsLine (echoes : Echoes cwd editor) : ShowsLine cwd editor := echoes.row.cells

theorem Echoes.fits (echoes : Echoes cwd editor) : Fits cwd editor.buf := by
  have short := echoes.row.short
  rwa [length_echoed] at short

theorem Echoes.withHistory (echoes : Echoes cwd editor) (history : CommandHistory)
    (bounded : history.cursor ≤ history.entries.length) : Echoes cwd {editor with history} :=
  ⟨echoes.row,echoes.quiet,bounded⟩

theorem append_echoes (echoes : Echoes cwd editor) (quiet : '\n' ∉ s) :
    ∃ next, editor.append s = .ok next ∧ next.buf = editor.buf ++ s ∧ (Fits cwd (editor.buf ++ s) → Echoes cwd next) := by
  obtain ⟨writer,ran,_⟩ := writeString_total (echoes.row.column ▸ echoes.row.short) s
  refine ⟨{editor with buf := editor.buf ++ s, writer},?_,rfl,?_⟩
  · rw [append,ran]
    rfl
  · intro fits
    rw [Fits,← List.append_assoc,Gui.byteLength_append] at fits
    obtain ⟨same,again,row⟩ := writeString_row echoes.row quiet (by rwa [length_echoed])
    obtain rfl := Except.ok.inj (ran.symm.trans again)
    refine ⟨?_,?_,echoes.bounded⟩
    · rwa [← List.append_assoc,echoed_append]
    · simpa using ⟨echoes.quiet,quiet⟩

theorem clear_echoes (echoes : Echoes cwd editor) :
    ∃ writer, editor.clear = .ok {editor with buf := [], writer} ∧ Echoes cwd {editor with buf := [], writer} := by
  have row := echoes.row
  rw [echoed_append] at row
  obtain ⟨writer,ran,left⟩ := clearInput_row row
  rw [length_echoed] at ran
  refine ⟨writer,?_,?_,List.not_mem_nil,echoes.bounded⟩
  · rw [clear,ran]
    rfl
  · rwa [List.append_nil]

theorem listCompletions_echoes (echoes : Echoes cwd editor) (quiet : '\n' ∉ promptText cwd) (completions : List Str) :
    ∃ next, editor.listCompletions cwd completions = .ok next ∧ next.buf = editor.buf ∧ Echoes cwd next := by
  have fits := echoes.fits
  rw [Fits,Gui.byteLength_append] at fits
  obtain ⟨first,broken,start⟩ := writeString_newline editor.writer
  obtain ⟨second,listed,_⟩ := writeString_total (start.column ▸ start.short) (completions.flatMap (lit "  " ++ ·))
  obtain ⟨third,again,empty⟩ := writeString_newline second
  obtain ⟨fourth,prompted,row⟩ := printPrompt_row empty quiet (by omega)
  obtain ⟨last,ran,row⟩ := writeString_row row echoes.quiet (by rwa [length_echoed])
  refine ⟨{editor with writer := last},?_,rfl,?_,echoes.quiet,echoes.bounded⟩
  · rw [listCompletions,broken,ok_bind,writeEach_eq,listed,ok_bind,again,ok_bind,prompted,ok_bind,ran]
    rfl
  · rwa [echoed_append]

/-! Completion. -/

/-- The bytes that all completions share end with a character, and none of them is a newline. -/
def CleanTab (fs : RamFs) (cwd : List Str) (buf : Str) : Prop :=
  ∀ first rest, (tabComplete buf fs cwd).2 = first::rest →
    ∃ shared after, first = shared ++ after ∧ Gui.byteLength shared = sharedLength first rest ∧ '\n' ∉ shared

/-- The word that is completed is the end of the line, and the completions begin with it. -/
theorem tabComplete_word (buf : Str) (fs : RamFs) (cwd : List Str) :
    ∃ front word, buf = front ++ word ∧ (tabComplete buf fs cwd).1 = Gui.byteLength front ∧
      ∀ name ∈ (tabComplete buf fs cwd).2, word <+: name := by
  rw [tabComplete]
  split
  next spacePos _ =>
    refine ⟨buf.take (spacePos + 1),buf.drop (spacePos + 1),(List.take_append_drop ..).symm,rfl,?_⟩
    intro name member
    exact List.isPrefixOf_iff_prefix.mp (List.mem_filter.mp member).2
  next =>
    refine ⟨[],buf,rfl,rfl,?_⟩
    intro name member
    exact List.isPrefixOf_iff_prefix.mp (List.mem_filter.mp member).2

theorem append_suffix_echoes {word : Str} (echoes : Echoes cwd editor) (begins : word <+: text) (quiet : '\n' ∉ text) :
    ∃ suffix next, Gui.splitAt (Gui.byteLength word) text = .ok (word,suffix) ∧ editor.append suffix = .ok next ∧
      (Fits cwd next.buf → Echoes cwd next) := by
  obtain ⟨suffix,rfl⟩ := begins
  obtain ⟨next,ran,buf,final⟩ := append_echoes echoes (fun member => quiet (List.mem_append_right _ member))
  exact ⟨suffix,next,Gui.splitAt_ok.mpr ⟨rfl,rfl⟩,ran,buf ▸ final⟩

theorem tab_echoes (echoes : Echoes cwd editor) (quiet : '\n' ∉ promptText cwd) (clean : CleanTab fs cwd editor.buf) :
    ∃ next, editor.tab fs cwd = .ok next ∧ (Fits cwd next.buf → Echoes cwd next) := by
  obtain ⟨front,word,parts,start,begin⟩ := tabComplete_word editor.buf fs cwd
  have length : Checked.sub (Gui.byteLength editor.buf) (Gui.byteLength front) = .ok (Gui.byteLength word) := by
    rw [sub_eq_ok,parts,Gui.byteLength_append]
    omega
  rw [CleanTab] at clean
  simp only [tab,start,length,ok_bind]
  generalize (tabComplete editor.buf fs cwd).2 = completions at *
  match completions with
  | [] => exact ⟨editor,rfl,fun _ => echoes⟩
  | [only] =>
    obtain ⟨shared,after,rfl,size,silent⟩ := clean only [] rfl
    have all : after = [] := by
      refine Gui.eq_nil_of_byteLength ?_
      rw [sharedLength,List.foldl_nil,Gui.byteLength_append] at size
      omega
    rw [all,List.append_nil] at begin ⊢
    obtain ⟨suffix,next,cut,ran,final⟩ := append_suffix_echoes echoes (begin shared List.mem_cons_self) silent
    refine ⟨next,?_,final⟩
    simp only [cut,ok_bind,ran]
  | first::second::rest =>
    obtain ⟨shared,after,same,size,silent⟩ := clean first (second::rest) rfl
    have common : commonPrefix (first::second::rest) = .ok shared := by
      rw [commonPrefix,Gui.splitAt_ok.mpr ⟨same,size⟩]
      rfl
    simp only [common,ok_bind]
    split
    next longer =>
      have within : word <+: shared := by
        have one : word <+: first := begin first List.mem_cons_self
        rcases List.prefix_or_prefix_of_prefix one ⟨after,same.symm⟩ with shorter | ⟨more,other⟩
        · exact shorter
        · rw [← other,Gui.byteLength_append] at longer
          omega
      obtain ⟨suffix,next,cut,ran,final⟩ := append_suffix_echoes echoes within silent
      refine ⟨next,?_,final⟩
      simp only [cut,ok_bind,ran]
    next =>
      obtain ⟨next,ran,_,final⟩ := listCompletions_echoes echoes quiet (first::second::rest)
      exact ⟨next,ran,fun _ => final⟩

/-! The keys. -/

/-- What a key must find: a last character of one byte to take away, completions that share
whole characters, an entry on one line. -/
def CleanKey (fs : RamFs) (cwd : List Str) (key : KeyEvent) (editor : LineEditor) : Prop :=
  match key with
  | .char '\x08' => ∀ c ∈ editor.buf.getLast?, c.utf8Size = 1
  | .char '\t' => CleanTab fs cwd editor.buf
  | .char _ => True
  | .arrowUp => ∀ entry ∈ editor.history.entries[editor.history.cursor - 1]?, '\n' ∉ entry
  | .arrowDown => ∀ entry ∈ editor.history.entries[editor.history.cursor + 1]?, '\n' ∉ entry

/-- The line still fits behind the prompt after this key. -/
def FitsAfter (fs : RamFs) (cwd : List Str) (key : KeyEvent) (editor : LineEditor) : Prop :=
  ∀ next, editor.press fs cwd key = .ok (none,next) → Fits cwd next.buf

theorem backspace_echoes (echoes : Echoes cwd editor) {front : Str} {c : Char} (line : editor.buf = front ++ [c])
    (single : c.utf8Size = 1) : ∃ writer, editor.writer.deleteLastChar = .ok writer ∧
      Echoes cwd {editor with buf := editor.buf.dropLast, writer} := by
  obtain ⟨row,quiet,bounded⟩ := echoes
  have cell : echoed [c] = [echoByte c.val.toUInt8] := by
    simp [echoed,Utf8.encode,String.utf8EncodeChar_eq_singleton single]
  rw [line,← List.append_assoc,echoed_append,cell] at row
  obtain ⟨writer,ran,left⟩ := Writer.deleteLastChar_row row
  refine ⟨writer,ran,?_,?_,bounded⟩
  · rwa [line,List.dropLast_concat]
  · exact fun member => quiet ((List.dropLast_sublist _).subset member)

theorem press_echoes (echoes : Echoes cwd editor) (quiet : '\n' ∉ promptText cwd) (goesOn : key ≠ .char '\n')
    (clean : CleanKey fs cwd key editor) (fits : FitsAfter fs cwd key editor) :
    ∃ next, editor.press fs cwd key = .ok (none,next) ∧ Echoes cwd next := by
  rw [FitsAfter] at fits
  unfold press CleanKey at *
  split
  next => exact absurd rfl goesOn
  next =>
    split
    next => exact ⟨editor,rfl,echoes⟩
    next present =>
      rw [List.isEmpty_iff] at present
      obtain ⟨front,c,line⟩ := editor.buf.eq_nil_or_concat'.resolve_left present
      obtain ⟨writer,ran,final⟩ := backspace_echoes echoes line (clean c (by rw [line]; simp))
      refine ⟨_,?_,final⟩
      rw [ran]
      rfl
  next =>
    obtain ⟨next,ran,final⟩ := tab_echoes echoes quiet clean
    rw [ran] at fits ⊢
    exact ⟨next,rfl,final (fits next rfl)⟩
  next c _ _ _ =>
    split
    next printable =>
      have one : '\n' ∉ [c] := by
        rintro member
        rw [← List.mem_singleton.mp member] at printable
        exact absurd printable.1 (by decide)
      obtain ⟨next,ran,buf,final⟩ := append_echoes echoes one
      simp only [if_pos printable,ran,ok_bind] at fits ⊢
      exact ⟨next,rfl,final (buf ▸ fits next rfl)⟩
    next => exact ⟨editor,rfl,echoes⟩
  next =>
    rw [CommandHistory.up_ok echoes.bounded] at fits ⊢
    have moved := echoes.withHistory {editor.history with cursor := editor.history.cursor - 1}
      (Nat.le_trans (Nat.sub_le _ _) echoes.bounded)
    generalize editor.history.entries[editor.history.cursor - 1]? = found at *
    cases found with
    | none => exact ⟨_,rfl,moved⟩
    | some entry =>
      obtain ⟨writer,cleared,empty⟩ := clear_echoes moved
      obtain ⟨next,ran,buf,final⟩ := append_echoes empty (clean entry rfl)
      simp only [ok_bind,cleared,ran] at fits ⊢
      exact ⟨next,rfl,final (buf ▸ fits next rfl)⟩
  next =>
    obtain ⟨writer,cleared,empty⟩ := clear_echoes echoes
    have moved := empty.withHistory
      {editor.history with cursor := min (editor.history.cursor + 1) editor.history.entries.length} (Nat.min_le_right _ _)
    simp only [cleared,ok_bind,CommandHistory.down_ok echoes.bounded] at fits ⊢
    generalize editor.history.entries[editor.history.cursor + 1]? = found at *
    cases found with
    | none => exact ⟨_,rfl,moved⟩
    | some entry =>
      obtain ⟨next,ran,buf,final⟩ := append_echoes moved (clean entry rfl)
      simp only [ran,ok_bind] at fits ⊢
      exact ⟨next,rfl,final (buf ▸ fits next rfl)⟩

/-- A property of each key and the state it comes in, throughout a run. -/
def Throughout (fs : RamFs) (cwd : List Str) (good : KeyEvent → LineEditor → Prop) : List KeyEvent → LineEditor → Prop
  | [],_ => True
  | key::keys,editor => good key editor ∧
    ∀ next, editor.press fs cwd key = .ok (none,next) → Throughout fs cwd good keys next

theorem readLine_echoes {keys : List KeyEvent} (echoes : Echoes cwd editor) (quiet : '\n' ∉ promptText cwd)
    (goesOn : .char '\n' ∉ keys) (fits : Throughout fs cwd (FitsAfter fs cwd) keys editor)
    (clean : Throughout fs cwd (CleanKey fs cwd) keys editor) {before : List KeyEvent} (first : before <+: keys) :
    ∃ last, editor.readLine fs cwd before = .ok (none,last) ∧ Echoes cwd last := by
  induction before generalizing keys editor with
  | nil => exact ⟨editor,rfl,echoes⟩
  | cons key before ih =>
    obtain ⟨after,rfl⟩ := first
    rw [List.cons_append,List.mem_cons,not_or] at goesOn
    obtain ⟨next,pressed,kept⟩ := press_echoes echoes quiet (Ne.symm goesOn.1) clean.1 fits.1
    obtain ⟨last,ran,final⟩ := ih kept goesOn.2 (fits.2 next pressed) (clean.2 next pressed) (List.prefix_append ..)
    refine ⟨last,?_,final⟩
    rw [readLine,pressed]
    exact ran

/-- From the prompt on, after every key the row shows the prompt and the line, as long as the
line fits and the keys find what they need. -/
theorem line_echoed {history : CommandHistory} (blank : writer.Row []) (quiet : '\n' ∉ promptText cwd)
    (short : Fits cwd []) (bounded : history.cursor ≤ history.entries.length) :
    ∃ prompted, printPrompt cwd writer = .ok prompted ∧ ∀ keys : List KeyEvent, .char '\n' ∉ keys →
      Throughout fs cwd (FitsAfter fs cwd) keys ⟨[],history,prompted⟩ →
      Throughout fs cwd (CleanKey fs cwd) keys ⟨[],history,prompted⟩ → ∀ before, before <+: keys →
        ∃ last, readLine fs cwd before ⟨[],history,prompted⟩ = .ok (none,last) ∧ ShowsLine cwd last := by
  rw [Fits,List.append_nil] at short
  obtain ⟨prompted,ran,row⟩ := printPrompt_row blank quiet short
  have start : Echoes cwd ⟨[],history,prompted⟩ := ⟨by rwa [List.append_nil],List.not_mem_nil,bounded⟩
  refine ⟨prompted,ran,?_⟩
  intro keys goesOn fits clean before first
  obtain ⟨last,ran,final⟩ := readLine_echoes start quiet goesOn fits clean first
  exact ⟨last,ran,final.showsLine⟩

def blankWriter : Writer := ⟨0,10,fun _ _ => ⟨32,10⟩⟩

theorem blankWriter_row : blankWriter.Row [] := ⟨by decide,rfl,fun _ _ => rfl⟩

/-- A typed character lengthens the line by itself at most. -/
theorem fitsAfter_char {c : Char} (typed : c ≠ '\n' ∧ c ≠ '\x08' ∧ c ≠ '\t') (room : Fits cwd (editor.buf ++ [c])) :
    FitsAfter fs cwd (.char c) editor := by
  intro next pressed
  unfold press at pressed
  split at pressed
  next same => exact absurd (KeyEvent.char.inj same) typed.1
  next same => exact absurd (KeyEvent.char.inj same) typed.2.1
  next same => exact absurd (KeyEvent.char.inj same) typed.2.2
  next same =>
    cases same
    split at pressed
    next =>
      obtain ⟨longer,appended,done⟩ := bind_ok.mp pressed
      obtain ⟨writer,_,written⟩ := bind_ok.mp appended
      cases done
      cases written
      exact room
    next =>
      cases pressed
      rw [Fits,← List.append_assoc,Gui.byteLength_append] at room
      rw [Fits]
      omega
  next same => cases same
  next same => cases same

theorem accent_fits : Fits [] ['é'] := by
  unfold Fits
  decide

theorem accent_echoed : ∃ prompted last, printPrompt [] blankWriter = .ok prompted ∧
    readLine RamFs.new [] [.char 'é'] ⟨[],CommandHistory.new,prompted⟩ = .ok (none,last) ∧ ShowsLine [] last := by
  obtain ⟨prompted,ran,echoed⟩ :=
    @line_echoed blankWriter [] RamFs.new CommandHistory.new blankWriter_row (by decide) (by unfold Fits; decide) (by decide)
  obtain ⟨last,typed,shows⟩ := echoed [.char 'é'] (by decide)
    ⟨fitsAfter_char (by decide) accent_fits,fun _ _ => trivial⟩ ⟨trivial,fun _ _ => trivial⟩ _ (List.prefix_refl _)
  exact ⟨prompted,last,ran,typed,shows⟩

/-- A letter of two bytes takes two cells, and the backspace clears one of them. -/
theorem accent_leaves_cell : blankWriter.Row [] ∧ '\n' ∉ promptText [] ∧ Fits [] ['é'] ∧
    ∃ prompted last, printPrompt [] blankWriter = .ok prompted ∧
      readLine RamFs.new [] [.char 'é',.char '\x08'] ⟨[],CommandHistory.new,prompted⟩ = .ok (none,last) ∧
      last.buf = [] ∧ ¬ShowsLine [] last := by
  refine ⟨blankWriter_row,by decide,accent_fits,_,_,rfl,rfl,rfl,?_⟩
  intro shows
  have cell := shows 8 (by decide)
  exact absurd cell (by decide)

end LineEditor

end PolarOs
