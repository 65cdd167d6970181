import PolarOs.Library.Utf8

/-! Rust strings as lists of characters, with the `str` methods and `format!` widths
the kernel uses. Positions count characters where the source counts bytes; the kernel
only cuts at one-byte separators. -/
namespace PolarOs
open Library

abbrev Str := List Char

def lit (text : String) : Str := text.toList

namespace Str

/-- The Unicode property `White_Space` (`char::is_whitespace`). -/
def isWhitespace (c : Char) : Bool :=
  (0x09 ≤ c.toNat && c.toNat ≤ 0x0D) || c.toNat == 0x20 || c.toNat == 0x85 || c.toNat == 0xA0 ||
    c.toNat == 0x1680 || (0x2000 ≤ c.toNat && c.toNat ≤ 0x200A) || c.toNat == 0x2028 ||
    c.toNat == 0x2029 || c.toNat == 0x202F || c.toNat == 0x205F || c.toNat == 0x3000

def trimStart (s : Str) : Str := s.dropWhile isWhitespace

def trimEnd (s : Str) : Str := (s.reverse.dropWhile isWhitespace).reverse

def trim (s : Str) : Str := trimEnd (trimStart s)

/-- The pieces between separators; there is always at least one. -/
def splitBy (separator : Char → Bool) : Str → List Str
  | [] => [[]]
  | c::s =>
    if separator c then [] :: splitBy separator s
    else match splitBy separator s with
      | [] => [[c]]
      | piece::rest => (c::piece)::rest

def split (separator : Char) (s : Str) : List Str := splitBy (· == separator) s

def splitWhitespace (s : Str) : List Str := (splitBy isWhitespace s).filter (· ≠ [])

def splitOnce (separator : Char) : Str → Option (Str × Str)
  | [] => none
  | c::s =>
    if c = separator then some ([],s)
    else (splitOnce separator s).map fun (before,after) => (c::before,after)

/-- Position of the last occurrence of a non-empty pattern. -/
def rfind (pattern : Str) : Str → Option Nat
  | [] => none
  | c::s => match rfind pattern s with
    | some i => some (i + 1)
    | none => if pattern.isPrefixOf (c::s) then some 0 else none

theorem rfind_some {pattern s : Str} {i : Nat} (found : rfind pattern s = some i) : pattern <+: s.drop i := by
  induction s generalizing i with
  | nil => cases found
  | cons c s ih =>
    rw [rfind] at found
    split at found
    next j later =>
      obtain rfl := Option.some.inj found
      exact ih later
    next =>
      split at found
      next here =>
        obtain rfl := Option.some.inj found
        exact List.isPrefixOf_iff_prefix.mp here
      next => cases found

theorem rfind_none {pattern s : Str} (missing : rfind pattern s = none) (nonempty : pattern ≠ []) (i : Nat) :
    ¬pattern <+: s.drop i := by
  induction s generalizing i with
  | nil =>
    intro occurs
    apply nonempty
    simpa using occurs
  | cons c s ih =>
    rw [rfind] at missing
    split at missing
    next => cases missing
    next later =>
      cases i with
      | zero =>
        intro occurs
        rw [List.drop_zero] at occurs
        rw [if_pos (List.isPrefixOf_iff_prefix.mpr occurs)] at missing
        cases missing
      | succ i => exact ih later i

theorem mem_dropWhile {p : Char → Bool} {c : Char} (s : Str) (kept : p c = false) : c ∈ s.dropWhile p ↔ c ∈ s := by
  induction s with
  | nil => rfl
  | cons d s ih =>
    rw [List.dropWhile_cons]
    split
    next dropped =>
      have different : c ≠ d := by
        intro same
        rw [same,dropped] at kept
        cases kept
      rw [ih,List.mem_cons,or_iff_right different]
    next => rfl

theorem mem_trim {c : Char} (s : Str) (visible : isWhitespace c = false) : c ∈ trim s ↔ c ∈ s := by
  rw [trim,trimEnd,trimStart,List.mem_reverse,mem_dropWhile _ visible,List.mem_reverse,mem_dropWhile _ visible]

theorem mem_splitBy {separator : Char → Bool} {s piece : Str} {c : Char} (split : piece ∈ splitBy separator s)
    (member : c ∈ piece) : c ∈ s := by
  induction s generalizing piece with
  | nil =>
    rw [List.mem_singleton.mp split] at member
    exact member
  | cons d s ih =>
    rw [splitBy] at split
    split at split
    next =>
      rcases List.mem_cons.mp split with rfl | later
      · cases member
      · exact List.mem_cons_of_mem _ (ih later member)
    next =>
      split at split
      next =>
        rw [List.mem_singleton.mp split] at member
        exact List.mem_cons.mpr (Or.inl (List.mem_singleton.mp member))
      next first rest pieces =>
        rw [pieces] at ih
        rcases List.mem_cons.mp split with rfl | later
        · rcases List.mem_cons.mp member with rfl | inside
          · exact List.mem_cons_self
          · exact List.mem_cons_of_mem _ (ih List.mem_cons_self inside)
        · exact List.mem_cons_of_mem _ (ih (List.mem_cons_of_mem _ later) member)

theorem splitOnce_some {separator : Char} {s before after : Str} (split : splitOnce separator s = some (before,after)) :
    s = before ++ separator :: after := by
  induction s generalizing before with
  | nil => cases split
  | cons c s ih =>
    rw [splitOnce] at split
    split at split
    next same =>
      cases split
      rw [same]
      rfl
    next =>
      obtain ⟨⟨shorter,rest⟩,found,joined⟩ := Option.map_eq_some_iff.mp split
      cases joined
      rw [ih found]
      rfl

/-! Words. -/

/-- A non-empty text without white space. -/
def IsWord (s : Str) : Prop := s ≠ [] ∧ ∀ c ∈ s, isWhitespace c = false

instance (s : Str) : Decidable (IsWord s) :=
  decidable_of_iff (s.isEmpty = false ∧ s.all (fun c => !isWhitespace c) = true) (by simp [IsWord])

theorem splitBy_absent {separator : Char → Bool} {s : Str} (absent : ∀ c ∈ s, separator c = false) :
    splitBy separator s = [s] := by
  induction s with
  | nil => rfl
  | cons c s ih =>
    rw [splitBy,if_neg (Bool.eq_false_iff.mp (absent c List.mem_cons_self)),
      ih fun d member => absent d (List.mem_cons_of_mem _ member)]

theorem splitBy_ne_nil (separator : Char → Bool) (s : Str) : splitBy separator s ≠ [] := by
  cases s with
  | nil => exact List.cons_ne_nil _ _
  | cons c s =>
    rw [splitBy]
    split
    next => exact List.cons_ne_nil _ _
    next => split <;> exact List.cons_ne_nil _ _

/-- A separator ends the pieces before it. -/
theorem splitBy_append {separator : Char → Bool} {c : Char} (cut : separator c = true) (before after : Str) :
    splitBy separator (before ++ c :: after) = splitBy separator before ++ splitBy separator after := by
  induction before with
  | nil => exact if_pos cut
  | cons d before ih =>
    rw [List.cons_append,splitBy,splitBy,ih]
    split
    next => rfl
    next =>
      cases pieces : splitBy separator before with
      | nil => exact absurd pieces (splitBy_ne_nil separator before)
      | cons first rest => rfl

theorem split_append (separator : Char) (before after : Str) :
    split separator (before ++ separator :: after) = split separator before ++ split separator after :=
  @splitBy_append (· == separator) separator (beq_self_eq_true separator) before after

theorem not_mem_of_mem_splitBy {separator : Char → Bool} {s piece : Str} (split : piece ∈ splitBy separator s) :
    ∀ c ∈ piece, separator c = false := by
  induction s generalizing piece with
  | nil =>
    rw [List.mem_singleton.mp split]
    exact fun _ member => absurd member List.not_mem_nil
  | cons d s ih =>
    rw [splitBy] at split
    split at split
    next =>
      rcases List.mem_cons.mp split with rfl | later
      · exact fun _ member => absurd member List.not_mem_nil
      · exact ih later
    next kept =>
      have head : separator d = false := Bool.eq_false_iff.mpr kept
      split at split
      next =>
        rw [List.mem_singleton.mp split]
        intro c member
        rw [List.mem_singleton.mp member]
        exact head
      next first rest pieces =>
        rw [pieces] at ih
        rcases List.mem_cons.mp split with rfl | later
        · intro c member
          rcases List.mem_cons.mp member with rfl | inside
          · exact head
          · exact ih List.mem_cons_self c inside
        · exact ih (List.mem_cons_of_mem _ later)

theorem splitWhitespace_word {s : Str} (word : IsWord s) : splitWhitespace s = [s] := by
  rw [splitWhitespace,splitBy_absent word.2]
  exact List.filter_cons_of_pos (decide_eq_true word.1)

theorem isWord_of_splitWhitespace {s word : Str} (split : word ∈ splitWhitespace s) : IsWord word := by
  obtain ⟨piece,nonempty⟩ := List.mem_filter.mp split
  exact ⟨of_decide_eq_true nonempty,not_mem_of_mem_splitBy piece⟩

theorem splitOnce_append {separator : Char} {before : Str} (absent : separator ∉ before) (after : Str) :
    splitOnce separator (before ++ separator :: after) = some (before,after) := by
  induction before with
  | nil => exact if_pos rfl
  | cons c before ih =>
    rw [List.cons_append,splitOnce,if_neg (List.ne_of_not_mem_cons absent).symm,
      ih (List.not_mem_of_not_mem_cons absent)]
    rfl

theorem splitOnce_absent {separator : Char} {s : Str} (absent : separator ∉ s) : splitOnce separator s = none := by
  cases split : splitOnce separator s with
  | none => rfl
  | some pair =>
    obtain ⟨before,after⟩ := pair
    apply absurd _ absent
    rw [splitOnce_some split]
    exact List.mem_append_right _ List.mem_cons_self

theorem trimEnd_cons (c : Char) (s : Str) :
    trimEnd (c::s) = if trimEnd s = [] ∧ isWhitespace c then [] else c :: trimEnd s := by
  unfold trimEnd
  rw [List.reverse_cons,List.dropWhile_append]
  by_cases blank : s.reverse.dropWhile isWhitespace = []
  · rw [if_pos (List.isEmpty_iff.mpr blank),blank]
    cases space : isWhitespace c with
    | true => rw [List.dropWhile_cons_of_pos space]; rfl
    | false => rw [List.dropWhile_cons_of_neg (Bool.eq_false_iff.mp space)]; rfl
  · rw [if_neg (mt List.isEmpty_iff.mp blank),if_neg fun both => blank (List.reverse_eq_nil_iff.mp both.1),
      List.reverse_append]
    rfl

theorem trimEnd_append {before : Str} (visible : ∀ c ∈ before, isWhitespace c = false) (after : Str) :
    trimEnd (before ++ after) = before ++ trimEnd after := by
  induction before with
  | nil => rfl
  | cons c before ih =>
    have shown := Bool.eq_false_iff.mp (visible c List.mem_cons_self)
    rw [List.cons_append,trimEnd_cons,if_neg fun both => shown both.2,
      ih fun d member => visible d (List.mem_cons_of_mem _ member)]
    rfl

theorem trimEnd_trimEnd (s : Str) : trimEnd (trimEnd s) = trimEnd s := by
  induction s with
  | nil => rfl
  | cons c s ih =>
    rw [trimEnd_cons]
    split
    next => rfl
    next kept => rw [trimEnd_cons,ih,if_neg kept]

theorem trimEnd_word {s : Str} (word : IsWord s) : trimEnd s = s := by
  have whole := trimEnd_append word.2 []
  rw [List.append_nil] at whole
  exact whole.trans (List.append_nil s)

theorem trim_append {word : Str} (isWord : IsWord word) (after : Str) :
    trim (word ++ after) = word ++ trimEnd after := by
  obtain ⟨nonempty,visible⟩ := isWord
  cases word with
  | nil => exact absurd rfl nonempty
  | cons c word =>
    rw [trim,trimStart,List.cons_append,
      List.dropWhile_cons_of_neg (Bool.eq_false_iff.mp (visible c List.mem_cons_self)),← List.cons_append,
      trimEnd_append visible]

/-- A command word and its arguments, as both front ends take them out of a part. -/
theorem trim_command {cmd : Str} (word : IsWord cmd) (args : Str) :
    trim (trim (cmd ++ ' ' :: args)) = trim (cmd ++ ' ' :: args) ∧ trim (cmd ++ ' ' :: args) ≠ [] ∧
      (splitOnce ' ' (trim (cmd ++ ' ' :: args))).getD (trim (cmd ++ ' ' :: args),[]) = (cmd,trimEnd args) := by
  have absent : ' ' ∉ cmd := by
    intro member
    cases word.2 ' ' member
  rw [trim_append word]
  refine ⟨?_,fun empty => word.1 (List.append_eq_nil_iff.mp empty).1,?_⟩
  · rw [trim_append word,trimEnd_trimEnd]
  · rw [trimEnd_cons]
    split
    next blank =>
      rw [List.append_nil,splitOnce_absent absent,blank.1]
      rfl
    next => rw [splitOnce_append absent]; rfl

/-! Trimmed texts. -/

theorem trim_space (s : Str) : trim (' ' :: s) = trim s := rfl

theorem trim_append_space (s : Str) : trim (s ++ [' ']) = trim s := by
  have ends (s : Str) : trimEnd (s ++ [' ']) = trimEnd s := by
    rw [trimEnd,List.reverse_append]
    rfl
  rw [trim,trim,trimStart,trimStart,List.dropWhile_append]
  split
  next blank =>
    rw [List.isEmpty_iff.mp blank]
    rfl
  next => exact ends _

theorem trim_fixed {s : Str} (trimmed : trim s = s) : trimStart s = s ∧ trimEnd s = s := by
  have shorter : (trimEnd (trimStart s)).length ≤ (trimStart s).length := by
    rw [trimEnd,List.length_reverse]
    exact Nat.le_trans (List.dropWhile_suffix _).length_le (Nat.le_of_eq List.length_reverse)
  have start : trimStart s = s := by
    refine (List.dropWhile_suffix _).eq_of_length_le ?_
    rw [trim] at trimmed
    rw [trimmed] at shorter
    exact shorter
  rw [trim,start] at trimmed
  exact ⟨start,trimmed⟩

theorem dropWhile_append_fixed {s : Str} {p : Char → Bool} (fixed : s.dropWhile p = s) (nonempty : s ≠ []) (after : Str) :
    (s ++ after).dropWhile p = s ++ after := by
  rw [List.dropWhile_append,fixed,if_neg (mt List.isEmpty_iff.mp nonempty)]

/-- Trimmed texts with anything between them. -/
theorem trim_joined {first last : Str} (firstTrimmed : trim first = first) (lastTrimmed : trim last = last)
    (firstNonempty : first ≠ []) (lastNonempty : last ≠ []) (between : Str) :
    trim (first ++ between ++ last) = first ++ between ++ last := by
  have ends : last.reverse.dropWhile isWhitespace = last.reverse :=
    List.reverse_eq_iff.mp (trim_fixed lastTrimmed).2
  rw [trim,trimStart,List.append_assoc,dropWhile_append_fixed (trim_fixed firstTrimmed).1 firstNonempty,trimEnd,
    ← List.append_assoc,List.reverse_append,dropWhile_append_fixed ends (mt List.reverse_eq_nil_iff.mp lastNonempty),
    ← List.reverse_append,List.reverse_reverse]

def containsStr (pattern : Str) : Str → Bool
  | [] => pattern.isEmpty
  | c::s => pattern.isPrefixOf (c::s) || containsStr pattern s

/-- The pieces up to and with each newline. -/
def splitInclusive : Str → List Str
  | [] => []
  | c::s =>
    if c = '\n' then [c] :: splitInclusive s
    else match splitInclusive s with
      | [] => [[c]]
      | piece::rest => (c::piece)::rest

def stripLineEnd (line : Str) : Str :=
  if line.getLast? = some '\n' then
    let line := line.dropLast
    if line.getLast? = some '\r' then line.dropLast else line
  else line

def lines (s : Str) : List Str := (splitInclusive s).map stripLineEnd

/-- `parse` of an unsigned integer below `bound`. -/
def parseUnsigned (bound : Nat) (s : Str) : Option Nat :=
  let digits := match s with
    | '+'::rest => rest
    | _ => s
  if digits.isEmpty || !digits.all (fun c => '0' ≤ c && c ≤ '9') then none
  else
    let number := digits.foldl (fun number c => number * 10 + (c.toNat - '0'.toNat)) 0
    if number < bound then some number else none

def trimTrailingNewline (s : Str) : Str :=
  if s.getLast? = some '\n' then s.dropLast else s

/-- `core::str::from_utf8(data).unwrap_or(default)`. -/
def ofBytesOr (data : List UInt8) (default : Str) : Str := (Utf8.decode data).getD default

end Str

def number (n : Nat) : Str := Nat.toDigits 10 n

def padLeft (width : Nat) (fill : Char) (s : Str) : Str := List.replicate (width - s.length) fill ++ s

def padRight (width : Nat) (s : Str) : Str := s ++ List.replicate (width - s.length) ' '

def hex (width n : Nat) : Str := padLeft width '0' (Nat.toDigits 16 n)

/-- The `write_str` of the buffers for a time drops the bytes that do not fit. -/
def written (limit : Nat) (bytes : List UInt8) : List UInt8 :=
  bytes.foldl (fun buf byte => if buf.length < limit then buf ++ [byte] else buf) []

theorem written_eq (limit : Nat) (bytes : List UInt8) : written limit bytes = bytes.take limit := by
  have grown : ∀ start : List UInt8,
      bytes.foldl (fun buf byte => if buf.length < limit then buf ++ [byte] else buf) start =
        start ++ bytes.take (limit - start.length) := by
    induction bytes with
    | nil => simp
    | cons byte bytes ih =>
      intro start
      rw [List.foldl_cons,ih]
      by_cases room : start.length < limit
      · have next : limit - start.length = limit - (start ++ [byte]).length + 1 := by
          rw [List.length_append,List.length_singleton]
          omega
        rw [if_pos room,next,List.take_succ_cons,List.append_assoc,List.singleton_append]
      · rw [if_neg room,Nat.sub_eq_zero_of_le (Nat.not_lt.mp room),List.take_zero,List.take_zero]
  exact grown []

end PolarOs
