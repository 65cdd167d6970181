import PolarOs.Shell.Session
import PolarOs.Library.Utf8Order
import Mathlib.Data.List.Destutter

/-! The line filters in a pipe. A filter splits its input into lines and joins the lines it
keeps with newlines between them; the next filter gets them back unless the join loses one. -/
namespace PolarOs
open Library Library.Checked

variable {δ μ : Type} {line rest text : Str} {kept : List Str}

/-! Lines that are joined and split again. -/

namespace Str

theorem splitInclusive_line (absent : '\n' ∉ line) (rest : Str) :
    splitInclusive (line ++ '\n' :: rest) = (line ++ ['\n']) :: splitInclusive rest := by
  induction line with
  | nil => exact if_pos rfl
  | cons c line ih =>
    rw [List.cons_append,splitInclusive,if_neg (List.ne_of_not_mem_cons absent).symm,
      ih (List.not_mem_of_not_mem_cons absent)]
    rfl

theorem splitInclusive_last (absent : '\n' ∉ line) :
    splitInclusive line = if line = [] then [] else [line] := by
  induction line with
  | nil => rfl
  | cons c line ih =>
    rw [splitInclusive,if_neg (List.ne_of_not_mem_cons absent).symm,ih (List.not_mem_of_not_mem_cons absent),
      if_neg (List.cons_ne_nil c line)]
    split
    next all =>
      split at all
      next empty => rw [empty]
      next => cases all
    next piece pieces all =>
      split at all
      next => cases all
      next =>
        cases all
        rfl

theorem stripLineEnd_line (line : Str) :
    stripLineEnd (line ++ ['\n']) = if line.getLast? = some '\r' then line.dropLast else line := by
  rw [stripLineEnd,List.getLast?_concat,if_pos rfl,List.dropLast_concat]

theorem stripLineEnd_last (absent : '\n' ∉ line) : stripLineEnd line = line :=
  if_neg fun last => absent (List.mem_of_getLast? last)

theorem lines_line (absent : '\n' ∉ line) (rest : Str) :
    lines (line ++ '\n' :: rest) = (if line.getLast? = some '\r' then line.dropLast else line) :: lines rest := by
  rw [lines,splitInclusive_line absent,List.map_cons,stripLineEnd_line]
  rfl

theorem lines_last (absent : '\n' ∉ line) : lines line = if line = [] then [] else [line] := by
  rw [lines,splitInclusive_last absent]
  split
  next => rfl
  next => rw [List.map_singleton,stripLineEnd_last absent]

theorem mem_splitInclusive {piece : Str} (member : piece ∈ splitInclusive text) :
    ∃ body, '\n' ∉ body ∧ (piece = body ++ ['\n'] ∨ piece = body) := by
  induction text generalizing piece with
  | nil => cases member
  | cons c text ih =>
    rw [splitInclusive] at member
    split at member
    next newline =>
      rcases List.mem_cons.mp member with rfl | later
      · exact ⟨[],List.not_mem_nil,.inl (by rw [newline]; rfl)⟩
      · exact ih later
    next other =>
      have longer {body : Str} (absent : '\n' ∉ body) : '\n' ∉ c :: body :=
        List.not_mem_cons_of_ne_of_not_mem (Ne.symm other) absent
      split at member
      next =>
        rw [List.mem_singleton.mp member]
        exact ⟨[c],longer List.not_mem_nil,.inr rfl⟩
      next first pieces split =>
        rw [split] at ih
        rcases List.mem_cons.mp member with rfl | later
        · obtain ⟨body,absent,rfl | rfl⟩ := ih List.mem_cons_self
          · exact ⟨c :: body,longer absent,.inl rfl⟩
          · exact ⟨c :: first,longer absent,.inr rfl⟩
        · exact ih (List.mem_cons_of_mem _ later)

theorem newline_not_mem_lines (text : Str) : ∀ line ∈ lines text, '\n' ∉ line := by
  intro line member
  obtain ⟨piece,split,rfl⟩ := List.mem_map.mp member
  obtain ⟨body,absent,rfl | rfl⟩ := mem_splitInclusive split
  · rw [stripLineEnd_line]
    split
    next => exact fun inside => absent (List.dropLast_subset _ inside)
    next => exact absent
  · rw [stripLineEnd_last absent]
    exact absent

end Str

theorem joinLines_concat (kept : List Str) (line : Str) :
    joinLines (kept ++ [line]) = kept.flatMap (fun line => line ++ ['\n']) ++ line := by
  rw [joinLines,List.flatMap_append,List.flatMap_singleton,← List.append_assoc,Str.trimTrailingNewline,
    List.getLast?_concat,if_pos rfl,List.dropLast_concat]

/-- The last line is not empty, and no other ends with a carriage return. -/
def Resplits (kept : List Str) : Prop :=
  kept.getLast? ≠ some [] ∧ ∀ line ∈ kept.dropLast, line.getLast? ≠ some '\r'

theorem lines_flatMap (absent : ∀ line ∈ kept, '\n' ∉ line) (rest : Str) :
    Str.lines (kept.flatMap (fun line => line ++ ['\n']) ++ rest) =
      kept.map (fun line => if line.getLast? = some '\r' then line.dropLast else line) ++ Str.lines rest := by
  induction kept with
  | nil => rfl
  | cons line kept ih =>
    rw [List.flatMap_cons,List.append_assoc,List.append_assoc,List.singleton_append,
      Str.lines_line (absent line List.mem_cons_self),ih fun other later => absent other (List.mem_cons_of_mem _ later)]
    rfl

theorem lineBody_eq_iff : (if line.getLast? = some '\r' then line.dropLast else line) = line ↔
    line.getLast? ≠ some '\r' := by
  split
  next ends =>
    refine iff_of_false ?_ (fun other => other ends)
    intro same
    have nonempty : line ≠ [] := by
      rintro rfl
      cases ends
    have shorter := congrArg List.length same
    rw [List.length_dropLast] at shorter
    have := List.length_pos_iff.mpr nonempty
    omega
  next other => exact iff_of_true rfl other

theorem lines_joinLines_concat {last : Str} (absent : ∀ line ∈ kept ++ [last], '\n' ∉ line) :
    Str.lines (joinLines (kept ++ [last])) =
      kept.map (fun line => if line.getLast? = some '\r' then line.dropLast else line) ++
        if last = [] then [] else [last] := by
  rw [joinLines_concat,lines_flatMap fun line member => absent line (List.mem_append_left _ member),
    Str.lines_last (absent last (List.mem_append_right _ (List.mem_singleton_self _)))]

theorem lines_joinLines_iff (absent : ∀ line ∈ kept, '\n' ∉ line) : Str.lines (joinLines kept) = kept ↔ Resplits kept := by
  rcases List.eq_nil_or_concat kept with rfl | ⟨init,last,rfl⟩
  · exact iff_of_true rfl ⟨(fun same => by cases same),fun _ member => absurd member List.not_mem_nil⟩
  · rw [List.concat_eq_append] at absent ⊢
    rw [lines_joinLines_concat absent,Resplits,List.getLast?_concat,List.dropLast_concat]
    by_cases empty : last = []
    · subst empty
      refine iff_of_false ?_ (fun both => both.1 rfl)
      intro same
      have sizes := congrArg List.length same
      rw [if_pos rfl,List.append_nil,List.length_map,List.length_append,List.length_singleton] at sizes
      omega
    · rw [if_neg empty,List.append_left_inj,and_iff_right (fun same => empty (Option.some.inj same))]
      refine (Eq.congr_right (List.map_id init).symm).trans (List.map_inj_left.trans ?_)
      exact forall_congr' fun line => forall_congr' fun _ => lineBody_eq_iff

theorem length_lines_joinLines_le (absent : ∀ line ∈ kept, '\n' ∉ line) :
    (Str.lines (joinLines kept)).length ≤ kept.length := by
  rcases List.eq_nil_or_concat kept with rfl | ⟨init,last,rfl⟩
  · exact Nat.le_refl _
  · rw [List.concat_eq_append] at absent ⊢
    rw [lines_joinLines_concat absent,List.length_append,List.length_append,List.length_map]
    split
    next => exact Nat.add_le_add_left (Nat.zero_le _) _
    next => exact Nat.le_refl _

/-! The number of lines as an argument. -/

namespace Str

theorem number_digit {n : Nat} {c : Char} (member : c ∈ number n) : 48 ≤ c.toNat ∧ c.toNat ≤ 57 := by
  have digit : c.isDigit := Nat.isDigit_of_mem_toDigits (by decide) (by decide) member
  rw [Char.isDigit,Bool.and_eq_true] at digit
  exact ⟨of_decide_eq_true digit.1,of_decide_eq_true digit.2⟩

theorem number_isWord (n : Nat) : IsWord (number n) := by
  refine ⟨Nat.toDigits_ne_nil,?_⟩
  intro c member
  have digit := number_digit member
  simp only [isWhitespace,Bool.or_eq_false_iff,Bool.and_eq_false_iff,decide_eq_false_iff_not,beq_eq_false_iff_ne]
  omega

theorem number_unsigned {n : Nat} {rest : Str} (signed : number n = '+' :: rest) : False := by
  have plus : '+' ∈ number n := signed ▸ List.mem_cons_self
  exact absurd (number_digit plus).1 (by decide)

theorem parseUnsigned_number (n : Nat) : parseUnsigned (2^64) (number n) = if n < 2^64 then some n else none := by
  have digits : (number n).all (fun c => '0' ≤ c && c ≤ '9') = true := by
    rw [List.all_eq_true]
    intro c member
    have digit := number_digit member
    rw [Bool.and_eq_true]
    exact ⟨decide_eq_true digit.1,decide_eq_true digit.2⟩
  have value : (number n).foldl (fun number c => number * 10 + (c.toNat - '0'.toNat)) 0 = n := by
    have read := @Nat.ofDigitChars_ten_toDigits n
    rw [Nat.ofDigitChars_eq_foldl] at read
    have step : (fun (number : Nat) (c : Char) => number * 10 + (c.toNat - '0'.toNat)) =
        fun number c => 10 * number + (c.toNat - '0'.toNat) := by
      funext number c
      rw [Nat.mul_comm]
    rw [step]
    exact read
  have nonempty : (number n).isEmpty = false := List.isEmpty_eq_false_iff.mpr Nat.toDigits_ne_nil
  rw [parseUnsigned]
  · dsimp only
    rw [nonempty,digits,value]
    rfl
  · exact fun rest signed => number_unsigned signed

end Str

/-- The number that `head` and `tail` work with: one that is too large is not read. -/
def limit (n : Nat) : Nat := if n < 2^64 then n else 10

theorem parseNArgs_number (n : Nat) : parseNArgs (lit "-n " ++ number n) 10 = (limit n,none) := by
  have words : Str.splitWhitespace (lit "-n" ++ ' ' :: number n) = [lit "-n",number n] := by
    rw [Str.splitWhitespace,Str.splitBy_append (by decide),List.filter_append]
    exact congrArg₂ _ (Str.splitWhitespace_word (by decide)) (Str.splitWhitespace_word (Str.number_isWord n))
  change parseNLoop 10 (Str.splitWhitespace (lit "-n" ++ ' ' :: number n)) 10 none = _
  rw [words,parseNLoop,if_pos rfl,Str.parseUnsigned_number,limit]
  split <;> rfl

/-! The filters. -/

section
variable {p : Platform δ μ} {cwd : List Str} {world : World δ μ} {fs : RamFs}

/-- In the pipe, split into lines again, the output of the command is the expected list. -/
def Filters (p : Platform δ μ) (cwd : List Str) (world : World δ μ) (text part : Str) (expected : List Str) : Prop :=
  ∃ output, runPart p part (some text) cwd world = .ok (some output,cwd,world) ∧ Str.lines output = expected

def inByteOrder (lines : List Str) : List Str := lines.mergeSort fun a b => decide (Utf8.encode a ≤ Utf8.encode b)

theorem runPart_of_handler {part cmd args output : Str} {handler : Handler} {pipeData : Option Str}
    (nonempty : Str.trim part ≠ []) (split : (Str.splitOnce ' ' (Str.trim part)).getD (Str.trim part,[]) = (cmd,args))
    (found : lookupHandler cmd = some handler) (ordinary : cmd ∉ [lit "clear",lit "cd",lit "load"])
    (ran : handler.run p args cwd pipeData world = .ok (output,world)) :
    runPart p part pipeData cwd world = .ok (some output,cwd,world) := by
  rw [List.mem_cons,List.mem_cons,List.mem_singleton,not_or,not_or] at ordinary
  rw [runPart]
  dsimp only
  rw [if_neg (mt List.isEmpty_iff.mp nonempty),split]
  dsimp only
  rw [runCommand,if_neg ordinary.1,if_neg ordinary.2.1,if_neg ordinary.2.2,found]
  dsimp only
  rw [ran]
  rfl

theorem cmdHead_number (n : Nat) :
    cmdHead fs (lit "-n " ++ number n) cwd (some text) = joinLines ((Str.lines text).take (limit n)) := by
  rw [cmdHead,parseNArgs_number]
  rfl

theorem cmdTail_number (n : Nat) :
    cmdTail fs (lit "-n " ++ number n) cwd (some text) =
      joinLines ((Str.lines text).drop ((Str.lines text).length - limit n)) := by
  rw [cmdTail,parseNArgs_number]
  change joinLines ((Str.lines text).drop (if (Str.lines text).length > limit n then _ else 0)) = _
  split
  next => rfl
  next few => rw [Nat.sub_eq_zero_of_le (Nat.not_lt.mp few)]

theorem cmdSort_lines : cmdSort fs [] cwd (some text) = joinLines (inByteOrder (Str.lines text)) := by
  have order : (fun a b : Str => decide (a ≤ b)) = fun a b => decide (Utf8.encode a ≤ Utf8.encode b) := by
    funext a b
    rw [decide_eq_decide,← List.not_lt,Utf8.encode_lt_iff]
    exact not_lt.symm
  change joinLines ((Str.lines text).mergeSort _) = _
  rw [order,inByteOrder]

theorem uniqLines_some (prev : Str) (lines : List Str) :
    prev :: uniqLines (some prev) lines = lines.destutter' (· ≠ ·) prev := by
  induction lines generalizing prev with
  | nil => rfl
  | cons line lines ih =>
    rw [uniqLines,List.destutter'_cons]
    by_cases same : prev = line
    · rw [if_neg (fun other => other (congrArg some same)),if_neg (fun other => other same),ih prev]
    · rw [if_pos (fun equal => same (Option.some.inj equal)),if_pos same,ih line]

theorem uniqLines_eq_destutter (lines : List Str) : uniqLines none lines = lines.destutter (· ≠ ·) := by
  cases lines with
  | nil => rfl
  | cons line lines =>
    rw [uniqLines,if_pos (fun same => by cases same),uniqLines_some,List.destutter_cons']

theorem trim_numbered {cmd : Str} (word : Str.IsWord cmd) (n : Nat) :
    Str.trim (cmd ++ lit " -n " ++ number n) ≠ [] ∧
      (Str.splitOnce ' ' (Str.trim (cmd ++ lit " -n " ++ number n))).getD (Str.trim (cmd ++ lit " -n " ++ number n),[]) =
        (cmd,lit "-n " ++ number n) := by
  have ends : Str.trimEnd (lit "-n " ++ number n) = lit "-n " ++ number n := by
    have words := Str.number_isWord n
    refine (Str.trim_fixed (@Str.trim_joined (lit "-n") (number n) (by decide) ?_ (by decide) words.1 (lit " "))).2
    have whole := Str.trim_append words []
    rw [List.append_nil] at whole
    exact whole.trans (List.append_nil _)
  have shown : cmd ++ lit " -n " ++ number n = cmd ++ ' ' :: (lit "-n " ++ number n) := List.append_assoc ..
  have command := Str.trim_command word (lit "-n " ++ number n)
  rw [ends] at command
  rw [shown]
  exact command.2

/-- A list of at most so many lines, which `choose` picks from all of them. -/
theorem lines_limited_iff {lines : List Str} {choose : Nat → List Str} (size : ∀ n, (choose n).length = min n lines.length)
    (whole : ∀ n, lines.length ≤ n → choose n = lines) (absent : ∀ n, ∀ line ∈ choose n, '\n' ∉ line) (n : Nat) :
    Str.lines (joinLines (choose (limit n))) = choose n ↔ (n < 2^64 ∨ lines.length ≤ 10) ∧ Resplits (choose n) := by
  rw [limit]
  split
  next small => rw [lines_joinLines_iff (absent n),and_iff_right (.inl small)]
  next large =>
    by_cases few : lines.length ≤ 10
    · rw [and_iff_right (.inr few),whole 10 few,← whole n (by omega)]
      exact lines_joinLines_iff (absent n)
    · refine iff_of_false ?_ (fun both => both.1.elim large few)
      intro same
      have shorter := length_lines_joinLines_le (absent 10)
      rw [same,size,size] at shorter
      omega

theorem filters_of_run {part output : Str} {expected : List Str}
    (ran : runPart p part (some text) cwd world = .ok (some output,cwd,world)) :
    Filters p cwd world text part expected ↔ Str.lines output = expected := by
  constructor
  · rintro ⟨other,same,given⟩
    cases ran.symm.trans same
    exact given
  · exact fun given => ⟨output,ran,given⟩

/-- Which lists of lines a filter passes on in a pipe. -/
theorem filters_iff (p : Platform δ μ) (cwd : List Str) (world : World δ μ) (text : Str) (n : Nat) :
    (Filters p cwd world text (lit "head -n " ++ number n) ((Str.lines text).take n) ↔
      (n < 2^64 ∨ (Str.lines text).length ≤ 10) ∧ Resplits ((Str.lines text).take n)) ∧
    (Filters p cwd world text (lit "tail -n " ++ number n) ((Str.lines text).drop ((Str.lines text).length - n)) ↔
      (n < 2^64 ∨ (Str.lines text).length ≤ 10) ∧ Resplits ((Str.lines text).drop ((Str.lines text).length - n))) ∧
    (Filters p cwd world text (lit "sort") (inByteOrder (Str.lines text)) ↔ Resplits (inByteOrder (Str.lines text))) ∧
    (Filters p cwd world text (lit "uniq") ((Str.lines text).destutter (· ≠ ·)) ↔
      Resplits ((Str.lines text).destutter (· ≠ ·))) := by
  have absent := Str.newline_not_mem_lines text
  refine ⟨?head,?tail,?sort,?uniq⟩
  case head =>
    obtain ⟨nonempty,split⟩ := trim_numbered (by decide : Str.IsWord (lit "head")) n
    have ran : Handler.head.run p (lit "-n " ++ number n) cwd (some text) world = .ok (_,world) :=
      congrArg (fun output => Except.ok (output,world)) (cmdHead_number n)
    refine (filters_of_run (runPart_of_handler nonempty split (by decide) (by decide) ran)).trans ?_
    refine lines_limited_iff (fun n => List.length_take) (fun n few => List.take_of_length_le few) ?_ n
    exact fun n line member => absent line (List.mem_of_mem_take member)
  case tail =>
    obtain ⟨nonempty,split⟩ := trim_numbered (by decide : Str.IsWord (lit "tail")) n
    have ran : Handler.tail.run p (lit "-n " ++ number n) cwd (some text) world = .ok (_,world) :=
      congrArg (fun output => Except.ok (output,world)) (cmdTail_number n)
    refine (filters_of_run (runPart_of_handler nonempty split (by decide) (by decide) ran)).trans ?_
    refine @lines_limited_iff (Str.lines text) (fun n => (Str.lines text).drop ((Str.lines text).length - n)) ?_ ?_ ?_ n
    · intro n
      rw [List.length_drop]
      omega
    · intro n few
      rw [Nat.sub_eq_zero_of_le few,List.drop_zero]
    · exact fun n line member => absent line (List.mem_of_mem_drop member)
  case sort =>
    have split : (Str.splitOnce ' ' (Str.trim (lit "sort"))).getD (Str.trim (lit "sort"),[]) = (lit "sort",[]) := by decide
    have ran : Handler.sort.run p [] cwd (some text) world = .ok (_,world) :=
      congrArg (fun output => Except.ok (output,world)) cmdSort_lines
    refine (filters_of_run (runPart_of_handler (by decide) split (by decide) (by decide) ran)).trans ?_
    exact lines_joinLines_iff fun line member => absent line ((List.mergeSort_perm ..).mem_iff.mp member)
  case uniq =>
    have split : (Str.splitOnce ' ' (Str.trim (lit "uniq"))).getD (Str.trim (lit "uniq"),[]) = (lit "uniq",[]) := by decide
    have ran : Handler.uniq.run p [] cwd (some text) world = .ok (_,world) :=
      congrArg (fun lines => Except.ok (joinLines lines,world)) (uniqLines_eq_destutter (Str.lines text))
    refine (filters_of_run (runPart_of_handler (by decide) split (by decide) (by decide) ran)).trans ?_
    exact lines_joinLines_iff fun line member => absent line ((List.destutter_sublist ..).subset member)

end

/-- The second line is empty, and only the newline before it is left. -/
theorem empty_line_lost :
    runPart bareMachine (lit "head -n " ++ number 2) (some (lit "a\n\nb")) [] (bareWorld RamFs.new) =
        .ok (some (lit "a\n"),[],bareWorld RamFs.new) ∧
      (Str.lines (lit "a\n\nb")).take 2 = [lit "a",[]] ∧ Str.lines (lit "a\n") = [lit "a"] ∧
      ¬Filters bareMachine [] (bareWorld RamFs.new) (lit "a\n\nb") (lit "head -n " ++ number 2)
        ((Str.lines (lit "a\n\nb")).take 2) := by
  have ran : runPart bareMachine (lit "head -n " ++ number 2) (some (lit "a\n\nb")) [] (bareWorld RamFs.new) =
      .ok (some (lit "a\n"),[],bareWorld RamFs.new) := by
    obtain ⟨nonempty,split⟩ := trim_numbered (by decide : Str.IsWord (lit "head")) 2
    have joined : joinLines ((Str.lines (lit "a\n\nb")).take (limit 2)) = lit "a\n" := by decide
    have output := @cmdHead_number (lit "a\n\nb") [] RamFs.new 2
    rw [joined] at output
    have head : Handler.head.run bareMachine (lit "-n " ++ number 2) [] (some (lit "a\n\nb")) (bareWorld RamFs.new) =
        .ok (lit "a\n",bareWorld RamFs.new) :=
      congrArg (fun output => Except.ok (output,bareWorld RamFs.new)) output
    exact runPart_of_handler nonempty split (by decide) (by decide) head
  refine ⟨ran,by decide,by decide,?_⟩
  rw [filters_of_run ran]
  decide

end PolarOs
