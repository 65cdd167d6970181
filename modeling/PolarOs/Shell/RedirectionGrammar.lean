import PolarOs.Shell.Line
import Mathlib.Data.List.Count

/-! The redirections of a line as they are written, and which of them `parse_redirections` reads
back. It looks for an output operator first and takes all that follows as the name. -/
namespace PolarOs
open Library

variable {c i o before name : Str}

/-- The operators of a line, in their order. -/
inductive Shape where
  | input
  | write
  | append
  | inputWrite
  | inputAppend
  | writeInput
  | appendInput
deriving DecidableEq

def Shape.line (shape : Shape) (c i o : Str) : Str :=
  match shape with
  | .input => c ++ lit " < " ++ i
  | .write => c ++ lit " > " ++ o
  | .append => c ++ lit " >> " ++ o
  | .inputWrite => c ++ lit " < " ++ i ++ lit " > " ++ o
  | .inputAppend => c ++ lit " < " ++ i ++ lit " >> " ++ o
  | .writeInput => c ++ lit " > " ++ o ++ lit " < " ++ i
  | .appendInput => c ++ lit " >> " ++ o ++ lit " < " ++ i

def Shape.redirect (shape : Shape) (i o : Str) : Redirect :=
  match shape with
  | .input => ⟨some i,.print⟩
  | .write => ⟨none,.write o⟩
  | .append => ⟨none,.append o⟩
  | .inputWrite | .writeInput => ⟨some i,.write o⟩
  | .inputAppend | .appendInput => ⟨some i,.append o⟩

/-- The line is read as it is written, up to spaces around the pipeline. -/
def Parses (shape : Shape) (c i o : Str) : Prop :=
  ∃ text, parseRedirections (shape.line c i o) = (text,shape.redirect i o) ∧ Str.trim text = Str.trim c

/-- A text that is taken for the name of a file to write to. -/
structure OutputName (name : Str) : Prop where
  nonempty : name ≠ []
  trimmed : Str.trim name = name
  noOutput : '>' ∉ name
  noPipe : '|' ∉ name

structure FileName (name : Str) : Prop extends OutputName name where
  noInput : '<' ∉ name

namespace Str
variable {pattern s : Str}

theorem rfind_absent {d : Char} (inside : d ∈ pattern) (absent : d ∉ s) : rfind pattern s = none := by
  cases found : rfind pattern s with
  | none => rfl
  | some pos => exact absurd (List.mem_of_mem_drop ((rfind_some found).subset inside)) absent

/-- A pattern of two equal characters does not occur where the character stands once. -/
theorem rfind_twice {d : Char} (once : s.count d ≤ 1) : rfind [d,d] s = none := by
  cases found : rfind [d,d] s with
  | none => rfl
  | some pos =>
    have twice := ((rfind_some found).sublist.trans (List.drop_sublist pos s)).count_le d
    rw [List.count_cons_self,List.count_cons_self,List.count_nil] at twice
    omega

theorem rfind_here {d : Char} (occurs : pattern <+: d :: s) (later : rfind pattern s = none) :
    rfind pattern (d :: s) = some 0 := by
  rw [rfind,later]
  exact if_pos (List.isPrefixOf_iff_prefix.mpr occurs)

theorem rfind_append {pos : Nat} (found : rfind pattern s = some pos) (before : Str) :
    rfind pattern (before ++ s) = some (before.length + pos) := by
  induction before with
  | nil => rw [List.nil_append,found,List.length_nil,Nat.zero_add]
  | cons d before ih =>
    rw [List.cons_append,rfind,ih,List.length_cons]
    exact congrArg some (by omega)

theorem rfind_last {d : Char} (absent : d ∉ s) (before : Str) :
    rfind [d] (before ++ ([d] ++ s)) = some before.length :=
  rfind_append (rfind_here ⟨s,rfl⟩ (rfind_absent List.mem_cons_self absent)) before

end Str

theorem OutputName.not_refused (file : OutputName name) : ¬(name.isEmpty || name.contains '|') = true := by
  rw [Bool.or_eq_true,List.isEmpty_iff,List.contains_iff_mem,not_or]
  exact ⟨file.nonempty,file.noPipe⟩

/-- What follows an operator and a space. -/
theorem trim_behind (file : OutputName name) (operator before : Str) :
    Str.trim ((before ++ (operator ++ ' ' :: name)).drop (before.length + operator.length)) = name := by
  rw [← List.drop_drop,List.drop_left,List.drop_left,Str.trim_space,file.trimmed]

theorem parseRedirections_append (file : OutputName name) :
    parseRedirections (before ++ lit ">> " ++ name) = inputBefore before (.append name) := by
  have shown : before ++ lit ">> " ++ name = before ++ (lit ">>" ++ ' ' :: name) := List.append_assoc ..
  have once : Str.rfind (lit ">>") ('>' :: ' ' :: name) = none := by
    refine @Str.rfind_twice _ '>' ?_
    rw [List.count_cons_self,List.count_cons_of_ne (by decide),List.count_eq_zero.mpr file.noOutput]
  have found : Str.rfind (lit ">>") (before ++ (lit ">>" ++ ' ' :: name)) = some before.length :=
    Str.rfind_append (Str.rfind_here ⟨' ' :: name,rfl⟩ once) before
  have named : Str.trim ((before ++ (lit ">>" ++ ' ' :: name)).drop (before.length + 2)) = name :=
    trim_behind file (lit ">>") before
  have read : appendRedirection (before ++ (lit ">>" ++ ' ' :: name)) = some (inputBefore before (.append name)) := by
    rw [appendRedirection,found,Option.bind_eq_bind,Option.bind_some]
    dsimp only
    rw [named,if_neg file.not_refused,List.take_left]
  rw [shown,parseRedirections,read]
  rfl

theorem parseRedirections_write (file : OutputName name) (plain : '>' ∉ before) :
    parseRedirections (before ++ lit "> " ++ name) = inputBefore before (.write name) := by
  have shown : before ++ lit "> " ++ name = before ++ (['>'] ++ ' ' :: name) := List.append_assoc ..
  have once : Str.rfind (lit ">>") (before ++ (['>'] ++ ' ' :: name)) = none := by
    refine @Str.rfind_twice _ '>' ?_
    rw [List.count_append,List.count_eq_zero.mpr plain,List.singleton_append,List.count_cons_self,
      List.count_cons_of_ne (by decide),List.count_eq_zero.mpr file.noOutput]
  have found : Str.rfind ['>'] (before ++ (['>'] ++ ' ' :: name)) = some before.length :=
    Str.rfind_last (List.not_mem_cons_of_ne_of_not_mem (by decide) file.noOutput) before
  have named : Str.trim ((before ++ (['>'] ++ ' ' :: name)).drop (before.length + 1)) = name :=
    trim_behind file ['>'] before
  have read : writeRedirection (before ++ (['>'] ++ ' ' :: name)) = some (inputBefore before (.write name)) := by
    have single : ¬(before.length ≠ 0 ∧ before.getLast? = some '>') :=
      fun both => plain (List.mem_of_getLast? both.2)
    rw [writeRedirection,found,Option.bind_eq_bind,Option.bind_some,List.take_left,if_neg single]
    dsimp only
    rw [named,if_neg file.not_refused]
  rw [shown,parseRedirections,appendRedirection,once,read]
  rfl

theorem parseRedirections_input (file : FileName name) (plain : '>' ∉ before) :
    parseRedirections (before ++ lit "< " ++ name) = (before,⟨some name,.print⟩) := by
  have shown : before ++ lit "< " ++ name = before ++ (['<'] ++ ' ' :: name) := List.append_assoc ..
  have noOutput : '>' ∉ before ++ (['<'] ++ ' ' :: name) := by
    rw [List.mem_append,List.singleton_append,List.mem_cons,List.mem_cons]
    rintro (before | same | same | name)
    · exact plain before
    · exact absurd same (by decide)
    · exact absurd same (by decide)
    · exact file.noOutput name
  have found : Str.rfind ['<'] (before ++ (['<'] ++ ' ' :: name)) = some before.length :=
    Str.rfind_last (List.not_mem_cons_of_ne_of_not_mem (by decide) file.noInput) before
  have named : Str.trim ((before ++ (['<'] ++ ' ' :: name)).drop (before.length + 1)) = name :=
    trim_behind file.toOutputName ['<'] before
  have read : inputRedirection (before ++ (['<'] ++ ' ' :: name)) = some (before,⟨some name,.print⟩) := by
    have accepted : ¬(name.isEmpty || name.contains '|' || name.contains '>') = true := by
      rw [Bool.or_eq_true,not_or]
      exact ⟨file.not_refused,fun inside => file.noOutput (List.contains_iff_mem.mp inside)⟩
    rw [inputRedirection,found,Option.bind_eq_bind,Option.bind_some]
    dsimp only
    rw [named,if_neg accepted,List.take_left]
  have noAppend : Str.rfind (lit ">>") (before ++ (['<'] ++ ' ' :: name)) = none :=
    Str.rfind_absent (List.mem_cons_self : '>' ∈ lit ">>") noOutput
  have noWrite : Str.rfind ['>'] (before ++ (['<'] ++ ' ' :: name)) = none :=
    Str.rfind_absent List.mem_cons_self noOutput
  rw [shown,parseRedirections,appendRedirection,noAppend,writeRedirection,noWrite,read]
  rfl

theorem inputBefore_absent (plain : '<' ∉ before) (outputMode : OutputMode) :
    inputBefore before outputMode = (before,⟨none,outputMode⟩) := by
  rw [inputBefore,Str.rfind_absent List.mem_cons_self plain]

theorem inputBefore_named (file : FileName name) (outputMode : OutputMode) :
    inputBefore (before ++ lit "< " ++ name ++ lit " ") outputMode = (before,⟨some name,outputMode⟩) := by
  have shown : before ++ lit "< " ++ name ++ lit " " = before ++ (['<'] ++ ' ' :: (name ++ lit " ")) := by
    rw [List.append_assoc,List.append_assoc]
    rfl
  have found : Str.rfind ['<'] (before ++ (['<'] ++ ' ' :: (name ++ lit " "))) = some before.length := by
    refine Str.rfind_last (List.not_mem_cons_of_ne_of_not_mem (by decide) ?_) before
    rw [List.mem_append,not_or]
    exact ⟨file.noInput,by decide⟩
  have named : Str.trim ((before ++ (['<'] ++ ' ' :: (name ++ lit " "))).drop (before.length + 1)) = name := by
    rw [← List.drop_drop,List.drop_left]
    exact (Str.trim_append_space name).trans file.trimmed
  rw [shown,inputBefore,found]
  dsimp only
  rw [named,if_neg (mt List.isEmpty_iff.mp file.nonempty),List.take_left]

/-- An input operator behind the name of an output file is read as a part of that name. -/
theorem FileName.joined (output : FileName o) (input : FileName i) : OutputName (o ++ lit " < " ++ i) := by
  have absent {d : Char} (operator : d ∉ lit " < ") (first : d ∉ o) (last : d ∉ i) : d ∉ o ++ lit " < " ++ i := by
    rw [List.mem_append,List.mem_append,not_or,not_or]
    exact ⟨⟨first,operator⟩,last⟩
  refine {
    nonempty := ?nonempty
    trimmed := Str.trim_joined output.trimmed input.trimmed output.nonempty input.nonempty _
    noOutput := absent (by decide) output.noOutput input.noOutput
    noPipe := absent (by decide) output.noPipe input.noPipe
  }
  case nonempty =>
    rw [List.append_assoc]
    exact List.append_ne_nil_of_left_ne_nil output.nonempty _

theorem spaced {d : Char} (visible : d ≠ ' ') (absent : d ∉ c) : d ∉ c ++ lit " " := by
  rw [List.mem_append,not_or]
  exact ⟨absent,fun space => visible (List.mem_singleton.mp space)⟩

/-- What the line of each shape is read as. -/
def Shape.readAs (shape : Shape) (i o : Str) : Redirect :=
  match shape with
  | .writeInput => ⟨none,.write (o ++ lit " < " ++ i)⟩
  | .appendInput => ⟨none,.append (o ++ lit " < " ++ i)⟩
  | _ => shape.redirect i o

theorem parseRedirections_line (noInput : '<' ∉ c) (noOutput : '>' ∉ c) (input : FileName i) (output : FileName o)
    (shape : Shape) : parseRedirections (shape.line c i o) = (c ++ lit " ",shape.readAs i o) := by
  have apart (operator name : Str) : c ++ (lit " " ++ operator) ++ name = c ++ lit " " ++ operator ++ name := by
    rw [← List.append_assoc]
  have plainInput := spaced (by decide) noInput
  have plainOutput := spaced (by decide) noOutput
  have named : '>' ∉ c ++ lit " " ++ lit "< " ++ i ++ lit " " := by
    refine spaced (by decide) ?_
    rw [List.mem_append,List.mem_append,not_or,not_or]
    exact ⟨⟨plainOutput,by decide⟩,input.noOutput⟩
  cases shape with
  | input => exact (congrArg _ (apart (lit "< ") i)).trans (parseRedirections_input input plainOutput)
  | write =>
    refine (congrArg _ (apart (lit "> ") o)).trans ?_
    rw [parseRedirections_write output.toOutputName plainOutput,inputBefore_absent plainInput]
    rfl
  | append =>
    refine (congrArg _ (apart (lit ">> ") o)).trans ?_
    rw [parseRedirections_append output.toOutputName,inputBefore_absent plainInput]
    rfl
  | inputWrite =>
    have line : Shape.inputWrite.line c i o = c ++ lit " " ++ lit "< " ++ i ++ lit " " ++ lit "> " ++ o := by
      rw [← apart,List.append_assoc _ (lit " ")]
      rfl
    rw [line,parseRedirections_write output.toOutputName named,inputBefore_named input]
    rfl
  | inputAppend =>
    have line : Shape.inputAppend.line c i o = c ++ lit " " ++ lit "< " ++ i ++ lit " " ++ lit ">> " ++ o := by
      rw [← apart,List.append_assoc _ (lit " ")]
      rfl
    rw [line,parseRedirections_append output.toOutputName,inputBefore_named input]
    rfl
  | writeInput =>
    have line : Shape.writeInput.line c i o = c ++ lit " " ++ lit "> " ++ (o ++ lit " < " ++ i) := by
      rw [← List.append_assoc,← List.append_assoc,← apart]
      rfl
    rw [line,parseRedirections_write (FileName.joined output input) plainOutput,inputBefore_absent plainInput]
    rfl
  | appendInput =>
    have line : Shape.appendInput.line c i o = c ++ lit " " ++ lit ">> " ++ (o ++ lit " < " ++ i) := by
      rw [← List.append_assoc,← List.append_assoc,← apart]
      rfl
    rw [line,parseRedirections_append (FileName.joined output input),inputBefore_absent plainInput]
    rfl

/-- A line is read as it is written unless the input comes after the output. -/
theorem parses_iff (noInput : '<' ∉ c) (noOutput : '>' ∉ c) (input : FileName i) (output : FileName o) (shape : Shape) :
    Parses shape c i o ↔ shape ≠ .writeInput ∧ shape ≠ .appendInput := by
  have read := parseRedirections_line noInput noOutput input output shape
  have kept : Parses shape c i o ↔ shape.readAs i o = shape.redirect i o := by
    constructor
    · rintro ⟨text,parsed,_⟩
      exact congrArg Prod.snd (read.symm.trans parsed)
    · intro same
      exact ⟨c ++ lit " ",same ▸ read,Str.trim_append_space c⟩
  rw [kept]
  cases shape <;> simp [Shape.readAs,Shape.redirect]

instance (name : Str) : Decidable (FileName name) :=
  decidable_of_iff (name ≠ [] ∧ Str.trim name = name ∧ '>' ∉ name ∧ '|' ∉ name ∧ '<' ∉ name)
    ⟨fun ⟨nonempty,trimmed,output,pipe,input⟩ => ⟨⟨nonempty,trimmed,output,pipe⟩,input⟩,
      fun file => ⟨file.nonempty,file.trimmed,file.noOutput,file.noPipe,file.noInput⟩⟩

theorem append_with_input_parses : Parses .inputAppend (lit "grep x | sort") (lit "in") (lit "out") :=
  (parses_iff (by decide) (by decide) (by decide) (by decide) .inputAppend).mpr (by decide)

theorem output_before_input_misread :
    FileName (lit "in") ∧ FileName (lit "out") ∧ ¬Parses .writeInput (lit "sort") (lit "in") (lit "out") ∧
      parseRedirections (lit "sort > out < in") = (lit "sort ",⟨none,.write (lit "out < in")⟩) := by
  refine ⟨by decide,by decide,?_,by decide⟩
  rintro ⟨text,parsed,_⟩
  have read : parseRedirections (Shape.writeInput.line (lit "sort") (lit "in") (lit "out")) =
      (lit "sort ",⟨none,.write (lit "out < in")⟩) := by decide
  rw [read] at parsed
  cases parsed

end PolarOs
