import PolarOs.Text
import PolarOs.Library.SortedMap
import Mathlib.Data.Char
import Mathlib.Data.List.Lex

/-! The environment variables of `shell/commands.rs`. `isAlphanumeric` stands for
`char::is_alphanumeric`, whose Unicode tables are not part of the repository. -/
namespace PolarOs
open Library

abbrev Env := List (Str × Str)

/-- The initial value of `ENV_VARS`. -/
def envVars : Env :=
  let map := SortedMap.insert [] (lit "PATH") (lit "/")
  let map := SortedMap.insert map (lit "HOME") (lit "/")
  let map := SortedMap.insert map (lit "SHELL") (lit "polarsh")
  SortedMap.insert map (lit "OS") (lit "PolarOs")

/-- The name after `${` and the text after the brace; an open brace takes all that is left. -/
def bracedName : Str → Str × Str
  | [] => ([],[])
  | c::chars =>
    if c = '}' then ([],chars)
    else
      let (varName,rest) := bracedName chars
      (c::varName,rest)

def plainName (isAlphanumeric : Char → Bool) : Str → Str × Str
  | [] => ([],[])
  | c::chars =>
    if isAlphanumeric c || c = '_' then
      let (varName,rest) := plainName isAlphanumeric chars
      (c::varName,rest)
    else ([],c::chars)

/-- The name after a `$` and the text after the name. -/
def varName (isAlphanumeric : Char → Bool) (chars : Str) : Str × Str :=
  match chars with
  | '{'::inner => bracedName inner
  | _ => plainName isAlphanumeric chars

theorem bracedName_length (chars : Str) : (bracedName chars).2.length ≤ chars.length := by
  induction chars with
  | nil => exact Nat.le_refl _
  | cons c chars ih =>
    rw [bracedName]
    split
    next => exact Nat.le_succ _
    next => exact Nat.le_succ_of_le ih

theorem plainName_length (isAlphanumeric : Char → Bool) (chars : Str) :
    (plainName isAlphanumeric chars).2.length ≤ chars.length := by
  induction chars with
  | nil => exact Nat.le_refl _
  | cons c chars ih =>
    rw [plainName]
    split
    next => exact Nat.le_succ_of_le ih
    next => exact Nat.le_refl _

theorem varName_length (isAlphanumeric : Char → Bool) (chars : Str) :
    (varName isAlphanumeric chars).2.length ≤ chars.length := by
  unfold varName
  split
  next inner => exact Nat.le_succ_of_le (bracedName_length inner)
  next => exact plainName_length isAlphanumeric chars

def expandEnvVars (isAlphanumeric : Char → Bool) (env : Env) : Str → Str
  | [] => []
  | ch::chars =>
    if ch = '$' then
      (SortedMap.find env (varName isAlphanumeric chars).1).getD [] ++
        expandEnvVars isAlphanumeric env (varName isAlphanumeric chars).2
    else ch :: expandEnvVars isAlphanumeric env chars
termination_by input => input.length
decreasing_by
  · exact Nat.lt_succ_of_le (varName_length isAlphanumeric chars)
  · exact Nat.lt_succ_self _

theorem expandEnvVars_plain (isAlphanumeric : Char → Bool) (env : Env) {input : Str} (plain : '$' ∉ input) :
    expandEnvVars isAlphanumeric env input = input := by
  induction input with
  | nil => rw [expandEnvVars]
  | cons ch chars ih =>
    have ordinary : ch ≠ '$' := (List.ne_of_not_mem_cons plain).symm
    rw [expandEnvVars,if_neg ordinary,ih (List.not_mem_of_not_mem_cons plain)]

def cmdEnv (env : Env) : Str :=
  Str.trimTrailingNewline (env.flatMap fun (key,value) => key ++ lit "=" ++ value ++ lit "\n")

def cmdExport (env : Env) (args : Str) : Str × Env :=
  let args := Str.trim args
  match Str.splitOnce '=' args with
  | some (key,value) =>
    let key := Str.trim key
    let value := Str.trim value
    if key.isEmpty then (lit "Uzycie: export KLUCZ=WARTOSC",env)
    else (key ++ lit "=" ++ value,SortedMap.insert env key value)
  | none =>
    match SortedMap.find env args with
    | some value => (args ++ lit "=" ++ value,env)
    | none => (lit "Zmienna '" ++ args ++ lit "' nie istnieje.",env)

end PolarOs
