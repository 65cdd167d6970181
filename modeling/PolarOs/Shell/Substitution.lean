import PolarOs.Shell.Environment

/-! References to variables stand for their values wherever they are. What comes before a
reference matters in one way only: it may leave a brace open, which the modes of the scanner
keep track of. -/
namespace PolarOs
open Library

variable {isAlphanumeric : Char → Bool} {env : Env} {a b k chars rest : Str}

def nameChar (isAlphanumeric : Char → Bool) (c : Char) : Bool := isAlphanumeric c || c = '_'

/-- Where the scan of a text has got to: in plain text, right behind a `$`, in a name
without braces, or behind a `${` that is still open. -/
inductive Mode where
  | text
  | dollar
  | name
  | braced
deriving DecidableEq

def Mode.next (isAlphanumeric : Char → Bool) (mode : Mode) (c : Char) : Mode :=
  match mode with
  | .braced => if c = '}' then .text else .braced
  | .text => if c = '$' then .dollar else .text
  | .name => if nameChar isAlphanumeric c then .name else if c = '$' then .dollar else .text
  | .dollar =>
    if c = '{' then .braced
    else if nameChar isAlphanumeric c then .name
    else if c = '$' then .dollar else .text

/-- The scan does not end behind an open `${`. -/
def Closed (isAlphanumeric : Char → Bool) (mode : Mode) (text : Str) : Prop :=
  text.foldl (Mode.next isAlphanumeric) mode ≠ .braced

/-- The two characters that a reference begins with are not letters or digits. -/
structure Punctuation (isAlphanumeric : Char → Bool) : Prop where
  dollar : isAlphanumeric '$' = false
  brace : isAlphanumeric '{' = false

def value (env : Env) (key : Str) : Str := (SortedMap.find env key).getD []

theorem closed_braced : Closed isAlphanumeric .braced chars ↔
    '}' ∈ chars ∧ Closed isAlphanumeric .text (bracedName chars).2 := by
  induction chars with
  | nil => exact iff_of_false (fun closed => closed rfl) (fun both => List.not_mem_nil both.1)
  | cons c chars ih =>
    rw [Closed,List.foldl_cons,Mode.next,bracedName]
    by_cases close : c = '}'
    · rw [if_pos close,if_pos close]
      exact ⟨fun closed => ⟨close ▸ List.mem_cons_self,closed⟩,And.right⟩
    · rw [if_neg close,if_neg close,List.mem_cons,or_iff_right (Ne.symm close)]
      exact ih

theorem plainName_of_name {c : Char} (named : nameChar isAlphanumeric c = true) :
    plainName isAlphanumeric (c :: chars) = (c :: (plainName isAlphanumeric chars).1,(plainName isAlphanumeric chars).2) :=
  if_pos named

theorem plainName_of_stop {c : Char} (stop : nameChar isAlphanumeric c = false) :
    plainName isAlphanumeric (c :: chars) = ([],c :: chars) :=
  if_neg (Bool.not_eq_true _ ▸ stop)

theorem closed_name : Closed isAlphanumeric .name chars ↔
    Closed isAlphanumeric .text (plainName isAlphanumeric chars).2 := by
  induction chars with
  | nil => exact iff_of_true (fun same => by cases same) (fun same => by cases same)
  | cons c chars ih =>
    rw [Closed,List.foldl_cons,Mode.next]
    cases named : nameChar isAlphanumeric c with
    | true =>
      rw [plainName_of_name named,if_pos rfl]
      exact ih
    | false =>
      rw [plainName_of_stop named,if_neg Bool.false_ne_true]
      exact Iff.rfl

theorem closed_dollar (plain : ∀ inner, chars ≠ '{' :: inner) :
    Closed isAlphanumeric .dollar chars ↔ Closed isAlphanumeric .name chars := by
  cases chars with
  | nil => exact iff_of_true (fun same => by cases same) (fun same => by cases same)
  | cons c chars =>
    have other : c ≠ '{' := fun same => plain chars (by rw [same])
    rw [Closed,Closed,List.foldl_cons,List.foldl_cons,Mode.next,Mode.next,if_neg other]

theorem bracedName_append (close : '}' ∈ chars) :
    bracedName (chars ++ rest) = ((bracedName chars).1,(bracedName chars).2 ++ rest) := by
  induction chars with
  | nil => cases close
  | cons c chars ih =>
    rw [List.cons_append,bracedName,bracedName]
    by_cases here : c = '}'
    · rw [if_pos here,if_pos here]
    · rw [if_neg here,if_neg here]
      cases close with
      | head => exact absurd rfl here
      | tail _ later => rw [ih later]

/-- A text that does not go on with a name. -/
def Stops (isAlphanumeric : Char → Bool) (rest : Str) : Prop :=
  ∀ c, rest.head? = some c → nameChar isAlphanumeric c = false

theorem plainName_append (stops : Stops isAlphanumeric rest) :
    plainName isAlphanumeric (chars ++ rest) =
      ((plainName isAlphanumeric chars).1,(plainName isAlphanumeric chars).2 ++ rest) := by
  induction chars with
  | nil =>
    cases rest with
    | nil => rfl
    | cons c rest =>
      rw [List.nil_append,plainName_of_stop (stops c rfl)]
      rfl
  | cons c chars ih =>
    rw [List.cons_append]
    cases named : nameChar isAlphanumeric c with
    | true => rw [plainName_of_name named,plainName_of_name named,ih]
    | false => rw [plainName_of_stop named,plainName_of_stop named,List.cons_append]

/-- The reference ends inside `chars`, whatever comes after. -/
theorem varName_append (closed : Closed isAlphanumeric .dollar chars) (stops : Stops isAlphanumeric rest)
    (plain : ∀ inner, rest ≠ '{' :: inner) :
    varName isAlphanumeric (chars ++ rest) =
      ((varName isAlphanumeric chars).1,(varName isAlphanumeric chars).2 ++ rest) := by
  unfold varName
  split
  next inner shown =>
    cases chars with
    | nil => exact absurd shown (plain inner)
    | cons c chars =>
      cases shown
      exact bracedName_append (closed_braced.mp closed).1
  next braceless =>
    rw [plainName_append stops]
    split
    next inner => exact absurd rfl (braceless (inner ++ rest))
    next => rfl

theorem closed_varName (closed : Closed isAlphanumeric .dollar chars) :
    Closed isAlphanumeric .text (varName isAlphanumeric chars).2 := by
  unfold varName
  split
  next inner => exact (closed_braced.mp closed).2
  next plain => exact closed_name.mp ((closed_dollar plain).mp closed)

/-- A text without an open brace is expanded independently of what comes after it, if that
cannot be part of a name. -/
theorem expandEnvVars_append (closed : Closed isAlphanumeric .text a) (stops : Stops isAlphanumeric rest)
    (plain : ∀ inner, rest ≠ '{' :: inner) :
    expandEnvVars isAlphanumeric env (a ++ rest) =
      expandEnvVars isAlphanumeric env a ++ expandEnvVars isAlphanumeric env rest := by
  induction a using expandEnvVars.induct isAlphanumeric with
  | case1 => rw [expandEnvVars,List.nil_append,List.nil_append]
  | case2 chars ih =>
    have inner : Closed isAlphanumeric .dollar chars := closed
    rw [List.cons_append,expandEnvVars,expandEnvVars,if_pos rfl,if_pos rfl,varName_append inner stops plain,
      ih (closed_varName inner),List.append_assoc]
  | case3 ch chars ordinary ih =>
    rw [Closed,List.foldl_cons,Mode.next,if_neg ordinary] at closed
    rw [List.cons_append,expandEnvVars,expandEnvVars,if_neg ordinary,if_neg ordinary,ih closed,List.cons_append]

theorem Punctuation.not_name (punctuation : Punctuation isAlphanumeric) :
    nameChar isAlphanumeric '$' = false ∧ nameChar isAlphanumeric '{' = false := by
  rw [nameChar,nameChar,punctuation.dollar,punctuation.brace]
  decide

theorem expandEnvVars_behind (punctuation : Punctuation isAlphanumeric) (closed : Closed isAlphanumeric .text a) :
    expandEnvVars isAlphanumeric env (a ++ '$' :: chars) =
      expandEnvVars isAlphanumeric env a ++ (value env (varName isAlphanumeric chars).1 ++
        expandEnvVars isAlphanumeric env (varName isAlphanumeric chars).2) := by
  rw [expandEnvVars_append closed,expandEnvVars.eq_def isAlphanumeric env ('$' :: chars)]
  · exact congrArg _ (if_pos rfl)
  · intro c first
    cases first
    exact punctuation.not_name.1
  · intro inner same
    cases same

theorem bracedName_closed (key : '}' ∉ k) : bracedName (k ++ '}' :: b) = (k,b) := by
  induction k with
  | nil => rfl
  | cons c k ih =>
    have other : c ≠ '}' := (List.ne_of_not_mem_cons key).symm
    rw [List.cons_append,bracedName,if_neg other,ih (List.not_mem_of_not_mem_cons key)]

theorem plainName_run (run : ∀ c ∈ k, nameChar isAlphanumeric c) : plainName isAlphanumeric k = (k,[]) := by
  induction k with
  | nil => rfl
  | cons c k ih =>
    rw [plainName_of_name (run c List.mem_cons_self),ih fun d later => run d (List.mem_cons_of_mem c later)]

theorem varName_run (punctuation : Punctuation isAlphanumeric) (key : k ≠ [])
    (run : ∀ c ∈ k, nameChar isAlphanumeric c) (stops : Stops isAlphanumeric b) :
    varName isAlphanumeric (k ++ b) = (k,b) := by
  unfold varName
  split
  next inner shown =>
    cases k with
    | nil => exact absurd rfl key
    | cons c k =>
      cases shown
      have named := run '{' List.mem_cons_self
      rw [punctuation.not_name.2] at named
      cases named
  next => rw [plainName_append stops,plainName_run run,List.nil_append]

/-- Behind a closed text every reference is replaced by the value of its variable, which is
not scanned again. -/
theorem expandEnvVars_reference (punctuation : Punctuation isAlphanumeric) (closed : Closed isAlphanumeric .text a) :
    (∀ k, '}' ∉ k → expandEnvVars isAlphanumeric env (a ++ ['$','{'] ++ k ++ ['}'] ++ b) =
      expandEnvVars isAlphanumeric env a ++ value env k ++ expandEnvVars isAlphanumeric env b) ∧
    (∀ k, k ≠ [] → (∀ c ∈ k, nameChar isAlphanumeric c) → Stops isAlphanumeric b →
      expandEnvVars isAlphanumeric env (a ++ ['$'] ++ k ++ b) =
        expandEnvVars isAlphanumeric env a ++ value env k ++ expandEnvVars isAlphanumeric env b) := by
  constructor
  · intro k key
    have split : a ++ ['$','{'] ++ k ++ ['}'] ++ b = a ++ '$' :: ('{' :: (k ++ '}' :: b)) := by
      simp only [List.append_assoc]
      rfl
    rw [split,expandEnvVars_behind punctuation closed,varName,bracedName_closed key,List.append_assoc]
  · intro k key run stops
    have split : a ++ ['$'] ++ k ++ b = a ++ '$' :: (k ++ b) := by
      simp only [List.append_assoc]
      rfl
    rw [split,expandEnvVars_behind punctuation closed,varName_run punctuation key run stops,List.append_assoc]

theorem reference_after_home :
    (∀ k, '}' ∉ k → expandEnvVars Char.isAlphanum envVars (lit "cd $HOME" ++ ['$','{'] ++ k ++ ['}'] ++ lit "!") =
      expandEnvVars Char.isAlphanum envVars (lit "cd $HOME") ++ value envVars k ++
        expandEnvVars Char.isAlphanum envVars (lit "!")) ∧
    (∀ k, k ≠ [] → (∀ c ∈ k, nameChar Char.isAlphanum c) → Stops Char.isAlphanum (lit "!") →
      expandEnvVars Char.isAlphanum envVars (lit "cd $HOME" ++ ['$'] ++ k ++ lit "!") =
        expandEnvVars Char.isAlphanum envVars (lit "cd $HOME") ++ value envVars k ++
          expandEnvVars Char.isAlphanum envVars (lit "!")) := by
  refine expandEnvVars_reference ⟨by decide,by decide⟩ ?_
  rw [Closed]
  decide

end PolarOs
