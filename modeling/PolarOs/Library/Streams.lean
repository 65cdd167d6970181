import Mathlib.Logic.Function.Basic
import Mathlib.Algebra.Order.Group.Nat

/-! A table of open streams: under each key the items that are still to come. -/
namespace Library.Streams

variable {κ β : Type} [DecidableEq κ]

abbrev Table (κ β : Type) := κ → Option (List β)

inductive Op (κ β : Type) where
  | start (key : κ) (content : List β)
  | take (key : κ) (count : Nat)
  | stop (key : κ)

/-- The items an operation hands out and the table after it. -/
def apply (streams : Table κ β) : Op κ β → List β × Table κ β
  | .start key content => ([],Function.update streams key (some content))
  | .take key count =>
    match streams key with
    | none => ([],streams)
    | some rest => (rest.take count,Function.update streams key (some (rest.drop count)))
  | .stop key => ([],Function.update streams key none)

def received (key : κ) : Table κ β → List (Op κ β) → List β
  | _,[] => []
  | streams,op::ops =>
    (match op with
      | .take other _ => if other = key then (apply streams op).1 else []
      | _ => []) ++ received key (apply streams op).2 ops

def asked (key : κ) : List (Op κ β) → Nat
  | [] => 0
  | .take other count::ops => (if other = key then count else 0) + asked key ops
  | _::ops => asked key ops

def Op.Keeps (key : κ) : Op κ β → Prop
  | .start other _ => other ≠ key
  | .take _ _ => True
  | .stop other => other ≠ key

theorem received_append (key : κ) (streams : Table κ β) (before after : List (Op κ β)) :
    received key streams (before ++ after) = received key streams before ++
      received key (before.foldl (fun streams op => (apply streams op).2) streams) after := by
  induction before generalizing streams with
  | nil => rfl
  | cons op ops ih => simp only [List.cons_append,received,ih,List.foldl_cons,List.append_assoc]

/-- A stream that is neither restarted nor stopped hands out its content in order,
whatever happens under the other keys. -/
theorem received_in_order {key : κ} {streams : Table κ β} {content : List β} (opened : streams key = some content)
    {ops : List (Op κ β)} (keeps : ∀ op ∈ ops, op.Keeps key) :
    received key streams ops = content.take (asked key ops) := by
  induction ops generalizing streams content with
  | nil => rfl
  | cons op ops ih =>
    have later : ∀ op ∈ ops, op.Keeps key := fun other member => keeps other (List.mem_cons_of_mem _ member)
    have kept : op.Keeps key := keeps op (by simp)
    cases op with
    | start other fresh =>
      have same : (apply streams (.start other fresh)).2 key = some content :=
        (Function.update_of_ne (Ne.symm kept) ..).trans opened
      exact ih same later
    | stop other =>
      have same : (apply streams (.stop other)).2 key = some content :=
        (Function.update_of_ne (Ne.symm kept) ..).trans opened
      exact ih same later
    | take other count =>
      by_cases here : other = key
      · subst here
        have rest : (apply streams (.take other count)).2 other = some (content.drop count) := by
          simp [apply,opened]
        simp only [received,asked,if_true,ih rest later,List.take_add]
        simp [apply,opened]
      · have same : (apply streams (.take other count)).2 key = some content := by
          cases found : streams other with
          | none => simpa [apply,found] using opened
          | some rest => simpa [apply,found,Ne.symm here] using opened
        simp only [received,asked,if_neg here,List.nil_append,Nat.zero_add]
        exact ih same later

end Library.Streams
