import PolarOs.Library.LittleEndian
import Mathlib.Data.List.GetD

/-! Byte memory with 64-bit words and stacks that grow downwards. A store changes eight
bytes; words that do not overlap it are kept; words pushed one after the other are read
back in reverse from the last one up. -/
namespace Library

abbrev Memory := Nat → UInt8

namespace Memory

def load (memory : Memory) (address : Nat) : UInt64 :=
  UInt64.ofNat (LittleEndian.decode ((List.range 8).map fun i => memory (address + i)))

def store (memory : Memory) (address : Nat) (word : UInt64) : Memory := fun place =>
  if address ≤ place ∧ place < address + 8 then
    (LittleEndian.encode 8 word.toNat).getD (place - address) 0
  else memory place

/-- Two memories that agree on the bytes from `start` up to `stop`. -/
def Agree (first second : Memory) (start stop : Nat) : Prop :=
  ∀ place, start ≤ place → place < stop → first place = second place

theorem agree_store {memory : Memory} {address start stop : Nat} (word : UInt64)
    (apart : stop ≤ address ∨ address + 8 ≤ start) : Agree (memory.store address word) memory start stop := by
  intro place low high
  rw [store,if_neg (by omega)]

theorem load_congr {first second : Memory} {address : Nat} (same : Agree first second address (address + 8)) :
    first.load address = second.load address := by
  have bytes : (List.range 8).map (fun i => first (address + i)) = (List.range 8).map fun i => second (address + i) := by
    apply List.map_congr_left
    intro i member
    have bound := List.mem_range.mp member
    exact same (address + i) (by omega) (by omega)
  rw [load,load,bytes]

theorem load_store (memory : Memory) (address : Nat) (word : UInt64) :
    (memory.store address word).load address = word := by
  have length := LittleEndian.length_encode 8 word.toNat
  have bytes : (List.range 8).map (fun i => memory.store address word (address + i)) =
      LittleEndian.encode 8 word.toNat := by
    apply List.ext_getElem
    · rw [List.length_map,List.length_range,length]
    · intro i low high
      rw [List.length_map,List.length_range] at low
      rw [List.getElem_map,List.getElem_range,store,if_pos (by omega),Nat.add_sub_cancel_left,
        List.getD_eq_getElem]
  rw [load,bytes,LittleEndian.decode_encode 8 _ word.toNat_lt,UInt64.ofNat_toNat]

def words (memory : Memory) (address : Nat) : Nat → List UInt64
  | 0 => []
  | n+1 => memory.load address :: words memory (address + 8) n

theorem words_congr {first second : Memory} {address n : Nat}
    (same : Agree first second address (address + 8 * n)) : first.words address n = second.words address n := by
  induction n generalizing address with
  | zero => rfl
  | succ n ih =>
    have head : first.load address = second.load address := by
      apply load_congr
      intro place low high
      exact same place low (by omega)
    have tail : first.words (address + 8) n = second.words (address + 8) n := by
      apply ih
      intro place low high
      exact same place (by omega) (by omega)
    rw [words,words,head,tail]

theorem words_snoc (memory : Memory) (address n : Nat) :
    memory.words address (n + 1) = memory.words address n ++ [memory.load (address + 8 * n)] := by
  induction n generalizing address with
  | zero => rfl
  | succ n ih =>
    have place : address + 8 + 8 * n = address + 8 * (n + 1) := by omega
    rw [words,ih,place]
    rfl

theorem length_words (memory : Memory) (address n : Nat) : (memory.words address n).length = n := by
  induction n generalizing address with
  | zero => rfl
  | succ n ih => rw [words,List.length_cons,ih]

theorem words_add (memory : Memory) (address m n : Nat) :
    memory.words address (m + n) = memory.words address m ++ memory.words (address + 8 * m) n := by
  induction m generalizing address with
  | zero => rw [Nat.zero_add,words,List.nil_append,Nat.mul_zero,Nat.add_zero]
  | succ m ih =>
    have place : address + 8 + 8 * m = address + 8 * (m + 1) := by omega
    rw [Nat.succ_add,words,ih,place,words,List.cons_append]

/-- Words pushed one after the other below `top`. -/
def pushes (memory : Memory) (top : Nat) : List UInt64 → Memory
  | [] => memory
  | word::rest => pushes (memory.store (top - 8) word) (top - 8) rest

theorem agree_pushes {memory : Memory} {top start stop : Nat} {pushed : List UInt64}
    (room : 8 * pushed.length ≤ top) (apart : stop ≤ top - 8 * pushed.length ∨ top ≤ start) :
    Agree (memory.pushes top pushed) memory start stop := by
  induction pushed generalizing memory top with
  | nil => exact fun _ _ _ => rfl
  | cons word rest ih =>
    rw [List.length_cons] at room apart
    intro place low high
    rw [pushes,ih (by omega) (by omega) place low high]
    exact agree_store word (by omega) place low high

theorem words_pushes {memory : Memory} {top : Nat} {pushed : List UInt64} (room : 8 * pushed.length ≤ top) :
    (memory.pushes top pushed).words (top - 8 * pushed.length) pushed.length = pushed.reverse := by
  induction pushed generalizing memory top with
  | nil => rfl
  | cons word rest ih =>
    rw [List.length_cons] at room
    have below : top - 8 * (rest.length + 1) = top - 8 - 8 * rest.length := by omega
    have first : top - 8 - 8 * rest.length + 8 * rest.length = top - 8 := by omega
    have kept : ((memory.store (top - 8) word).pushes (top - 8) rest).load (top - 8) = word := by
      rw [load_congr (agree_pushes (by omega) (Or.inr (Nat.le_refl _))),load_store]
    rw [List.length_cons,words_snoc,pushes,below,ih (by omega),first,kept,List.reverse_cons]

end Library.Memory
