import PolarOs.Library.Checked
import Mathlib.Tactic.SplitIfs

/-! Readers over a byte string with a moving position. A reader accepts with a
value, rejects, or faults. Four laws are kept by every way of composing readers:
staying in bounds, depending only on the bytes passed over, rejecting every input
cut inside those bytes, and reading back what an encoder wrote. -/
namespace Library
open Checked

abbrev Bytes := List UInt8

def Reader (α : Type) := Bytes → Nat → Checked (Option α × Nat)

namespace Reader

instance : Monad Reader where
  pure value := fun _ pos => .ok (some value,pos)
  bind first next := fun data pos =>
    match first data pos with
    | .error fault => .error fault
    | .ok (none,stop) => .ok (none,stop)
    | .ok (some value,stop) => next value data stop

variable {α β σ ι : Type}

def reject : Reader α := fun _ pos => .ok (none,pos)

def exhausted : Reader α := fun _ _ => .error .fuel

def ofOption (value : Option α) : Reader α := fun _ pos => .ok (value,pos)

def need (n : Nat) : Reader Unit := fun data pos =>
  if pos + n > data.length then .ok (none,pos) else .ok (some (),pos)

def byteAt (i : Nat) : Reader UInt8 := fun data pos =>
  (index data (pos + i)).map (fun byte => (some byte,pos))

def bytesOf (n : Nat) : Reader Bytes := fun data pos =>
  (slice data pos (pos + n)).map (fun bytes => (some bytes,pos))

def advance (n : Nat) : Reader Unit := fun _ pos => .ok (some (),pos + n)

/-- The bounds check, the reads it guards, and the step over them. -/
def guarded (n : Nat) (reads : Reader α) : Reader α := do
  need n
  let value ← reads
  advance n
  return value

def iterate : Nat → (σ → Reader σ) → σ → Reader σ
  | 0,_,state => pure state
  | n+1,body,state => do
    let next ← body state
    iterate n body next

theorem pure_run (value : α) (data : Bytes) (pos : Nat) :
    (pure value : Reader α) data pos = .ok (some value,pos) := rfl

theorem bind_run (first : Reader α) (next : α → Reader β) (data : Bytes) (pos : Nat) :
    (first >>= next) data pos = match first data pos with
      | .error fault => .error fault
      | .ok (none,stop) => .ok (none,stop)
      | .ok (some value,stop) => next value data stop := rfl

theorem bind_accepts {first : Reader α} {next : α → Reader β} {data : Bytes} {pos stop : Nat} {result : β} :
    (first >>= next) data pos = .ok (some result,stop) ↔
      ∃ value middle, first data pos = .ok (some value,middle) ∧
        next value data middle = .ok (some result,stop) := by
  rw [bind_run]
  cases run : first data pos with
  | error fault => simp
  | ok outcome =>
    obtain ⟨value,middle⟩ := outcome
    cases value with
    | none => simp
    | some value =>
      simp only [Except.ok.injEq,Prod.mk.injEq,Option.some.injEq]
      constructor
      · intro rest
        exact ⟨value,middle,⟨rfl,rfl⟩,rest⟩
      · intro holds
        obtain ⟨_,_,⟨rfl,rfl⟩,rest⟩ := holds
        exact rest

theorem bind_of_accepts {first : Reader α} {data : Bytes} {pos middle : Nat} {value : α}
    (run : first data pos = .ok (some value,middle)) (next : α → Reader β) :
    (first >>= next) data pos = next value data middle := by
  rw [bind_run,run]

theorem bind_of_rejects {first : Reader α} {data : Bytes} {pos middle : Nat}
    (run : first data pos = .ok (none,middle)) (next : α → Reader β) :
    (first >>= next) data pos = .ok (none,middle) := by
  rw [bind_run,run]

def window (data : Bytes) (pos n : Nat) : Bytes := (data.take (pos + n)).drop pos

/-- Reads that neither move nor leave the next `n` bytes: `view` is what they make
of those bytes. -/
def Inside (n : Nat) (reads : Reader α) (view : Bytes → Option α) : Prop :=
  ∀ data pos, pos + n ≤ data.length → reads data pos = .ok (view (window data pos n),pos)

theorem inside_pure (n : Nat) (value : α) : Inside n (pure value) (fun _ => some value) :=
  fun _ _ _ => rfl

theorem inside_ofOption (n : Nat) (value : Option α) : Inside n (ofOption value) (fun _ => value) :=
  fun _ _ _ => rfl

theorem inside_byteAt {n i : Nat} (bound : i < n) : Inside n (byteAt i) (fun bytes => bytes[i]?) := by
  intro data pos fits
  have inData : pos + i < data.length := by omega
  simp only [byteAt,index_lt inData,Except.map,window]
  rw [List.getElem?_drop,List.getElem?_take_of_lt (by omega),List.getElem?_eq_getElem inData]

theorem inside_bytesOf (n : Nat) : Inside n (bytesOf n) some := by
  intro data pos fits
  simp only [bytesOf,slice_ok (Nat.le_add_right pos n) fits,Except.map,window]

theorem inside_bind {n : Nat} {first : Reader α} {next : α → Reader β}
    {view : Bytes → Option α} {after : α → Bytes → Option β}
    (head : Inside n first view) (tail : ∀ value, Inside n (next value) (after value)) :
    Inside n (first >>= next) (fun bytes => (view bytes).bind (fun value => after value bytes)) := by
  intro data pos fits
  rw [bind_run,head data pos fits]
  cases seen : view (window data pos n) with
  | none => simp [seen]
  | some value => simp [seen,tail value data pos fits]

theorem guarded_run {n : Nat} {reads : Reader α} {view : Bytes → Option α}
    (inside : Inside n reads view) (data : Bytes) (pos : Nat) :
    guarded n reads data pos =
      if pos + n ≤ data.length then
        match view (window data pos n) with
        | some value => .ok (some value,pos + n)
        | none => .ok (none,pos)
      else .ok (none,pos) := by
  by_cases fits : pos + n ≤ data.length
  · have passed : need n data pos = .ok (some (),pos) := by
      rw [need,if_neg (by omega)]
    rw [guarded,bind_of_accepts passed,if_pos fits]
    have seen := inside data pos fits
    cases view : view (window data pos n) with
    | none => rw [bind_of_rejects (seen.trans (by rw [view]))]
    | some value => rw [bind_of_accepts (seen.trans (by rw [view]))]; rfl
  · have failed : need n data pos = .ok (none,pos) := by
      rw [need,if_pos (by omega)]
    rw [guarded,bind_of_rejects failed,if_neg fits]

/-! The laws of accepted input. -/

def Agree (first second : Bytes) (start stop : Nat) : Prop :=
  stop ≤ second.length ∧ ∀ i, start ≤ i → i < stop → second[i]? = first[i]?

structure Delimited (reader : Reader α) : Prop where
  advances : ∀ {data pos value stop}, pos ≤ data.length →
    reader data pos = .ok (some value,stop) → pos ≤ stop ∧ stop ≤ data.length
  determined : ∀ {data pos value stop other}, pos ≤ data.length →
    reader data pos = .ok (some value,stop) → Agree data other pos stop →
      reader other pos = .ok (some value,stop)
  truncated : ∀ {data pos value stop cut}, pos ≤ data.length →
    reader data pos = .ok (some value,stop) → pos ≤ cut → cut < stop →
      ∃ place, reader (data.take cut) pos = .ok (none,place)

theorem Agree.take {data : Bytes} {start stop cut : Nat} (bound : stop ≤ data.length)
    (before : stop ≤ cut) : Agree data (data.take cut) start stop := by
  refine ⟨by rw [List.length_take]; omega,?_⟩
  intro i _ below
  rw [List.getElem?_take_of_lt (by omega)]

theorem Agree.window {first second : Bytes} {pos n : Nat} (bound : pos + n ≤ first.length)
    (agree : Agree first second pos (pos + n)) : window second pos n = window first pos n := by
  apply List.ext_getElem?
  intro i
  simp only [Reader.window,List.getElem?_drop]
  by_cases inside : i < n
  · rw [List.getElem?_take_of_lt (by omega),List.getElem?_take_of_lt (by omega)]
    exact agree.2 _ (by omega) (by omega)
  · rw [List.getElem?_eq_none (by simp only [List.length_take]; omega),
      List.getElem?_eq_none (by simp only [List.length_take]; omega)]

theorem delimited_pure (value : α) : Delimited (pure value : Reader α) where
  advances bound run := by
    rw [pure_run] at run
    cases run
    exact ⟨Nat.le_refl _,bound⟩
  determined _ run _ := by
    rw [pure_run] at run ⊢
    exact run
  truncated _ run low high := by
    rw [pure_run] at run
    cases run
    omega

theorem delimited_reject : Delimited (reject : Reader α) where
  advances _ run := by cases run
  determined _ run := by cases run
  truncated _ run := by cases run

theorem delimited_exhausted : Delimited (exhausted : Reader α) where
  advances _ run := by cases run
  determined _ run := by cases run
  truncated _ run := by cases run

theorem guarded_accepts {n : Nat} {reads : Reader α} {view : Bytes → Option α}
    (inside : Inside n reads view) {data : Bytes} {pos : Nat} {value : α} {stop : Nat}
    (run : guarded n reads data pos = .ok (some value,stop)) :
    pos + n ≤ data.length ∧ view (window data pos n) = some value ∧ stop = pos + n := by
  rw [guarded_run inside] at run
  by_cases fits : pos + n ≤ data.length
  · rw [if_pos fits] at run
    cases seen : view (window data pos n) with
    | none => simp [seen] at run
    | some found =>
      simp only [seen,Except.ok.injEq,Prod.mk.injEq,Option.some.injEq] at run
      exact ⟨fits,by rw [run.1],run.2.symm⟩
  · simp [fits] at run

theorem delimited_guarded {n : Nat} {reads : Reader α} {view : Bytes → Option α}
    (inside : Inside n reads view) : Delimited (guarded n reads) := by
  constructor
  · intro data pos value stop _ run
    obtain ⟨fits,_,rfl⟩ := guarded_accepts inside run
    exact ⟨Nat.le_add_right _ _,fits⟩
  · intro data pos value stop other _ run agree
    obtain ⟨fits,seen,rfl⟩ := guarded_accepts inside run
    rw [guarded_run inside,if_pos agree.1,agree.window fits,seen]
  · intro data pos value stop cut _ run low high
    obtain ⟨fits,_,rfl⟩ := guarded_accepts inside run
    refine ⟨pos,?_⟩
    rw [guarded_run inside,if_neg (by rw [List.length_take]; omega)]

theorem delimited_bind {first : Reader α} {next : α → Reader β}
    (head : Delimited first) (tail : ∀ value, Delimited (next value)) :
    Delimited (first >>= next) := by
  constructor
  · intro data pos result stop bound run
    obtain ⟨value,middle,begun,rest⟩ := bind_accepts.mp run
    have up := head.advances bound begun
    have more := (tail value).advances up.2 rest
    exact ⟨Nat.le_trans up.1 more.1,more.2⟩
  · intro data pos result stop other bound run agree
    obtain ⟨value,middle,begun,rest⟩ := bind_accepts.mp run
    have up := head.advances bound begun
    have more := (tail value).advances up.2 rest
    have before : Agree data other pos middle :=
      ⟨Nat.le_trans more.1 agree.1,fun i low high => agree.2 i low (by omega)⟩
    have after : Agree data other middle stop :=
      ⟨agree.1,fun i low high => agree.2 i (by omega) high⟩
    rw [bind_of_accepts (head.determined bound begun before)]
    exact (tail value).determined up.2 rest after
  · intro data pos result stop cut bound run low high
    obtain ⟨value,middle,begun,rest⟩ := bind_accepts.mp run
    have up := head.advances bound begun
    by_cases early : cut < middle
    · -- the cut falls into what the first reader passed over
      obtain ⟨place,rejected⟩ := head.truncated bound begun low early
      exact ⟨place,bind_of_rejects rejected next⟩
    · have kept := head.determined bound begun (Agree.take up.2 (by omega) : Agree data (data.take cut) pos middle)
      obtain ⟨place,rejected⟩ := (tail value).truncated up.2 rest (by omega) high
      exact ⟨place,(bind_of_accepts kept next).trans rejected⟩

theorem delimited_iterate {body : σ → Reader σ} (each : ∀ state, Delimited (body state))
    (n : Nat) (state : σ) : Delimited (iterate n body state) := by
  induction n generalizing state with
  | zero => exact delimited_pure state
  | succ n ih => exact delimited_bind (each state) ih

/-! Freedom from faults, with at most `left` bytes still to come. -/

def Safe (left : Nat) (reader : Reader α) : Prop :=
  ∀ data pos, pos ≤ data.length → data.length - pos < left →
    ∃ value stop, reader data pos = .ok (value,stop)

theorem safe_pure (left : Nat) (value : α) : Safe left (pure value : Reader α) :=
  fun _ pos _ _ => ⟨some value,pos,rfl⟩

theorem safe_reject (left : Nat) : Safe left (reject : Reader α) :=
  fun _ pos _ _ => ⟨none,pos,rfl⟩

theorem safe_guarded (left : Nat) {n : Nat} {reads : Reader α} {view : Bytes → Option α}
    (inside : Inside n reads view) : Safe left (guarded n reads) := by
  intro data pos _ _
  rw [guarded_run inside]
  split_ifs
  · cases view (window data pos n) with
    | none => exact ⟨none,pos,rfl⟩
    | some value => exact ⟨some value,pos + n,rfl⟩
  · exact ⟨none,pos,rfl⟩

theorem safe_bind {left : Nat} {first : Reader α} {next : α → Reader β}
    (delimited : Delimited first) (head : Safe left first) (tail : ∀ value, Safe left (next value)) :
    Safe left (first >>= next) := by
  intro data pos bound short
  obtain ⟨value,middle,run⟩ := head data pos bound short
  cases value with
  | none => exact ⟨none,middle,bind_of_rejects run next⟩
  | some value =>
    have up := delimited.advances bound run
    rw [bind_of_accepts run]
    exact tail value data middle up.2 (by omega)

/-- A guarded field of at least one byte leaves one byte less to come, which is what
lets a recursion below it run on smaller fuel. -/
theorem safe_guarded_bind {left n : Nat} {reads : Reader α} {view : Bytes → Option α}
    (inside : Inside n reads view) (positive : 0 < n) {next : α → Reader β}
    (tail : ∀ value, Safe left (next value)) : Safe (left + 1) (guarded n reads >>= next) := by
  intro data pos bound short
  rw [bind_run,guarded_run inside]
  split_ifs with fits
  · cases view (window data pos n) with
    | none => exact ⟨none,pos,rfl⟩
    | some value => exact tail value data (pos + n) fits (by omega)
  · exact ⟨none,pos,rfl⟩

theorem safe_iterate {left : Nat} {body : σ → Reader σ} (delimited : ∀ state, Delimited (body state))
    (each : ∀ state, Safe left (body state)) (n : Nat) (state : σ) :
    Safe left (iterate n body state) := by
  induction n generalizing state with
  | zero => exact safe_pure left state
  | succ n ih => exact safe_bind (delimited state) (each state) ih

/-! Readers that agree wherever the first does not fault. -/

def Extends (first second : Reader α) : Prop :=
  ∀ data pos outcome, first data pos = .ok outcome → second data pos = .ok outcome

theorem Extends.refl (reader : Reader α) : Extends reader reader := fun _ _ _ run => run

theorem extends_exhausted (reader : Reader α) : Extends exhausted reader := by
  intro data pos outcome run
  cases run

theorem extends_bind {first second : Reader α} {next after : α → Reader β}
    (head : Extends first second) (tail : ∀ value, Extends (next value) (after value)) :
    Extends (first >>= next) (second >>= after) := by
  intro data pos outcome run
  rw [bind_run] at run ⊢
  cases begun : first data pos with
  | error fault => simp [begun] at run
  | ok reached =>
    rw [head data pos reached begun]
    obtain ⟨value,middle⟩ := reached
    cases value with
    | none => simpa [begun] using run
    | some value => exact tail value data middle outcome (by simpa [begun] using run)

theorem extends_iterate {body other : σ → Reader σ} (each : ∀ state, Extends (body state) (other state))
    (n : Nat) (state : σ) : Extends (iterate n body state) (iterate n other state) := by
  induction n generalizing state with
  | zero => exact Extends.refl _
  | succ n ih => exact extends_bind (each state) ih

/-! What every accepted value satisfies. -/

def Yields (holds : α → Prop) (reader : Reader α) : Prop :=
  ∀ {data pos value stop}, reader data pos = .ok (some value,stop) → holds value

theorem yields_pure {holds : α → Prop} {value : α} (good : holds value) :
    Yields holds (pure value : Reader α) := by
  intro data pos result stop run
  rw [pure_run] at run
  cases run
  exact good

theorem yields_reject (holds : α → Prop) : Yields holds (reject : Reader α) := by
  intro data pos value stop run
  cases run

theorem yields_bind {holds : β → Prop} {first : Reader α} {next : α → Reader β} {middle : α → Prop}
    (head : Yields middle first) (tail : ∀ value, middle value → Yields holds (next value)) :
    Yields holds (first >>= next) := by
  intro data pos result stop run
  obtain ⟨value,_,begun,rest⟩ := bind_accepts.mp run
  exact tail value (head begun) rest

theorem yields_any (reader : Reader α) : Yields (fun _ => True) reader :=
  fun _ => trivial

theorem yields_iterate {holds : σ → Prop} {body : σ → Reader σ}
    (each : ∀ state, holds state → Yields holds (body state)) (n : Nat) {state : σ} (good : holds state) :
    Yields holds (iterate n body state) := by
  induction n generalizing state with
  | zero => exact yields_pure good
  | succ n ih => exact yields_bind (each state good) (fun _ next => ih next)

/-! Reading back what was written. -/

/-- After any prefix and before any suffix, the reader takes exactly `bytes` and
yields `value`. -/
def Reads (reader : Reader α) (bytes : Bytes) (value : α) : Prop :=
  ∀ before after, reader (before ++ bytes ++ after) before.length =
    .ok (some value,before.length + bytes.length)

theorem reads_pure (value : α) : Reads (pure value : Reader α) [] value :=
  fun _ _ => rfl

theorem reads_guarded {n : Nat} {reads : Reader α} {view : Bytes → Option α}
    (inside : Inside n reads view) {bytes : Bytes} {value : α}
    (size : bytes.length = n) (seen : view bytes = some value) :
    Reads (guarded n reads) bytes value := by
  intro before after
  have here : window (before ++ bytes ++ after) before.length n = bytes := by
    rw [window,List.append_assoc,← size,← List.length_append,← List.append_assoc,List.take_left,
      List.drop_left]
  rw [guarded_run inside,if_pos (by simp [size]),here,seen,size]

theorem reads_bind {first : Reader α} {next : α → Reader β} {head tail : Bytes} {value : α} {result : β}
    (begun : Reads first head value) (rest : Reads (next value) tail result) :
    Reads (first >>= next) (head ++ tail) result := by
  intro before after
  have start := begun before (tail ++ after)
  have finish := rest (before ++ head) after
  simp only [List.append_assoc,List.length_append] at start finish ⊢
  rw [bind_of_accepts start,finish,Nat.add_assoc]

theorem reads_map {reader : Reader α} {bytes : Bytes} {value : α} (read : Reads reader bytes value)
    (f : α → β) : Reads (reader >>= fun value => pure (f value)) bytes (f value) := by
  have mapped : Reads (reader >>= fun value => pure (f value)) _ _ := reads_bind read (reads_pure (f value))
  rwa [List.append_nil] at mapped

end Reader

end Library
