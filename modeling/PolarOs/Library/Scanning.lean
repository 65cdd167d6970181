import PolarOs.Library.Checked

/-! Readers that move a position through an input, and loops that end because each round moves it.
-/
namespace Library.Scanning
open Library.Checked

variable {α β σ : Type} {len : Nat}

/-- `while pos < items.len() && keep(items[pos]) { body; pos += 1 }`. -/
def scan (keep : α → Bool) (body : α → σ → Checked σ) (items : List α) (state : σ) (pos : Nat) :
    Checked (σ × Nat) :=
  if _inside : pos < items.length then do
    let item ← index items pos
    if keep item then
      let state ← body item state
      scan keep body items state (pos + 1)
    else return (state,pos)
  else return (state,pos)
termination_by items.length - pos

theorem scan_ok {keep : α → Bool} {body : α → σ → Checked σ} {items : List α}
    (total : ∀ item state, keep item = true → ∃ next, body item state = .ok next) (state : σ) (pos : Nat)
    (inside : pos ≤ items.length) :
    ∃ next stop, scan keep body items state pos = .ok (next,stop) ∧ pos ≤ stop ∧ stop ≤ items.length := by
  induction left : items.length - pos generalizing pos state with
  | zero =>
    rw [scan,dif_neg (by omega)]
    exact ⟨state,pos,rfl,Nat.le_refl _,inside⟩
  | succ left ih =>
    rw [scan,dif_pos (by omega),index_lt (by omega),ok_bind]
    split
    next kept =>
      obtain ⟨middle,ran⟩ := total _ state kept
      rw [ran,ok_bind]
      obtain ⟨next,stop,rest,after,within⟩ := ih middle (pos + 1) (by omega) (by omega)
      exact ⟨next,stop,rest,by omega,within⟩
    next => exact ⟨state,pos,rfl,Nat.le_refl _,inside⟩

/-- A reader that may give nothing; it keeps the position it came to either way. -/
abbrev Cursor := OptionT (StateT Nat Checked)

/-- From a position in the input the reader comes to one in the input, not before it. -/
def Stays (len : Nat) (read : Cursor α) : Prop :=
  ∀ pos ≤ len, ∃ result next, read.run.run pos = .ok (result,next) ∧ pos ≤ next ∧ next ≤ len

/-- It has moved when it gives something. -/
def Consumes (len : Nat) (read : Cursor α) : Prop :=
  ∀ pos ≤ len, ∃ result next, read.run.run pos = .ok (result,next) ∧ pos ≤ next ∧ next ≤ len ∧
    (result.isSome → pos < next)

theorem Stays.pure (value : α) : Stays len (pure value) := fun pos inside => ⟨some value,pos,rfl,Nat.le_refl _,inside⟩

theorem Consumes.stays {read : Cursor α} (consumes : Consumes len read) : Stays len read := by
  intro pos inside
  obtain ⟨result,next,ran,after,within,_⟩ := consumes pos inside
  exact ⟨result,next,ran,after,within⟩

theorem run_bind (read : Cursor α) (rest : α → Cursor β) {pos next : Nat} {result : Option α}
    (ran : read.run.run pos = .ok (result,next)) :
    (read >>= rest).run.run pos = result.elim (.ok (none,next)) fun value => (rest value).run.run next := by
  rw [OptionT.run_bind,Option.elimM,StateT.run_bind,ran]
  cases result <;> rfl

theorem Consumes.bind {read : Cursor α} {rest : α → Cursor β} (first : Consumes len read)
    (second : ∀ value, Stays len (rest value)) : Consumes len (read >>= rest) := by
  intro pos inside
  obtain ⟨result,middle,ran,after,within,moved⟩ := first pos inside
  rw [run_bind read rest ran]
  cases result with
  | none => exact ⟨none,middle,rfl,after,within,fun some => nomatch some⟩
  | some value =>
    obtain ⟨last,next,again,later,end_within⟩ := second value middle within
    have strict := moved rfl
    exact ⟨last,next,again,by omega,end_within,fun _ => by omega⟩

/-- How a round of a loop ends: with a `break`, or with the next round. -/
inductive Flow (σ : Type) where
  | leave (state : σ)
  | again (state : σ)

/-- `while guard { round }`, for at most as many rounds as there is fuel. -/
def repeatWhile (guard : σ → Bool) (round : σ → Checked (Flow σ)) (fuel : Nat) (state : σ) : Checked σ :=
  if guard state then
    match fuel with
    | 0 => .error .fuel
    | fuel + 1 => do
      match ← round state with
      | .leave state => return state
      | .again state => repeatWhile guard round fuel state
  else return state

/-- A round returns, and a position below the end moves on when there is a next round. -/
def Advances (position : σ → Nat) (len : Nat) (round : σ → Checked (Flow σ)) (state : σ) : Prop :=
  ∃ flow, round state = .ok flow ∧
    match flow with
    | .leave next => position state ≤ position next ∧ position next ≤ len
    | .again next => position state < position next ∧ position next ≤ len

theorem repeatWhile_ok {guard : σ → Bool} {round : σ → Checked (Flow σ)} {position : σ → Nat}
    (guarded : ∀ state, guard state = true ↔ position state < len)
    (each : ∀ state, position state < len → Advances position len round state) {fuel : Nat} {state : σ}
    (enough : len ≤ position state + fuel) (inside : position state ≤ len) :
    ∃ last, repeatWhile guard round fuel state = .ok last ∧ position last ≤ len := by
  induction fuel generalizing state with
  | zero =>
    rw [repeatWhile,if_neg (by rw [guarded]; omega)]
    exact ⟨state,rfl,inside⟩
  | succ fuel ih =>
    rw [repeatWhile]
    split
    next more =>
      obtain ⟨flow,ran,moved⟩ := each state ((guarded state).mp more)
      rw [ran]
      cases flow with
      | leave next => exact ⟨next,rfl,moved.2⟩
      | again next => exact ih (by omega) moved.2
    next => exact ⟨state,rfl,inside⟩

end Library.Scanning
