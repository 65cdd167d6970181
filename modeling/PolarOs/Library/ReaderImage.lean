import PolarOs.Library.Reader

/-! Three further laws of readers: a reader may be another one followed by a function,
the bytes behind an accepted value may be known, and written bytes may be refused. -/
namespace Library.Reader
open Checked

variable {α β γ σ τ ι : Type}

/-- The reader `second` reads what `first` reads and makes `f` of it. -/
def Follows (f : α → β) (first : Reader α) (second : Reader β) : Prop :=
  second = (do
    let value ← first
    return f value)

theorem follows_run {f : α → β} {first : Reader α} {second : Reader β} (follows : Follows f first second)
    {data : Bytes} {pos stop : Nat} {result : β} :
    second data pos = .ok (some result,stop) ↔ ∃ value, first data pos = .ok (some value,stop) ∧ f value = result := by
  rw [follows,bind_accepts]
  constructor
  · intro accepted
    obtain ⟨value,middle,run,same⟩ := accepted
    cases same
    exact ⟨value,run,rfl⟩
  · intro accepted
    obtain ⟨value,run,rfl⟩ := accepted
    exact ⟨value,stop,run,rfl⟩

theorem follows_pure (f : α → β) (value : α) : Follows f (pure value) (pure (f value)) := rfl

theorem follows_reject (f : α → β) : Follows f reject reject := rfl

theorem follows_exhausted (f : α → β) : Follows f exhausted exhausted := rfl

theorem follows_bind {f : α → β} {g : σ → τ} {first : Reader α} {other : Reader β} {next : α → Reader σ}
    {after : β → Reader τ} (head : Follows f first other) (tail : ∀ value, Follows g (next value) (after (f value))) :
    Follows g (first >>= next) (other >>= after) := by
  funext data pos
  rw [head,bind_run,bind_run,bind_run,bind_run]
  cases first data pos with
  | error fault => rfl
  | ok outcome =>
    obtain ⟨value,middle⟩ := outcome
    cases value with
    | none => rfl
    | some value => exact congrFun (congrFun (tail value) data) middle

theorem follows_same {g : σ → τ} (first : Reader α) {next : α → Reader σ} {after : α → Reader τ}
    (tail : ∀ value, Follows g (next value) (after value)) : Follows g (first >>= next) (first >>= after) := by
  have same : Follows id first first := by
    funext data pos
    rw [bind_run]
    cases first data pos with
    | error fault => rfl
    | ok outcome =>
      obtain ⟨value,middle⟩ := outcome
      cases value <;> rfl
  exact follows_bind same tail

theorem follows_iterate {f : σ → τ} {body : σ → Reader σ} {other : τ → Reader τ}
    (each : ∀ state, Follows f (body state) (other (f state))) (n : Nat) (state : σ) :
    Follows f (iterate n body state) (iterate n other (f state)) := by
  induction n generalizing state with
  | zero => exact follows_pure f state
  | succ n ih => exact follows_bind (each state) ih

/-! The bytes behind an accepted value. -/

def Spans (reader : Reader α) (holds : α → Bytes → Prop) : Prop :=
  ∀ data pos value stop, pos ≤ data.length → reader data pos = .ok (some value,stop) →
    ∃ bytes, data.drop pos = bytes ++ data.drop stop ∧ pos + bytes.length = stop ∧ holds value bytes

theorem spans_pure {holds : α → Bytes → Prop} {value : α} (good : holds value []) :
    Spans (pure value : Reader α) holds := by
  intro data pos result stop _ run
  rw [pure_run] at run
  cases run
  exact ⟨[],rfl,rfl,good⟩

theorem spans_reject (holds : α → Bytes → Prop) : Spans (reject : Reader α) holds := by
  intro data pos value stop _ run
  cases run

theorem spans_exhausted (holds : α → Bytes → Prop) : Spans (exhausted : Reader α) holds := by
  intro data pos value stop _ run
  cases run

theorem drop_le {data bytes : Bytes} {pos stop : Nat} (bound : pos ≤ data.length)
    (split : data.drop pos = bytes ++ data.drop stop) (length : pos + bytes.length = stop) :
    stop ≤ data.length := by
  have sizes := congrArg List.length split
  simp only [List.length_append,List.length_drop] at sizes
  omega

theorem spans_bind {first : Reader α} {next : α → Reader β} {early : α → Bytes → Prop} {holds : β → Bytes → Prop}
    (head : Spans first early)
    (tail : ∀ value front, early value front → Spans (next value) fun result back => holds result (front ++ back)) :
    Spans (first >>= next) holds := by
  intro data pos result stop bound run
  obtain ⟨value,middle,begun,rest⟩ := bind_accepts.mp run
  obtain ⟨front,split,length,good⟩ := head data pos value middle bound begun
  obtain ⟨back,later,sum,whole⟩ := tail value front good data middle result stop (drop_le bound split length) rest
  refine ⟨front ++ back,?_,?_,whole⟩
  · rw [split,later,List.append_assoc]
  · rw [List.length_append]
    omega

theorem spans_guarded {n : Nat} {reads : Reader α} {view : Bytes → Option α} (inside : Inside n reads view) :
    Spans (guarded n reads) fun value bytes => bytes.length = n ∧ view bytes = some value := by
  intro data pos value stop _ run
  obtain ⟨fits,seen,rfl⟩ := guarded_accepts inside run
  have length : (window data pos n).length = n := by
    simp only [window,List.length_drop,List.length_take]
    omega
  refine ⟨window data pos n,?_,by rw [length],length,seen⟩
  rw [window,List.drop_take,Nat.add_sub_cancel_left,← List.drop_drop,List.take_append_drop]

theorem spans_iterate {body : σ → Reader σ} {item : σ → ι → σ} {encode : ι → Bytes} {good : ι → Prop}
    (each : ∀ state, Spans (body state) fun next bytes => ∃ i, next = item state i ∧ bytes = encode i ∧ good i)
    (n : Nat) (state : σ) :
    Spans (iterate n body state) fun last bytes => ∃ items : List ι, items.length = n ∧
      last = items.foldl item state ∧ bytes = items.flatMap encode ∧ ∀ i ∈ items, good i := by
  induction n generalizing state with
  | zero =>
    apply spans_pure
    exact ⟨[],rfl,rfl,rfl,by simp⟩
  | succ n ih =>
    apply spans_bind (each state)
    intro next front made
    obtain ⟨i,rfl,rfl,first⟩ := made
    intro data pos last stop bound run
    obtain ⟨back,split,length,items,count,rfl,rfl,rest⟩ := ih (item state i) data pos last stop bound run
    refine ⟨items.flatMap encode,split,length,i::items,by rw [List.length_cons,count],rfl,rfl,?_⟩
    exact List.forall_mem_cons.mpr ⟨first,rest⟩

/-! Written bytes that are either read back or refused. -/

def Refuses (reader : Reader α) (bytes : Bytes) : Prop :=
  ∀ before after, ∃ place, reader (before ++ bytes ++ after) before.length = .ok (none,place)

/-- The outcome of a reader on bytes, whatever surrounds them. -/
def Gives (reader : Reader α) (bytes : Bytes) : Option α → Prop
  | some value => Reads reader bytes value
  | none => Refuses reader bytes

theorem gives_pure (value : α) : Gives (pure value : Reader α) [] (some value) := reads_pure value

theorem gives_guarded {n : Nat} {reads : Reader α} {view : Bytes → Option α} (inside : Inside n reads view)
    {bytes : Bytes} (size : bytes.length = n) : Gives (guarded n reads) bytes (view bytes) := by
  cases seen : view bytes with
  | some value => exact reads_guarded inside size seen
  | none =>
    intro before after
    have here : window (before ++ bytes ++ after) before.length n = bytes := by
      rw [window,List.append_assoc,← size,← List.length_append,← List.append_assoc,List.take_left,
        List.drop_left]
    refine ⟨before.length,?_⟩
    rw [guarded_run inside,if_pos (by simp [size]),here,seen]

theorem gives_bind {first : Reader α} {next : α → Reader β} {head tail : Bytes} {outcome : Option α}
    {result : α → Option β} (begun : Gives first head outcome)
    (rest : ∀ value, outcome = some value → Gives (next value) tail (result value)) :
    Gives (first >>= next) (head ++ tail) (outcome.bind result) := by
  cases outcome with
  | none =>
    intro before after
    obtain ⟨place,refused⟩ := begun before (tail ++ after)
    refine ⟨place,bind_of_rejects ?_ next⟩
    rw [← refused]
    simp only [List.append_assoc]
  | some value =>
    have later := rest value rfl
    rw [Option.bind_some]
    cases final : result value with
    | some last =>
      rw [final] at later
      exact reads_bind begun later
    | none =>
      rw [final] at later
      intro before after
      have start := begun before (tail ++ after)
      obtain ⟨place,refused⟩ := later (before ++ head) after
      refine ⟨place,?_⟩
      simp only [List.append_assoc,List.length_append] at start refused ⊢
      rw [bind_of_accepts start,refused]

theorem gives_after {first : Reader α} {next : α → Reader β} {head tail : Bytes} {value : α} {result : Option β}
    (begun : Reads first head value) (rest : Gives (next value) tail result) :
    Gives (first >>= next) (head ++ tail) result := by
  have started : Gives first head (some value) := begun
  have both : Gives (first >>= next) (head ++ tail) ((some value).bind fun _ => result) := by
    apply gives_bind started
    intro other same
    cases same
    exact rest
  exact both

theorem gives_iterate {body : σ → Reader σ} {encode : ι → Bytes} {step : σ → ι → Option σ} {items : List ι}
    (each : ∀ item ∈ items, ∀ state, Gives (body state) (encode item) (step state item)) (state : σ) :
    Gives (iterate items.length body state) (items.flatMap encode) (items.foldlM step state) := by
  induction items generalizing state with
  | nil => exact gives_pure state
  | cons item items ih =>
    rw [List.foldlM_cons]
    apply gives_bind (each item List.mem_cons_self state)
    intro next _
    exact ih (fun other member => each other (List.mem_cons_of_mem _ member)) next

end Library.Reader
