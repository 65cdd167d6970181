import PolarOs.Library.Scanning
import PolarOs.Gui.Wallpaper

/-! The paths of the wallpaper (`parse_path_to_polygon` in `gui/wallpaper.rs`). A letter chooses the
command, and a command reads its numbers again and again until a letter follows. -/
namespace PolarOs.Gui.PathParser
open Library Library.Checked Library.Scanning

abbrev Point := Float32 × Float32

/-- `b'c'`. -/
def byteOf (c : Char) : UInt8 := UInt8.ofNat c.toNat

def isDigit (byte : UInt8) : Bool := byteOf '0' ≤ byte && byte ≤ byteOf '9'

def isAsciiAlphabetic (byte : UInt8) : Bool :=
  byteOf 'A' ≤ byte && byte ≤ byteOf 'Z' || byteOf 'a' ≤ byte && byte ≤ byteOf 'z'

def isSeparator (byte : UInt8) : Bool := byte = byteOf ',' || byte = byteOf ' '

/-- `pos < bytes.len() && bytes[pos] == b'c'`. -/
def isAt (bytes : List UInt8) (pos : Nat) (c : Char) : Bool := bytes[pos]? = some (byteOf c)

def digitValue (byte : UInt8) : Checked Float32 := do
  let digit ← Checked.sub byte.toNat (byteOf '0').toNat
  return Float32.ofNat digit

def parseSign (bytes : List UInt8) : Bool × Nat :=
  if isAt bytes 0 '-' then (true,1)
  else if isAt bytes 0 '+' then (false,1)
  else (false,0)

def wholeDigit (byte : UInt8) (result : Float32) : Checked Float32 := do
  let digit ← digitValue byte
  return result * 10.0 + digit

/-- A digit after the point, with a tenth of the weight before. -/
def fractionDigit (byte : UInt8) (state : Float32 × Float32) : Checked (Float32 × Float32) := do
  let (result,frac) := state
  let digit ← digitValue byte
  return (result + digit * frac,frac * 0.1)

def parseFraction (bytes : List UInt8) (result : Float32) (i : Nat) : Checked Float32 :=
  if isAt bytes i '.' then do
    let ((result,_),_) ← scan isDigit fractionDigit bytes (result,0.1) (i + 1)
    return result
  else return result

def parseF32 (bytes : List UInt8) : Checked Float32 := do
  let (neg,i) := parseSign bytes
  let (result,i) ← scan isDigit wholeDigit bytes 0.0 i
  let result ← parseFraction bytes result i
  return if neg then -result else result

def skipWhile (keep : UInt8 → Bool) (bytes : List UInt8) (pos : Nat) : Checked (Unit × Nat) :=
  scan keep (fun _ _ => .ok ()) bytes () pos

def skipFraction (bytes : List UInt8) (pos : Nat) : Checked (Unit × Nat) :=
  if isAt bytes pos '.' then skipWhile isDigit bytes (pos + 1) else .ok ((),pos)

def nextNumber (bytes : List UInt8) : Cursor Float32 := fun pos => do
  let (_,pos) ← skipWhile isSeparator bytes pos
  if pos ≥ bytes.length then return (none,pos)
  else
    let byte ← index bytes pos
    if isAsciiAlphabetic byte then return (none,pos)
    else
      let start := pos
      let pos := if byte = byteOf '-' ∨ byte = byteOf '+' then pos + 1 else pos
      let (_,pos) ← skipWhile isDigit bytes pos
      let (_,pos) ← skipFraction bytes pos
      if pos = start then return (none,pos)
      else
        let digits ← slice bytes start pos
        let number ← parseF32 digits
        return (some number,pos)

def read2 (bytes : List UInt8) : Cursor Point := do
  let a ← nextNumber bytes
  let b ← nextNumber bytes
  return (a,b)

def read6 (bytes : List UInt8) : Cursor (Point × Point × Point) := do
  let a ← nextNumber bytes
  let b ← nextNumber bytes
  let c ← nextNumber bytes
  let d ← nextNumber bytes
  let e ← nextNumber bytes
  let f ← nextNumber bytes
  return ((a,b),(c,d),(e,f))

def bezierSteps : Nat := 8

def cubicBezier (t : Float32) (p0 p1 p2 p3 : Point) : Point :=
  let u := 1.0 - t
  let uu := u * u
  let uuu := uu * u
  let tt := t * t
  let ttt := tt * t
  (uuu * p0.1 + 3.0 * uu * t * p1.1 + 3.0 * u * tt * p2.1 + ttt * p3.1,
    uuu * p0.2 + 3.0 * uu * t * p1.2 + 3.0 * u * tt * p2.2 + ttt * p3.2)

section

variable (scale ox oy : Float32)

def toScreen (p : Point) : Vertex := ((p.1 * scale + ox).toInt16,(p.2 * scale + oy).toInt16)

def sampleBezier (verts : List Vertex) (p0 p1 p2 p3 : Point) : List Vertex :=
  verts ++ (List.range' 1 bezierSteps).map fun i =>
    toScreen scale ox oy (cubicBezier (Float32.ofNat i / Float32.ofNat bezierSteps) p0 p1 p2 p3)

structure PathState where
  pos : Nat
  cursor : Point
  pathStart : Point
  verts : List Vertex
  cmd : UInt8

def PathState.start : PathState := ⟨0,(0.0,0.0),(0.0,0.0),[],byteOf 'M'⟩

/-- The vertex at the cursor. -/
def PathState.mark (state : PathState) : PathState :=
  {state with verts := state.verts ++ [toScreen scale ox oy state.cursor]}

/-- A curve from the cursor to the end, where the cursor then is. -/
def PathState.curve (cp1 cp2 stop : Point) (state : PathState) : PathState :=
  {state with verts := sampleBezier scale ox oy state.verts state.cursor cp1 cp2 stop, cursor := stop}

/-- `if let Some(value) = read(bytes, &mut pos) { update } else { break; }`. -/
def onRead {α : Type} (read : Cursor α) (state : PathState) (update : α → PathState → PathState) :
    Checked (Flow PathState) := do
  match ← read.run.run state.pos with
  | (some value,pos) => return .again (update value {state with pos := pos})
  | (none,pos) => return .leave {state with pos := pos}

def plus (p d : Point) : Point := (p.1 + d.1,p.2 + d.2)

def runCommand (bytes : List UInt8) (state : PathState) : Checked (Flow PathState) :=
  match Char.ofNat state.cmd.toNat with
  | 'M' => onRead (read2 bytes) state fun p state =>
    PathState.mark scale ox oy {state with cursor := p, pathStart := p, cmd := byteOf 'L'}
  | 'm' => onRead (read2 bytes) state fun d state =>
    let p := plus state.cursor d
    PathState.mark scale ox oy {state with cursor := p, pathStart := p, cmd := byteOf 'l'}
  | 'c' => onRead (read6 bytes) state fun (d1,d2,d) state =>
    state.curve scale ox oy (plus state.cursor d1) (plus state.cursor d2) (plus state.cursor d)
  | 'C' => onRead (read6 bytes) state fun (p1,p2,p) state => state.curve scale ox oy p1 p2 p
  | 'l' => onRead (read2 bytes) state fun d state =>
    PathState.mark scale ox oy {state with cursor := plus state.cursor d}
  | 'L' => onRead (read2 bytes) state fun p state => PathState.mark scale ox oy {state with cursor := p}
  | _ => .ok (.again {state with pos := state.pos + 1})

/-- The body of the loop over the path. -/
def parseRound (bytes : List UInt8) (state : PathState) : Checked (Flow PathState) := do
  let ch ← index bytes state.pos
  if isAsciiAlphabetic ch then
    let state := {state with cmd := ch, pos := state.pos + 1}
    if ch = byteOf 'Z' ∨ ch = byteOf 'z' then return .leave state else return .again state
  else runCommand scale ox oy bytes state

def parsePathToPolygon (fuel : Nat) (bytes : List UInt8) : Checked (List Vertex) := do
  let state ← repeatWhile (fun state => decide (state.pos < bytes.length)) (parseRound scale ox oy bytes) fuel .start
  return state.verts

end

/-! The numbers. -/

variable {bytes : List UInt8} {pos : Nat} {c : Char}

theorem isAt_lt (here : isAt bytes pos c = true) : pos < bytes.length :=
  (List.getElem?_eq_some_iff.mp (of_decide_eq_true here)).1

theorem digitValue_ok {byte : UInt8} (digit : isDigit byte = true) : ∃ value, digitValue byte = .ok value := by
  rw [isDigit,Bool.and_eq_true,decide_eq_true_eq,UInt8.le_iff_toNat_le] at digit
  rw [digitValue,Checked.sub,if_pos digit.1]
  exact ⟨_,rfl⟩

theorem parseSign_le (bytes : List UInt8) : (parseSign bytes).2 ≤ bytes.length := by
  rw [parseSign]
  split
  next minus => exact isAt_lt minus
  next =>
    split
    next plus => exact isAt_lt plus
    next => exact Nat.zero_le _

theorem parseFraction_ok (result : Float32) (pos : Nat) : ∃ number, parseFraction bytes result pos = .ok number := by
  rw [parseFraction]
  split
  next point =>
    have total (byte : UInt8) (state : Float32 × Float32) (digit : isDigit byte = true) :
        ∃ next, fractionDigit byte state = .ok next := by
      obtain ⟨value,ran⟩ := digitValue_ok digit
      rw [fractionDigit,ran]
      exact ⟨_,rfl⟩
    obtain ⟨state,stop,ran,_⟩ := scan_ok total (result,0.1) (pos + 1) (isAt_lt point)
    rw [ran]
    exact ⟨_,rfl⟩
  next => exact ⟨_,rfl⟩

theorem parseF32_ok (bytes : List UInt8) : ∃ number, parseF32 bytes = .ok number := by
  have total (byte : UInt8) (result : Float32) (digit : isDigit byte = true) :
      ∃ next, wholeDigit byte result = .ok next := by
    obtain ⟨value,ran⟩ := digitValue_ok digit
    rw [wholeDigit,ran]
    exact ⟨_,rfl⟩
  have inside := parseSign_le bytes
  rw [parseF32]
  generalize parseSign bytes = sign at *
  obtain ⟨whole,stop,ran,_⟩ := scan_ok total 0.0 sign.2 inside
  obtain ⟨number,rest⟩ := parseFraction_ok whole stop
  simp only [ran,ok_bind]
  rw [rest]
  exact ⟨_,rfl⟩

theorem skipWhile_ok (keep : UInt8 → Bool) (inside : pos ≤ bytes.length) :
    ∃ stop, skipWhile keep bytes pos = .ok ((),stop) ∧ pos ≤ stop ∧ stop ≤ bytes.length := by
  obtain ⟨_,stop,ran,within⟩ := scan_ok (fun _ _ _ => ⟨(),rfl⟩) () pos inside
  exact ⟨stop,ran,within⟩

theorem skipFraction_ok (inside : pos ≤ bytes.length) :
    ∃ stop, skipFraction bytes pos = .ok ((),stop) ∧ pos ≤ stop ∧ stop ≤ bytes.length := by
  rw [skipFraction]
  split
  next point =>
    obtain ⟨stop,ran,after,within⟩ := skipWhile_ok isDigit (isAt_lt point)
    exact ⟨stop,ran,by omega,within⟩
  next => exact ⟨pos,rfl,Nat.le_refl _,inside⟩

/-- A sign, a digit or a point is always consumed, and anything else gives no number. -/
theorem nextNumber_consumes (bytes : List UInt8) : Consumes bytes.length (nextNumber bytes) := by
  intro pos inside
  obtain ⟨start,ran,after,within⟩ := skipWhile_ok isSeparator inside
  change ∃ result next, nextNumber bytes pos = .ok (result,next) ∧ _
  rw [nextNumber,ran,ok_bind]
  dsimp only
  split
  next => exact ⟨none,start,rfl,after,within,nofun⟩
  next more =>
    rw [index_lt (by omega),ok_bind]
    split
    next => exact ⟨none,start,rfl,after,within,nofun⟩
    next =>
      generalize entered : (if bytes[start] = byteOf '-' ∨ bytes[start] = byteOf '+' then start + 1 else start) = next
      have near : start ≤ next ∧ next ≤ bytes.length := by split at entered <;> omega
      obtain ⟨whole,first,later,bound⟩ := skipWhile_ok isDigit near.2
      obtain ⟨stop,second,last,limit⟩ := skipFraction_ok bound
      rw [first,ok_bind]
      dsimp only
      rw [second,ok_bind]
      dsimp only
      split
      next => exact ⟨none,stop,rfl,by omega,limit,nofun⟩
      next moved =>
        obtain ⟨number,parsed⟩ := parseF32_ok ((bytes.take stop).drop start)
        rw [slice_ok (by omega) limit,ok_bind,parsed]
        exact ⟨some number,stop,rfl,by omega,limit,fun _ => by omega⟩

theorem read2_consumes (bytes : List UInt8) : Consumes bytes.length (read2 bytes) :=
  (nextNumber_consumes bytes).bind fun _ => ((nextNumber_consumes bytes).bind fun _ => .pure _).stays

theorem read6_consumes (bytes : List UInt8) : Consumes bytes.length (read6 bytes) := by
  have next := nextNumber_consumes bytes
  refine next.bind fun _ => (next.bind fun _ => (next.bind fun _ => ?_).stays).stays
  exact (next.bind fun _ => (next.bind fun _ => (next.bind fun _ => .pure _).stays).stays).stays

/-! The path. -/

theorem onRead_advances {α : Type} {read : Cursor α} {state : PathState} {update : α → PathState → PathState}
    (consumes : Consumes bytes.length read) (inside : state.pos ≤ bytes.length)
    (kept : ∀ value state, (update value state).pos = state.pos) :
    Advances PathState.pos bytes.length (fun state => onRead read state update) state := by
  obtain ⟨result,next,ran,after,within,moved⟩ := consumes state.pos inside
  rw [Advances]
  simp only [onRead,ran,ok_bind]
  cases result with
  | none => exact ⟨_,rfl,after,within⟩
  | some value => exact ⟨_,rfl,by rw [kept]; exact moved rfl,by rw [kept]; exact within⟩

variable (scale ox oy : Float32)

theorem runCommand_advances {state : PathState} (inside : state.pos < bytes.length) :
    Advances PathState.pos bytes.length (runCommand scale ox oy bytes) state := by
  have pair := read2_consumes bytes
  have curve := read6_consumes bytes
  have near := Nat.le_of_lt inside
  rw [Advances,runCommand]
  split
  · exact onRead_advances pair near fun _ _ => rfl
  · exact onRead_advances pair near fun _ _ => rfl
  · exact onRead_advances curve near fun _ _ => rfl
  · exact onRead_advances curve near fun _ _ => rfl
  · exact onRead_advances pair near fun _ _ => rfl
  · exact onRead_advances pair near fun _ _ => rfl
  · exact ⟨_,rfl,Nat.lt_succ_self _,inside⟩

theorem parseRound_advances {state : PathState} (inside : state.pos < bytes.length) :
    Advances PathState.pos bytes.length (parseRound scale ox oy bytes) state := by
  have command := runCommand_advances scale ox oy inside
  rw [Advances] at command ⊢
  rw [parseRound,index_lt inside,ok_bind]
  split
  next =>
    split
    next => exact ⟨_,rfl,Nat.le_succ _,inside⟩
    next => exact ⟨_,rfl,Nat.lt_succ_self _,inside⟩
  next => exact command

theorem path_parser_ends (bytes : List UInt8) : Consumes bytes.length (nextNumber bytes) ∧
    Consumes bytes.length (read2 bytes) ∧ Consumes bytes.length (read6 bytes) ∧
    (∀ state, state.pos < bytes.length → Advances PathState.pos bytes.length (parseRound scale ox oy bytes) state) ∧
    ∃ verts, parsePathToPolygon scale ox oy bytes.length bytes = .ok verts := by
  have rounds (state : PathState) := @parseRound_advances bytes scale ox oy state
  refine ⟨nextNumber_consumes bytes,read2_consumes bytes,read6_consumes bytes,rounds,?_⟩
  obtain ⟨last,ran,_⟩ := @repeatWhile_ok PathState bytes.length (fun state => decide (state.pos < bytes.length)) _ _
    (fun _ => decide_eq_true_iff) rounds bytes.length .start (Nat.le_add_left _ _) (Nat.zero_le _)
  rw [parsePathToPolygon,ran]
  exact ⟨_,rfl⟩

end PolarOs.Gui.PathParser
