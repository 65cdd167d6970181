import PolarOs.Gui.Framebuffer
import PolarOs.Library.LineWalk

/-! Lines (`draw_line` in `gui/primitives.rs`). The loop has no counter: it ends on the end
point, which the walk of the library reaches. -/
namespace PolarOs.Gui
open Library Library.Checked Library.Signed Library.LineWalk

/-- The error and a coordinate, advanced together. -/
def advance (moves : Prop) [Decidable moves] (err change coordinate step : Int16) : Checked (Int16 × Int16) :=
  if moves then do
    let err ← add err change
    let coordinate ← add coordinate step
    return (err,coordinate)
  else .ok (err,coordinate)

/-- The loop, with the pixels that it sets. -/
def lineLoop (x1 y1 dx dy sx sy : Int16) (color : UInt8) :
    Nat → Int16 → Int16 → Int16 → Framebuffer → Checked (List (Int16 × Int16) × Framebuffer)
  | 0,_,_,_,_ => .error .fuel
  | fuel + 1,x0,y0,err,fb => do
    let fb := fb.setPixel x0 y0 color
    if x0 = x1 ∧ y0 = y1 then return ([(x0,y0)],fb)
    let e2 ← mul 2 err
    let (err,nextX) ← advance (dy ≤ e2) err dy x0 sx
    let (err,nextY) ← advance (e2 ≤ dx) err dx y0 sy
    let (pixels,fb) ← lineLoop x1 y1 dx dy sx sy color fuel nextX nextY err fb
    return ((x0,y0)::pixels,fb)

def drawLine (fuel : Nat) (x0 y0 x1 y1 : Int16) (color : UInt8) (fb : Framebuffer) :
    Checked (List (Int16 × Int16) × Framebuffer) := do
  let dx ← abs (← sub x1 x0)
  let dy ← neg (← abs (← sub y1 y0))
  let sx : Int16 := if x0 < x1 then 1 else -1
  let sy : Int16 := if y0 < y1 then 1 else -1
  let err ← add dx dy
  lineLoop x1 y1 dx dy sx sy color fuel x0 y0 err fb

/-- One step towards the end point, or none. -/
def Nearer (stop current next : Int) : Prop :=
  next = current ∨ current < stop ∧ next = current + 1 ∨ stop < current ∧ next = current - 1

/-- The pixels of a line from one end point to the other. -/
structure LinePixels (x0 y0 x1 y1 : Int16) (pixels : List (Int16 × Int16)) : Prop where
  count : pixels.length = max (x1.toInt - x0.toInt).natAbs (y1.toInt - y0.toInt).natAbs + 1
  first : pixels.head? = some (x0,y0)
  last : pixels.getLast? = some (x1,y1)
  steps : pixels.IsChain fun pixel next =>
    Nearer x1.toInt pixel.1.toInt next.1.toInt ∧ Nearer y1.toInt pixel.2.toInt next.2.toInt
  inside : ∀ pixel ∈ pixels,
    (min x0.toInt x1.toInt ≤ pixel.1.toInt ∧ pixel.1.toInt ≤ max x0.toInt x1.toInt) ∧
      min y0.toInt y1.toInt ≤ pixel.2.toInt ∧ pixel.2.toInt ≤ max y0.toInt y1.toInt

/-! The walk from the start in the direction of the end. -/

def side (start stop : Int) : Int := if start < stop then 1 else -1

theorem side_arrives (start stop : Int) : start + side start stop * |stop - start| = stop := by
  rw [side]
  split
  next up => rw [abs_of_nonneg (by omega)]; omega
  next down => rw [abs_of_nonpos (by omega)]; omega

theorem side_between {start stop steps : Int} (forward : 0 ≤ steps) (few : steps ≤ |stop - start|) :
    min start stop ≤ start + side start stop * steps ∧ start + side start stop * steps ≤ max start stop := by
  rw [side]
  split
  next up =>
    rw [abs_of_nonneg (by omega)] at few
    omega
  next down =>
    rw [abs_of_nonpos (by omega)] at few
    omega

theorem side_inj {start stop steps other : Int} :
    start + side start stop * steps = start + side start stop * other ↔ steps = other := by
  rw [side]
  split <;> omega

theorem advance_ok {moves : Prop} [Decidable moves] {err change coordinate step : Int16}
    (errFits : moves → -2^15 ≤ err.toInt + change.toInt ∧ err.toInt + change.toInt < 2^15)
    (fits : moves → -2^15 ≤ coordinate.toInt + step.toInt ∧ coordinate.toInt + step.toInt < 2^15) :
    ∃ err' next, advance moves err change coordinate step = .ok (err',next) ∧
      err'.toInt = err.toInt + (if moves then change.toInt else 0) ∧
      next.toInt = coordinate.toInt + if moves then step.toInt else 0 := by
  rw [advance]
  split
  next moved =>
    obtain ⟨err',added,sum⟩ := checked_in_range (errFits moved).1 (errFits moved).2
    obtain ⟨next,shifted,place⟩ := checked_in_range (fits moved).1 (fits moved).2
    exact ⟨err',next,by rw [Signed.add,added,ok_bind,Signed.add,shifted]; rfl,sum,place⟩
  next => exact ⟨err,coordinate,rfl,(Int.add_zero _).symm,(Int.add_zero _).symm⟩

def reach (start stop : Int16) : Int := |stop.toInt - start.toInt|

theorem reach_eq (start stop : Int16) : reach start stop = (stop.toInt - start.toInt).natAbs := Int.abs_eq_natAbs _

theorem reach_nonneg (start stop : Int16) : 0 ≤ reach start stop := abs_nonneg _

/-- What `draw_line` computes before its loop. -/
structure Slope (x0 y0 x1 y1 dx dy sx sy : Int16) : Prop where
  across : dx.toInt = reach x0 x1
  down : dy.toInt = -reach y0 y1
  column : sx.toInt = side x0.toInt x1.toInt
  row : sy.toInt = side y0.toInt y1.toInt
  narrow : reach x0 x1 ≤ 10922
  short : reach y0 y1 ≤ 10922

def place (x0 y0 x1 y1 : Int16) (point : Int × Int) : Int × Int :=
  (x0.toInt + side x0.toInt x1.toInt * point.1,y0.toInt + side y0.toInt y1.toInt * point.2)

def point (x0 y0 x1 y1 : Int16) (n : Nat) : Int × Int := walk (reach x0 x1) (reach y0 y1) n

/-- The loop stands at a point of the walk. -/
structure At (x0 y0 x1 y1 : Int16) (n : Nat) (x y err : Int16) : Prop where
  here : (x.toInt,y.toInt) = place x0 y0 x1 y1 (point x0 y0 x1 y1 n)
  error : err.toInt = error (reach x0 x1) (reach y0 y1) (point x0 y0 x1 y1 n)

variable {x0 y0 x1 y1 dx dy sx sy x y err : Int16} {n fuel remaining : Nat} {color : UInt8}

theorem onWalk_point (x0 y0 x1 y1 : Int16) (n : Nat) : OnWalk (reach x0 x1) (reach y0 y1) n (point x0 y0 x1 y1 n) :=
  onWalk (reach_nonneg _ _) (reach_nonneg _ _) n

theorem At.arrived_iff (stands : At x0 y0 x1 y1 n x y err) :
    x = x1 ∧ y = y1 ↔ (n : Int) = max (reach x0 x1) (reach y0 y1) := by
  rw [← (onWalk_point x0 y0 x1 y1 n).arrives (reach_nonneg _ _) (reach_nonneg _ _)]
  obtain ⟨column,row⟩ := Prod.mk.inj stands.here
  have endX : x1.toInt = x0.toInt + side x0.toInt x1.toInt * reach x0 x1 := (side_arrives _ _).symm
  have endY : y1.toInt = y0.toInt + side y0.toInt y1.toInt * reach y0 y1 := (side_arrives _ _).symm
  rw [← Int16.toInt_inj,← Int16.toInt_inj,column,row,Prod.ext_iff]
  constructor
  · rintro ⟨sameX,sameY⟩
    exact ⟨side_inj.mp (sameX.trans endX),side_inj.mp (sameY.trans endY)⟩
  · rintro ⟨sameX,sameY⟩
    rw [sameX,sameY]
    exact ⟨endX.symm,endY.symm⟩

/-- The pixels of the walk stay between the end points. -/
theorem place_between (within : (n : Int) ≤ max (reach x0 x1) (reach y0 y1)) :
    (min x0.toInt x1.toInt ≤ (place x0 y0 x1 y1 (point x0 y0 x1 y1 n)).1 ∧
      (place x0 y0 x1 y1 (point x0 y0 x1 y1 n)).1 ≤ max x0.toInt x1.toInt) ∧
    min y0.toInt y1.toInt ≤ (place x0 y0 x1 y1 (point x0 y0 x1 y1 n)).2 ∧
      (place x0 y0 x1 y1 (point x0 y0 x1 y1 n)).2 ≤ max y0.toInt y1.toInt := by
  have on := onWalk_point x0 y0 x1 y1 n
  obtain ⟨right,low⟩ := on.inside (reach_nonneg _ _) (reach_nonneg _ _) within
  exact ⟨side_between on.column.1 right,side_between on.row.1 low⟩

theorem int16_between {a b : Int16} {value : Int} (low : min a.toInt b.toInt ≤ value) (high : value ≤ max a.toInt b.toInt) :
    -2^15 ≤ value ∧ value < 2^15 := by
  have := a.le_toInt
  have := b.le_toInt
  have := a.toInt_lt
  have := b.toInt_lt
  omega

/-- A round of the loop that does not end on the end point. -/
theorem At.next (slope : Slope x0 y0 x1 y1 dx dy sx sy) (stands : At x0 y0 x1 y1 n x y err)
    (before : (n : Int) < max (reach x0 x1) (reach y0 y1)) :
    ∃ e2 middle nextX last nextY, mul 2 err = .ok e2 ∧ advance (dy ≤ e2) err dy x sx = .ok (middle,nextX) ∧
      advance (e2 ≤ dx) middle dx y sy = .ok (last,nextY) ∧ At x0 y0 x1 y1 (n + 1) nextX nextY last := by
  have narrow := slope.narrow
  have short := slope.short
  have right := reach_nonneg x0 x1
  have low := reach_nonneg y0 y1
  obtain ⟨column,row⟩ := Prod.mk.inj stands.here
  have bounds := (onWalk_point x0 y0 x1 y1 n).error_bounds right low
  have later := (onWalk_point x0 y0 x1 y1 (n + 1)).error_bounds right low
  obtain ⟨⟨leftmost,rightmost⟩,topmost,lowest⟩ := @place_between x0 y0 x1 y1 (n + 1) (by push_cast; omega)
  have moved : point x0 y0 x1 y1 (n + 1) = LineWalk.next (reach x0 x1) (reach y0 y1) (point x0 y0 x1 y1 n) := walk_succ ..
  have updated := error_next (reach x0 x1) (reach y0 y1) (point x0 y0 x1 y1 n)
  rw [← moved] at updated
  rw [← stands.error] at bounds updated
  rw [LineWalk.next,← stands.error] at moved
  have two : (2 : Int16).toInt = 2 := by simp
  obtain ⟨e2,doubled,value⟩ := checked_in_range (by omega : -2^15 ≤ 2 * err.toInt) (by omega)
  have columnMoves : dy ≤ e2 ↔ -reach y0 y1 ≤ 2 * err.toInt := by rw [Int16.le_iff_toInt_le,slope.down,value]
  have rowMoves : e2 ≤ dx ↔ 2 * err.toInt ≤ reach x0 x1 := by rw [Int16.le_iff_toInt_le,slope.across,value]
  have nextColumn : (place x0 y0 x1 y1 (point x0 y0 x1 y1 (n + 1))).1 = x.toInt + if dy ≤ e2 then sx.toInt else 0 := by
    simp only [column,slope.column,place,moved,columnMoves]
    split <;> ring
  have nextRow : (place x0 y0 x1 y1 (point x0 y0 x1 y1 (n + 1))).2 = y.toInt + if e2 ≤ dx then sy.toInt else 0 := by
    simp only [row,slope.row,place,moved,rowMoves]
    split <;> ring
  have columnFits := int16_between leftmost rightmost
  have rowFits := int16_between topmost lowest
  rw [nextColumn] at columnFits
  rw [nextRow] at rowFits
  obtain ⟨middle,nextX,stepped,middleValue,xValue⟩ := @advance_ok (dy ≤ e2) _ err dy x sx
    (fun _ => by rw [slope.down]; omega) (fun moves => by rwa [if_pos moves] at columnFits)
  have sum : LineWalk.error (reach x0 x1) (reach y0 y1) (point x0 y0 x1 y1 (n + 1)) =
      middle.toInt + if e2 ≤ dx then dx.toInt else 0 := by
    rw [updated,middleValue,slope.down,slope.across]
    simp only [columnMoves,rowMoves]
    split <;> ring
  obtain ⟨last,nextY,climbed,lastValue,yValue⟩ := @advance_ok (e2 ≤ dx) _ middle dx y sy
    (fun moves => by rw [if_pos moves] at sum; omega) (fun moves => by rwa [if_pos moves] at rowFits)
  refine ⟨e2,middle,nextX,last,nextY,?_,stepped,climbed,?_,?_⟩
  · rw [Signed.mul,two]
    exact doubled
  · rw [xValue,yValue,← nextColumn,← nextRow]
  · rw [lastValue,sum]

theorem lineLoop_walk (slope : Slope x0 y0 x1 y1 dx dy sx sy) (stands : At x0 y0 x1 y1 n x y err)
    (ahead : (n + remaining : Nat) = max (reach x0 x1) (reach y0 y1)) (enough : remaining < fuel) (fb : Framebuffer) :
    ∃ pixels last, lineLoop x1 y1 dx dy sx sy color fuel x y err fb = .ok (pixels,last) ∧
      pixels.map (fun pixel => (pixel.1.toInt,pixel.2.toInt)) =
        (List.range' n (remaining + 1)).map (fun k => place x0 y0 x1 y1 (point x0 y0 x1 y1 k)) ∧
      last = pixels.foldl (fun fb pixel => fb.setPixel pixel.1 pixel.2 color) fb := by
  induction remaining generalizing n x y err fuel fb with
  | zero =>
    obtain ⟨fuel,rfl⟩ := Nat.exists_eq_succ_of_ne_zero (Nat.ne_of_gt enough)
    refine ⟨[(x,y)],fb.setPixel x y color,?_,?_,rfl⟩
    · rw [lineLoop,if_pos (stands.arrived_iff.mpr ahead)]
      rfl
    · simp [stands.here]
  | succ remaining ih =>
    obtain ⟨fuel,rfl⟩ := Nat.exists_eq_succ_of_ne_zero (Nat.ne_zero_of_lt enough)
    have before : (n : Int) < max (reach x0 x1) (reach y0 y1) := by
      rw [← ahead]
      omega
    obtain ⟨e2,middle,nextX,err',nextY,doubled,stepped,climbed,next⟩ := stands.next slope before
    obtain ⟨pixels,last,ran,walked,painted⟩ := ih next (by rw [← ahead]; omega) (Nat.lt_of_succ_lt_succ enough)
      (fb.setPixel x y color)
    have goesOn : ¬(x = x1 ∧ y = y1) := fun arrived => before.ne (stands.arrived_iff.mp arrived)
    refine ⟨(x,y)::pixels,last,?_,?_,painted⟩
    · rw [lineLoop,if_neg goesOn]
      simp only [doubled,ok_bind,stepped,climbed,ran]
      rfl
    · rw [List.map_cons,stands.here,walked]
      rfl

theorem distance_ok {start stop : Int16} (few : reach start stop ≤ 10922) :
    ∃ difference distance, sub stop start = .ok difference ∧ abs difference = .ok distance ∧
      distance.toInt = reach start stop := by
  have least := reach_nonneg start stop
  have bounds := abs_le.mp few
  obtain ⟨difference,apart,value⟩ := checked_in_range (by omega : -2^15 ≤ stop.toInt - start.toInt) (by omega)
  have size : |difference.toInt| = reach start stop := by rw [value,reach]
  obtain ⟨distance,absolute,same⟩ := checked_in_range (by omega : -2^15 ≤ |difference.toInt|) (by omega)
  exact ⟨difference,distance,apart,absolute,same.trans size⟩

theorem side_eq {start stop : Int16} : (if start < stop then (1 : Int16) else -1).toInt = side start.toInt stop.toInt := by
  simp only [side,Int16.lt_iff_toInt_lt]
  split <;> simp

theorem drawLine_starts (narrow : reach x0 x1 ≤ 10922) (short : reach y0 y1 ≤ 10922) (fb : Framebuffer) :
    ∃ dx dy sx sy err, drawLine fuel x0 y0 x1 y1 color fb = lineLoop x1 y1 dx dy sx sy color fuel x0 y0 err fb ∧
      Slope x0 y0 x1 y1 dx dy sx sy ∧ At x0 y0 x1 y1 0 x0 y0 err := by
  have right := reach_nonneg x0 x1
  have low := reach_nonneg y0 y1
  obtain ⟨across,dx,apart,width,dxValue⟩ := distance_ok narrow
  obtain ⟨down,height,above,absolute,heightValue⟩ := distance_ok short
  obtain ⟨dy,negated,dyValue⟩ := checked_in_range (by omega : -2^15 ≤ -height.toInt) (by omega)
  obtain ⟨err,summed,errValue⟩ := checked_in_range (by omega : -2^15 ≤ dx.toInt + dy.toInt) (by omega)
  refine ⟨dx,dy,_,_,err,?_,⟨dxValue,?_,side_eq,side_eq,narrow,short⟩,?_,?_⟩
  · rw [drawLine,apart,ok_bind,width,ok_bind,above,ok_bind,absolute,ok_bind,neg,negated,ok_bind]
    simp only [Signed.add,summed,ok_bind]
  · rw [dyValue,heightValue]
  · simp [place,point,walk]
  · rw [errValue,dxValue,dyValue,heightValue]
    simp [point,walk,LineWalk.error,sub_eq_add_neg]

theorem place_end (arrived : (n : Int) = max (reach x0 x1) (reach y0 y1)) :
    place x0 y0 x1 y1 (point x0 y0 x1 y1 n) = (x1.toInt,y1.toInt) := by
  have corner := ((onWalk_point x0 y0 x1 y1 n).arrives (reach_nonneg _ _) (reach_nonneg _ _)).mpr arrived
  rw [corner,place]
  exact Prod.ext (side_arrives _ _) (side_arrives _ _)

theorem nearer_side {start stop steps next : Int} (few : next ≤ |stop - start|) (step : next = steps ∨ next = steps + 1) :
    Nearer stop (start + side start stop * steps) (start + side start stop * next) := by
  have ends := side_arrives start stop
  by_cases up : start < stop
  · simp only [side,if_pos up,one_mul] at ends ⊢
    rw [Nearer]
    omega
  · simp only [side,if_neg up] at ends ⊢
    rw [Nearer]
    omega

theorem place_nearer (within : ((n + 1 : Nat) : Int) ≤ max (reach x0 x1) (reach y0 y1)) :
    Nearer x1.toInt (place x0 y0 x1 y1 (point x0 y0 x1 y1 n)).1 (place x0 y0 x1 y1 (point x0 y0 x1 y1 (n + 1))).1 ∧
      Nearer y1.toInt (place x0 y0 x1 y1 (point x0 y0 x1 y1 n)).2 (place x0 y0 x1 y1 (point x0 y0 x1 y1 (n + 1))).2 := by
  obtain ⟨right,low⟩ := (onWalk_point x0 y0 x1 y1 (n + 1)).inside (reach_nonneg _ _) (reach_nonneg _ _) within
  have moved : point x0 y0 x1 y1 (n + 1) = next (reach x0 x1) (reach y0 y1) (point x0 y0 x1 y1 n) := walk_succ ..
  refine ⟨nearer_side right ?_,nearer_side low ?_⟩
  · rw [moved,next]
    dsimp only
    split <;> simp
  · rw [moved,next]
    dsimp only
    split <;> simp

/-- The pixels are those of the walk, as coordinates of the screen. -/
theorem linePixels_of_walk {pixels : List (Int16 × Int16)} {steps : Nat}
    (whole : (steps : Int) = max (reach x0 x1) (reach y0 y1))
    (walked : pixels.map (fun pixel => (pixel.1.toInt,pixel.2.toInt)) =
      (List.range' 0 (steps + 1)).map (fun k => place x0 y0 x1 y1 (point x0 y0 x1 y1 k))) :
    LinePixels x0 y0 x1 y1 pixels := by
  have length : pixels.length = steps + 1 := by simpa using congrArg List.length walked
  have pixel_at (k : Nat) (inside : k < pixels.length) :
      (pixels[k].1.toInt,pixels[k].2.toInt) = place x0 y0 x1 y1 (point x0 y0 x1 y1 k) := by
    have same := congrArg (fun list => list[k]?) walked
    simpa [inside,length ▸ inside] using same
  have known {pixel : Int16 × Int16} {x y : Int16} (same : (pixel.1.toInt,pixel.2.toInt) = (x.toInt,y.toInt)) :
      pixel = (x,y) := by
    obtain ⟨column,row⟩ := Prod.mk.inj same
    exact Prod.ext (Int16.toInt_inj.mp column) (Int16.toInt_inj.mp row)
  refine ⟨?count,?first,?last,?steps,?inside⟩
  case count =>
    rw [length]
    simp only [reach_eq] at whole
    omega
  case first =>
    have start := pixel_at 0 (by omega)
    rw [List.head?_eq_getElem?,List.getElem?_eq_getElem (by omega)]
    exact congrArg some (known (start.trans (by simp [place,point,walk])))
  case last =>
    have ends := pixel_at steps (by omega)
    rw [List.getLast?_eq_getElem?,length,Nat.add_sub_cancel,List.getElem?_eq_getElem (by omega)]
    exact congrArg some (known (ends.trans (place_end whole)))
  case steps =>
    refine List.isChain_iff_getElem.mpr ?_
    intro k inside
    have here := pixel_at k (by omega)
    have there := pixel_at (k + 1) inside
    obtain ⟨column,row⟩ := Prod.mk.inj here
    obtain ⟨nextColumn,nextRow⟩ := Prod.mk.inj there
    rw [column,row,nextColumn,nextRow]
    exact place_nearer (by omega)
  case inside =>
    intro pixel member
    obtain ⟨k,inside,rfl⟩ := List.mem_iff_getElem.mp member
    obtain ⟨column,row⟩ := Prod.mk.inj (pixel_at k inside)
    rw [column,row]
    exact place_between (by omega)

theorem drawLine_arrives (narrow : (x1.toInt - x0.toInt).natAbs ≤ 10922) (short : (y1.toInt - y0.toInt).natAbs ≤ 10922)
    (enough : max (x1.toInt - x0.toInt).natAbs (y1.toInt - y0.toInt).natAbs < fuel) (color : UInt8) (fb : Framebuffer) :
    ∃ pixels next, drawLine fuel x0 y0 x1 y1 color fb = .ok (pixels,next) ∧ LinePixels x0 y0 x1 y1 pixels ∧
      next = pixels.foldl (fun fb pixel => fb.setPixel pixel.1 pixel.2 color) fb := by
  have columns : reach x0 x1 ≤ 10922 := by rw [reach_eq]; omega
  have rows : reach y0 y1 ≤ 10922 := by rw [reach_eq]; omega
  have whole : ((max (x1.toInt - x0.toInt).natAbs (y1.toInt - y0.toInt).natAbs : Nat) : Int) =
      max (reach x0 x1) (reach y0 y1) := by
    rw [reach_eq,reach_eq]
    omega
  obtain ⟨dx,dy,sx,sy,err,started,slope,stands⟩ := @drawLine_starts x0 y0 x1 y1 fuel color columns rows fb
  obtain ⟨pixels,next,ran,walked,painted⟩ := lineLoop_walk slope stands (by rw [Nat.zero_add]; exact whole) enough fb
  exact ⟨pixels,next,started.trans ran,linePixels_of_walk whole walked,painted⟩

/-- From one corner of the screen to the other. -/
theorem diagonal_arrives : ∃ pixels next, drawLine 320 0 0 319 199 7 (.filled 0) = .ok (pixels,next) ∧
    LinePixels 0 0 319 199 pixels ∧ next = pixels.foldl (fun fb pixel => fb.setPixel pixel.1 pixel.2 7) (.filled 0) :=
  drawLine_arrives (by decide) (by decide) (by decide) 7 (.filled 0)

end PolarOs.Gui
