import PolarOs.Library.InsertionSort
import PolarOs.Library.Signed
import Mathlib.Data.List.Rotate
import Mathlib.Data.List.Sort
import Mathlib.Algebra.Order.Ring.Abs

/-! The polygons of the wallpaper (`fill_polygon` in `gui/wallpaper.rs`): the crossings of each
row with the edges are collected, sorted in place and filled in pairs. -/
namespace PolarOs.Gui
open Library Library.Checked Library.Signed Library.Loops

abbrev Vertex := Int16 × Int16

/-- Whether an edge that is not level crosses the row. -/
def crosses (y : Int16) (start stop : Vertex) : Bool :=
  start.2 ≠ stop.2 ∧ (start.2 ≤ y ∧ y < stop.2 ∨ stop.2 ≤ y ∧ y < start.2)

def crossingX (y : Int16) (start stop : Vertex) : Checked Int := do
  let down ← fit32 (y.toInt - start.2.toInt)
  let across ← fit32 (stop.1.toInt - start.1.toInt)
  let product ← fit32 (down * across)
  let extent ← fit32 (stop.2.toInt - start.2.toInt)
  let quotient ← div32 product extent
  fit32 (start.1.toInt + quotient)

/-- The body of the loop over the edges, which drops crossings from the sixty-fifth on. -/
def collectEdge (vertices : List Vertex) (y : Int16) (found : List Int16 × Nat) (i : Nat) : Checked (List Int16 × Nat) := do
  let (intersections,nIx) := found
  let start ← index vertices i
  let stop ← index vertices ((i + 1) % vertices.length)
  if crosses y start stop then
    let x ← crossingX y start stop
    if nIx < 64 then
      let intersections ← store intersections nIx (Int16.ofInt x)
      return (intersections,nIx + 1)
    return found
  return found

/-- The values of `i` in the loop over the pairs. -/
def pairStarts (nIx : Nat) : List Nat := List.range' 0 (nIx / 2) 2

def fillPair (width : Nat) (intersections : List Int16) (y : Int16) (color : UInt8) (buffer : List UInt8) (i : Nat) :
    Checked (List UInt8) := do
  let first ← index intersections i
  let second ← index intersections (i + 1)
  let xStart := (max first 0).toInt.toNat
  let xEnd := min (max second 0).toInt.toNat (← Checked.sub width 1)
  (List.range' xStart (xEnd + 1 - xStart)).foldlM
    (fun buffer x => store buffer (y.toInt.toNat * width + x) color) buffer

def fillRow (width : Nat) (vertices : List Vertex) (color : UInt8) (buffer : List UInt8) (y : Int16) :
    Checked (List UInt8) := do
  let (intersections,nIx) ← (List.range' 0 vertices.length).foldlM (collectEdge vertices y) (List.replicate 64 0,0)
  let intersections ← InsertionSort.sort nIx intersections
  (pairStarts nIx).foldlM (fillPair width intersections y color) buffer

/-- The rows `min_y..=max_y`. -/
def rows (minY maxY : Int16) : List Int16 :=
  (List.range (maxY.toInt + 1 - minY.toInt).toNat).map fun (k : Nat) => Int16.ofInt (minY.toInt + k)

def unwrap {α : Type} : Option α → Checked α
  | some value => .ok value
  | none => .error .panic

def fillPolygon (width height : Nat) (vertices : List Vertex) (color : UInt8) (buffer : List UInt8) :
    Checked (List UInt8) :=
  if vertices.length < 3 then .ok buffer
  else do
    let lowest ← unwrap (vertices.map Prod.snd).min?
    let minY := max lowest 0
    let highest ← unwrap (vertices.map Prod.snd).max?
    let maxY := min highest (← Signed.sub (Int16.ofNat height) 1)
    (rows minY maxY).foldlM (fillRow width vertices color) buffer

/-! The crossings of a row, over the integers. -/

/-- The edges from each vertex to the next, and from the last back to the first. -/
def edges (vertices : List Vertex) : List (Vertex × Vertex) := vertices.zip (vertices.rotate 1)

/-- The row lies between the ends of the edge; of these the lower one does not count. -/
def Meets (y : Int) (edge : Vertex × Vertex) : Prop :=
  edge.1.2.toInt ≤ y ∧ y < edge.2.2.toInt ∨ edge.2.2.toInt ≤ y ∧ y < edge.1.2.toInt

instance (y : Int) (edge : Vertex × Vertex) : Decidable (Meets y edge) := inferInstanceAs (Decidable (_ ∨ _))

/-- The column in which the edge crosses the row, rounded as the source does. -/
def columnAt (y : Int) (edge : Vertex × Vertex) : Int :=
  edge.1.1.toInt + ((y - edge.1.2.toInt) * (edge.2.1.toInt - edge.1.1.toInt)).tdiv (edge.2.2.toInt - edge.1.2.toInt)

def columns (y : Int) (edges : List (Vertex × Vertex)) : List Int :=
  (edges.filter fun edge => Meets y edge).map (columnAt y)

/-- The crossings of a row in sorted order. -/
def crossings (vertices : List Vertex) (y : Int) : List Int := (columns y (edges vertices)).insertionSort (· ≤ ·)

/-- Coordinates whose differences leave room for a product. -/
def Small (vertex : Vertex) : Prop :=
  (-16383 ≤ vertex.1.toInt ∧ vertex.1.toInt ≤ 16383) ∧ -16383 ≤ vertex.2.toInt ∧ vertex.2.toInt ≤ 16383

variable {vertices : List Vertex} {start stop : Vertex} {y : Int16}

theorem crosses_iff : crosses y start stop = true ↔ Meets y.toInt (start,stop) := by
  simp only [crosses,Meets,decide_eq_true_iff,Int16.le_iff_toInt_le,Int16.lt_iff_toInt_lt,ne_eq,← Int16.toInt_inj]
  omega

theorem tdiv_part {part whole distance : Int} (positive : 0 < whole) (nonneg : 0 ≤ part) (below : part ≤ whole)
    (forward : 0 ≤ distance) : 0 ≤ (part * distance).tdiv whole ∧ (part * distance).tdiv whole ≤ distance := by
  have product := Int.mul_nonneg nonneg forward
  refine ⟨Int.tdiv_nonneg product positive.le,?_⟩
  rw [Int.tdiv_eq_ediv_of_nonneg product]
  refine Int.ediv_le_of_le_mul positive ?_
  rw [Int.mul_comm distance]
  exact Int.mul_le_mul_of_nonneg_right below forward

theorem tdiv_between {part whole distance : Int} (positive : 0 < whole) (nonneg : 0 ≤ part) (below : part ≤ whole) :
    min 0 distance ≤ (part * distance).tdiv whole ∧ (part * distance).tdiv whole ≤ max 0 distance := by
  rcases Int.le_total 0 distance with right | left
  · have quotient := tdiv_part positive nonneg below right
    omega
  · have turned : (part * distance).tdiv whole = -(part * -distance).tdiv whole := by
      rw [Int.mul_neg,Int.neg_tdiv,Int.neg_neg]
    have quotient := @tdiv_part part whole (-distance) positive nonneg below (by omega)
    omega

/-- A crossing lies between the ends of its edge. -/
theorem columnAt_between {y : Int} (meets : Meets y (start,stop)) :
    min start.1.toInt stop.1.toInt ≤ columnAt y (start,stop) ∧ columnAt y (start,stop) ≤ max start.1.toInt stop.1.toInt := by
  simp only [Meets] at meets
  simp only [columnAt]
  rcases meets with ⟨below,above⟩ | ⟨below,above⟩
  · have part := @tdiv_between (y - start.2.toInt) (stop.2.toInt - start.2.toInt) (stop.1.toInt - start.1.toInt)
      (by omega) (by omega) (by omega)
    omega
  · -- both differences of rows are negative
    have turned : ((y - start.2.toInt) * (stop.1.toInt - start.1.toInt)).tdiv (stop.2.toInt - start.2.toInt) =
        ((start.2.toInt - y) * (stop.1.toInt - start.1.toInt)).tdiv (start.2.toInt - stop.2.toInt) := by
      rw [← Int.neg_sub start.2.toInt y,← Int.neg_sub start.2.toInt stop.2.toInt,Int.neg_mul,Int.tdiv_neg,Int.neg_tdiv,
        Int.neg_neg]
    have part := @tdiv_between (start.2.toInt - y) (start.2.toInt - stop.2.toInt) (stop.1.toInt - start.1.toInt)
      (by omega) (by omega) (by omega)
    omega

theorem crossingX_ok (first : Small start) (second : Small stop) (meets : Meets y.toInt (start,stop)) :
    crossingX y start stop = .ok (columnAt y.toInt (start,stop)) := by
  obtain ⟨⟨left,right⟩,low,high⟩ := first
  obtain ⟨⟨left',right'⟩,low',high'⟩ := second
  have place := columnAt_between meets
  simp only [Meets] at meets
  have downward : -32766 ≤ y.toInt - start.2.toInt ∧ y.toInt - start.2.toInt ≤ 32766 := by omega
  have product : |(y.toInt - start.2.toInt) * (stop.1.toInt - start.1.toInt)| ≤ 32766 * 32766 := by
    rw [abs_mul]
    exact mul_le_mul (abs_le.mpr downward) (abs_le.mpr (by omega)) (abs_nonneg _) (by omega)
  have bounds := abs_le.mp product
  have steep : stop.2.toInt - start.2.toInt ≠ 0 := by omega
  simp only [columnAt] at place ⊢
  rw [crossingX,fit32_ok (by omega) (by omega),ok_bind,fit32_ok (by omega) (by omega),ok_bind,
    fit32_ok (by omega) (by omega),ok_bind,fit32_ok (by omega) (by omega),ok_bind,div32,if_neg steep,
    fit32_ok (by omega) (by omega),ok_bind,fit32_ok (by omega) (by omega)]

end PolarOs.Gui
