import PolarOs.Gui.Wallpaper
import PolarOs.Library.Alternating

/-! What `fill_polygon` paints. Each row collects its crossings in the order of the edges, at
most sixty-four, sorts them and fills from the first of each pair to the second. -/
namespace PolarOs.Gui
open Library Library.Checked Library.Signed Library.Loops

variable {vertices : List Vertex} {start stop : Vertex} {y : Int16} {width height : Nat} {color : UInt8} {buffer : List UInt8}

theorem columns_append (y : Int) (first second : List (Vertex × Vertex)) :
    columns y (first ++ second) = columns y first ++ columns y second := by
  simp [columns]

theorem columns_singleton (y : Int) (edge : Vertex × Vertex) :
    columns y [edge] = if Meets y edge then [columnAt y edge] else [] := by
  simp only [columns,List.filter_cons,List.filter_nil,decide_eq_true_iff]
  split <;> rfl

@[simp] theorem length_edges (vertices : List Vertex) : (edges vertices).length = vertices.length := by
  simp [edges]

theorem edges_getElem? {i : Nat} (first : vertices[i]? = some start)
    (second : vertices[(i + 1) % vertices.length]? = some stop) : (edges vertices)[i]? = some (start,stop) := by
  obtain ⟨bound,rfl⟩ := List.getElem?_eq_some_iff.mp first
  obtain ⟨wrapped,rfl⟩ := List.getElem?_eq_some_iff.mp second
  rw [List.getElem?_eq_getElem (by simpa using bound)]
  simp only [edges,List.getElem_zip,List.getElem_rotate]

theorem vertices_of_mem_edges (listed : (start,stop) ∈ edges vertices) : start ∈ vertices ∧ stop ∈ vertices := by
  obtain ⟨first,second⟩ := List.of_mem_zip listed
  exact ⟨first,List.mem_rotate.mp second⟩

/-- The array and the counter after the crossings of some edges. -/
structure Collected (columns : List Int) (found : List Int16 × Nat) : Prop where
  count : found.2 = min 64 columns.length
  size : found.1.length = 64
  values : (found.1.take found.2).map Int16.toInt = columns.take 64

theorem small_cast {x : Int} (low : -16383 ≤ x) (high : x ≤ 16383) : (Int16.ofInt x).toInt = x :=
  Int16.toInt_ofInt_of_le (by omega) (by omega)

theorem Collected.store {found : List Int16 × Nat} {columns : List Int} {x : Int} (collected : Collected columns found)
    (low : -16383 ≤ x) (high : x ≤ 16383) (room : found.2 < 64) :
    ∃ intersections, store found.1 found.2 (Int16.ofInt x) = .ok intersections ∧
      Collected (columns ++ [x]) (intersections,found.2 + 1) := by
  obtain ⟨count,size,values⟩ := collected
  refine ⟨_,store_lt (size ▸ room),?_,(List.length_set ..).trans size,?_⟩
  · rw [List.length_append,List.length_singleton]
    dsimp only
    omega
  · have few : columns.length = found.2 := by omega
    have all : (columns ++ [x]).take 64 = columns ++ [x] := List.take_of_length_le (by simp; omega)
    have rest : columns.take 64 = columns := List.take_of_length_le (by omega)
    have stored : (found.1.set found.2 (Int16.ofInt x)).take (found.2 + 1) = found.1.take found.2 ++ [Int16.ofInt x] := by
      rw [← List.take_append_getElem (by rw [List.length_set]; omega),List.take_set_of_le (Nat.le_refl _)]
      simp
    rw [stored,all,List.map_append,values,rest,List.map_singleton,small_cast low high]

/-- From the sixty-fifth on the crossings are dropped. -/
theorem Collected.drop {found : List Int16 × Nat} {columns : List Int} (collected : Collected columns found) (x : Int)
    (full : ¬found.2 < 64) : Collected (columns ++ [x]) found := by
  obtain ⟨count,size,values⟩ := collected
  refine ⟨?_,size,?_⟩
  · rw [List.length_append,List.length_singleton]
    omega
  · rw [values,List.take_append_of_le_length (by omega)]

theorem collectEdge_ok {i : Nat} {found : List Int16 × Nat} (small : ∀ vertex ∈ vertices, Small vertex)
    (bound : i < vertices.length) (collected : Collected (columns y.toInt ((edges vertices).take i)) found) :
    ∃ next, collectEdge vertices y found i = .ok next ∧
      Collected (columns y.toInt ((edges vertices).take (i + 1))) next := by
  have wrapped : (i + 1) % vertices.length < vertices.length := Nat.mod_lt _ (by omega)
  obtain ⟨start,first⟩ : ∃ start, vertices[i]? = some start := ⟨_,List.getElem?_eq_getElem bound⟩
  obtain ⟨stop,second⟩ : ∃ stop, vertices[(i + 1) % vertices.length]? = some stop := ⟨_,List.getElem?_eq_getElem wrapped⟩
  obtain ⟨intersections,nIx⟩ := found
  rw [List.take_add_one,edges_getElem? first second,Option.toList_some,columns_append,columns_singleton]
  simp only [collectEdge,index_ok.mpr first,index_ok.mpr second,ok_bind]
  by_cases meets : Meets y.toInt (start,stop)
  · have startSmall := small start (List.mem_of_getElem? first)
    have stopSmall := small stop (List.mem_of_getElem? second)
    have between := columnAt_between meets
    simp only [if_pos meets,if_pos (crosses_iff.mpr meets),crossingX_ok startSmall stopSmall meets,ok_bind]
    obtain ⟨⟨left,right⟩,_⟩ := startSmall
    obtain ⟨⟨left',right'⟩,_⟩ := stopSmall
    have low : -16383 ≤ columnAt y.toInt (start,stop) := by omega
    have high : columnAt y.toInt (start,stop) ≤ 16383 := by omega
    by_cases room : nIx < 64
    · obtain ⟨next,stored,kept⟩ := collected.store low high room
      refine ⟨_,?_,kept⟩
      rw [if_pos room,stored]
      rfl
    · rw [if_neg room]
      exact ⟨_,rfl,collected.drop _ room⟩
  · rw [if_neg meets,List.append_nil,if_neg (fun yes => meets (crosses_iff.mp yes))]
    exact ⟨_,rfl,collected⟩

theorem collect_ok (small : ∀ vertex ∈ vertices, Small vertex) (y : Int16) :
    ∃ found, (List.range' 0 vertices.length).foldlM (collectEdge vertices y) (List.replicate 64 0,0) = .ok found ∧
      Collected (columns y.toInt (edges vertices)) found := by
  have each : ∀ i found, 0 ≤ i → i < 0 + vertices.length → Collected (columns y.toInt ((edges vertices).take i)) found →
      ∃ next, collectEdge vertices y found i = .ok next ∧
        Collected (columns y.toInt ((edges vertices).take (i + 1))) next :=
    fun i found _ bound collected => collectEdge_ok small (by omega) collected
  have none : Collected (columns y.toInt ((edges vertices).take 0)) (List.replicate 64 0,0) := ⟨rfl,rfl,rfl⟩
  obtain ⟨found,ran,collected⟩ := foldlM_range each none
  rw [Nat.zero_add,List.take_of_length_le (length_edges vertices).le] at collected
  exact ⟨found,ran,collected⟩

/-- The crossings that the array has room for, sorted. -/
def keptCrossings (vertices : List Vertex) (y : Int) : List Int :=
  ((columns y (edges vertices)).take 64).insertionSort (· ≤ ·)

theorem keptCrossings_eq {y : Int} (few : (crossings vertices y).length ≤ 64) :
    keptCrossings vertices y = crossings vertices y := by
  rw [crossings,List.length_insertionSort] at few
  rw [keptCrossings,List.take_of_length_le few,crossings]

theorem sort_collected {found : List Int16 × Nat} (collected : Collected (columns y.toInt (edges vertices)) found) :
    ∃ sorted tail, InsertionSort.sort found.2 found.1 = .ok (sorted ++ tail) ∧ sorted.length = found.2 ∧
      sorted.map Int16.toInt = keptCrossings vertices y.toInt := by
  obtain ⟨count,size,values⟩ := collected
  have room : found.2 ≤ found.1.length := by omega
  obtain ⟨sorted,ran,perm,ascending⟩ := InsertionSort.sort_ok room
  refine ⟨sorted,_,ran,?_,?_⟩
  · rw [perm.length_eq,List.length_take,Nat.min_eq_left room]
  · have same : (sorted.map Int16.toInt).Perm (keptCrossings vertices y.toInt) := by
      have mapped := perm.map Int16.toInt
      rw [values] at mapped
      exact mapped.trans (List.perm_insertionSort _ _).symm
    refine same.eq_of_pairwise (fun _ _ _ _ below above => Int.le_antisymm below above) ?_ (List.pairwise_insertionSort _ _)
    exact List.pairwise_map.mpr (ascending.imp Int16.le_iff_toInt_le.mp)

/-- The places of a row from one crossing to the other, as the source cuts them off. -/
def span (width row : Nat) (first second : Int) : Set Nat :=
  {place | ∃ x : Nat, place = row * width + x ∧ (max first 0 ≤ x ∧ x ≤ max second 0) ∧ x < width}

/-- The places that the pairs of these crossings fill. -/
def paired (width row : Nat) (columns : List Int) : Set Nat :=
  {place | ∃ k first second, columns[2 * k]? = some first ∧ columns[2 * k + 1]? = some second ∧
    place ∈ span width row first second}

theorem span_eq (width row : Nat) (first second : Int) (wide : 1 ≤ width) :
    (⋃ x ∈ List.range' (max first 0).toNat (min (max second 0).toNat (width - 1) + 1 - (max first 0).toNat),
      {row * width + x}) = span width row first second := by
  ext place
  simp only [Set.mem_iUnion,List.mem_range'_1,Set.mem_singleton_iff,exists_prop,span,Set.mem_ofPred_eq]
  constructor
  · rintro ⟨x,⟨left,right⟩,rfl⟩
    exact ⟨x,rfl,by omega,by omega⟩
  · rintro ⟨x,rfl,⟨left,right⟩,inside⟩
    exact ⟨x,by omega,rfl⟩

theorem fillPair_filled {intersections : List Int16} {first second : Int16} {i : Nat}
    (one : intersections[i]? = some first) (two : intersections[i + 1]? = some second) (wide : 1 ≤ width)
    (size : buffer.length = width * height) (row : y.toInt.toNat < height) :
    ∃ next, fillPair width intersections y color buffer i = .ok next ∧
      Filled color (span width y.toInt.toNat first.toInt second.toInt) buffer next := by
  have above : y.toInt.toNat * width + width ≤ width * height := by
    rw [Nat.mul_comm width,← Nat.succ_mul]
    exact Nat.mul_le_mul_right width row
  have zero : (0 : Int16).toInt = 0 := by simp
  simp only [fillPair,index_ok.mpr one,index_ok.mpr two,sub_eq_ok.mpr ⟨wide,rfl⟩,ok_bind,toInt_max,zero]
  rw [← span_eq _ _ _ _ wide]
  refine Filled.foldlM ?_ size
  intro x member cells sized
  rw [List.mem_range'_1] at member
  exact Filled.store (by omega)

theorem mem_pairStarts {i nIx : Nat} : i ∈ pairStarts nIx ↔ ∃ k, i = 2 * k ∧ i + 1 < nIx := by
  simp only [pairStarts,List.mem_range',Nat.zero_add]
  constructor
  · rintro ⟨k,few,rfl⟩
    exact ⟨k,rfl,by omega⟩
  · rintro ⟨k,rfl,inside⟩
    exact ⟨k,by omega,rfl⟩

theorem pairs_eq (width row : Nat) (columns : List Int) :
    (⋃ i ∈ pairStarts columns.length, span width row (columns.getD i 0) (columns.getD (i + 1) 0)) =
      paired width row columns := by
  ext place
  simp only [Set.mem_iUnion,mem_pairStarts,exists_prop,paired,Set.mem_ofPred_eq]
  constructor
  · rintro ⟨_,⟨k,rfl,inside⟩,into⟩
    have one : columns[2 * k]? = some columns[2 * k] := List.getElem?_eq_getElem (by omega)
    have two : columns[2 * k + 1]? = some columns[2 * k + 1] := List.getElem?_eq_getElem inside
    rw [List.getD_eq_getElem?_getD,List.getD_eq_getElem?_getD,one,two] at into
    exact ⟨k,_,_,one,two,into⟩
  · rintro ⟨k,first,second,one,two,into⟩
    obtain ⟨inside,_⟩ := List.getElem?_eq_some_iff.mp two
    refine ⟨2 * k,⟨k,rfl,inside⟩,?_⟩
    rwa [List.getD_eq_getElem?_getD,List.getD_eq_getElem?_getD,one,two]

theorem fillRow_filled (small : ∀ vertex ∈ vertices, Small vertex) (wide : 1 ≤ width)
    (size : buffer.length = width * height) (row : y.toInt.toNat < height) :
    ∃ next, fillRow width vertices color buffer y = .ok next ∧
      Filled color (paired width y.toInt.toNat (keptCrossings vertices y.toInt)) buffer next := by
  obtain ⟨found,gathered,collected⟩ := collect_ok small y
  obtain ⟨sorted,tail,ran,count,same⟩ := sort_collected collected
  simp only [fillRow,gathered,ran,ok_bind]
  rw [← pairs_eq,← same,List.length_map,count]
  refine Filled.foldlM ?_ size
  intro i member cells sized
  obtain ⟨k,rfl,inside⟩ := mem_pairStarts.mp member
  rw [← count] at inside
  have value (j : Nat) (bound : j < sorted.length) : (sorted.map Int16.toInt).getD j 0 = sorted[j].toInt := by
    simp [bound]
  have read (j : Nat) (bound : j < sorted.length) : (sorted ++ tail)[j]? = some sorted[j] := by
    rw [List.getElem?_append_left bound,List.getElem?_eq_getElem bound]
  rw [value _ inside,value (2 * k) (by omega)]
  exact fillPair_filled (read _ (by omega)) (read _ inside) wide sized row

theorem mem_rows {minY maxY : Int16} : y ∈ rows minY maxY ↔ minY.toInt ≤ y.toInt ∧ y.toInt ≤ maxY.toInt := by
  have low := minY.le_toInt
  have high := maxY.toInt_lt
  simp only [rows,List.mem_map,List.mem_range]
  constructor
  · rintro ⟨k,few,rfl⟩
    rw [Int16.toInt_ofInt_of_le (by omega) (by omega)]
    omega
  · rintro ⟨above,below⟩
    refine ⟨(y.toInt - minY.toInt).toNat,by omega,?_⟩
    rw [← Int16.toInt_inj,Int16.toInt_ofInt_of_le (by omega) (by omega)]
    omega

def filledPlaces (width height : Nat) (vertices : List Vertex) : Set Nat :=
  {place | ∃ row < height, place ∈ paired width row (keptCrossings vertices row)}

/-- A row that is crossed lies between the lowest and the highest vertex. -/
theorem crossed_between {row : Int} {column : Int} (member : column ∈ keptCrossings vertices row) :
    ∃ low ∈ vertices, ∃ high ∈ vertices, low.2.toInt ≤ row ∧ row < high.2.toInt := by
  rw [keptCrossings,List.mem_insertionSort] at member
  obtain ⟨⟨start,stop⟩,crossing,_⟩ := List.mem_map.mp (List.mem_of_mem_take member)
  obtain ⟨listed,meets⟩ := List.mem_filter.mp crossing
  obtain ⟨first,second⟩ := vertices_of_mem_edges listed
  rcases of_decide_eq_true meets with ⟨below,above⟩ | ⟨below,above⟩
  · exact ⟨start,first,stop,second,below,above⟩
  · exact ⟨stop,second,start,first,below,above⟩

theorem fillPolygon_filled (polygon : 3 ≤ vertices.length) (small : ∀ vertex ∈ vertices, Small vertex)
    (wide : 1 ≤ width) (tall : 1 ≤ height ∧ height ≤ 32767) (size : buffer.length = width * height) :
    ∃ next, fillPolygon width height vertices color buffer = .ok next ∧
      Filled color (filledPlaces width height vertices) buffer next := by
  have some_row : vertices.map Prod.snd ≠ [] := by
    intro none
    rw [List.map_eq_nil_iff.mp none] at polygon
    cases polygon
  obtain ⟨lowest,least⟩ := Option.ne_none_iff_exists'.mp (mt List.min?_eq_none_iff.mp some_row)
  obtain ⟨highest,greatest⟩ := Option.ne_none_iff_exists'.mp (mt List.max?_eq_none_iff.mp some_row)
  have cast : (Int16.ofNat height).toInt = height := Int16.toInt_ofNat_of_lt (by omega)
  obtain ⟨limit,last,bottom⟩ := @checked_in_range (height - 1) (by omega) (by omega)
  have one : (1 : Int16).toInt = 1 := by simp
  simp only [fillPolygon,if_neg (Nat.not_lt.mpr polygon),least,greatest,unwrap,ok_bind,Signed.sub,cast,one,last]
  have zero : (0 : Int16).toInt = 0 := by simp
  have region : (⋃ y ∈ rows (max lowest 0) (min highest limit),
      paired width y.toInt.toNat (keptCrossings vertices y.toInt)) = filledPlaces width height vertices := by
    ext place
    simp only [Set.mem_iUnion,mem_rows,toInt_max,toInt_min,zero,bottom,exists_prop,filledPlaces,Set.mem_ofPred_eq]
    constructor
    · rintro ⟨y,⟨low,high⟩,into⟩
      refine ⟨y.toInt.toNat,by omega,?_⟩
      rwa [Int.toNat_of_nonneg (by omega)]
    · rintro ⟨row,above,into⟩
      obtain ⟨k,first,second,here,_⟩ := into
      obtain ⟨low,lowMember,high,highMember,below,beyond⟩ := crossed_between (List.mem_of_getElem? here)
      have under := Int16.le_iff_toInt_le.mp ((List.min?_eq_some_iff.mp least).2 _ (List.mem_map_of_mem lowMember))
      have top := Int16.le_iff_toInt_le.mp ((List.max?_eq_some_iff.mp greatest).2 _ (List.mem_map_of_mem highMember))
      have value : (Int16.ofInt row).toInt = row := Int16.toInt_ofInt_of_le (by omega) (by omega)
      refine ⟨Int16.ofInt row,by omega,?_⟩
      rw [value,Int.toNat_natCast]
      exact ⟨k,first,second,here,by assumption⟩
  rw [← region]
  refine Filled.foldlM ?_ size
  intro y member cells sized
  obtain ⟨low,high⟩ := mem_rows.mp member
  simp only [toInt_max,toInt_min,zero,bottom] at low high
  exact fillRow_filled small wide sized (by omega)

/-! The number of crossings is even, since the rows of the vertices go around a circle. -/

theorem crosses_eq (y : Int16) (edge : Vertex × Vertex) :
    crosses y edge.1 edge.2 = (decide (edge.1.2 ≤ y) != decide (edge.2.2 ≤ y)) := by
  rw [Bool.eq_iff_iff,crosses_iff,bne_iff_ne,ne_eq,decide_eq_decide,Int16.le_iff_toInt_le,Int16.le_iff_toInt_le]
  simp only [Meets]
  omega

theorem even_crosses (vertices : List Vertex) (y : Int16) :
    Even ((edges vertices).countP fun edge => crosses y edge.1 edge.2) := by
  have levels := Alternating.even_cycle (vertices.map fun vertex => decide (vertex.2 ≤ y))
  rw [← List.map_rotate,List.zip_map,List.countP_map] at levels
  refine (List.countP_congr ?_).symm ▸ levels
  intro edge _
  simp [crosses_eq]

/-- No polygon makes the function fault, and every row is crossed an even number of times, each
time between the ends of the edge. -/
theorem fillPolygon_safe (small : ∀ vertex ∈ vertices, Small vertex) (wide : 1 ≤ width ∧ width ≤ 32767)
    (tall : 1 ≤ height ∧ height ≤ 32767) (size : buffer.length = width * height) (color : UInt8) :
    (∃ next, fillPolygon width height vertices color buffer = .ok next) ∧ ∀ y : Int16,
      (∀ edge ∈ edges vertices, crosses y edge.1 edge.2 = true → ∃ x, crossingX y edge.1 edge.2 = .ok x ∧
        (min edge.1.1.toInt edge.2.1.toInt ≤ x ∧ x ≤ max edge.1.1.toInt edge.2.1.toInt) ∧ (Int16.ofInt x).toInt = x) ∧
      Even ((edges vertices).countP fun edge => crosses y edge.1 edge.2) := by
  constructor
  · by_cases few : vertices.length < 3
    · exact ⟨buffer,if_pos few⟩
    · obtain ⟨next,ran,_⟩ := @fillPolygon_filled _ _ _ color _ (Nat.not_lt.mp few) small wide.1 tall size
      exact ⟨next,ran⟩
  · intro y
    refine ⟨?_,even_crosses vertices y⟩
    rintro ⟨start,stop⟩ listed crossing
    obtain ⟨first,second⟩ := vertices_of_mem_edges listed
    have meets := crosses_iff.mp crossing
    have between := columnAt_between meets
    refine ⟨_,crossingX_ok (small _ first) (small _ second) meets,between,?_⟩
    dsimp only at between ⊢
    obtain ⟨⟨left,right⟩,_⟩ := small _ first
    obtain ⟨⟨left',right'⟩,_⟩ := small _ second
    exact small_cast (by omega) (by omega)

def triangle : List Vertex := [(0,0),(3,0),(0,3)]

theorem triangle_small : ∀ vertex ∈ triangle, Small vertex := by
  simp [triangle,Small]

theorem triangle_fills : ∃ next, fillPolygon 4 4 triangle 1 (List.replicate 16 0) = .ok next :=
  (fillPolygon_safe triangle_small (by decide) (by decide) (by simp) 1).1

/-! The even-odd interior. -/

/-- The column lies between the crossings of a pair, both inclusive. -/
def Between (columns : List Int) (x : Int) : Prop :=
  ∃ k first second, columns[2 * k]? = some first ∧ columns[2 * k + 1]? = some second ∧ first ≤ x ∧ x ≤ second

/-- A pair of crossings lies to the left of the buffer. -/
def LeftPair (columns : List Int) : Prop := ∃ k second, columns[2 * k + 1]? = some second ∧ second < 0

def interior (width height : Nat) (vertices : List Vertex) : Set Nat :=
  {place | ∃ x < width, ∃ row < height, place = row * width + x ∧ Between (crossings vertices row) x}

theorem place_inj {x x' row row' : Nat} (inside : x < width) (inside' : x' < width)
    (same : row * width + x = row' * width + x') : row = row' ∧ x = x' := by
  have rowOf (row x : Nat) (inside : x < width) : (row * width + x) / width = row := by
    rw [Nat.add_comm,Nat.add_mul_div_right _ _ (by omega),Nat.div_eq_of_lt inside,Nat.zero_add]
  have rows : row = row' := by rw [← rowOf row x inside,same,rowOf row' x' inside']
  subst rows
  exact ⟨rfl,Nat.add_left_cancel same⟩

theorem mem_interior {x row : Nat} (inside : x < width) (above : row < height) :
    row * width + x ∈ interior width height vertices ↔ Between (crossings vertices row) x := by
  constructor
  · rintro ⟨x',inside',row',_,same,between⟩
    obtain ⟨rfl,rfl⟩ := place_inj inside inside' same
    exact between
  · intro between
    exact ⟨x,inside,row,above,rfl,between⟩

theorem keptCrossings_ordered {y : Int} {i : Nat} {second : Int} (two : (keptCrossings vertices y)[i + 1]? = some second) :
    ∃ first, (keptCrossings vertices y)[i]? = some first ∧ first ≤ second := by
  obtain ⟨high,rfl⟩ := List.getElem?_eq_some_iff.mp two
  refine ⟨_,List.getElem?_eq_getElem (by omega),?_⟩
  exact List.pairwise_iff_getElem.mp (List.pairwise_insertionSort (· ≤ ·) _) _ _ _ high (Nat.lt_succ_self i)

/-- The source fills the interior and, for a pair to the left, the first pixel of the row. -/
theorem mem_filledPlaces {x row : Nat} (few : (crossings vertices row).length ≤ 64) (inside : x < width)
    (above : row < height) : row * width + x ∈ filledPlaces width height vertices ↔
      Between (crossings vertices row) x ∨ x = 0 ∧ LeftPair (crossings vertices row) := by
  rw [← keptCrossings_eq few]
  constructor
  · rintro ⟨row',_,k,first,second,one,two,x',same,⟨left,right⟩,inside'⟩
    obtain ⟨rfl,rfl⟩ := place_inj inside inside' same
    by_cases negative : second < 0
    · exact Or.inr ⟨by omega,k,second,two,negative⟩
    · exact Or.inl ⟨k,first,second,one,two,by omega,by omega⟩
  · rintro (⟨k,first,second,one,two,left,right⟩ | ⟨rfl,k,second,two,negative⟩)
    · exact ⟨row,above,k,first,second,one,two,x,rfl,⟨by omega,by omega⟩,inside⟩
    · obtain ⟨first,one,ordered⟩ := keptCrossings_ordered two
      exact ⟨row,above,k,first,second,one,two,0,rfl,⟨by omega,by omega⟩,inside⟩

/-- The places that are filled are the interior but for the first pixels of some rows. -/
theorem filledPlaces_agree_iff (few : ∀ row < height, (crossings vertices row).length ≤ 64) (wide : 1 ≤ width)
    (held : Nat → Prop) : (∀ place < width * height, (place ∈ filledPlaces width height vertices ↔
      place ∈ interior width height vertices) ∨ held place) ↔
      ∀ row < height, LeftPair (crossings vertices row) → Between (crossings vertices row) 0 ∨ held (row * width) := by
  constructor
  · intro same row above leftPair
    have bound : row * width + 0 < width * height := by
      rw [Nat.mul_comm width]
      exact Nat.mul_lt_mul_of_pos_right above wide
    rcases same _ bound with equal | unchanged
    · rw [mem_filledPlaces (few row above) wide above,mem_interior wide above] at equal
      exact Or.inl (equal.mp (Or.inr ⟨rfl,leftPair⟩))
    · exact Or.inr unchanged
  · intro clean place bound
    have above : place / width < height := Nat.div_lt_of_lt_mul bound
    have inside : place % width < width := Nat.mod_lt _ wide
    have parts : place = place / width * width + place % width := (Nat.div_add_mod' place width).symm
    by_cases left : place % width = 0 ∧ LeftPair (crossings vertices ↑(place / width))
    · rcases clean _ above left.2 with between | unchanged
      · refine Or.inl (iff_of_true ?_ ?_)
        · rw [parts,mem_filledPlaces (few _ above) inside above]
          exact Or.inr left
        · rw [parts,mem_interior inside above,left.1]
          exact between
      · refine Or.inr ?_
        rwa [parts,left.1]
    · refine Or.inl ?_
      rw [parts,mem_filledPlaces (few _ above) inside above,mem_interior inside above]
      exact or_iff_left left

/-- The polygon is painted as the even-odd rule says, unless a pair of crossings to the left of
the buffer leaves its mark in the first column. -/
theorem fillPolygon_evenOdd_iff (polygon : 3 ≤ vertices.length) (small : ∀ vertex ∈ vertices, Small vertex)
    (wide : 1 ≤ width ∧ width ≤ 32767) (tall : 1 ≤ height ∧ height ≤ 32767) (size : buffer.length = width * height)
    (few : ∀ row < height, (crossings vertices row).length ≤ 64) (color : UInt8) :
    (∃ next, fillPolygon width height vertices color buffer = .ok next ∧
      Filled color (interior width height vertices) buffer next) ↔
      ∀ row < height, LeftPair (crossings vertices row) →
        Between (crossings vertices row) 0 ∨ buffer[row * width]? = some color := by
  obtain ⟨next,ran,filled⟩ := @fillPolygon_filled _ _ _ color _ polygon small wide.1 tall size
  rw [exists_ok_iff ran,filled.iff_of_filled,size]
  exact filledPlaces_agree_iff few wide.1 fun place => buffer[place]? = some color

theorem triangle_painted : ∃ next, fillPolygon 4 4 triangle 1 (List.replicate 16 0) = .ok next ∧
    Filled 1 (interior 4 4 triangle) (List.replicate 16 0) next := by
  have right : ∀ row : Nat, row < 4 → ∀ x ∈ crossings triangle row, 0 ≤ x := by decide
  refine (fillPolygon_evenOdd_iff (by decide) triangle_small (by decide) (by decide) (by simp) (by decide) 1).mpr ?_
  rintro row above ⟨k,second,two,negative⟩
  exact absurd (right row above second (List.mem_of_getElem? two)) (Int.not_le.mpr negative)

def leftTriangle : List Vertex := [(-5,0),(-1,0),(-3,4)]

theorem leftTriangle_paints : 3 ≤ leftTriangle.length ∧ (∀ vertex ∈ leftTriangle, Small vertex) ∧
    (∀ row : Nat, row < 1 → (crossings leftTriangle row).length ≤ 64) ∧
    ¬∃ next, fillPolygon 1 1 leftTriangle 1 [0] = .ok next ∧ Filled 1 (interior 1 1 leftTriangle) [0] next := by
  have small : ∀ vertex ∈ leftTriangle, Small vertex := by
    simp [leftTriangle,Small]
  refine ⟨by decide,small,by decide,?_⟩
  rintro ⟨next,ran,painted⟩
  cases ran
  have outside : 0 ∉ interior 1 1 leftTriangle := by
    rintro ⟨x,_,row,above,_,k,first,second,_,two,_,right⟩
    have left : ∀ row : Nat, row < 1 → ∀ x ∈ crossings leftTriangle row, x < 0 := by decide
    have negative := left row above second (List.mem_of_getElem? two)
    omega
  cases painted.outside 0 outside

end PolarOs.Gui
