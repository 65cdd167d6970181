import PolarOs.Fs.RamFs
import PolarOs.Library.PathMap
import Mathlib.Data.Set.Finite.Lattice
import Mathlib.Data.Set.Finite.List

/-! The filesystem as a finite map from absolute paths to nodes. Every operation of
the nested tree is the corresponding operation of that map; the frame of an edit
is the frame of an update at one path. -/
namespace PolarOs
open Library Library.SortedMap

namespace Dir

def nodeAt : Dir → List Str → Option (Node Bytes)
  | _,[] => some .dir
  | dir,name::path =>
    match find dir name with
    | none => none
    | some (.file data) => if path = [] then some (.file data) else none
    | some (.dir children) => nodeAt children path

theorem nodeAt_nil (dir : Dir) : nodeAt dir [] = some .dir := rfl

theorem nodeAt_cons_dir {dir children : Dir} {name : Str} (found : find dir name = some (.dir children))
    (path : List Str) : nodeAt dir (name::path) = nodeAt children path := by
  simp [nodeAt,found]

theorem nodeAt_cons_file {dir : Dir} {name : Str} {data : Bytes} (found : find dir name = some (.file data))
    (path : List Str) : nodeAt dir (name::path) = if path = [] then some (.file data) else none := by
  simp [nodeAt,found]

theorem nodeAt_cons_none {dir : Dir} {name : Str} (found : find dir name = none)
    (path : List Str) : nodeAt dir (name::path) = none := by
  simp [nodeAt,found]

theorem getDir_cons_dir {dir children : Dir} {name : Str} (found : find dir name = some (.dir children))
    (path : List Str) : getDir dir (name::path) = getDir children path := by
  simp [getDir,found]

/-- Below a directory reached by `path`, the map of the root is the map of that directory. -/
theorem nodeAt_append {root dir : Dir} {path : List Str} (reached : getDir root path = some dir)
    (rest : List Str) : nodeAt root (path ++ rest) = nodeAt dir rest := by
  induction path generalizing root with
  | nil =>
    cases reached
    rfl
  | cons component path ih =>
    rw [getDir] at reached
    split at reached
    next children found =>
      rw [List.cons_append,nodeAt_cons_dir found]
      exact ih reached
    next => contradiction

theorem nodeAt_of_getDir {root dir : Dir} {path : List Str} (reached : getDir root path = some dir) :
    nodeAt root path = some .dir := by
  simpa [nodeAt_nil] using nodeAt_append reached []

/-- Where no directory is reached, nothing is present strictly below. -/
theorem nodeAt_of_unreached {root : Dir} {path : List Str} (unreached : getDir root path = none) :
    nodeAt root path ≠ some .dir ∧ ∀ name, nodeAt root (path ++ [name]) = none := by
  induction path generalizing root with
  | nil => simp [getDir] at unreached
  | cons component path ih =>
    cases found : find root component with
    | none => simp [nodeAt_cons_none found]
    | some entry =>
      cases entry with
      | file data =>
        simp only [List.cons_append,nodeAt_cons_file found]
        exact ⟨by split_ifs <;> simp,by simp⟩
      | dir children =>
        rw [getDir_cons_dir found] at unreached
        simpa only [List.cons_append,nodeAt_cons_dir found] using ih unreached

theorem nodeAt_dir_iff {root : Dir} {path : List Str} :
    nodeAt root path = some .dir ↔ ∃ dir, getDir root path = some dir := by
  constructor
  · intro present
    cases reached : getDir root path with
    | none => exact absurd present (nodeAt_of_unreached reached).1
    | some dir => exact ⟨dir,rfl⟩
  · intro holds
    obtain ⟨dir,reached⟩ := holds
    exact nodeAt_of_getDir reached

theorem nodeAt_child {root dir : Dir} {path : List Str} (reached : getDir root path = some dir)
    (name : Str) : nodeAt root (path ++ [name]) = (find dir name).map fun entry => match entry with
      | .file data => .file data
      | .dir _ => .dir := by
  rw [nodeAt_append reached]
  cases found : find dir name with
  | none => simp [nodeAt_cons_none found]
  | some entry =>
    cases entry with
    | file data => simp [nodeAt_cons_file found]
    | dir children => simp [nodeAt_cons_dir found,nodeAt_nil]

theorem getDir_wellFormed {root dir : Dir} (good : WellFormed root) {path : List Str}
    (reached : getDir root path = some dir) : WellFormed dir := by
  induction path generalizing root with
  | nil =>
    cases reached
    exact good
  | cons component path ih =>
    rw [getDir] at reached
    split at reached
    next children found => exact ih (good.found found) reached
    next => contradiction

theorem finite_nodeAt {dir : Dir} (good : WellFormed dir) : {path | nodeAt dir path ≠ none}.Finite := by
  induction good with
  | intro dir sorted below ih =>
    let under (entry : Str × FsEntry) : Set (List Str) :=
      match entry with
      | (name,.file _) => {[name]}
      | (name,.dir children) => (name :: ·) '' {path | nodeAt children path ≠ none}
    have each : ∀ entry ∈ {entry | entry ∈ dir}, (under entry).Finite := by
      intro child member
      obtain ⟨name,entry⟩ := child
      cases entry with
      | file data => exact Set.finite_singleton _
      | dir children => exact (ih name children member).image _
    refine ((List.finite_toSet dir).biUnion each |>.insert []).subset ?_
    intro path present
    cases path with
    | nil => exact Or.inl rfl
    | cons name path =>
      refine Or.inr ?_
      simp only [Set.mem_iUnion]
      cases found : find dir name with
      | none => exact absurd (nodeAt_cons_none found path) present
      | some entry =>
        refine ⟨(name,entry),mem_of_find found,?_⟩
        cases entry with
        | file data =>
          have last : path = [] := by
            by_contra more
            exact present (by rw [nodeAt_cons_file found,if_neg more])
          simp [under,last]
        | dir children =>
          refine ⟨path,?_,rfl⟩
          intro absent
          exact present ((nodeAt_cons_dir found path).trans absent)

/-- A well-formed tree is determined by its map. -/
theorem nodeAt_injective {first second : Dir} (firstGood : WellFormed first) (secondGood : WellFormed second)
    (same : nodeAt first = nodeAt second) : first = second := by
  induction firstGood generalizing second with
  | intro first sorted below ih =>
    refine SortedMap.ext sorted secondGood.sorted fun name => ?_
    have under (path : List Str) : nodeAt first (name::path) = nodeAt second (name::path) := congrFun same _
    have kind := under []
    cases left : find first name with
    | none =>
      rw [nodeAt_cons_none left] at kind
      cases right : find second name with
      | none => rfl
      | some entry => cases entry <;> simp [nodeAt,right] at kind
    | some entry =>
      cases entry with
      | file data =>
        rw [nodeAt_cons_file left,if_pos rfl] at kind
        cases right : find second name with
        | none => simp [nodeAt,right] at kind
        | some other =>
          cases other with
          | file other =>
            rw [nodeAt_cons_file right,if_pos rfl] at kind
            cases kind
            rfl
          | dir children => simp [nodeAt,right] at kind
      | dir children =>
        rw [nodeAt_cons_dir left,nodeAt_nil] at kind
        cases right : find second name with
        | none => simp [nodeAt,right] at kind
        | some other =>
          cases other with
          | file data => simp [nodeAt,right] at kind
          | dir others =>
            have inner : nodeAt children = nodeAt others := by
              funext path
              rw [← nodeAt_cons_dir left,← nodeAt_cons_dir right,under]
            rw [ih name children (mem_of_find left) (secondGood.found right) inner]

theorem getDirMut_cons_dir {current children : Dir} (good : WellFormed current) {component : Str}
    (found : find current component = some (.dir children)) (path : List Str) :
    getDirMut current good (component::path) =
      (getDirMut children (good.found found) path).map fun inner => {
        dir := inner.dir
        back := fun changed => insert current component (.dir (inner.back changed))
        wellFormed := inner.wellFormed
        restores := fun _ changedGood => good.insert component (inner.restores _ changedGood) } := by
  rw [getDirMut]
  split
  next dir same =>
    obtain rfl : dir = children := by simpa using same.symm.trans found
    cases getDirMut dir (good.found found) path <;> simp
  next absent => exact absurd found (absent children)

theorem getDirMut_cons_other {current : Dir} (good : WellFormed current) {component : Str}
    (absent : ∀ children, find current component ≠ some (.dir children)) (path : List Str) :
    getDirMut current good (component::path) = none := by
  rw [getDirMut]
  split
  next dir same => exact absurd same (absent dir)
  next => rfl

/-- `get_dir_mut` borrows exactly the directory that `get_dir` returns. -/
theorem getDirMut_dir (current : Dir) (good : WellFormed current) (path : List Str) :
    (getDirMut current good path).map Borrow.dir = getDir current path := by
  induction path generalizing current with
  | nil => rfl
  | cons component path ih =>
    rw [getDir]
    split
    next children found =>
      rw [getDirMut_cons_dir good found,Option.map_map,← ih children (good.found found)]
      rfl
    next absent => rw [getDirMut_cons_other good absent]; rfl

/-- An edit of one name in a borrowed directory is an update at one path of the root. -/
theorem nodeAt_back {current : Dir} {good : WellFormed current} {path : List Str} {borrow : Borrow}
    (borrowed : getDirMut current good path = some borrow) {changed : Dir} {name : Str}
    {value : Option (Node Bytes)}
    (edited : nodeAt changed = Function.update (nodeAt borrow.dir) [name] value) :
    nodeAt (borrow.back changed) = Function.update (nodeAt current) (path ++ [name]) value := by
  induction path generalizing current borrow with
  | nil =>
    cases Option.some.inj borrowed
    exact edited
  | cons component path ih =>
    by_cases entered : ∃ children, find current component = some (.dir children)
    · obtain ⟨children,found⟩ := entered
      rw [getDirMut_cons_dir good found] at borrowed
      obtain ⟨inner,reached,rfl⟩ := Option.map_eq_some_iff.mp borrowed
      have below := ih reached edited
      funext query
      cases query with
      | nil => simp [nodeAt_nil]
      | cons head rest =>
        by_cases here : head = component
        · subst head
          rw [nodeAt_cons_dir (find_insert_self _ _ _),below]
          by_cases target : rest = path ++ [name]
          · simp [target]
          · rw [Function.update_of_ne target,Function.update_of_ne (by simp [target]),
              nodeAt_cons_dir found]
        · rw [Function.update_of_ne (by simp [here])]
          simp only [nodeAt,find_insert_ne _ _ here]
    · rw [getDirMut_cons_other good (by simpa using entered)] at borrowed
      contradiction

/-- Overwriting a name that held no directory by a leaf changes the map at that name only. -/
theorem nodeAt_insert_leaf {dir : Dir} {name : Str} {entry : FsEntry} {value : Node Bytes}
    (leaf : ∀ path, nodeAt (insert dir name entry) (name::path) = if path = [] then some value else none)
    (plain : ∀ children, find dir name ≠ some (.dir children)) :
    nodeAt (insert dir name entry) = Function.update (nodeAt dir) [name] (some value) := by
  funext query
  cases query with
  | nil => simp [nodeAt_nil]
  | cons head rest =>
    by_cases here : head = name
    · subst head
      rw [leaf]
      by_cases last : rest = []
      · simp [last]
      · rw [if_neg last,Function.update_of_ne (by simp [last])]
        cases found : find dir name with
        | none => rw [nodeAt_cons_none found]
        | some old =>
          cases old with
          | file data => rw [nodeAt_cons_file found,if_neg last]
          | dir children => exact absurd found (plain children)
    · rw [Function.update_of_ne (by simp [here])]
      simp only [nodeAt,find_insert_ne _ _ here]

theorem nodeAt_insert_file {dir : Dir} {name : Str} (data : Bytes)
    (plain : ∀ children, find dir name ≠ some (.dir children)) :
    nodeAt (insert dir name (.file data)) = Function.update (nodeAt dir) [name] (some (.file data)) :=
  nodeAt_insert_leaf (fun path => nodeAt_cons_file (find_insert_self _ _ _) path) plain

theorem nodeAt_insert_empty {dir : Dir} {name : Str} (plain : ∀ children, find dir name ≠ some (.dir children)) :
    nodeAt (insert dir name (.dir [])) = Function.update (nodeAt dir) [name] (some .dir) := by
  refine nodeAt_insert_leaf (fun path => ?_) plain
  rw [nodeAt_cons_dir (find_insert_self _ _ _)]
  cases path <;> simp [nodeAt]

theorem nodeAt_erase {dir : Dir} {name : Str}
    (childless : ∀ children, find dir name = some (.dir children) → children = []) :
    nodeAt (erase dir name) = Function.update (nodeAt dir) [name] none := by
  funext query
  cases query with
  | nil => simp [nodeAt_nil]
  | cons head rest =>
    by_cases here : head = name
    · subst head
      have gone : find (erase dir name) name = none := by simp [find_erase]
      rw [nodeAt_cons_none gone]
      by_cases last : rest = []
      · simp [last]
      · rw [Function.update_of_ne (by simp [last])]
        cases found : find dir name with
        | none => rw [nodeAt_cons_none found]
        | some old =>
          cases old with
          | file data => rw [nodeAt_cons_file found,if_neg last]
          | dir children =>
            rw [nodeAt_cons_dir found,childless children found]
            cases rest with
            | nil => exact absurd rfl last
            | cons => rfl
    · have kept : find (erase dir name) head = find dir head := by simp [find_erase,here]
      rw [Function.update_of_ne (by simp [here])]
      simp only [nodeAt,kept]

end Dir

namespace RamFs
open Dir

def tree (fs : RamFs) : PathMap Str Bytes where
  node := nodeAt fs.root
  root := nodeAt_nil fs.root
  parent := by
    intro path name present
    rw [nodeAt_dir_iff]
    cases reached : fs.root.getDir path with
    | none => exact absurd ((nodeAt_of_unreached reached).2 name) present
    | some dir => exact ⟨dir,rfl⟩
  finite := finite_nodeAt fs.wellFormed

theorem tree_node (fs : RamFs) (path : List Str) : fs.tree.node path = nodeAt fs.root path := rfl

theorem tree_injective {first second : RamFs} (same : first.tree = second.tree) : first = second := by
  apply RamFs.ext
  exact nodeAt_injective first.wellFormed second.wellFormed (congrArg PathMap.node same)

theorem getDirMut_none_iff (fs : RamFs) (path : List Str) :
    fs.getDirMut path = none ↔ fs.getDir path = none := by
  rw [getDir,← getDirMut_dir fs.root fs.wellFormed path,getDirMut,Option.map_eq_none_iff]

theorem getDir_of_borrow {fs : RamFs} {path : List Str} {borrow : Borrow}
    (borrowed : fs.getDirMut path = some borrow) : fs.getDir path = some borrow.dir := by
  rw [getDir,← getDirMut_dir fs.root fs.wellFormed path]
  exact Option.map_eq_some_iff.mpr ⟨borrow,borrowed,rfl⟩

theorem tree_of_no_dir {fs : RamFs} {path : List Str} (unreached : fs.getDir path = none) (name : Str) :
    fs.tree.node path ≠ some .dir ∧ fs.tree.node (path ++ [name]) = none :=
  ⟨(nodeAt_of_unreached unreached).1,(nodeAt_of_unreached unreached).2 name⟩

theorem tree_child {fs : RamFs} {path : List Str} {dir : Dir} (reached : fs.getDir path = some dir)
    (name : Str) : fs.tree.node path = some .dir ∧
      fs.tree.node (path ++ [name]) = (find dir name).map fun entry => match entry with
        | .file data => .file data
        | .dir _ => .dir :=
  ⟨nodeAt_of_getDir reached,nodeAt_child reached name⟩

theorem childless_iff {fs : RamFs} {path : List Str} {dir children : Dir} {name : Str}
    (reached : fs.getDir path = some dir) (found : find dir name = some (.dir children)) :
    fs.tree.Childless (path ++ [name]) ↔ children = [] := by
  have child (other : Str) : fs.tree.node (path ++ [name] ++ [other]) = nodeAt children [other] := by
    rw [tree_node,List.append_assoc,nodeAt_append reached]
    exact nodeAt_cons_dir found [other]
  constructor
  · intro childless
    cases children with
    | nil => rfl
    | cons entry rest =>
      have absent := (child entry.1).symm.trans (childless entry.1)
      have present : find (entry::rest) entry.1 = some entry.2 := by simp [find]
      cases kind : entry.2 with
      | file data => simp [nodeAt_cons_file (present.trans (by rw [kind]))] at absent
      | dir inner => simp [nodeAt_cons_dir (present.trans (by rw [kind])),nodeAt_nil] at absent
  · intro equal other
    subst equal
    rw [child]
    rfl

theorem write_refines (fs : RamFs) (path : List Str) (name : Str) (data : Bytes) :
    (fs.write path name data).1 = (fs.tree.write path name data).1 ∧
      (fs.write path name data).2.tree = (fs.tree.write path name data).2 := by
  unfold write PathMap.write
  split
  next unreached =>
    have absent := tree_of_no_dir ((fs.getDirMut_none_iff path).mp unreached) name
    rw [dif_neg (fun allowed => absent.1 allowed.1)]
    exact ⟨rfl,rfl⟩
  next borrow borrowed =>
    obtain ⟨here,child⟩ := tree_child (getDir_of_borrow borrowed) name
    split
    next children found =>
      rw [dif_neg (fun allowed => allowed.2 (by rw [child,found]; rfl))]
      exact ⟨rfl,rfl⟩
    next plain =>
      have allowed : fs.tree.node path = some .dir ∧ fs.tree.node (path ++ [name]) ≠ some .dir := by
        refine ⟨here,?_⟩
        rw [child]
        cases found : find borrow.dir name with
        | none => simp
        | some entry =>
          cases entry with
          | file old => simp
          | dir children => exact absurd found (plain children)
      rw [dif_pos allowed]
      refine ⟨rfl,PathMap.ext fun query => ?_⟩
      exact congrFun (nodeAt_back borrowed (nodeAt_insert_file data plain)) query

/-- `create` and `mkdir` differ in the entry they insert only. -/
theorem make_refines (fs : RamFs) (path : List Str) (name : Str) {entry : FsEntry} (good : entry.WellFormed)
    {value : Node Bytes}
    (leaf : ∀ dir : Dir, (∀ children, find dir name ≠ some (.dir children)) →
      nodeAt (SortedMap.insert dir name entry) = Function.update (nodeAt dir) [name] (some value)) :
    let made := match fs.getDirMut path with
      | none => (false,fs)
      | some dir => if (find dir.dir name).isSome then (false,fs) else (true,insert dir name entry good)
    made.1 = (fs.tree.make path name value).1 ∧ made.2.tree = (fs.tree.make path name value).2 := by
  intro made
  unfold PathMap.make
  cases borrowed : fs.getDirMut path with
  | none =>
    have absent := tree_of_no_dir ((fs.getDirMut_none_iff path).mp borrowed) name
    rw [dif_neg (fun allowed => absent.1 allowed.1)]
    simp [made,borrowed]
  | some borrow =>
    obtain ⟨here,child⟩ := tree_child (getDir_of_borrow borrowed) name
    cases found : find borrow.dir name with
    | some old =>
      rw [dif_neg (fun allowed => by simp [allowed.2,found] at child)]
      simp [made,borrowed,found]
    | none =>
      rw [dif_pos ⟨here,by rw [child,found]; rfl⟩]
      simp only [made,borrowed,found,Option.isSome_none,Bool.false_eq_true,if_false,true_and]
      refine PathMap.ext fun query => ?_
      exact congrFun (nodeAt_back borrowed (leaf borrow.dir (by simp [found]))) query

theorem create_refines (fs : RamFs) (path : List Str) (name : Str) :
    (fs.create path name).1 = (fs.tree.make path name (.file [])).1 ∧
      (fs.create path name).2.tree = (fs.tree.make path name (.file [])).2 :=
  make_refines fs path name (show (FsEntry.file []).WellFormed from trivial) (fun _ plain => nodeAt_insert_file [] plain)

theorem mkdir_refines (fs : RamFs) (path : List Str) (name : Str) :
    (fs.mkdir path name).1 = (fs.tree.make path name .dir).1 ∧
      (fs.mkdir path name).2.tree = (fs.tree.make path name .dir).2 :=
  make_refines fs path name (show (FsEntry.dir []).WellFormed from wellFormed_nil)
    (fun _ plain => nodeAt_insert_empty plain)

def removal : PathMap.Removal → RemoveResult
  | .removed => .ok
  | .notFound => .notFound
  | .notEmpty => .dirNotEmpty

theorem remove_refines (fs : RamFs) (path : List Str) (name : Str) :
    (fs.remove path name).1 = removal (fs.tree.remove path name).1 ∧
      (fs.remove path name).2.tree = (fs.tree.remove path name).2 := by
  unfold remove PathMap.remove
  split
  next unreached =>
    have absent := tree_of_no_dir ((fs.getDirMut_none_iff path).mp unreached) name
    rw [dif_neg (by simp [absent.2])]
    exact ⟨rfl,rfl⟩
  next borrow borrowed =>
    have reached := getDir_of_borrow borrowed
    obtain ⟨here,child⟩ := tree_child reached name
    split
    next missing =>
      rw [dif_neg (by simp [child,missing])]
      exact ⟨rfl,rfl⟩
    next entry rest found =>
      rw [dif_pos (by simp [child,found]),dif_neg (by simp [childless_iff reached found])]
      exact ⟨rfl,rfl⟩
    next missing nonempty =>
      have childless : ∀ children, find borrow.dir name = some (.dir children) → children = [] := by
        intro children found
        cases children with
        | nil => rfl
        | cons entry rest => exact absurd found (nonempty entry rest)
      have leaf : fs.tree.Childless (path ++ [name]) := by
        cases found : find borrow.dir name with
        | none => exact absurd found missing
        | some old =>
          cases old with
          | file data => exact fs.tree.childless_of_not_dir (by simp [child,found])
          | dir children => exact (childless_iff reached found).mpr (childless children found)
      rw [dif_pos (by simpa [child] using missing),dif_pos leaf]
      refine ⟨rfl,PathMap.ext fun query => ?_⟩
      exact congrFun (nodeAt_back borrowed (nodeAt_erase childless)) query

theorem read_refines (fs : RamFs) (path : List Str) (name : Str) (data : Bytes) :
    fs.read path name = some data ↔ fs.tree.node (path ++ [name]) = some (.file data) := by
  cases reached : fs.getDir path with
  | none => simp [read,reached,(tree_of_no_dir reached name).2]
  | some dir =>
    rw [(tree_child reached name).2]
    cases found : find dir name with
    | none => simp [read,reached,found]
    | some entry => cases entry <;> simp [read,reached,found]

theorem exists_refines (fs : RamFs) (path : List Str) (name : Str) :
    fs.exists path name = true ↔ fs.tree.node (path ++ [name]) ≠ none := by
  cases reached : fs.getDir path with
  | none => simp [RamFs.exists,reached,(tree_of_no_dir reached name).2]
  | some dir =>
    rw [(tree_child reached name).2]
    simp [RamFs.exists,reached,Option.isSome_iff_ne_none]

theorem isDir_refines (fs : RamFs) (path : List Str) (name : Str) :
    fs.isDir path name = true ↔ fs.tree.node (path ++ [name]) = some .dir := by
  cases reached : fs.getDir path with
  | none => simp [isDir,reached,(tree_of_no_dir reached name).2]
  | some dir =>
    rw [(tree_child reached name).2]
    cases found : find dir name with
    | none => simp [isDir,reached,found]
    | some entry => cases entry <;> simp [isDir,reached,found]

theorem names_refines (fs : RamFs) (path : List Str) :
    (fs.names path).Pairwise (· < ·) ∧
      ∀ name, name ∈ fs.names path ↔ fs.tree.node (path ++ [name]) ≠ none := by
  cases reached : fs.getDir path with
  | none => simp [names,reached,(tree_of_no_dir reached _).2]
  | some dir =>
    have sorted : Sorted dir := (getDir_wellFormed fs.wellFormed reached).sorted
    simp only [names,reached]
    refine ⟨List.pairwise_map.mpr sorted,fun name => ?_⟩
    rw [(tree_child reached name).2,ne_eq,Option.map_eq_none_iff,find_eq_none_iff]
    simp

def describe (name : Str) : Node Bytes → DirEntry
  | .file data => ⟨name,false,data.length⟩
  | .dir => ⟨name,true,0⟩

theorem describe_name (name : Str) (node : Node Bytes) : (describe name node).name = name := by
  cases node <;> rfl

theorem list_refines (fs : RamFs) (path : List Str) :
    (fs.list path = none ↔ fs.tree.node path ≠ some .dir) ∧
      ∀ entries, fs.list path = some entries →
        entries.Pairwise (fun a b => a.name < b.name) ∧
          ∀ entry, entry ∈ entries ↔
            ∃ node, fs.tree.node (path ++ [entry.name]) = some node ∧ entry = describe entry.name node := by
  cases reached : fs.getDir path with
  | none => simp [list,reached,(tree_of_no_dir reached []).1]
  | some dir =>
    have good := getDir_wellFormed fs.wellFormed reached
    obtain ⟨here,child⟩ : fs.tree.node path = some .dir ∧ _ :=
      ⟨(tree_child reached []).1,fun name => (tree_child reached name).2⟩
    let node : FsEntry → Node Bytes
      | .file data => .file data
      | .dir _ => .dir
    have listed : fs.list path = some (dir.map fun entry => describe entry.1 (node entry.2)) := by
      simp only [list,reached,bind,Option.bind,pure,Option.some.injEq]
      apply List.map_congr_left
      intro child _
      obtain ⟨name,entry⟩ := child
      cases entry <;> rfl
    refine ⟨by simp [listed,here],fun entries same => ?_⟩
    obtain rfl := Option.some.inj (listed.symm.trans same)
    constructor
    · refine List.pairwise_map.mpr (good.sorted.imp fun below => ?_)
      simpa only [describe_name] using below
    · intro entry
      have present : fs.tree.node (path ++ [entry.name]) = (find dir entry.name).map node := by
        rw [child]
      simp only [present,Option.map_eq_some_iff,List.mem_map,Prod.exists]
      constructor
      · intro holds
        obtain ⟨name,held,member,rfl⟩ := holds
        rw [describe_name]
        exact ⟨node held,⟨held,find_of_mem good.sorted member,rfl⟩,rfl⟩
      · intro holds
        obtain ⟨_,⟨held,found,rfl⟩,same⟩ := holds
        exact ⟨entry.name,held,mem_of_find found,same.symm⟩

/-- Mutators edit the map at one path or leave it alone, with the result the map
decides; queries return what the map holds. -/
theorem refines_pathMap (fs : RamFs) (path : List Str) (name : Str) (data : Bytes) :
    ((fs.write path name data).1 = (fs.tree.write path name data).1 ∧
      (fs.write path name data).2.tree = (fs.tree.write path name data).2) ∧
    ((fs.create path name).1 = (fs.tree.make path name (.file [])).1 ∧
      (fs.create path name).2.tree = (fs.tree.make path name (.file [])).2) ∧
    ((fs.mkdir path name).1 = (fs.tree.make path name .dir).1 ∧
      (fs.mkdir path name).2.tree = (fs.tree.make path name .dir).2) ∧
    ((fs.remove path name).1 = removal (fs.tree.remove path name).1 ∧
      (fs.remove path name).2.tree = (fs.tree.remove path name).2) ∧
    (∀ held, fs.read path name = some held ↔ fs.tree.node (path ++ [name]) = some (.file held)) ∧
    (fs.exists path name = true ↔ fs.tree.node (path ++ [name]) ≠ none) ∧
    (fs.isDir path name = true ↔ fs.tree.node (path ++ [name]) = some .dir) ∧
    ((fs.list path = none ↔ fs.tree.node path ≠ some .dir) ∧
      ∀ entries, fs.list path = some entries →
        entries.Pairwise (fun a b => a.name < b.name) ∧
          ∀ entry, entry ∈ entries ↔
            ∃ node, fs.tree.node (path ++ [entry.name]) = some node ∧ entry = describe entry.name node) ∧
    ((fs.names path).Pairwise (· < ·) ∧
      ∀ other, other ∈ fs.names path ↔ fs.tree.node (path ++ [other]) ≠ none) :=
  ⟨write_refines fs path name data,create_refines fs path name,mkdir_refines fs path name,
    remove_refines fs path name,read_refines fs path name,exists_refines fs path name,
    isDir_refines fs path name,list_refines fs path,names_refines fs path⟩

end RamFs

end PolarOs
