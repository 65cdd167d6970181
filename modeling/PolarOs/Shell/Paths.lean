import PolarOs.Kernel.Syscall
import PolarOs.Shell.Session

/-! Locations as the shell holds them, lists of components that it never splits, and as the
system calls take them, texts that are split at slashes. -/
namespace PolarOs
open Library Library.Checked

variable {δ μ : Type}

/-- A component that a slash does not take apart. -/
def PlainComponent (component : Str) : Prop := component ≠ [] ∧ '/' ∉ component

/-- The non-empty pieces between the slashes. -/
def pathParts (path : Str) : List Str := (Str.split '/' path).filter fun part => !part.isEmpty

theorem pathParts_slash (path : Str) : pathParts ('/' :: path) = pathParts path := rfl

theorem pathParts_append (before after : Str) :
    pathParts (before ++ '/' :: after) = pathParts before ++ pathParts after := by
  rw [pathParts,Str.split_append,List.filter_append]
  rfl

theorem pathParts_trimmed (path : Str) : pathParts (path.dropWhile (· == '/')) = pathParts path := by
  induction path with
  | nil => rfl
  | cons c path ih =>
    rw [List.dropWhile_cons]
    split
    next slash =>
      rw [ih,beq_iff_eq.mp slash]
      exact (pathParts_slash path).symm
    next => rfl

theorem plain_of_pathParts {path part : Str} (member : part ∈ pathParts path) : PlainComponent part := by
  obtain ⟨piece,nonempty⟩ := List.mem_filter.mp member
  refine ⟨?_,?_⟩
  · rintro rfl
    cases nonempty
  · intro slash
    exact absurd (Str.not_mem_of_mem_splitBy piece '/' slash) (by decide)

theorem pathParts_plain {component : Str} (plain : PlainComponent component) : pathParts component = [component] := by
  have absent : ∀ c ∈ component, (c == '/') = false := by
    intro c member
    refine beq_false_of_ne ?_
    rintro rfl
    exact plain.2 member
  rw [pathParts,Str.split,Str.splitBy_absent absent]
  exact List.filter_cons_of_pos (by rw [Bool.not_eq_true',List.isEmpty_eq_false_iff]; exact plain.1)

theorem pathParts_components (before : Str) (components : List Str) :
    pathParts (before ++ components.flatMap fun component => '/' :: component) =
      pathParts before ++ components.flatMap pathParts := by
  induction components generalizing before with
  | nil => rw [List.flatMap_nil,List.flatMap_nil,List.append_nil,List.append_nil]
  | cons component components ih =>
    rw [List.flatMap_cons,List.flatMap_cons,List.cons_append,pathParts_append,ih]

/-- The text of `pwd`, a slash and the name. -/
def absolutePath (cwd : List Str) (name : Str) : Str := cmdPwd cwd ++ '/' :: name

theorem pathParts_absolutePath (cwd : List Str) (name : Str) :
    pathParts (absolutePath cwd name) = (cwd ++ [name]).flatMap pathParts := by
  have above : pathParts (cmdPwd cwd) = cwd.flatMap pathParts := by
    unfold cmdPwd
    split
    next root =>
      rw [List.isEmpty_iff.mp root]
      rfl
    next => exact pathParts_components [] cwd
  rw [absolutePath,pathParts_append,above,List.flatMap_append,List.flatMap_singleton]

theorem flatMap_pathParts {components : List Str} :
    components.flatMap pathParts = components ↔ ∀ component ∈ components, PlainComponent component := by
  constructor
  · intro same component member
    rw [← same] at member
    obtain ⟨whole,_,part⟩ := List.mem_flatMap.mp member
    exact plain_of_pathParts part
  · intro plain
    induction components with
    | nil => rfl
    | cons component components ih =>
      rw [List.flatMap_cons,pathParts_plain (plain component List.mem_cons_self),
        ih fun other member => plain other (List.mem_cons_of_mem _ member)]
      rfl

theorem parseFilePath_parts (path : Str) :
    parseFilePath path = match (pathParts path).getLast? with
      | none => ([],[])
      | some filename => ((pathParts path).dropLast,filename) := by
  unfold parseFilePath
  dsimp only
  rw [← pathParts_trimmed path]
  rfl

/-- The two spellings of a location agree exactly on plain components. The root's own text is
two slashes, which name the entry of the root without a name. -/
theorem parseFilePath_absolutePath (cwd : List Str) (name : Str) :
    parseFilePath (absolutePath cwd name) = (cwd,name) ↔
      (∀ component ∈ cwd ++ [name], PlainComponent component) ∨ cwd = [] ∧ name = [] := by
  rw [parseFilePath_parts,pathParts_absolutePath,← flatMap_pathParts]
  cases last : ((cwd ++ [name]).flatMap pathParts).getLast? with
  | none =>
    have nothing := List.getLast?_eq_none_iff.mp last
    rw [nothing]
    constructor
    · intro same
      cases same
      exact Or.inr ⟨rfl,rfl⟩
    · rintro (same | ⟨rfl,rfl⟩)
      · exact absurd same.symm (List.append_ne_nil_of_right_ne_nil cwd (List.cons_ne_nil name []))
      · rfl
  | some filename =>
    have whole := List.dropLast_append_getLast? filename last
    constructor
    · intro same
      obtain ⟨dir,file⟩ := Prod.mk.inj same
      rw [dir,file] at whole
      exact Or.inl whole.symm
    · rintro (same | ⟨rfl,rfl⟩)
      · rw [same] at last ⊢
        rw [List.getLast?_append,List.getLast?_singleton] at last
        cases last
        rw [List.dropLast_concat]
      · cases last

theorem sysStat_file {fs : RamFs} {dir : List Str} {text name : Str} {data : Bytes}
    (parsed : parseFilePath text = (dir,name)) (stored : fs.read dir name = some data) :
    sysStat fs (Utf8.encode text) = .ok data.length := by
  rw [sysStat,readUserStr,Utf8.decode_encode]
  dsimp only
  rw [parsed]
  dsimp only
  rw [stored]

theorem sysOpen_file {fs : RamFs} {dir : List Str} {text name : Str} {data : Bytes}
    (parsed : parseFilePath text = (dir,name)) (stored : fs.read dir name = some data) (fds : FdTable) :
    sysOpen fs (Utf8.encode text) fds = (allocFd fds).elim (.error .emfile,fds)
      fun fd => (.ok fd.val,Function.update fds fd (some ⟨dir,name,0⟩)) := by
  have file := (fs.read_refines dir name data).mp stored
  have present : fs.exists dir name = true := by
    rw [fs.exists_refines,file]
    exact nofun
  have plain : ¬fs.isDir dir name = true := by
    rw [fs.isDir_refines,file]
    exact nofun
  rw [sysOpen,readUserStr,Utf8.decode_encode]
  dsimp only
  rw [parsed]
  dsimp only
  rw [present,if_neg nofun,if_neg plain]
  cases allocFd fds <;> rfl

/-- A file that the shell reads is the one that the system calls find under its absolute path
exactly when no component is empty or has a slash. -/
theorem syscalls_find_plain_paths (fs : RamFs) (cwd : List Str) (name : Str) :
    (parseFilePath (absolutePath cwd name) = (cwd,name) ↔
      (∀ component ∈ cwd ++ [name], PlainComponent component) ∨ cwd = [] ∧ name = []) ∧
    ∀ data, fs.read cwd name = some data →
      (∀ component ∈ cwd ++ [name], PlainComponent component) ∨ cwd = [] ∧ name = [] →
      sysStat fs (Utf8.encode (absolutePath cwd name)) = .ok data.length ∧
        ∀ fds, sysOpen fs (Utf8.encode (absolutePath cwd name)) fds = (allocFd fds).elim (.error .emfile,fds)
          fun fd => (.ok fd.val,Function.update fds fd (some ⟨cwd,name,0⟩)) := by
  refine ⟨parseFilePath_absolutePath cwd name,?_⟩
  intro data stored plain
  have parsed := (parseFilePath_absolutePath cwd name).mpr plain
  exact ⟨sysStat_file parsed stored,sysOpen_file parsed stored⟩

/-- The tree after `touch a/b` at the root of the empty tree. -/
def slashWorld : World Unit Unit :=
  {bareWorld RamFs.new with fs := (RamFs.new.create [] (lit "a/b")).2}.println (lit "Utworzono plik 'a/b'.")

theorem name_with_slash_not_found :
    executeLine bareMachine (lit "touch a/b") [] (bareWorld RamFs.new) = .ok ([],slashWorld) ∧
      slashWorld.fs.read [] (lit "a/b") = some [] ∧
      parseFilePath (absolutePath [] (lit "a/b")) = ([['a']],['b']) ∧
      sysStat slashWorld.fs (Utf8.encode (absolutePath [] (lit "a/b"))) = .error .enoent := by
  have made : startLine bareMachine (lit "touch a/b") [] (bareWorld RamFs.new) =
      (some ⟨[lit "touch a/b"],none,.print⟩,bareWorld RamFs.new) := by
    unfold startLine
    rw [expandEnvVars_plain _ _ (by decide)]
    rfl
  refine ⟨?_,rfl,rfl,?_⟩
  · rw [executeLine,made]
    rfl
  · rw [sysStat,readUserStr,Utf8.decode_encode]
    rfl

end PolarOs
