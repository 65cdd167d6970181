import PolarOs.Kernel.Syscall
import PolarOs.Library.Streams

/-! What the descriptors of one task mean while the filesystem stays as it is: an open
descriptor is a stream with the bytes of its file that are still to come. -/
namespace PolarOs
open Library Library.Streams

variable {fs : RamFs} {fds : FdTable}

/-- The calls of a program that opens, reads and closes files. -/
inductive FileCall where
  | openFile (path : Bytes)
  | read (fd len : Nat)
  | close (fd : Nat)
deriving DecidableEq

def FileCall.call : FileCall → Call
  | .openFile path => .openFile path
  | .read fd len => .read fd len
  | .close fd => .close fd

/-- The reply, the bytes stored to the caller's buffer and the table. -/
def fileCall (fs : RamFs) (fds : FdTable) : FileCall → Reply × Bytes × FdTable
  | .openFile path => ((sysOpen fs path fds).1,[],(sysOpen fs path fds).2)
  | .read fd len => sysRead fs fd len fds
  | .close fd => ((sysClose fd fds).1,[],(sysClose fd fds).2)

theorem dispatch_fileCall (fs : RamFs) (sched : Scheduler) (fds : FdTable) (call : FileCall) :
    syscallDispatch fs sched fds call.call = ({Response.plain (fileCall fs fds call).1 with
      buffer := (fileCall fs fds call).2.1},(fileCall fs fds call).2.2) := by
  cases call <;> rfl

def FdTable.slot (fds : FdTable) (fd : Nat) : Option OpenFile :=
  if inside : fd < maxFds then fds ⟨fd,inside⟩ else none

def fileAt (fs : RamFs) (path : Bytes) : Option Bytes := do
  let path ← readUserStr path
  fs.read (parseFilePath path).1 (parseFilePath path).2

theorem sysStat_fails {path : Bytes} : (sysStat fs path).Fails ↔ fileAt fs path = none := by
  unfold sysStat fileAt Reply.Fails
  cases readUserStr path with
  | none => simp
  | some path =>
    simp only [Option.bind_eq_bind,Option.bind_some]
    cases fs.read (parseFilePath path).1 (parseFilePath path).2 <;> simp

/-- `exists` and `is_dir` together ask what `read` asks. -/
theorem read_isSome (fs : RamFs) (dir : List Str) (name : Str) :
    (fs.read dir name).isSome = (fs.exists dir name && !fs.isDir dir name) := by
  unfold RamFs.read RamFs.exists RamFs.isDir
  cases fs.getDir dir with
  | none => rfl
  | some entries =>
    simp only [Option.bind_eq_bind,Option.bind_some]
    cases SortedMap.find entries name with
    | none => rfl
    | some entry => cases entry <;> rfl

/-! One lemma for each call. -/

theorem allocFd_some {fd : Fin maxFds} (found : allocFd fds = some fd) : reservedFds ≤ fd.val ∧ fds fd = none := by
  have holds := List.find?_some found
  simpa using holds

theorem allocFd_none : allocFd fds = none ↔ ∀ fd : Fin maxFds, reservedFds ≤ fd.val → fds fd ≠ none := by
  simp [allocFd,List.find?_eq_none]

theorem sysOpen_cases (fs : RamFs) (path : Bytes) (fds : FdTable) :
    ((sysOpen fs path fds).1.Fails ∧ (sysOpen fs path fds).2 = fds ∧ (fileAt fs path = none ∨ allocFd fds = none)) ∨
    ∃ fd file content, sysOpen fs path fds = (.ok fd.val,Function.update fds fd (some file)) ∧
      allocFd fds = some fd ∧ file.offset = 0 ∧ fs.read file.path file.name = some content ∧
      fileAt fs path = some content := by
  unfold sysOpen fileAt Reply.Fails
  cases readUserStr path with
  | none => exact .inl ⟨⟨_,rfl⟩,rfl,.inl rfl⟩
  | some path =>
    have present := read_isSome fs (parseFilePath path).1 (parseFilePath path).2
    cases there : fs.exists (parseFilePath path).1 (parseFilePath path).2 with
    | false =>
      left
      simp_all
    | true =>
      cases directory : fs.isDir (parseFilePath path).1 (parseFilePath path).2 with
      | true =>
        left
        simp_all
      | false =>
        rw [there,directory] at present
        obtain ⟨content,found⟩ := Option.isSome_iff_exists.mp present
        cases slot : allocFd fds with
        | none =>
          left
          simp_all
        | some fd =>
          right
          exact ⟨fd,⟨_,_,0⟩,content,by simp [there,directory],rfl,rfl,found,found⟩

theorem slot_update {fd : Fin maxFds} {file : Option OpenFile} {other : Nat} :
    FdTable.slot (Function.update fds fd file) other = if other = fd.val then file else fds.slot other := by
  unfold FdTable.slot
  split
  next inside =>
    by_cases same : other = fd.val
    · subst same
      simp
    · have away : (⟨other,inside⟩ : Fin maxFds) ≠ fd := fun equal => same (congrArg Fin.val equal)
      simp [same,away]
  next outside =>
    rw [if_neg]
    intro equal
    subst equal
    exact outside fd.isLt

/-- Reading needs an open descriptor whose file is there, and then always succeeds. -/
theorem sysRead_cases (fs : RamFs) (fd len : Nat) (fds : FdTable) :
    ((sysRead fs fd len fds).1.Fails ∧ (sysRead fs fd len fds).2 = ([],fds) ∧
      ∀ file, fds.slot fd = some file → fs.read file.path file.name = none) ∨
    ∃ (inside : fd < maxFds) (file : OpenFile) (data : Bytes), fds.slot fd = some file ∧
      fs.read file.path file.name = some data ∧
      sysRead fs fd len fds = (.ok ((data.drop file.offset).take len).length,(data.drop file.offset).take len,
        Function.update fds ⟨fd,inside⟩
          (some {file with offset := file.offset + ((data.drop file.offset).take len).length})) := by
  unfold sysRead FdTable.slot Reply.Fails
  by_cases inside : fd < maxFds
  · simp only [inside,dif_pos]
    cases opened : fds ⟨fd,inside⟩ with
    | none => exact .inl ⟨⟨.ebadf,rfl⟩,rfl,by simp⟩
    | some file =>
      cases found : fs.read file.path file.name with
      | none =>
        left
        refine ⟨⟨.enoent,by simp [found]⟩,by simp [found],?_⟩
        intro other same
        cases same
        exact found
      | some data =>
        right
        refine ⟨trivial,file,data,rfl,found,?_⟩
        have rest : (if file.offset < data.length then data.drop file.offset else []) = data.drop file.offset := by
          split
          next _ => rfl
          next past => rw [List.drop_of_length_le (by omega)]
        have short : (data.drop file.offset).take (min (data.drop file.offset).length len) =
            (data.drop file.offset).take len := List.take_eq_take_iff.mpr (by omega)
        simp only [found,rest,short,List.length_take,Nat.min_comm len]
  · simp only [inside,dif_neg,not_false_eq_true]
    exact .inl ⟨⟨.ebadf,rfl⟩,trivial,by simp⟩

theorem sysClose_cases (fd : Nat) (fds : FdTable) :
    ((sysClose fd fds).1.Fails ∧ (sysClose fd fds).2 = fds ∧ (reservedFds ≤ fd → fds.slot fd = none)) ∨
    ∃ inside : fd < maxFds, reservedFds ≤ fd ∧ (fds.slot fd).isSome ∧
      sysClose fd fds = (.ok 0,Function.update fds ⟨fd,inside⟩ none) := by
  unfold sysClose FdTable.slot Reply.Fails
  by_cases inside : reservedFds ≤ fd ∧ fd < maxFds
  · simp only [inside,and_self,dif_pos]
    cases opened : fds ⟨fd,inside.2⟩ with
    | none => exact .inl ⟨⟨.ebadf,by simp⟩,by simp,by simp⟩
    | some file => exact .inr ⟨trivial,trivial,rfl,by simp⟩
  · simp only [inside,dif_neg,not_false_eq_true]
    refine .inl ⟨⟨.ebadf,rfl⟩,trivial,fun reserved => ?_⟩
    rw [dif_neg (fun bound => inside ⟨reserved,bound⟩)]

/-! Runs. -/

/-- No reserved slot is open, and the file of every open slot is there. -/
structure FdTable.Sound (fs : RamFs) (fds : FdTable) : Prop where
  reserved : ∀ fd < reservedFds, fds.slot fd = none
  present : ∀ fd file, fds.slot fd = some file → ∃ data, fs.read file.path file.name = some data

theorem sound_empty (fs : RamFs) : FdTable.empty.Sound fs where
  reserved := by simp [FdTable.slot,FdTable.empty]
  present := by simp [FdTable.slot,FdTable.empty]

/-- A slot may be emptied, or filled behind the reserved ones with a file that is there. -/
theorem sound_update (sound : fds.Sound fs) {fd : Fin maxFds} {file : Option OpenFile}
    (user : file.isSome → reservedFds ≤ fd.val)
    (there : ∀ opened, file = some opened → ∃ data, fs.read opened.path opened.name = some data) :
    FdTable.Sound fs (Function.update fds fd file) := by
  constructor
  · intro low below
    rw [slot_update]
    split
    next here =>
      subst here
      apply Option.not_isSome_iff_eq_none.mp
      intro opened
      exact Nat.not_lt_of_le (user opened) below
    next => exact sound.reserved low below
  · intro other opened slot
    rw [slot_update] at slot
    split at slot
    next here => exact there opened slot
    next => exact sound.present other opened slot

theorem sound_fileCall (sound : fds.Sound fs) (call : FileCall) : (fileCall fs fds call).2.2.Sound fs := by
  cases call with
  | openFile path =>
    simp only [fileCall]
    rcases sysOpen_cases fs path fds with ⟨_,same,_⟩ | ⟨fd,file,content,run,found,_,data,_⟩
    · rwa [same]
    · rw [run]
      apply sound_update sound
      · exact fun _ => (allocFd_some found).1
      · intro opened same
        cases same
        exact ⟨content,data⟩
  | read fd len =>
    simp only [fileCall]
    rcases sysRead_cases fs fd len fds with ⟨_,same,_⟩ | ⟨inside,file,data,opened,found,run⟩
    · rwa [same]
    · rw [run]
      apply sound_update sound
      · -- an open slot is not a reserved one
        intro _
        apply Nat.le_of_not_lt
        intro below
        rw [sound.reserved fd below] at opened
        cases opened
      · intro moved same
        cases same
        exact ⟨data,found⟩
  | close fd =>
    simp only [fileCall]
    rcases sysClose_cases fd fds with ⟨_,same,_⟩ | ⟨inside,_,_,run⟩
    · rwa [same]
    · rw [run]
      apply sound_update sound
      · exact nofun
      · exact nofun

def tableAfter (fs : RamFs) (fds : FdTable) (calls : List FileCall) : FdTable :=
  calls.foldl (fun fds call => (fileCall fs fds call).2.2) fds

theorem sound_tableAfter (sound : fds.Sound fs) (calls : List FileCall) : (tableAfter fs fds calls).Sound fs := by
  induction calls generalizing fds with
  | nil => exact sound
  | cons call calls ih => exact ih (sound_fileCall sound call)

def bytesRead (fs : RamFs) (fd : Nat) : FdTable → List FileCall → Bytes
  | _,[] => []
  | fds,call::calls =>
    (match call with
      | .read other _ => if other = fd then (fileCall fs fds call).2.1 else []
      | _ => []) ++ bytesRead fs fd (fileCall fs fds call).2.2 calls

def requested (fd : Nat) : List FileCall → Nat
  | [] => 0
  | .read other len::calls => (if other = fd then len else 0) + requested fd calls
  | _::calls => requested fd calls

/-! The table refines a table of streams. -/

def FdTable.streams (fs : RamFs) (fds : FdTable) : Table Nat UInt8 := fun fd =>
  (fds.slot fd).bind fun file => (fs.read file.path file.name).map (List.drop file.offset)

def operation (fs : RamFs) (fds : FdTable) : FileCall → List (Op Nat UInt8)
  | .openFile path =>
    match (sysOpen fs path fds).1 with
    | .ok fd => [.start fd ((fileAt fs path).getD [])]
    | .error _ => []
  | .read fd len => [.take fd len]
  | .close fd => [.stop fd]

def operations (fs : RamFs) : FdTable → List FileCall → List (Op Nat UInt8)
  | _,[] => []
  | fds,call::calls => operation fs fds call ++ operations fs (fileCall fs fds call).2.2 calls

theorem streams_update (fs : RamFs) (fds : FdTable) (fd : Fin maxFds) (file : Option OpenFile) :
    FdTable.streams fs (Function.update fds fd file) = Function.update (fds.streams fs) fd.val
      (file.bind fun file => (fs.read file.path file.name).map (List.drop file.offset)) := by
  funext other
  simp only [FdTable.streams,slot_update,Function.update_apply]
  split <;> rfl

theorem fileCall_simulates (sound : fds.Sound fs) (call : FileCall) (fd : Nat) :
    (operation fs fds call).foldl (fun streams op => (apply streams op).2) (fds.streams fs) =
      (fileCall fs fds call).2.2.streams fs ∧
    received fd (fds.streams fs) (operation fs fds call) = bytesRead fs fd fds [call] := by
  cases call with
  | openFile path =>
    rcases sysOpen_cases fs path fds with ⟨⟨errno,fails⟩,same,_⟩ | ⟨slot,file,content,run,_,start,data,found⟩
    · simp [operation,fileCall,fails,same,received,bytesRead]
    · simp [operation,fileCall,run,streams_update,received,bytesRead,apply,found,data,start]
  | read other len =>
    rcases sysRead_cases fs other len fds with ⟨_,same,missing⟩ | ⟨inside,file,data,opened,found,run⟩
    · have shut : fds.streams fs other = none := by
        cases slot : fds.slot other with
        | none => simp [FdTable.streams,slot]
        | some file => simp [FdTable.streams,slot,missing file slot]
      simp [operation,fileCall,same,received,bytesRead,apply,shut]
    · have stream : fds.streams fs other = some (data.drop file.offset) := by
        simp [FdTable.streams,opened,found]
      have rest : (data.drop file.offset).drop len =
          data.drop (file.offset + ((data.drop file.offset).take len).length) := by
        rw [List.drop_drop,List.drop_eq_drop_iff,List.length_take,List.length_drop]
        omega
      simp [operation,fileCall,run,received,bytesRead,apply,stream,streams_update,found,rest]
  | close other =>
    rcases sysClose_cases other fds with ⟨_,same,missing⟩ | ⟨inside,_,_,run⟩
    · have shut : fds.slot other = none := by
        by_cases low : other < reservedFds
        · exact sound.reserved other low
        · exact missing (by omega)
      have idle : Function.update (fds.streams fs) other none = fds.streams fs :=
        Function.update_eq_self_iff.mpr (by simp [FdTable.streams,shut])
      simp [operation,fileCall,same,received,bytesRead,apply,idle]
    · simp [operation,fileCall,run,received,bytesRead,apply,streams_update]

/-- A run hands out through each descriptor what the streams hand out. -/
theorem bytesRead_refines (sound : fds.Sound fs) (calls : List FileCall) (fd : Nat) :
    bytesRead fs fd fds calls = received fd (fds.streams fs) (operations fs fds calls) := by
  induction calls generalizing fds with
  | nil => rfl
  | cons call calls ih =>
    obtain ⟨after,now⟩ := fileCall_simulates sound call fd
    have first : bytesRead fs fd fds (call::calls) =
        bytesRead fs fd fds [call] ++ bytesRead fs fd (fileCall fs fds call).2.2 calls := by
      simp [bytesRead]
    rw [first,operations,received_append,after,now,ih (sound_fileCall sound call)]

theorem asked_append (fd : Nat) (before after : List (Op Nat UInt8)) :
    asked fd (before ++ after) = asked fd before + asked fd after := by
  induction before with
  | nil => simp [asked]
  | cons op ops ih => cases op <;> simp [asked,ih,Nat.add_assoc]

theorem asked_operations (fs : RamFs) (fds : FdTable) (calls : List FileCall) (fd : Nat) :
    asked fd (operations fs fds calls) = requested fd calls := by
  induction calls generalizing fds with
  | nil => rfl
  | cons call calls ih =>
    rw [operations,asked_append,ih]
    cases call with
    | openFile path =>
      simp only [operation,requested]
      split <;> simp [asked]
    | read other len => simp [operation,asked,requested]
    | close other => simp [operation,asked,requested]

theorem slot_of_free {fd : Fin maxFds} (free : fds fd = none) : fds.slot fd.val = none := by
  simpa [FdTable.slot] using free

theorem operation_keeps {fd : Nat} {call : FileCall} (opened : (fds.slot fd).isSome) (held : call ≠ .close fd) :
    ∀ op ∈ operation fs fds call, op.Keeps fd := by
  cases call with
  | openFile path =>
    rcases sysOpen_cases fs path fds with ⟨⟨errno,fails⟩,_,_⟩ | ⟨slot,file,content,run,found,_⟩
    · simp [operation,fails]
    · have free := slot_of_free (allocFd_some found).2
      have away : slot.val ≠ fd := by
        intro equal
        subst equal
        simp [free] at opened
      simp [operation,run,Op.Keeps,away]
  | read other len => simp [operation,Op.Keeps]
  | close other =>
    have away : other ≠ fd := fun same => held (congrArg FileCall.close same)
    simp [operation,Op.Keeps,away]

theorem slot_update_stays {fd : Fin maxFds} {file : Option OpenFile} {other : Nat}
    (opened : (fds.slot other).isSome) (filled : other = fd.val → file.isSome) :
    (FdTable.slot (Function.update fds fd file) other).isSome := by
  rw [slot_update]
  split
  next here => exact filled here
  next => exact opened

theorem slot_stays {fd : Nat} {call : FileCall} (opened : (fds.slot fd).isSome) (held : call ≠ .close fd) :
    ((fileCall fs fds call).2.2.slot fd).isSome := by
  cases call with
  | openFile path =>
    simp only [fileCall]
    rcases sysOpen_cases fs path fds with ⟨_,same,_⟩ | ⟨slot,file,content,run,_⟩
    · rwa [same]
    · rw [run]
      exact slot_update_stays opened fun _ => rfl
  | read other len =>
    simp only [fileCall]
    rcases sysRead_cases fs other len fds with ⟨_,same,_⟩ | ⟨inside,file,data,_,_,run⟩
    · rwa [same]
    · rw [run]
      exact slot_update_stays opened fun _ => rfl
  | close other =>
    simp only [fileCall]
    rcases sysClose_cases other fds with ⟨_,same,_⟩ | ⟨inside,_,_,run⟩
    · rwa [same]
    · rw [run]
      apply slot_update_stays opened
      intro here
      exact absurd (congrArg FileCall.close here.symm) held

theorem operations_keep {fd : Nat} {calls : List FileCall} (opened : (fds.slot fd).isSome)
    (held : FileCall.close fd ∉ calls) : ∀ op ∈ operations fs fds calls, op.Keeps fd := by
  induction calls generalizing fds with
  | nil => simp [operations]
  | cons call calls ih =>
    simp only [List.mem_cons,not_or] at held
    intro op member
    rcases List.mem_append.mp member with now | later
    · exact operation_keeps opened (Ne.symm held.1) op now
    · exact ih (slot_stays opened (Ne.symm held.1)) held.2 op later

/-- From its opening until it is closed a descriptor reads its file from the start. -/
theorem session_reads (sound : fds.Sound fs) {path : Bytes} {fd : Nat} (opens : (sysOpen fs path fds).1 = .ok fd)
    {calls : List FileCall} (held : FileCall.close fd ∉ calls) : ∃ content, fileAt fs path = some content ∧
      bytesRead fs fd (sysOpen fs path fds).2 calls = content.take (min (requested fd calls) content.length) := by
  rcases sysOpen_cases fs path fds with ⟨⟨errno,fails⟩,_,_⟩ | ⟨slot,file,content,run,_,start,data,found⟩
  · rw [fails] at opens
    cases opens
  · rw [run] at opens ⊢
    cases opens
    have after : FdTable.Sound fs (Function.update fds slot (some file)) := by
      have next := sound_fileCall sound (.openFile path)
      rwa [fileCall,run] at next
    have stream : FdTable.streams fs (Function.update fds slot (some file)) slot.val = some content := by
      rw [streams_update]
      simp [data,start]
    have opened : (FdTable.slot (Function.update fds slot (some file)) slot.val).isSome := by
      rw [slot_update,if_pos rfl]
      rfl
    refine ⟨content,found,?_⟩
    rw [bytesRead_refines after,received_in_order stream (operations_keep opened held),asked_operations,
      List.take_eq_take_iff]
    omega

def openCount (fds : FdTable) : Nat := (List.finRange maxFds).countP fun fd => (fds fd).isSome

/-- The thirteen slots behind the reserved ones are the only ones ever open. -/
theorem allocFd_none_iff (sound : fds.Sound fs) : allocFd fds = none ↔ openCount fds = 13 := by
  let user := (List.finRange maxFds).filter fun fd => reservedFds ≤ fd.val
  have size : user.length = 13 := by decide
  have counted : openCount fds = user.countP fun fd => (fds fd).isSome := by
    rw [List.countP_filter]
    apply List.countP_congr
    intro fd _
    have shut : fd.val < reservedFds → fds fd = none := fun low => by
      simpa [FdTable.slot] using sound.reserved fd.val low
    simp only [Bool.and_eq_true,decide_eq_true_eq]
    refine ⟨fun opened => ⟨opened,Nat.le_of_not_lt fun low => ?_⟩,And.left⟩
    simp [shut low] at opened
  rw [counted,← size,List.countP_eq_length,allocFd_none]
  simp [user,Option.isSome_iff_ne_none]

theorem sysOpen_fails_iff (sound : fds.Sound fs) (path : Bytes) :
    (sysOpen fs path fds).1.Fails ↔ (sysStat fs path).Fails ∨ openCount fds = 13 := by
  rw [sysStat_fails,← allocFd_none_iff sound]
  rcases sysOpen_cases fs path fds with ⟨fails,_,why⟩ | ⟨fd,file,content,run,found,_,_,there⟩
  · exact iff_of_true fails why
  · apply iff_of_false
    · intro holds
      obtain ⟨errno,fails⟩ := holds
      rw [run] at fails
      cases fails
    · simp [there,found]

theorem sysOpen_number {path : Bytes} {fd : Nat} (opens : (sysOpen fs path fds).1 = .ok fd) :
    3 ≤ fd ∧ fd ≤ 15 ∧ fds.slot fd = none := by
  rcases sysOpen_cases fs path fds with ⟨⟨errno,fails⟩,_,_⟩ | ⟨slot,file,content,run,found,_⟩
  · rw [fails] at opens
    cases opens
  · rw [run] at opens
    cases opens
    have free := allocFd_some found
    exact ⟨free.1,Nat.le_of_lt_succ slot.isLt,slot_of_free free.2⟩

theorem shut_fails {fd : Nat} (shut : fds.slot fd = none) :
    (sysClose fd fds).1.Fails ∧ ∀ len, (sysRead fs fd len fds).1.Fails := by
  constructor
  · rcases sysClose_cases fd fds with ⟨fails,_⟩ | ⟨_,_,opened,_⟩
    · exact fails
    · simp [shut] at opened
  · intro len
    rcases sysRead_cases fs fd len fds with ⟨fails,_⟩ | ⟨_,file,_,opened,_⟩
    · exact fails
    · rw [shut] at opened
      cases opened

theorem sysRead_succeeds (sound : fds.Sound fs) {fd : Nat} (opened : (fds.slot fd).isSome) (len : Nat) :
    (sysRead fs fd len fds).1 = .ok (sysRead fs fd len fds).2.1.length := by
  rcases sysRead_cases fs fd len fds with ⟨_,_,missing⟩ | ⟨_,_,_,_,_,run⟩
  · obtain ⟨file,slot⟩ := Option.isSome_iff_exists.mp opened
    obtain ⟨data,found⟩ := sound.present fd file slot
    rw [missing file slot] at found
    cases found
  · rw [run]

theorem fileCall_fails {call : FileCall} (fails : (fileCall fs fds call).1.Fails) :
    (fileCall fs fds call).2.2 = fds := by
  obtain ⟨errno,fails⟩ := fails
  cases call with
  | openFile path =>
    rcases sysOpen_cases fs path fds with ⟨_,same,_⟩ | ⟨_,_,_,run,_⟩
    · exact same
    · simp [fileCall,run] at fails
  | read fd len =>
    rcases sysRead_cases fs fd len fds with ⟨_,same,_⟩ | ⟨_,_,_,_,_,run⟩
    · exact congrArg Prod.snd same
    · simp [fileCall,run] at fails
  | close fd =>
    rcases sysClose_cases fd fds with ⟨_,same,_⟩ | ⟨_,_,_,run⟩
    · exact same
    · simp [fileCall,run] at fails

/-- After every run from the empty table: what opening does, what a session reads, and
that a failing call changes nothing. -/
theorem descriptor_semantics (fs : RamFs) (calls : List FileCall) :
    let fds := tableAfter fs FdTable.empty calls
    (∀ fd < 3, fds.slot fd = none) ∧
    (∀ path, ((sysOpen fs path fds).1.Fails ↔ (sysStat fs path).Fails ∨ openCount fds = 13) ∧
      ∀ fd, (sysOpen fs path fds).1 = .ok fd → 3 ≤ fd ∧ fd ≤ 15 ∧ fds.slot fd = none ∧
        ∀ later, FileCall.close fd ∉ later → ∃ content, fileAt fs path = some content ∧
          bytesRead fs fd (sysOpen fs path fds).2 later = content.take (min (requested fd later) content.length)) ∧
    (∀ fd, fds.slot fd = none → (sysClose fd fds).1.Fails ∧ ∀ len, (sysRead fs fd len fds).1.Fails) ∧
    (∀ fd len, (fds.slot fd).isSome → (sysRead fs fd len fds).1 = .ok (sysRead fs fd len fds).2.1.length) ∧
    ∀ call, (fileCall fs fds call).1.Fails → (fileCall fs fds call).2.2 = fds := by
  intro fds
  have sound : fds.Sound fs := sound_tableAfter (sound_empty fs) calls
  refine ⟨fun fd low => sound.reserved fd low,fun path => ⟨sysOpen_fails_iff sound path,fun fd opens => ?_⟩,
    fun fd shut => shut_fails shut,fun fd len opened => sysRead_succeeds sound opened len,fun call => fileCall_fails⟩
  obtain ⟨low,high,free⟩ := sysOpen_number opens
  exact ⟨low,high,free,fun later held => session_reads sound opens held⟩

theorem descriptor_semantics_one :
    bytesRead (RamFs.new.write [] ['a'] [1,2,3]).2 3 (sysOpen (RamFs.new.write [] ['a'] [1,2,3]).2 [97] FdTable.empty).2
      [.read 3 2,.openFile [97],.read 4 3,.close 4,.read 3 2] = [1,2,3] := by
  have fresh := (descriptor_semantics (RamFs.new.write [] ['a'] [1,2,3]).2 []).2.1 [97]
  obtain ⟨content,found,reads⟩ := (fresh.2 3 rfl).2.2.2
    [.read 3 2,.openFile [97],.read 4 3,.close 4,.read 3 2] (by decide)
  have known : fileAt (RamFs.new.write [] ['a'] [1,2,3]).2 [97] = some [1,2,3] := rfl
  rw [known] at found
  cases found
  exact reads

end PolarOs
