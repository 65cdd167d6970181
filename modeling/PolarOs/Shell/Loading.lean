import PolarOs.Shell.Storage

/-! `cmd_load` on any disk and with any pattern of failing reads: what it reads, and that it
takes the whole tree of the disk or leaves everything as it was. -/
namespace PolarOs
open Library Library.Checked

/-- The bytes of some consecutive sectors. -/
def diskBody (content : Nat → Sector) (sector count : Nat) : Bytes :=
  (List.range' sector count).flatMap fun lba => (content lba).bytes

/-- The sectors after the header that a payload of this length reaches into. -/
def bodySectors (totalLen : Nat) : Nat := (totalLen - 504 + 511) / 512

/-- The first bytes of the payload: the rest of the header, and then sector after sector. -/
def payload (content : Nat → Sector) (totalLen : Nat) : Bytes :=
  ((content dataStartSector).bytes.drop 8 ++ diskBody content (dataStartSector + 1) (bodySectors totalLen)).take totalLen

/-- The length field of the header. -/
def totalLength (header : Sector) : Nat := LittleEndian.decode ((header.bytes.drop 4).take 4)

/-- The texts of the failure exits. -/
inductive LoadError : Str → Prop
  | unavailable : LoadError (lit "Dysk ATA niedostepny.")
  | header : LoadError (lit "Blad odczytu naglowka.")
  | magic : LoadError (lit "Brak zapisanego systemu plikow na dysku.")
  | sector (sector : Nat) : LoadError (lit "Blad odczytu sektora " ++ number sector ++ lit ".")
  | corrupt : LoadError (lit "Uszkodzone dane na dysku.")

theorem diskBody_succ (content : Nat → Sector) (sector count : Nat) :
    diskBody content sector (count + 1) = (content sector).bytes ++ diskBody content (sector + 1) count := by
  rw [diskBody,List.range'_succ,List.flatMap_cons]
  rfl

/-- One round of the loop is one more sector of the payload. -/
theorem take_chunk (data rest : Bytes) (buf : Sector) {totalLen : Nat} (more : data.length < totalLen) :
    (data ++ buf.bytes.take (min (totalLen - data.length) 512) ++ rest).take totalLen =
      (data ++ (buf.bytes ++ rest)).take totalLen := by
  have size := buf.size
  by_cases last : totalLen - data.length ≤ 512
  · have full : (data ++ buf.bytes.take (totalLen - data.length)).length = totalLen := by
      rw [List.length_append,List.length_take]
      omega
    rw [Nat.min_eq_left last,List.take_left' full,List.take_append,List.take_of_length_le more.le,
      List.take_append_of_le_length (size ▸ last)]
  · rw [Nat.min_eq_right (by omega),← size,List.take_length,List.append_assoc]

/-- The loop ends with the whole payload or at the first sector that fails. -/
theorem loadLoop_faulty (content : Nat → Sector) (fails : Nat → Nat → Bool) (available : Bool) {totalLen : Nat}
    (data : Bytes) (sector : Nat) (reads : List Nat) (fits : data.length ≤ totalLen) :
    ∃ count result, loadLoop (faultyAta content fails available) totalLen data sector reads =
        (result,reads ++ List.range' sector count) ∧
      count ≤ (totalLen - data.length + 511) / 512 ∧
      (result = .ok ((data ++ diskBody content sector ((totalLen - data.length + 511) / 512)).take totalLen) ∨
        ∃ failed, result = .error (lit "Blad odczytu sektora " ++ number failed ++ lit ".")) := by
  induction distance : totalLen - data.length using Nat.strong_induction_on generalizing data sector reads with
  | _ left ih =>
    rw [loadLoop]
    split
    next more =>
      cases bad : fails reads.length sector with
      | true =>
        refine ⟨1,_,?_,by omega,Or.inr ⟨sector,rfl⟩⟩
        simp only [faultyAta,bad,if_true]
        rfl
      | false =>
        have size := (content sector).size
        let chunk := min (totalLen - data.length) 512
        have length : (data ++ (content sector).bytes.take chunk).length = data.length + chunk := by
          rw [List.length_append,List.length_take]
          omega
        obtain ⟨count,result,ran,bound,outcome⟩ := ih (totalLen - (data.length + chunk)) (by omega)
          (data ++ (content sector).bytes.take chunk) (sector + 1) (reads ++ [sector]) (by omega) (by omega)
        have rounds : (left + 511) / 512 = (totalLen - (data.length + chunk) + 511) / 512 + 1 := by omega
        refine ⟨count + 1,result,?_,by omega,?_⟩
        · simp only [faultyAta,bad,Bool.false_eq_true,if_false]
          simp only [faultyAta] at ran
          rw [ran,List.range'_succ,List.append_assoc,List.singleton_append]
        · rw [rounds,diskBody_succ,← take_chunk _ _ _ more]
          exact outcome
    next done =>
      have none : left = 0 := by omega
      have whole : (data ++ diskBody content sector ((left + 511) / 512)).take totalLen = data := by
        rw [none]
        exact (congrArg (List.take totalLen) (List.append_nil data)).trans (List.take_of_length_le fits)
      exact ⟨0,.ok data,by rw [List.range'_zero,List.append_nil],Nat.zero_le _,Or.inl (by rw [whole])⟩

/-- The chunk from the header goes before the sectors that the loop reads. -/
theorem payload_chunk (content : Nat → Sector) (totalLen : Nat) :
    (((content dataStartSector).bytes.drop 8).take (min totalLen 504) ++
      diskBody content (dataStartSector + 1) (bodySectors totalLen)).take totalLen = payload content totalLen := by
  have size : ((content dataStartSector).bytes.drop 8).length = 504 := by
    rw [List.length_drop,(content dataStartSector).size]
  unfold payload
  by_cases short : totalLen ≤ 504
  · have none : bodySectors totalLen = 0 := by
      unfold bodySectors
      omega
    have empty : diskBody content (dataStartSector + 1) 0 = [] := rfl
    rw [none,empty,List.append_nil,List.append_nil,Nat.min_eq_left short,List.take_take,Nat.min_self]
  · rw [Nat.min_eq_right (by omega),← size,List.take_length]

/-- Behind the header the loop reads the payload, or stops at a sector that fails. -/
theorem loadLoop_payload (content : Nat → Sector) (fails : Nat → Nat → Bool) (available : Bool) (totalLen : Nat) :
    ∃ count result, loadLoop (faultyAta content fails available) totalLen
        (((content dataStartSector).bytes.drop 8).take (min totalLen 504)) (dataStartSector + 1) [dataStartSector] =
        (result,List.range' dataStartSector (count + 1)) ∧ count + 1 ≤ 1 + bodySectors totalLen ∧
      (result = .ok (payload content totalLen) ∨
        ∃ failed, result = .error (lit "Blad odczytu sektora " ++ number failed ++ lit ".")) := by
  have size : (((content dataStartSector).bytes.drop 8).take (min totalLen 504)).length = min totalLen 504 := by
    have whole := (content dataStartSector).size
    rw [List.length_take,List.length_drop]
    omega
  have rounds : (totalLen - min totalLen 504 + 511) / 512 = bodySectors totalLen := by
    unfold bodySectors
    omega
  have reads (count : Nat) : [dataStartSector] ++ List.range' (dataStartSector + 1) count =
      List.range' dataStartSector (count + 1) := List.range'_succ.symm
  obtain ⟨count,result,ran,bound,outcome⟩ := loadLoop_faulty content fails available _
    (dataStartSector + 1) [dataStartSector] (size.trans_le (Nat.min_le_left _ _))
  rw [size,rounds] at bound outcome
  rw [payload_chunk] at outcome
  exact ⟨count,result,reads count ▸ ran,by omega,outcome⟩

/-- `cmd_load` reads at most the header and the sectors that its length field asks for, in
order, and then either the tree is the one that these bytes decode to and the working directory
is the root, or the text is an error and neither has changed. -/
theorem load_all_or_nothing (content : Nat → Sector) (fails : Nat → Nat → Bool) (available : Bool) (fs : RamFs)
    (cwd : List Str) :
    ∃ output next moved count,
      cmdLoad (faultyAta content fails available) fs cwd [] =
        .ok (output,next,moved,List.range' dataStartSector count) ∧
      count ≤ 1 + bodySectors (totalLength (content dataStartSector)) ∧
      ((output = loadedMessage (totalLength (content dataStartSector)) ∧ moved = [] ∧
          RamFs.loadFrom (payload content (totalLength (content dataStartSector))) = .ok (some next)) ∨
        (LoadError output ∧ next = fs ∧ moved = cwd)) := by
  cases available with
  | false => exact ⟨_,fs,cwd,0,rfl,Nat.zero_le _,Or.inr ⟨.unavailable,rfl,rfl⟩⟩
  | true =>
    cases bad : fails 0 dataStartSector with
    | true =>
      refine ⟨_,fs,cwd,1,?_,Nat.le_add_right _ _,Or.inr ⟨.header,rfl,rfl⟩⟩
      simp only [cmdLoad,faultyAta,Bool.not_true,Bool.false_eq_true,if_false,List.length_nil,bad,if_true]
      rfl
    | false =>
      obtain ⟨count,result,ran,within,outcome⟩ :=
        loadLoop_payload content fails true (totalLength (content dataStartSector))
      have ready : (faultyAta content fails true).readSector dataStartSector [] =
          (some (content dataStartSector),[dataStartSector]) := by
        simp only [faultyAta,List.length_nil,bad,Bool.false_eq_true,if_false,List.nil_append]
      unfold cmdLoad
      rw [if_neg (show ¬(!(faultyAta content fails true).isAvailable []) = true from Bool.false_ne_true),ready]
      dsimp only
      split
      next foreign => exact ⟨_,fs,cwd,1,rfl,Nat.le_add_right _ _,Or.inr ⟨.magic,rfl,rfl⟩⟩
      next =>
        rw [totalLength] at ran
        rw [ran]
        rcases outcome with rfl | ⟨failed,rfl⟩
        · obtain ⟨loaded,decoded⟩ := loadFrom_total (payload content (totalLength (content dataStartSector)))
          dsimp only
          rw [decoded]
          cases loaded with
          | none => exact ⟨_,fs,cwd,count + 1,rfl,within,Or.inr ⟨.corrupt,rfl,rfl⟩⟩
          | some newFs => exact ⟨_,newFs,[],count + 1,rfl,within,Or.inl ⟨rfl,rfl,rfl⟩⟩
        · exact ⟨_,fs,cwd,count + 1,rfl,within,Or.inr ⟨.sector failed,rfl,rfl⟩⟩

end PolarOs
