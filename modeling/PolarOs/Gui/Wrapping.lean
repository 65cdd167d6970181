import PolarOs.Gui.Terminal
import PolarOs.Library.Recent

/-! How the terminal widget wraps a line. It cuts after as many bytes as there are columns, so
a line comes through when each cut falls between two characters. -/
namespace PolarOs.Gui
open Library Library.Checked

variable {text left right : Str} {cols fuel mid : Nat} {pieces : List Str}

@[simp] theorem byteLength_nil : byteLength [] = 0 := rfl

@[simp] theorem byteLength_cons (c : Char) (text : Str) : byteLength (c::text) = c.utf8Size + byteLength text := by
  simp [byteLength,Utf8.encode]

@[simp] theorem byteLength_append (first second : Str) :
    byteLength (first ++ second) = byteLength first + byteLength second := by
  simp [byteLength,Utf8.encode]

theorem length_le_byteLength (text : Str) : text.length ≤ byteLength text := by
  induction text with
  | nil => exact Nat.le_refl _
  | cons c text ih =>
    have := c.utf8Size_pos
    rw [List.length_cons,byteLength_cons]
    omega

theorem eq_nil_of_byteLength (none : byteLength text = 0) : text = [] := by
  have short := length_le_byteLength text
  rw [none] at short
  exact List.length_eq_zero_iff.mp (Nat.le_zero.mp short)

theorem splitAt_ok : splitAt mid text = .ok (left,right) ↔ text = left ++ right ∧ byteLength left = mid := by
  induction text generalizing mid left with
  | nil =>
    rw [splitAt]
    split
    next start => simp_all [eq_comm]
    next inside =>
      refine iff_of_false (by simp) ?_
      rintro ⟨empty,same⟩
      rw [List.append_eq_nil_iff.mp empty.symm |>.1] at same
      exact inside same.symm
  | cons c text ih =>
    have size := c.utf8Size_pos
    rw [splitAt]
    split
    next start =>
      subst start
      constructor
      · rintro ⟨⟩
        exact ⟨rfl,rfl⟩
      · rintro ⟨joined,none⟩
        rw [eq_nil_of_byteLength none] at joined ⊢
        exact congrArg (fun rest => Except.ok ([],rest)) joined
    next inside =>
      split
      next fits =>
        constructor
        · intro ran
          obtain ⟨⟨before,after⟩,cut,done⟩ := bind_ok.mp ran
          cases done
          obtain ⟨rfl,same⟩ := ih.mp cut
          exact ⟨rfl,by rw [byteLength_cons]; omega⟩
        · rintro ⟨joined,same⟩
          cases left with
          | nil => exact absurd same.symm inside
          | cons d left =>
            obtain ⟨rfl,rfl⟩ := List.cons.inj joined
            rw [byteLength_cons] at same
            rw [ih.mpr ⟨rfl,by omega⟩]
            rfl
      next large =>
        refine iff_of_false (by simp) ?_
        rintro ⟨joined,same⟩
        cases left with
        | nil => exact inside same.symm
        | cons d left =>
          obtain ⟨rfl,rfl⟩ := List.cons.inj joined
          rw [byteLength_cons] at same
          omega

/-- A character of the text ends at this byte. -/
def Boundary (text : Str) (n : Nat) : Prop := ∃ left right, text = left ++ right ∧ byteLength left = n

/-- The text can be cut into lines of this many bytes. -/
def Aligned (cols : Nat) (text : Str) : Prop := ∀ k, k * cols < byteLength text → Boundary text (k * cols)

theorem boundary_append {n : Nat} : Boundary (left ++ right) (byteLength left + n) ↔ Boundary right n := by
  constructor
  · rintro ⟨before,after,joined,same⟩
    rcases List.append_eq_append_iff.mp joined with ⟨more,rfl,rest⟩ | ⟨more,longer,rest⟩
    · rw [byteLength_append] at same
      exact ⟨more,after,rest,by omega⟩
    · rw [longer,byteLength_append] at same
      exact ⟨[],right,rfl,by rw [byteLength_nil]; omega⟩
  · rintro ⟨before,after,rfl,rfl⟩
    exact ⟨left ++ before,after,(List.append_assoc ..).symm,byteLength_append ..⟩

/-- After a first cut the rest decides. -/
theorem aligned_append (long : byteLength left = cols) : Aligned cols (left ++ right) ↔ Aligned cols right := by
  constructor
  · intro aligned k inside
    have cut := aligned (k + 1) (by rw [Nat.succ_mul,byteLength_append]; omega)
    rw [Nat.succ_mul,Nat.add_comm,← long] at cut
    rw [← long]
    exact boundary_append.mp cut
  · intro aligned k inside
    cases k with
    | zero => exact ⟨[],_,rfl,by simp⟩
    | succ k =>
      rw [byteLength_append,Nat.succ_mul,long] at inside
      have cut := (@boundary_append left right _).mpr (aligned k (by omega))
      rw [long,Nat.add_comm,← Nat.succ_mul] at cut
      exact cut

theorem aligned_of_short (short : byteLength text ≤ cols) : Aligned cols text := by
  intro k inside
  cases k with
  | zero => exact ⟨[],text,rfl,by simp⟩
  | succ k =>
    rw [Nat.succ_mul] at inside
    omega

theorem aligned_of_ascii (ascii : ∀ c ∈ text, c.utf8Size = 1) (cols : Nat) : Aligned cols text := by
  have size (part : Str) (plain : ∀ c ∈ part, c.utf8Size = 1) : byteLength part = part.length := by
    induction part with
    | nil => rfl
    | cons c part ih =>
      rw [byteLength_cons,plain c List.mem_cons_self,ih fun d member => plain d (List.mem_cons_of_mem _ member),
        List.length_cons,Nat.add_comm]
  intro k inside
  rw [size text ascii] at inside
  refine ⟨text.take (k * cols),text.drop (k * cols),(List.take_append_drop ..).symm,?_⟩
  rw [size _ fun c member => ascii c (List.mem_of_mem_take member),List.length_take,Nat.min_eq_left inside.le]

theorem wrapLine_ok_iff (wide : 0 < cols) (enough : byteLength text < fuel) :
    (∃ pieces, wrapLine cols fuel text = .ok pieces) ↔ Aligned cols text := by
  induction fuel generalizing text with
  | zero => cases enough
  | succ fuel ih =>
    rw [wrapLine]
    split
    next short => exact iff_of_true ⟨_,rfl⟩ (aligned_of_short short)
    next long =>
      constructor
      · rintro ⟨pieces,ran⟩
        obtain ⟨⟨left,right⟩,cut,ran⟩ := bind_ok.mp ran
        obtain ⟨rest,wrapped,_⟩ := bind_ok.mp ran
        obtain ⟨rfl,size⟩ := splitAt_ok.mp cut
        rw [byteLength_append] at enough
        exact (aligned_append size).mpr ((ih (by omega)).mp ⟨rest,wrapped⟩)
      · intro aligned
        obtain ⟨left,right,rfl,size⟩ := aligned 1 (by omega)
        rw [Nat.one_mul] at size
        rw [byteLength_append] at enough
        obtain ⟨rest,wrapped⟩ := (ih (by omega)).mpr ((aligned_append size).mp aligned)
        refine ⟨left::rest,?_⟩
        rw [splitAt_ok.mpr ⟨rfl,size⟩]
        simp only [ok_bind,wrapped]
        rfl

/-- The lines are the text, and only a text without characters gives an empty one. -/
structure Cut (cols : Nat) (text : Str) (pieces : List Str) : Prop where
  joined : pieces.flatten = text
  width : ∀ piece ∈ pieces, piece.length ≤ cols
  empty : [] ∈ pieces → text = []

theorem wrapLine_cut (wide : 0 < cols) (ran : wrapLine cols fuel text = .ok pieces) : Cut cols text pieces := by
  induction fuel generalizing text pieces with
  | zero => cases ran
  | succ fuel ih =>
    rw [wrapLine] at ran
    split at ran
    next short =>
      cases ran
      refine ⟨by simp,?_,?_⟩
      · simpa using Nat.le_trans (length_le_byteLength text) short
      · intro member
        exact (List.mem_singleton.mp member).symm
    next long =>
      obtain ⟨⟨left,right⟩,cut,ran⟩ := bind_ok.mp ran
      obtain ⟨rest,wrapped,done⟩ := bind_ok.mp ran
      cases done
      obtain ⟨rfl,size⟩ := splitAt_ok.mp cut
      have later := ih wrapped
      refine ⟨by simp [later.joined],?_,?_⟩
      · simp only [List.mem_cons,forall_eq_or_imp]
        exact ⟨Nat.le_trans (length_le_byteLength left) size.le,later.width⟩
      · intro member
        rcases List.mem_cons.mp member with none | empty
        · rw [← none,byteLength_nil] at size
          omega
        · rw [later.empty empty,byteLength_append,byteLength_nil] at long
          omega

namespace TerminalWidget

variable {term next : TerminalWidget}

/-- The text is appended in lines, and the scrollback keeps the newest. -/
def Wraps (term : TerminalWidget) (text : Str) (next : TerminalWidget) : Prop :=
  ∃ pieces, Cut term.cols text pieces ∧ next = {term with lines := (term.lines ++ pieces).rtake maxScrollback}

/-- The line is wrapped when it can be cut into lines of as many bytes as there are columns. -/
theorem pushLine_wraps_iff (wide : 0 < term.cols) (text : Str) :
    (∃ next, term.pushLine text = .ok next ∧ term.Wraps text next) ↔ Aligned term.cols text := by
  rw [pushLine,if_neg (Nat.ne_of_gt wide),← wrapLine_ok_iff wide (Nat.lt_succ_self _)]
  constructor
  · rintro ⟨next,ran,_⟩
    obtain ⟨pieces,wrapped,_⟩ := bind_ok.mp ran
    exact ⟨pieces,wrapped⟩
  · rintro ⟨pieces,wrapped⟩
    refine ⟨_,?_,pieces,wrapLine_cut wide wrapped,rfl⟩
    rw [wrapped]
    rfl

def windowTerminal : TerminalWidget := ⟨11,21,22,278,147,[],[],true,0,[]⟩

theorem windowTerminal_wraps : ∃ next, windowTerminal.pushLine (lit "łąka") = .ok next ∧
    windowTerminal.Wraps (lit "łąka") next :=
  (pushLine_wraps_iff (by decide) (lit "łąka")).mpr (aligned_of_short (by decide))

/-- A letter of two bytes across the cut after thirty-four bytes. -/
def acrossCut : Str := List.replicate 33 'a' ++ lit "ó"

theorem letter_across_cut_panics : 0 < windowTerminal.cols ∧
    ¬∃ next, windowTerminal.pushLine acrossCut = .ok next ∧ windowTerminal.Wraps acrossCut next := by
  refine ⟨by decide,?_⟩
  rintro ⟨next,ran,_⟩
  obtain ⟨pieces,wrapped,_⟩ := bind_ok.mp ran
  have aligned := (wrapLine_ok_iff (by decide) (Nat.lt_succ_self _)).mp ⟨pieces,wrapped⟩
  obtain ⟨left,right,joined,size⟩ := aligned 1 (by decide)
  have cut := splitAt_ok.mpr ⟨joined,size⟩
  cases cut

/-! What a terminal prints is neither its line nor its directory. -/

/-- The line that is typed and the directory it is meant for. -/
def entry (term : TerminalWidget) : Str × List Str := (term.inputBuf,term.cwd)

theorem pushLine_entry {text : Str} (ran : term.pushLine text = .ok next) : next.entry = term.entry := by
  rw [pushLine] at ran
  split at ran
  next =>
    cases ran
    rfl
  next =>
    obtain ⟨_,_,returned⟩ := bind_ok.mp ran
    cases returned
    rfl

theorem pushLines_entry {lines : List Str} (ran : term.pushLines lines = .ok next) : next.entry = term.entry := by
  induction lines generalizing term with
  | nil =>
    cases ran
    rfl
  | cons line lines ih =>
    obtain ⟨_,first,rest⟩ := bind_ok.mp ran
    rw [ih rest,pushLine_entry first]

end TerminalWidget

end PolarOs.Gui
