import JokeDse.CharWidth
import JokeDse.Lib.Slots
import Mathlib.Data.List.DropRight

/-! Utility: TrimSpace, in the string's own cells. An access outside of them is undefined (`none`). -/
namespace JokeDse
open Slots (store memmove fill)

variable {kind : CharWidth}

def blank (ch : Cell kind) : Bool := ch == 0x20 || ch == 0x09

def trimScan : List (Cell kind) → Nat → Int → Nat → Option (Int × Nat)
  | [],_,_,_ => none
  | ch :: rest,curpos,nBegin,nEnd =>
    if ch = 0 then some (nBegin,nEnd)
    else if blank ch then trimScan rest (curpos + 1) nBegin nEnd
    else trimScan rest (curpos + 1) (if nBegin = -1 then curpos else nBegin) curpos

def zeroMemory (i count : Nat) (cells : List (Cell kind)) : Option (List (Cell kind)) := fill i count 0 cells

def trimSpace (kind : CharWidth) : Option (List (Cell kind)) → Option (Option (List (Cell kind)))
  | none => some none
  | some ptr => do
    let (nBegin,nEnd) ← trimScan ptr 0 (-1) 0
    let ptr ← store (nEnd + 1) 0 ptr
    if nBegin = -1 then (store 0 0 ptr).map some
    else if nBegin ≠ 0 then
      let ptr ← memmove 0 nBegin.toNat (nEnd - nBegin.toNat + 1) ptr
      (zeroMemory nEnd nBegin.toNat ptr).map some
    else some (some ptr)

def trimSpaceA := trimSpace .narrow
def trimSpaceW := trimSpace .wide

def trimmed (s : List (Cell kind)) : List (Cell kind) := (s.dropWhile blank).rdropWhile blank

def Trims (s : List (Cell kind)) : Prop :=
  ∃ cells, trimSpace kind (some (s ++ [0])) = some (some cells) ∧ trimmed s ++ [0] <+: cells

section Scan
variable {s t rest : List (Cell kind)} {pos nEnd : Nat} {nBegin : Int}

theorem scanBlanks (blanks : ∀ c ∈ t, blank c = true) (clean : 0 ∉ t) :
    trimScan (t ++ rest) pos nBegin nEnd = trimScan rest (pos + t.length) nBegin nEnd := by
  induction t generalizing pos with
  | nil => rfl
  | cons c t ih =>
    obtain ⟨here,later⟩ := List.forall_mem_cons.mp blanks
    obtain ⟨notEnd,clean⟩ := not_or.mp (List.mem_cons.not.mp clean)
    rw [List.cons_append,trimScan,if_neg (Ne.symm notEnd),if_pos here,ih later clean,List.length_cons,Nat.add_assoc,
      Nat.add_comm 1]

theorem scanKept {y : Cell kind} (begun : nBegin ≠ -1) (clean : 0 ∉ t) (notEnd : y ≠ 0) (kept : blank y = false) :
    trimScan (t ++ y :: rest) pos nBegin nEnd = trimScan rest (pos + t.length + 1) nBegin (pos + t.length) := by
  induction t generalizing pos nEnd with
  | nil =>
    rw [List.nil_append,trimScan,if_neg notEnd,kept,if_neg Bool.false_ne_true,if_neg begun]
    rfl
  | cons c t ih =>
    obtain ⟨notEnd',clean⟩ := not_or.mp (List.mem_cons.not.mp clean)
    rw [List.cons_append,trimScan,if_neg (Ne.symm notEnd'),if_neg begun,ih clean,ih clean,ite_self,List.length_cons,
      Nat.add_assoc pos 1,Nat.add_comm 1]

structure Kept (s lead kept trail : List (Cell kind)) : Prop where
  whole : s = lead ++ (kept ++ trail)
  leads : ∀ c ∈ lead, blank c = true
  trails : ∀ c ∈ trail, blank c = true
  begins : ∃ x w, kept = x :: w ∧ blank x = false
  ends : ∃ u y, kept = u ++ [y] ∧ blank y = false

theorem keptExists (some : ∃ c ∈ s, blank c = false) :
    ∃ trail, Kept s (s.takeWhile blank) (trimmed s) trail := by
  obtain ⟨c,member,shown⟩ := some
  have left : c ∈ s.dropWhile blank := by
    have parts := List.takeWhile_append_dropWhile (p := blank) (l := s)
    rw [← parts,List.mem_append] at member
    rcases member with early | left
    · rw [List.mem_takeWhile_imp early] at shown
      cases shown
    · exact left
  have nonempty : trimmed s ≠ [] := by
    unfold trimmed
    rw [Ne,List.rdropWhile_eq_nil_iff]
    intro blanks
    rw [blanks c left] at shown
    cases shown
  have whole : trimmed s ++ (s.dropWhile blank).rtakeWhile blank = s.dropWhile blank :=
    List.rdropWhile_append_rtakeWhile
  refine ⟨(s.dropWhile blank).rtakeWhile blank,?_,fun c => List.mem_takeWhile_imp,
    fun c => List.mem_rtakeWhile_imp,?_,?_⟩
  · rw [whole,List.takeWhile_append_dropWhile]
  · obtain ⟨x,w,same⟩ := List.exists_cons_of_ne_nil nonempty
    refine ⟨x,w,same,?_⟩
    have head := List.head?_dropWhile_not blank s
    rw [← whole,same] at head
    simpa using head
  · refine ⟨(trimmed s).dropLast,(trimmed s).getLast nonempty,(List.dropLast_append_getLast nonempty).symm,?_⟩
    rw [← Bool.not_eq_true]
    exact List.rdropWhile_last_not _ _ nonempty

theorem scanString {lead kept trail : List (Cell kind)} (parts : Kept s lead kept trail) (clean : 0 ∉ s) :
    trimScan (s ++ [0]) 0 (-1) 0 = some ((lead.length : Int),lead.length + kept.length - 1) := by
  obtain ⟨rfl,leads,trails,⟨x,w,rfl,first⟩,⟨u,y,ends,last⟩⟩ := parts
  simp only [List.mem_append,List.mem_cons,not_or] at clean
  obtain ⟨cleanLead,⟨notX,cleanW⟩,cleanTrail⟩ := clean
  have stop : ∀ {pos e} {b : Int}, trimScan (trail ++ [0]) pos b e = some (b,e) := by
    intro pos e b
    rw [scanBlanks trails cleanTrail,trimScan,if_pos rfl]
  rw [List.append_assoc,scanBlanks leads cleanLead,List.cons_append,List.cons_append,trimScan,if_neg (Ne.symm notX),
    first,if_neg Bool.false_ne_true,if_pos rfl,Nat.zero_add,List.append_assoc]
  cases u with
  | nil =>
    obtain ⟨rfl,rfl⟩ := List.cons.inj ends
    rw [List.nil_append,stop]
    rfl
  | cons x' u =>
    rw [List.cons_append] at ends
    obtain ⟨rfl,rfl⟩ := List.cons.inj ends
    simp only [List.mem_append,List.mem_singleton,not_or] at cleanW
    rw [List.append_assoc,List.singleton_append,scanKept (by omega) cleanW.1 (Ne.symm cleanW.2) last,stop]
    congr 2
    simp only [List.length_cons,List.length_append,List.length_nil]
    omega

end Scan

section Result
variable {s lead kept trail : List (Cell kind)}

theorem keptLength (parts : Kept s lead kept trail) : 1 ≤ kept.length := by
  obtain ⟨x,w,same,-⟩ := parts.begins
  rw [same,List.length_cons]
  omega

theorem cutBehind (parts : Kept s lead kept trail) : ∃ rest,
    store (lead.length + kept.length - 1 + 1) 0 (s ++ [0]) = some (lead ++ (kept ++ 0 :: rest)) := by
  have some := keptLength parts
  have behind : lead.length + kept.length - 1 + 1 = (lead ++ kept).length := by
    rw [List.length_append]
    omega
  obtain ⟨c,rest,same⟩ : ∃ c rest, trail ++ [0] = c :: rest := List.exists_cons_of_ne_nil (by simp)
  refine ⟨rest,?_⟩
  rw [parts.whole,List.append_assoc,List.append_assoc,same,← List.append_assoc,behind,store,if_pos (by simp),
    List.set_append_right _ _ (Nat.le_refl _),Nat.sub_self,List.set_cons_zero,List.append_assoc]

theorem trimSpaceKept (parts : Kept s lead kept trail) (clean : 0 ∉ s) : ∃ rest,
    trimSpace kind (some (s ++ [0])) =
      if lead = [] then some (some (kept ++ 0 :: rest))
      else (zeroMemory (lead.length + kept.length - 1) lead.length
        (kept ++ (lead ++ (kept ++ 0 :: rest)).drop kept.length)).map some := by
  obtain ⟨rest,cut⟩ := cutBehind parts
  have some' := keptLength parts
  refine ⟨rest,?_⟩
  simp only [trimSpace,scanString parts clean,cut,Option.bind_eq_bind,Option.bind_some]
  rw [if_neg (by omega)]
  by_cases none : lead = []
  · rw [none]
    rfl
  · have lengths : lead.length ≠ 0 := fun zero => none (List.length_eq_zero_iff.mp zero)
    have count : lead.length + kept.length - 1 - lead.length + 1 = kept.length := by omega
    rw [if_pos (by omega),if_neg none,Int.toNat_natCast,count,memmove,if_pos (by simp; omega),List.take_zero,
      List.nil_append,Nat.zero_add,List.drop_left,List.take_left,Option.bind_some]

theorem zeroesOne (x : Cell kind) (rest : List (Cell kind)) :
    zeroMemory kept.length 1 (kept ++ x :: rest) = some (kept ++ 0 :: rest) := by
  rw [zeroMemory,fill,if_pos (by simp),List.take_left,← List.drop_drop,List.drop_left]
  rfl

theorem staysBehind {rest cells : List (Cell kind)} (parts : Kept s lead kept trail) (clean : 0 ∉ s)
    (many : 2 ≤ lead.length) (found : zeroMemory (lead.length + kept.length - 1) lead.length
      (kept ++ (lead ++ (kept ++ 0 :: rest)).drop kept.length) = some cells) : ¬ kept ++ [0] <+: cells := by
  rintro ⟨more,same⟩
  unfold zeroMemory fill at found
  split at found
  · have inside : kept.length < (lead ++ kept).length := by
      rw [List.length_append]
      omega
    have left : (kept ++ (lead ++ (kept ++ 0 :: rest)).drop kept.length)[kept.length]? =
        some (lead ++ kept)[kept.length] := by
      rw [List.getElem?_append_right (Nat.le_refl _),Nat.sub_self,List.getElem?_drop,Nat.add_zero,← List.append_assoc,
        List.getElem?_append_left inside,List.getElem?_eq_getElem inside]
    have stays : cells[kept.length]? = some (lead ++ kept)[kept.length] := by
      rw [← Option.some.inj found,List.getElem?_append_left (by simp; omega),List.getElem?_take_of_lt (by omega),left]
    have ends : cells[kept.length]? = some 0 := by
      rw [← same,List.append_assoc,List.getElem?_append_right (Nat.le_refl _),Nat.sub_self]
      rfl
    have zero : (lead ++ kept)[kept.length] = 0 := Option.some.inj (stays.symm.trans ends)
    have member : (0 : Cell kind) ∈ lead ++ kept := zero ▸ List.getElem_mem inside
    rw [parts.whole,← List.append_assoc] at clean
    exact clean (List.mem_append_left _ member)
  · cases found

end Result

section Claim
variable (s : List (Cell kind))

def oneBlank : Prop := s ≠ [] ∧ ((∀ c ∈ s, blank c = true) ∨ (s.takeWhile blank).length ≤ 1)

instance : Decidable (oneBlank s) := inferInstanceAs (Decidable (_ ∧ _))

theorem trimSpaceBlank (clean : 0 ∉ s) (blanks : ∀ c ∈ s, blank c = true) : Trims s ↔ s ≠ [] := by
  have scan : trimScan (s ++ [0]) 0 (-1) 0 = some (-1,0) := by
    rw [scanBlanks blanks clean,trimScan,if_pos rfl]
  have nothing : trimmed s = [] := by
    rw [trimmed,List.dropWhile_eq_nil_iff.mpr blanks,List.rdropWhile_nil]
  unfold Trims
  rw [nothing]
  cases s with
  | nil =>
    refine iff_of_false ?_ (fun some => some rfl)
    rintro ⟨cells,result,-⟩
    cases result
  | cons c s =>
    refine iff_of_true ?_ (List.cons_ne_nil c s)
    obtain ⟨d,rest,same⟩ : ∃ d rest, s ++ [0] = d :: rest := List.exists_cons_of_ne_nil (by simp)
    refine ⟨0 :: 0 :: rest,?_,by simp⟩
    rw [trimSpace,scan,Option.bind_eq_bind,Option.bind_some,List.cons_append,same]
    rfl

theorem trimSpaceTrims (clean : 0 ∉ s) : Trims s ↔ oneBlank s := by
  by_cases blanks : ∀ c ∈ s, blank c = true
  · rw [trimSpaceBlank s clean blanks,oneBlank,and_iff_left (.inl blanks)]
  · have some : ∃ c ∈ s, blank c = false := by simpa using blanks
    have nonempty : s ≠ [] := by
      rintro rfl
      exact blanks (by simp)
    obtain ⟨trail,parts⟩ := keptExists some
    obtain ⟨rest,result⟩ := trimSpaceKept parts clean
    rw [oneBlank,and_iff_right nonempty,or_iff_right blanks,Trims,result]
    have kept := keptLength parts
    generalize s.takeWhile blank = lead at *
    match lead with
    | [] =>
      rw [if_pos rfl]
      exact iff_of_true ⟨_,rfl,rest,by simp⟩ (Nat.zero_le 1)
    | [c] =>
      refine iff_of_true ?_ (Nat.le_refl 1)
      obtain ⟨x,w,same⟩ : ∃ x w, ([c] ++ (trimmed s ++ 0 :: rest)).drop (trimmed s).length = x :: w :=
        List.exists_cons_of_ne_nil fun none => by
          have length := congrArg List.length none
          simp only [List.length_drop,List.length_append,List.length_cons,List.length_nil] at length
          omega
      rw [if_neg (List.cons_ne_nil _ _),same,List.length_singleton,Nat.add_sub_cancel_left,zeroesOne]
      exact ⟨_,rfl,w,by simp⟩
    | c :: d :: more =>
      refine iff_of_false ?_ (by simp)
      rintro ⟨cells,found,terminated⟩
      rw [if_neg (List.cons_ne_nil _ _),Option.map_eq_some_iff] at found
      obtain ⟨cells',found,same⟩ := found
      cases same
      exact staysBehind parts clean (by simp) found terminated

theorem trimSpaceTrimsOne : ∃ cells, trimSpaceA (some [0x20,0x61,0x09,0]) = some (some cells) ∧
    trimmed ([0x20,0x61,0x09] : List (Cell .narrow)) ++ [0] <+: cells :=
  (@trimSpaceTrims .narrow [0x20,0x61,0x09] (by decide)).mpr (by decide)

theorem trimSpaceTwoBlanks : ¬ ∀ (kind : CharWidth) (s : List (Cell kind)), 0 ∉ s → Trims s := by
  intro always
  obtain ⟨cells,result,terminated⟩ := always .narrow [0x20,0x20,0x61,0x62] (by decide)
  have left : trimSpaceA (some [0x20,0x20,0x61,0x62,0]) = some (some [0x61,0x62,0x61,0,0]) := by decide
  cases left.symm.trans result
  revert terminated
  decide

end Claim

end JokeDse
