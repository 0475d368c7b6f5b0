import JokeDse.Lib.Tokens
import JokeDse.Scan
import Mathlib.Data.List.DropRight

/-! Which names CheckFilter (JokeAssist.cpp) finds in the filter, against the tokens that the filter is
made of. -/
namespace JokeDse
open Tokens

def splits (ch : WChar) : Bool := ch == space || ch == semicolon

def point : WChar := 0x2E#16

def lastComponent (strFile : CString) : CString := strFile.rtakeWhile (· != backslash)

/-- What PathFindExtension is assumed to return: the last component from its last '.', or nothing. -/
def extension (strFile : CString) : CString :=
  let name := lastComponent strFile
  if point ∈ name then point :: name.rtakeWhile (· != point) else []

def strCompare (w : Shell) (strFile : CString) (bExt : Bool) : CString :=
  let strFileupper := w.makeUpper strFile
  if !bExt then
    let nPos := reverseFind strFileupper backslash
    if 0 ≤ nPos ∧ nPos ≠ strFileupper.length - 2 then right strFileupper nPos else []
  else w.pathFindExtension strFileupper

theorem findPlace (s sub : CString) :
    (∃ before after, First s sub before after ∧ find s sub = before.length) ∨ (¬ sub <:+: s ∧ find s sub = -1) := by
  unfold find
  cases place : (List.range (s.length + 1)).find? fun i => sub.isPrefixOf (s.drop i) with
  | none =>
    refine .inr ⟨?_,rfl⟩
    rintro ⟨b,a,whole⟩
    rw [List.append_assoc] at whole
    have nowhere := List.find?_range_eq_none.mp place b.length
      (Nat.lt_succ_of_le (by rw [← whole,List.length_append]; exact Nat.le_add_right _ _))
    rw [Bool.not_eq_true',Bool.eq_false_iff] at nowhere
    exact nowhere (List.isPrefixOf_iff_prefix.mpr (dropPlace whole.symm))
  | some i =>
    obtain ⟨here,inside,earlier⟩ := List.find?_range_eq_some.mp place
    have front : (s.take i).length = i := List.length_take_of_le (Nat.le_of_lt_succ (List.mem_range.mp inside))
    obtain ⟨after,rest⟩ := List.isPrefixOf_iff_prefix.mp here
    refine .inl ⟨s.take i,after,⟨?_,fun j below => ?_⟩,congrArg Int.ofNat front.symm⟩
    · rw [rest,List.take_append_drop]
    · have none := earlier j (front ▸ below)
      rw [Bool.not_eq_true',Bool.eq_false_iff] at none
      exact fun place => none (List.isPrefixOf_iff_prefix.mpr place)

theorem checkFilterCompares (w : Shell) (m_strFilter strFile : CString) (bExt : Bool) :
    checkFilter w m_strFilter strFile bExt = true ↔
    EndsFirst splits m_strFilter (strCompare w strFile bExt) := by
  have compares : checkFilter w m_strFilter strFile bExt =
      let strCompare := strCompare w strFile bExt
      if 0 < strCompare.length then
        let nPos := find m_strFilter strCompare
        if 0 ≤ nPos then
          let nPos := nPos.toNat + strCompare.length
          let behind := m_strFilter.getD nPos 0
          behind == space || behind == semicolon || m_strFilter.length == nPos
        else false
      else false := rfl
  rw [compares]
  generalize strCompare w strFile bExt = word
  simp only
  by_cases some : word = []
  · rw [if_neg (by rw [some]; decide)]
    exact ⟨fun no => absurd no Bool.false_ne_true,fun ends => absurd some ends.1⟩
  · rw [if_pos (List.length_pos_iff.mpr some)]
    rcases findPlace m_strFilter word with ⟨before,after,first,place⟩ | ⟨nowhere,place⟩
    · have ends : EndsFirst splits m_strFilter word ↔ Bounded splits after := by
        constructor
        · rintro ⟨-,b,a,other,ends⟩
          obtain ⟨rfl,rfl⟩ := first.unique other
          exact ends
        · exact fun ends => ⟨some,before,after,first,ends⟩
      rw [ends,place,if_pos (Int.natCast_nonneg _),Int.toNat_natCast,first.whole]
      cases after with
      | nil => simp [Bounded]
      | cons c after => simp [Bounded,splits]
    · rw [place,if_neg (by decide)]
      refine ⟨fun no => absurd no Bool.false_ne_true,?_⟩
      rintro ⟨-,b,a,first,-⟩
      exact absurd ⟨b,a,(List.append_assoc _ _ _).trans first.whole.symm⟩ nowhere

section Upper
variable {w : Shell} {strFile : CString}

theorem upperBehind {mark : WChar} (marks : ∀ ch, w.upper ch = mark ↔ ch = mark) (s : CString) :
    (w.makeUpper s).rtakeWhile (· != mark) = w.makeUpper (s.rtakeWhile (· != mark)) := by
  have same : (· != mark) ∘ w.upper = (· != mark) := by
    funext ch
    rw [Function.comp_apply,Bool.eq_iff_iff,bne_iff_ne,bne_iff_ne,ne_eq,ne_eq,marks]
  rw [List.rtakeWhile,List.rtakeWhile,Shell.makeUpper,Shell.makeUpper,← List.map_reverse,List.takeWhile_map,same,
    List.map_reverse]

theorem componentUpper (separates : ∀ ch, w.upper ch = backslash ↔ ch = backslash) (strFile : CString) :
    lastComponent (w.makeUpper strFile) = w.makeUpper (lastComponent strFile) := upperBehind separates strFile

theorem extensionUpper (points : ∀ ch, w.upper ch = point ↔ ch = point)
    (separates : ∀ ch, w.upper ch = backslash ↔ ch = backslash) (strFile : CString) :
    extension (w.makeUpper strFile) = w.makeUpper (extension strFile) := by
  have there : point ∈ w.makeUpper (lastComponent strFile) ↔ point ∈ lastComponent strFile := by
    rw [Shell.makeUpper,List.mem_map]
    constructor
    · rintro ⟨ch,member,same⟩
      exact (points ch).mp same ▸ member
    · exact fun member => ⟨point,member,(points point).mpr rfl⟩
  simp only [extension,componentUpper separates,there,upperBehind points]
  split
  · rw [Shell.makeUpper,Shell.makeUpper,List.map_cons,(points point).mpr rfl]
  · rfl

theorem upperEmpty (s : CString) : w.makeUpper s = [] ↔ s = [] := List.map_eq_nil_iff

theorem extensionMatches {m_strFilter : CString} (points : ∀ ch, w.upper ch = point ↔ ch = point)
    (separates : ∀ ch, w.upper ch = backslash ↔ ch = backslash)
    (assumed : w.pathFindExtension (w.makeUpper strFile) = extension (w.makeUpper strFile)) :
    (checkFilter w m_strFilter strFile true = true ↔
      extension strFile ≠ [] ∧ w.makeUpper (extension strFile) ∈ m_strFilter.splitOnP splits) ↔
    extension strFile = [] ∨ FirstTells splits m_strFilter (w.makeUpper (extension strFile)) := by
  have compared : strCompare w strFile true = w.makeUpper (extension strFile) :=
    assumed.trans (extensionUpper points separates strFile)
  rw [checkFilterCompares,compared]
  by_cases none : extension strFile = []
  · have nowhere : ¬ EndsFirst splits m_strFilter (w.makeUpper (extension strFile)) :=
      fun ends => ends.1 ((upperEmpty _).mpr none)
    exact iff_of_true (iff_of_false nowhere fun token => token.1 none) (.inl none)
  · rw [and_iff_right none,or_iff_right none]
    exact firstTells fun empty => none ((upperEmpty _).mp empty)

end Upper

theorem asciiMarks {mark : WChar} (letter : mark.toNat < 0x41 ∨ 0x5A < mark.toNat ∧ mark.toNat < 0x61) (ch : WChar) :
    asciiUpper ch = mark ↔ ch = mark := by
  unfold asciiUpper
  split
  · rename_i small
    simp only [BitVec.le_def,BitVec.toNat_ofNat] at small
    rw [BitVec.toNat_eq,BitVec.toNat_eq,BitVec.toNat_sub,BitVec.toNat_ofNat]
    omega
  · rfl

def logPath : CString := chars ['D',':','\\','s','r','c','\\','x','.','l','o','g']

def upperLog : CString := chars ['.','L','O','G']

theorem extensionMatchesShort :
    (checkFilter asciiShell upperLog logPath true = true ↔
      extension logPath ≠ [] ∧ asciiShell.makeUpper (extension logPath) ∈ upperLog.splitOnP splits) ↔
    extension logPath = [] ∨ FirstTells splits upperLog (asciiShell.makeUpper (extension logPath)) :=
  extensionMatches (asciiMarks (by decide)) (asciiMarks (by decide)) (by decide +kernel)

-- Of the filter the dialog starts with, the name of one file; and two names, one of which begins the other.
def htmPath : CString := chars ['D',':','\\','s','r','c','\\','x','.','h','t','m']
def nameFilter : CString := chars ['B','U','I','L','D','L','O','G','.','H','T','M']
def gitPath : CString := chars ['D',':','\\','s','r','c','\\','.','g','i','t']
def gitFilter : CString := chars ['.','G','I','T','I','G','N','O','R','E',' ','.','G','I','T']

theorem tokensMistaken :
    (checkFilter asciiShell nameFilter htmPath true = true ∧
      asciiShell.makeUpper (extension htmPath) ∉ nameFilter.splitOnP splits) ∧
    (checkFilter asciiShell gitFilter gitPath true = false ∧
      extension gitPath ≠ [] ∧ asciiShell.makeUpper (extension gitPath) ∈ gitFilter.splitOnP splits) := by
  decide +kernel

section Component
variable {w : Shell} {strFile : CString}

/-- What is looked up for a component: as many of the last characters of the path as stand before its last
separator, and nothing for a component of one character. -/
def compared (strFile : CString) : CString :=
  let name := lastComponent strFile
  if name.length = 1 then [] else right strFile (strFile.length - 1 - name.length)

end Component

end JokeDse
