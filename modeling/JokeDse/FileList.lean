import JokeDse.Server
import JokeDse.Stream
import Mathlib.Data.List.Nodup

/-! The items of the files on their way into the list control: GetFile puts them into m_vecFileTemp,
OnTimer moves them to m_vecFileList and tells the control their number, and a new injection clears the
list. -/
namespace JokeDse
open Runs

inductive DispText where
  | number (n : Int)
  | text (s : CString)
  | status (nStatus : Bool)
  deriving DecidableEq, Repr

def DispText.characters : DispText → CString
  | .number n => (if n < 0 then chars ['-'] else []) ++ chars (Nat.toDigits 10 n.natAbs)
  | .text s => s
  | .status nStatus => chars (if nStatus then ['t','r','u','e'] else ['f','a','l','s','e'])

/-- `_stprintf_s` and `_tcscpy_s` do not truncate: a text that is too long for pszText is an invalid parameter. -/
def fitted (cchTextMax : Nat) (text : DispText) : Except Stop (Option DispText) :=
  if text.characters.length < cchTextMax then .ok (some text) else .error .invalidParameter

/-- What the control gets for a row; `none` inside is no text. Indexing the vector beyond its end is
undefined (`none`). -/
def Server.onLvnGetdispinfoListFile (cchTextMax : Nat) (isText : Bool) (iItem iSubItem : Int) (s : Server) :
    Option (Except Stop (Option DispText)) :=
  if s.m_vecFileList.length = 0 then some (.ok none)
  else if iItem < 0 then none
  else do
    let p ← s.m_vecFileList[iItem.toNat]?
    let pFile ← s.dialog.items[p]?
    if isText then
      some (fitted cchTextMax (
        if iSubItem = 1 then .text pFile.strSourceFile
        else if iSubItem = 2 then .text pFile.strDestFile
        else if iSubItem = 3 then .number (int pFile.nFileSize.toNat)
        else if iSubItem = 4 then .status pFile.nStatus
        else .number (int (iItem + 1))))
    else some (.ok none)

def Server.listed (s : Server) : List Nat := s.m_vecFileList ++ (s.vecTemp ++ s.dialog.m_vecFileTemp)

structure Listed (s : Server) : Prop where
  order : s.listed = s.waiting ++ List.range' s.mark (s.dialog.items.length - s.mark)
  marked : s.mark ≤ s.dialog.items.length
  early : ∀ p ∈ s.waiting, p < s.mark
  rising : s.waiting.Pairwise (· < ·)
  swapped : s.ui ≠ .swapped → s.vecTemp = []
  cleared : s.ui = .cleared ∨ s.ui = .zeroed → s.m_vecFileList = []
  shown : s.ui ≠ .cleared → s.ui ≠ .zeroed → s.itemCount ≤ s.m_vecFileList.length

section Step
variable {env : Env} {s t : Server}

theorem quietLength {c c' : Ctx} (quiet : Quiet c c') : c'.dialog.items.length = c.dialog.items.length := by
  have same := congrArg List.length quiet.statuses
  simpa only [Dialog.statuses,List.length_map] using same

theorem Listed.all (listed : Listed s) : s.listed.Pairwise (· < ·) := by
  rw [listed.order]
  refine List.pairwise_append.mpr ⟨listed.rising,List.pairwise_lt_range',fun p early q later => ?_⟩
  exact Nat.lt_of_lt_of_le (listed.early p early) (List.mem_range'_1.mp later).1

theorem Listed.below (listed : Listed s) : ∀ p ∈ s.listed, p < s.dialog.items.length := by
  have marked := listed.marked
  intro p member
  rw [listed.order] at member
  rcases List.mem_append.mp member with member | member
  · exact Nat.lt_of_lt_of_le (listed.early p member) marked
  · have upper := (List.mem_range'_1.mp member).2
    omega

def ServerStep.outside : ServerStep → Bool
  | .accept _ | .start | .read .. | .finish => true
  | _ => false

theorem outsideStill {a : ServerStep} (outside : a.outside = true) (took : Took s a t) :
    UiStill s t ∧ t.dialog = s.dialog := by
  cases took with
  | accept | failed | started | read | closed | finished => exact ⟨⟨rfl,rfl,rfl,rfl,rfl,rfl⟩,rfl⟩
  | _ => cases outside

theorem Listed.still (listed : Listed s) (still : UiStill s t)
    (m_vecFileTemp : t.dialog.m_vecFileTemp = s.dialog.m_vecFileTemp)
    (items : t.dialog.items.length = s.dialog.items.length) : Listed t := by
  obtain ⟨m_vecFileList,vecTemp,itemCount,ui,mark,waiting⟩ := still
  have same : t.listed = s.listed := by rw [Server.listed,Server.listed,m_vecFileList,vecTemp,m_vecFileTemp]
  constructor
  · rw [same,waiting,mark,items,listed.order]
  · rw [mark,items]
    exact listed.marked
  · rw [mark,waiting]
    exact listed.early
  · rw [waiting]
    exact listed.rising
  · rw [ui,vecTemp]
    exact listed.swapped
  · rw [ui,m_vecFileList]
    exact listed.cleared
  · rw [ui,itemCount,m_vecFileList]
    exact listed.shown

theorem announcedLength {c c' : Ctx} (announced : Announced c c') :
    c'.dialog.items.length = c.dialog.items.length + 1 := by
  have same := congrArg List.length announced.statuses
  simpa only [Dialog.statuses,List.length_map,List.length_append,List.length_singleton] using same

theorem countsLength {saved : Int} {c c' : Ctx} (counts : Counts saved c c') :
    c'.dialog.items.length = c.dialog.items.length := by
  have same := congrArg List.length counts.statuses
  simpa only [Dialog.statuses,List.length_map] using same

theorem marksLength {p : Nat} {c c' : Ctx} (marks : Marks p c c') : c'.dialog.items.length = c.dialog.items.length := by
  have same := congrArg List.length marks.statuses
  simpa only [Dialog.statuses,List.length_modify,List.length_map] using same

theorem announcedListed {n : Nat} (still : UiStill s t)
    (m_vecFileTemp : t.dialog.m_vecFileTemp = s.dialog.m_vecFileTemp ++ [n]) : t.listed = s.listed ++ [n] := by
  rw [Server.listed,Server.listed,still.m_vecFileList,still.vecTemp,m_vecFileTemp,List.append_assoc,List.append_assoc]

theorem listedGo {i : Nat} {place : Place} {part : Part} {c : Ctx} (listed : Listed s)
    (gone : Gone s t i place part c) : Listed t := by
  have effect := gone.effect
  have still := gone.still
  have dialog := gone.dialog
  generalize t.handler = handler at effect
  cases effect with
  | quiet quiet | loaded quiet | finished quiet =>
    exact listed.still still (dialog ▸ quiet.m_vecFileTemp) (dialog ▸ quietLength quiet)
  | counted counts => exact listed.still still (dialog ▸ counts.m_vecFileTemp) (dialog ▸ countsLength counts)
  | marked marks => exact listed.still still (dialog ▸ marks.m_vecFileTemp) (dialog ▸ marksLength marks)
  | announced announced =>
    have length : t.dialog.items.length = s.dialog.items.length + 1 := dialog ▸ announcedLength announced
    have more : t.listed = s.listed ++ [s.dialog.items.length] :=
      announcedListed still (dialog ▸ announced.m_vecFileTemp)
    have marked := listed.marked
    constructor
    · have count : s.dialog.items.length + 1 - s.mark = s.dialog.items.length - s.mark + 1 := by omega
      have last : s.mark + (s.dialog.items.length - s.mark) = s.dialog.items.length := by omega
      rw [more,still.waiting,still.mark,length,listed.order,count,List.range'_1_concat,last,List.append_assoc]
    · rw [still.mark,length]
      exact Nat.le_succ_of_le marked
    · rw [still.mark,still.waiting]
      exact listed.early
    · rw [still.waiting]
      exact listed.rising
    · rw [still.ui,still.vecTemp]
      exact listed.swapped
    · rw [still.ui,still.m_vecFileList]
      exact listed.cleared
    · rw [still.ui,still.itemCount,still.m_vecFileList]
      exact listed.shown

theorem listedStep {a : ServerStep} (listed : Listed s) (took : Took s a t) : Listed t := by
  have outside (io : a.outside = true) : Listed t := by
    obtain ⟨still,dialog⟩ := outsideStill io took
    exact listed.still still (by rw [dialog]) (by rw [dialog])
  cases took with
  | accept | failed | started | read | closed | finished => exact outside rfl
  | gone gone => exact listedGo listed gone
  | onTimer idle =>
    have nothing : s.vecTemp = [] := listed.swapped (by rw [idle]; decide)
    have same : s.m_vecFileList ++ (s.dialog.m_vecFileTemp ++ []) = s.listed := by
      rw [Server.listed,nothing,List.append_nil,List.nil_append]
    exact ⟨same.trans listed.order,listed.marked,listed.early,listed.rising,fun other => absurd rfl other,
      fun inside => by cases inside <;> contradiction,
      fun _ _ => listed.shown (by rw [idle]; decide) (by rw [idle]; decide)⟩
  | insert swapped =>
    have same : s.m_vecFileList ++ s.vecTemp ++ ([] ++ s.dialog.m_vecFileTemp) = s.listed := by
      rw [Server.listed,List.nil_append,List.append_assoc]
    refine ⟨same.trans listed.order,listed.marked,listed.early,listed.rising,fun _ => rfl,
      fun inside => by cases inside <;> contradiction,fun _ _ => ?_⟩
    have shown := listed.shown (by rw [swapped]; decide) (by rw [swapped]; decide)
    simp only [List.length_append]
    omega
  | shown inserted low =>
    exact ⟨listed.order,listed.marked,listed.early,listed.rising,fun _ => listed.swapped (by rw [inserted]; decide),
      fun inside => by cases inside <;> contradiction,fun _ _ => low⟩
  | unchanged inserted =>
    exact ⟨listed.order,listed.marked,listed.early,listed.rising,fun _ => listed.swapped (by rw [inserted]; decide),
      fun inside => by cases inside <;> contradiction,
      fun _ _ => listed.shown (by rw [inserted]; decide) (by rw [inserted]; decide)⟩
  | asked idle => exact ⟨listed.order,listed.marked,listed.early,listed.rising,listed.swapped,listed.cleared,listed.shown⟩
  | cleared idle =>
    have nothing : s.vecTemp = [] := listed.swapped (by rw [idle]; decide)
    have inside : ∀ p ∈ s.dialog.m_vecFileTemp, p ∈ s.listed := fun p member =>
      List.mem_append_right _ (List.mem_append_right _ member)
    refine ⟨?_,Nat.le_refl _,fun p member => listed.below p (inside p member),?_,fun _ => nothing,fun _ => rfl,
      fun other => absurd rfl other⟩
    · have none : Server.listed {s with m_vecFileList := []} = s.dialog.m_vecFileTemp := by
        rw [Server.listed,nothing,List.nil_append,List.nil_append]
      rw [Nat.sub_self,List.range'_zero,List.append_nil]
      exact none
    · have rising := listed.all
      rw [Server.listed,nothing,List.nil_append] at rising
      exact (List.pairwise_append.mp rising).2.1
  | zeroSaved cleared =>
    exact ⟨listed.order,listed.marked,listed.early,listed.rising,fun _ => listed.swapped (by rw [cleared]; decide),
      fun _ => listed.cleared (.inl cleared),fun _ other => absurd rfl other⟩
  | restart zeroed =>
    have none := listed.cleared (.inr zeroed)
    exact ⟨listed.order,listed.marked,listed.early,listed.rising,fun _ => listed.swapped (by rw [zeroed]; decide),
      fun _ => none,fun _ _ => Int.natCast_nonneg _⟩

theorem startListed (m_strSavePath : CString) (disk : Disk) : Listed (Server.start m_strSavePath disk) where
  order := rfl
  marked := Nat.le_refl _
  early _ member := by cases member
  rising := List.Pairwise.nil
  swapped _ := rfl
  cleared inside := by rcases inside with inside | inside <;> cases inside
  shown _ _ := Int.le_refl _

structure FilesListed (s : Server) : Prop where
  once : ∀ p, s.mark ≤ p → p < s.dialog.items.length →
    s.m_vecFileList.count p + s.vecTemp.count p + s.dialog.m_vecFileTemp.count p = 1
  between : s.ui ≠ .swapped → s.vecTemp = []
  order : s.m_vecFileList ++ s.vecTemp ++ s.dialog.m_vecFileTemp =
    s.waiting ++ List.range' s.mark (s.dialog.items.length - s.mark)
  shown : s.ui ≠ .cleared → s.ui ≠ .zeroed → s.itemCount ≤ s.m_vecFileList.length
  cleared : s.ui = .cleared ∨ s.ui = .zeroed → s.m_vecFileList = []
  indexed : ∀ (cchTextMax k : Nat) (isText : Bool) (iSubItem : Int), k < s.itemCount →
    (s.onLvnGetdispinfoListFile cchTextMax isText k iSubItem).isSome = true

theorem Listed.indexed (listed : Listed s) {k : Nat} (cchTextMax : Nat) (isText : Bool) (iSubItem : Int)
    (asked : k < s.itemCount) : (s.onLvnGetdispinfoListFile cchTextMax isText k iSubItem).isSome = true := by
  unfold Server.onLvnGetdispinfoListFile
  by_cases empty : s.m_vecFileList.length = 0
  · rw [if_pos empty]
    rfl
  · have some : ¬ (s.ui = .cleared ∨ s.ui = .zeroed) := fun inside =>
      empty (by rw [listed.cleared inside]; rfl)
    have shown := listed.shown (fun inside => some (.inl inside)) fun inside => some (.inr inside)
    have inside : k < s.m_vecFileList.length := by omega
    have member : s.m_vecFileList[k] ∈ s.listed := List.mem_append_left _ (List.getElem_mem inside)
    have item := listed.below _ member
    rw [if_neg empty,if_neg (Int.not_lt.mpr (Int.natCast_nonneg k)),Int.toNat_natCast,List.getElem?_eq_getElem inside]
    simp only [bind,Option.bind_some,List.getElem?_eq_getElem item]
    split <;> rfl

theorem filesListed {m_strSavePath : CString} {disk : Disk} {acts : List ServerStep}
    (run : follow (Server.step env) acts (Server.start m_strSavePath disk) = some s) : FilesListed s := by
  have listed : Listed s :=
    followKeeps (fun taken listed => listedStep listed (stepTook taken)) run (startListed m_strSavePath disk)
  have order := listed.order
  rw [Server.listed,← List.append_assoc] at order
  refine ⟨fun p late made => ?_,listed.swapped,order,listed.shown,listed.cleared,
    fun cchTextMax k isText iSubItem => listed.indexed cchTextMax isText iSubItem⟩
  have marked := listed.marked
  have here : p ∈ s.listed := by
    rw [listed.order]
    exact List.mem_append_right _ (List.mem_range'_1.mpr ⟨late,by omega⟩)
  have one := List.count_eq_one_of_mem (listed.all.imp Nat.ne_of_lt) here
  rwa [Server.listed,List.count_append,List.count_append,← Nat.add_assoc] at one

end Step

-- A file arrives and OnTimer takes its item.
def tickInside : List ServerStep :=
  [.accept false,.start,.read 0 shortFrame.symbols allSucceed false,.go,.go,.onTimer]

theorem filesListedShort : ∃ s, follow (Server.step plainEnv) tickInside (Server.start [0x44,0x3A] emptyDisk) = some s ∧
    FilesListed s := by
  have possible : (follow (Server.step plainEnv) tickInside (Server.start [0x44,0x3A] emptyDisk)).isSome = true := by
    decide +kernel
  obtain ⟨s,run⟩ := Option.isSome_iff_exists.mp possible
  exact ⟨s,run,filesListed run⟩

theorem betweenVectors : ∃ s, follow (Server.step plainEnv) tickInside (Server.start [0x44,0x3A] emptyDisk) = some s ∧
    s.mark = 0 ∧ s.dialog.items.length = 1 ∧ 0 ∉ s.dialog.m_vecFileTemp ∧ 0 ∉ s.m_vecFileList := by
  have found : (follow (Server.step plainEnv) tickInside (Server.start [0x44,0x3A] emptyDisk)).any (fun s =>
      decide (s.mark = 0 ∧ s.dialog.items.length = 1 ∧ 0 ∉ s.dialog.m_vecFileTemp ∧ 0 ∉ s.m_vecFileList)) = true := by
    decide +kernel
  obtain ⟨s,run,holds⟩ := (Option.any_eq_true _ _).mp found
  exact ⟨s,run,of_decide_eq_true holds⟩

end JokeDse
