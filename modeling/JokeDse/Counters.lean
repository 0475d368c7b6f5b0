import JokeDse.Lib.Runs
import JokeDse.SendFile
import JokeDse.Session
import JokeDse.Stream

/-! The three counters of the dialog: the workers count their files in m_nSendFiles and put the counts in
the headers, and the sessions raise the dialog's counters to what the headers say. -/
namespace JokeDse
open Runs

/-- Both programs between a search and its end. `counting` are the workers between the two critical
sections of SendFile, `sent` the headers that are built and not yet accepted; `built` counts the headers,
for the record. -/
structure Counting (ι : Type) where
  m_nFoundFiles : Uint
  m_nFiltedFiles : Uint
  m_nSendFiles : Uint
  counting : List ι
  sent : List FilebufHeader
  built : Nat
  dialog : Dialog
  disk : Disk

structure Accepting where
  env : Env
  ops : FileOps
  k : Nat
  pBuffer : Bytes
  nOffset : Int
  session : Session

inductive CountStep (ι : Type) where
  | count (i : ι)
  | build (i : ι) (szPath : Bytes) (nFileSize : Int)
  | accept (position : Nat) (at_ : Accepting)

namespace Counting
variable {ι : Type} [DecidableEq ι]

def start (m_nFoundFiles m_nFiltedFiles : Uint) (dialog : Dialog) (disk : Disk) : Counting ι where
  m_nFoundFiles := m_nFoundFiles
  m_nFiltedFiles := m_nFiltedFiles
  m_nSendFiles := 0
  counting := []
  sent := []
  built := 0
  dialog := {dialog with m_nFoundFiles := 0, m_nSkippedFiles := 0, m_nDecrypedFiles := 0}
  disk := disk

def header (szPath : Bytes) (nFileSize : Int) (s : Counting ι) : FilebufHeader :=
  FilebufHeader.new szPath nFileSize (int s.m_nFoundFiles.toNat) (int s.m_nSendFiles.toNat)
    (int s.m_nFiltedFiles.toNat)

def step (s : Counting ι) : CountStep ι → Option (Counting ι)
  | .count i =>
    if i ∈ s.counting then none
    else some {s with m_nSendFiles := s.m_nSendFiles + 1, counting := i :: s.counting}
  | .build i szPath nFileSize =>
    if i ∈ s.counting then
      some {s with
        counting := s.counting.erase i
        sent := s.sent ++ [s.header szPath nFileSize]
        built := s.built + 1}
    else none
  | .accept position at_ =>
    match s.sent[position]? with
    | none => none
    | some h =>
      match acceptHeader at_.env at_.ops at_.k at_.pBuffer at_.nOffset h ⟨⟨at_.session,s.dialog,s.disk⟩,[],0,[]⟩ with
      | .done _ c => some {s with sent := s.sent.eraseIdx position, dialog := c.dialog, disk := c.disk}
      | _ => none

end Counting

structure Dialog.Counts (d : Dialog) (found skipped decrypted : Nat) : Prop where
  m_nFoundFiles : d.m_nFoundFiles = found
  m_nSkippedFiles : d.m_nSkippedFiles = skipped
  m_nDecrypedFiles : d.m_nDecrypedFiles = decrypted

theorem raisesTo {member : Nat} {announced : Uint} (high : member < 2147483648)
    (small : announced.toNat < 2147483648) :
    (if uint member < announced.toNat then int announced.toNat else (member : Int)) =
      (max member announced.toNat : Nat) := by
  have fits : (uint member : Int) = member := uintFits (by omega) (by omega)
  have same : int (announced.toNat : Int) = announced.toNat := intFits (by omega) (by omega)
  rw [same]
  split <;> omega

theorem acceptCounts {env : Env} {ops : FileOps} {k : Nat} {pBuffer : Bytes} {nOffset : Int} {h : FilebufHeader}
    {c c' : Ctx} {found skipped decrypted : Nat} (counts : c.dialog.Counts found skipped decrypted)
    (f : found < 2147483648) (g : skipped < 2147483648) (d : decrypted < 2147483648)
    (hf : h.nFoundFiles.toNat < 2147483648) (hg : h.nFilterFiles.toNat < 2147483648)
    (hd : h.nDecryptFiles.toNat < 2147483648)
    (accepted : acceptHeader env ops k pBuffer nOffset h c = .done () c') :
    c'.dialog.Counts (max found h.nFoundFiles.toNat) (max skipped h.nFilterFiles.toNat)
      (max decrypted h.nDecryptFiles.toNat) := by
  obtain ⟨name,rx⟩ := acceptDone env ops k accepted
  rw [rx,openFileDialog]
  constructor
  · simp only [Rx.announce,Rx.raiseCounters,counts.m_nFoundFiles]
    exact raisesTo f hf
  · simp only [Rx.announce,Rx.raiseCounters,counts.m_nSkippedFiles]
    exact raisesTo g hg
  · simp only [Rx.announce,Rx.raiseCounters,counts.m_nDecrypedFiles]
    exact raisesTo d hd

section Kept
variable {ι : Type} [DecidableEq ι] {s t : Counting ι}

def Counting.begun (s : Counting ι) : Nat := s.built + s.counting.length

omit [DecidableEq ι] in
theorem headerNumbers (szPath : Bytes) (nFileSize : Int) (s : Counting ι) :
    (s.header szPath nFileSize).nFoundFiles = s.m_nFoundFiles ∧
    (s.header szPath nFileSize).nFilterFiles = s.m_nFiltedFiles ∧
    (s.header szPath nFileSize).nDecryptFiles = s.m_nSendFiles :=
  ⟨toUintBack _,toUintBack _,toUintBack _⟩

structure Counting.Inv (found filtered : Uint) (s : Counting ι) : Prop where
  m_nFoundFiles : s.m_nFoundFiles = found
  m_nFiltedFiles : s.m_nFiltedFiles = filtered
  m_nSendFiles : s.m_nSendFiles.toNat = s.begun
  carried : ∀ h ∈ s.sent, h.nFoundFiles = found ∧ h.nFilterFiles = filtered ∧ h.nDecryptFiles.toNat ≤ s.begun
  fewer : s.sent.length ≤ s.built
  counts : ∃ decrypted ≤ s.begun, s.dialog.Counts (if s.sent.length = s.built then 0 else found.toNat)
    (if s.sent.length = s.built then 0 else filtered.toNat) decrypted
  newest : s.counting = [] → s.dialog.m_nDecrypedFiles = s.built ∨ ∃ h ∈ s.sent, h.nDecryptFiles.toNat = s.built

theorem begunGrows {a : CountStep ι} (taken : s.step a = some t) : s.begun ≤ t.begun := by
  cases a with
  | count i =>
    simp only [Counting.step] at taken
    split at taken
    · cases taken
    · cases taken
      simp only [Counting.begun,List.length_cons]
      omega
  | build i szPath nFileSize =>
    simp only [Counting.step] at taken
    split at taken
    · rename_i member
      cases taken
      have some : 0 < s.counting.length := List.length_pos_of_mem member
      simp only [Counting.begun,List.length_erase_of_mem member]
      omega
    · cases taken
  | accept position at_ =>
    simp only [Counting.step] at taken
    split at taken
    · cases taken
    · split at taken
      · cases taken
        exact Nat.le_refl _
      · cases taken

section Step
variable {found filtered : Uint}

theorem countInv {i : ι} (taken : s.step (.count i) = some t) (small : t.begun < 2147483648)
    (inv : s.Inv found filtered) : t.Inv found filtered := by
  simp only [Counting.step] at taken
  split at taken
  · cases taken
  · cases taken
    have more : s.built + (s.counting.length + 1) = s.begun + 1 := rfl
    have number := inv.m_nSendFiles
    refine ⟨inv.m_nFoundFiles,inv.m_nFiltedFiles,?_,fun h member => ?_,inv.fewer,?_,fun nobody => by cases nobody⟩
    · have one : (1 : Uint).toNat = 1 := rfl
      have fits : s.begun + 1 < 2 ^ 32 := Nat.lt_trans (Eq.subst (motive := (· < 2147483648)) more small) (by decide)
      rw [BitVec.toNat_add,number,one,Nat.mod_eq_of_lt fits]
      exact more.symm
    · obtain ⟨a,b,c⟩ := inv.carried h member
      exact ⟨a,b,Nat.le_trans c (Nat.le_succ _)⟩
    · obtain ⟨decrypted,low,counts⟩ := inv.counts
      exact ⟨decrypted,Nat.le_trans low (Nat.le_succ _),counts⟩

theorem buildInv {i : ι} {szPath : Bytes} {nFileSize : Int} (taken : s.step (.build i szPath nFileSize) = some t)
    (inv : s.Inv found filtered) : t.Inv found filtered := by
  simp only [Counting.step] at taken
  split at taken
  · rename_i member
    have some : 0 < s.counting.length := List.length_pos_of_mem member
    have same : s.built + 1 + (s.counting.erase i).length = s.begun := by
      simp only [Counting.begun,List.length_erase_of_mem member]
      omega
    have begun : t.begun = s.begun := by
      rw [← Option.some.inj taken]
      exact same
    obtain ⟨a,b,c⟩ := headerNumbers szPath nFileSize s
    have here : s.header szPath nFileSize ∈ s.sent ++ [s.header szPath nFileSize] :=
      List.mem_append_right _ (List.mem_singleton_self _)
    cases taken
    refine ⟨inv.m_nFoundFiles,inv.m_nFiltedFiles,inv.m_nSendFiles.trans begun.symm,fun h member => ?_,?_,?_,?_⟩
    · rw [begun]
      rcases List.mem_append.mp member with member | member
      · exact inv.carried h member
      · rw [List.mem_singleton.mp member,a,b,c,inv.m_nSendFiles]
        exact ⟨inv.m_nFoundFiles,inv.m_nFiltedFiles,Nat.le_refl _⟩
    · simp only [List.length_append,List.length_singleton]
      exact Nat.succ_le_succ inv.fewer
    · obtain ⟨decrypted,low,counts⟩ := inv.counts
      refine ⟨decrypted,begun ▸ low,?_⟩
      simpa only [List.length_append,List.length_singleton,Nat.add_right_cancel_iff] using counts
    · intro idle
      refine .inr ⟨_,here,?_⟩
      rw [c,inv.m_nSendFiles,← same]
      simp only at idle
      rw [idle]
      rfl
  · cases taken

structure Accepted (found filtered : Uint) (s t : Counting ι) : Prop where
  taken : ∃ early h late, s.sent = early ++ h :: late ∧
    t = {s with sent := early ++ late, dialog := t.dialog, disk := t.disk} ∧ h.nDecryptFiles.toNat ≤ s.begun ∧
    ∃ decrypted ≤ s.begun, s.dialog.m_nDecrypedFiles = decrypted ∧
      t.dialog.Counts found.toNat filtered.toNat (max decrypted h.nDecryptFiles.toNat)
  low : s.dialog.m_nFoundFiles ≤ found.toNat ∧ s.dialog.m_nSkippedFiles ≤ filtered.toNat

theorem acceptTaken (f : found.toNat < 2147483648) (g : filtered.toNat < 2147483648) {position : Nat} {at_ : Accepting}
    (taken : s.step (.accept position at_) = some t) (small : s.begun < 2147483648)
    (inv : s.Inv found filtered) : Accepted found filtered s t := by
  simp only [Counting.step] at taken
  split at taken
  · cases taken
  · rename_i h there
    split at taken
    · rename_i value c accepted
      cases taken
      obtain ⟨inside,there⟩ := List.getElem?_eq_some_iff.mp there
      have split : s.sent = s.sent.take position ++ h :: s.sent.drop (position + 1) := by
        rw [← there,← List.drop_eq_getElem_cons inside,List.take_append_drop]
      obtain ⟨foundHere,filteredHere,number⟩ := inv.carried h (there ▸ List.getElem_mem inside)
      obtain ⟨decrypted,low,counts⟩ := inv.counts
      have zeroF : (if s.sent.length = s.built then 0 else found.toNat) ≤ found.toNat := by split <;> omega
      have zeroG : (if s.sent.length = s.built then 0 else filtered.toNat) ≤ filtered.toNat := by split <;> omega
      have raised := acceptCounts counts (by omega) (by omega) (by omega) (foundHere ▸ f) (filteredHere ▸ g)
        (by omega) accepted
      rw [foundHere,filteredHere,Nat.max_eq_right zeroF,Nat.max_eq_right zeroG] at raised
      refine ⟨⟨_,h,_,split,?_,number,decrypted,low,counts.m_nDecrypedFiles,raised⟩,?_,?_⟩
      · rw [List.eraseIdx_eq_take_drop_succ]
      · rw [counts.m_nFoundFiles]
        exact Int.ofNat_le.mpr zeroF
      · rw [counts.m_nSkippedFiles]
        exact Int.ofNat_le.mpr zeroG
    · cases taken

omit [DecidableEq ι] in
theorem acceptInv (accepted : Accepted found filtered s t) (inv : s.Inv found filtered) : t.Inv found filtered := by
  obtain ⟨⟨early,h,late,split,same,number,decrypted,low,before,counts⟩,-⟩ := accepted
  have fewer := inv.fewer
  rw [split,List.length_append,List.length_cons] at fewer
  have fewerNow : (early ++ late).length ≠ s.built := by
    rw [List.length_append]
    omega
  rw [same] at counts ⊢
  refine ⟨inv.m_nFoundFiles,inv.m_nFiltedFiles,inv.m_nSendFiles,fun h' member => ?_,?_,?_,fun idle => ?_⟩
  · apply inv.carried h'
    rw [split]
    rcases List.mem_append.mp member with member | member
    · exact List.mem_append_left _ member
    · exact List.mem_append_right _ (List.mem_cons_of_mem _ member)
  · simp only [List.length_append]
    omega
  · refine ⟨max decrypted h.nDecryptFiles.toNat,Nat.max_le.mpr ⟨low,number⟩,?_⟩
    rw [if_neg fewerNow,if_neg fewerNow]
    exact counts
  · have begun : s.begun = s.built := by
      simp only [Counting.begun]
      rw [idle]
      rfl
    have highest : decrypted = s.built ∨ h.nDecryptFiles.toNat = s.built →
        max decrypted h.nDecryptFiles.toNat = s.built := by omega
    rcases inv.newest idle with newest | ⟨h',inSent,newest⟩
    · rw [before] at newest
      exact .inl (counts.m_nDecrypedFiles.trans (congrArg _ (highest (.inl (Int.ofNat_inj.mp newest)))))
    · rw [split] at inSent
      rcases List.mem_append.mp inSent with member | member
      · exact .inr ⟨h',List.mem_append_left _ member,newest⟩
      · rcases List.mem_cons.mp member with rfl | member
        · exact .inl (counts.m_nDecrypedFiles.trans (congrArg _ (highest (.inr newest))))
        · exact .inr ⟨h',List.mem_append_right _ member,newest⟩

theorem countingInv (f : found.toNat < 2147483648) (g : filtered.toNat < 2147483648) {a : CountStep ι}
    (taken : s.step a = some t) (small : t.begun < 2147483648) (inv : s.Inv found filtered) : t.Inv found filtered := by
  cases a with
  | count i => exact countInv taken small inv
  | build i szPath nFileSize => exact buildInv taken inv
  | accept position at_ => exact acceptInv (acceptTaken f g taken (Nat.lt_of_le_of_lt (begunGrows taken) small) inv) inv

structure Grows (d d' : Dialog) : Prop where
  m_nFoundFiles : d.m_nFoundFiles ≤ d'.m_nFoundFiles
  m_nSkippedFiles : d.m_nSkippedFiles ≤ d'.m_nSkippedFiles
  m_nDecrypedFiles : d.m_nDecrypedFiles ≤ d'.m_nDecrypedFiles

theorem countingGrows {a : CountStep ι} (taken : s.step a = some t) (small : t.begun < 2147483648)
    (f : found.toNat < 2147483648) (g : filtered.toNat < 2147483648) (inv : s.Inv found filtered) :
    Grows s.dialog t.dialog := by
  have still (d : Dialog) : Grows d d := ⟨Int.le_refl _,Int.le_refl _,Int.le_refl _⟩
  have begun := begunGrows taken
  cases a with
  | count i =>
    simp only [Counting.step] at taken
    split at taken <;> cases taken
    exact still _
  | build i szPath nFileSize =>
    simp only [Counting.step] at taken
    split at taken <;> cases taken
    exact still _
  | accept position at_ =>
    obtain ⟨⟨early,h,late,-,-,-,decrypted,-,before,counts⟩,found,skipped⟩ :=
      acceptTaken f g taken (Nat.lt_of_le_of_lt begun small) inv
    constructor
    · rw [counts.m_nFoundFiles]
      exact found
    · rw [counts.m_nSkippedFiles]
      exact skipped
    · rw [before,counts.m_nDecrypedFiles]
      exact Int.ofNat_le.mpr (Nat.le_max_left _ _)

omit [DecidableEq ι] in
theorem startCounting (dialog : Dialog) (disk : Disk) (found filtered : Uint) :
    (Counting.start found filtered dialog disk : Counting ι).Inv found filtered where
  m_nFoundFiles := rfl
  m_nFiltedFiles := rfl
  m_nSendFiles := rfl
  carried _ member := by cases member
  fewer := Nat.le_refl _
  counts := ⟨0,Nat.zero_le _,⟨rfl,rfl,rfl⟩⟩
  newest _ := .inl rfl

end Step

theorem begunRun {acts : List (CountStep ι)} (run : follow Counting.step acts s = some t) : s.begun ≤ t.begun :=
  followRelates (R := fun s t : Counting ι => s.begun ≤ t.begun) (fun _ => Nat.le_refl _) Nat.le_trans begunGrows run

end Kept

theorem countersEnd {ι : Type} [DecidableEq ι] {found filtered : Uint} {dialog : Dialog} {disk : Disk}
    {before after : List (CountStep ι)} {s t : Counting ι}
    (reached : follow Counting.step before (Counting.start found filtered dialog disk) = some s)
    (rest : follow Counting.step after s = some t) (idle : t.counting = []) (all : t.sent = [])
    (f : found.toNat < 2147483648) (g : filtered.toNat < 2147483648) (small : t.built < 2147483648) :
    t.dialog.Counts (if t.built = 0 then 0 else found.toNat) (if t.built = 0 then 0 else filtered.toNat) t.built ∧
      Grows s.dialog t.dialog := by
  have begun : t.begun = t.built := by
    rw [Counting.begun,idle]
    rfl
  have fits : t.begun < 2147483648 := begun ▸ small
  have invBefore : s.begun < 2147483648 → s.Inv found filtered := by
    refine followKeeps (I := fun u => u.begun < 2147483648 → u.Inv found filtered) (fun taken inv fits => ?_) reached
      fun _ => startCounting dialog disk found filtered
    exact countingInv f g taken fits (inv (Nat.lt_of_le_of_lt (begunGrows taken) fits))
  have inv := invBefore (Nat.lt_of_le_of_lt (begunRun rest) fits)
  have still : Grows s.dialog s.dialog := ⟨Int.le_refl _,Int.le_refl _,Int.le_refl _⟩
  have both : t.begun < 2147483648 → t.Inv found filtered ∧ Grows s.dialog t.dialog := by
    refine followKeeps (I := fun u => u.begun < 2147483648 → u.Inv found filtered ∧ Grows s.dialog u.dialog)
      (fun taken held fits => ?_) rest fun _ => ⟨inv,still⟩
    obtain ⟨inv,grown⟩ := held (Nat.lt_of_le_of_lt (begunGrows taken) fits)
    have more := countingGrows taken fits f g inv
    exact ⟨countingInv f g taken fits inv,Int.le_trans grown.m_nFoundFiles more.m_nFoundFiles,
      Int.le_trans grown.m_nSkippedFiles more.m_nSkippedFiles,Int.le_trans grown.m_nDecrypedFiles more.m_nDecrypedFiles⟩
  obtain ⟨inv,grown⟩ := both fits
  refine ⟨?_,grown⟩
  obtain ⟨decrypted,-,counts⟩ := inv.counts
  have newest : t.dialog.m_nDecrypedFiles = t.built := by
    rcases inv.newest idle with newest | ⟨h,member,-⟩
    · exact newest
    · rw [all] at member
      exact absurd member List.not_mem_nil
  have built : 0 = t.built ↔ t.built = 0 := eq_comm
  simp only [all,List.length_nil,built] at counts
  exact ⟨counts.m_nFoundFiles,counts.m_nSkippedFiles,newest⟩

-- One file was found and one entry filtered; the header of the file is built and accepted.
def oneFile : List (CountStep Unit) :=
  [.count (),.build () [0x5C,0x61] 1,.accept 0 ⟨plainEnv,allSucceed,0,[],0,Session.new⟩]

theorem countersEndShort : ∃ t : Counting Unit,
    follow Counting.step oneFile (Counting.start 1 1 plainDialog emptyDisk) = some t ∧
    t.dialog.Counts (if t.built = 0 then 0 else 1) (if t.built = 0 then 0 else 1) t.built ∧
      Grows plainDialog t.dialog := by
  have start : follow Counting.step [] (Counting.start 1 1 plainDialog emptyDisk : Counting Unit) = some _ := rfl
  have taken : ∃ t : Counting Unit, follow Counting.step oneFile (Counting.start 1 1 plainDialog emptyDisk) = some t ∧
      t.counting = [] ∧ t.sent = [] ∧ t.built = 1 := ⟨_,rfl,rfl,rfl,rfl⟩
  obtain ⟨t,run,idle,all,built⟩ := taken
  exact ⟨t,run,countersEnd start run idle all (by decide) (by decide) (by rw [built]; decide)⟩

theorem filteredUntold : ∃ t : Counting Unit,
    follow Counting.step [] (Counting.start 0 1 plainDialog emptyDisk) = some t ∧ t.counting = [] ∧ t.sent = [] ∧
    ¬ t.dialog.Counts 0 1 t.built :=
  ⟨_,rfl,rfl,rfl,fun counts => absurd counts.m_nSkippedFiles (by decide)⟩

end JokeDse
