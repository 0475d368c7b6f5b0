import JokeDse.SendFile

/-! The search of JokeAssist.cpp: CheckFilter, AccessDirectory and the first half of FindFiles. A
directory is what CFileFind enumerates in it. Upper case and file extensions are Windows' own, so both
come with the environment. -/
namespace JokeDse

structure Shell where
  upper : WChar → WChar
  upperTwice : ∀ ch, upper (upper ch) = upper ch
  pathFindExtension : CString → CString

def Shell.makeUpper (w : Shell) (s : CString) : CString := s.map w.upper

def space : WChar := 0x20#16
def semicolon : WChar := 0x3B#16

def find (s sub : CString) : Int :=
  match (List.range (s.length + 1)).find? fun i => sub.isPrefixOf (s.drop i) with
  | some i => i
  | none => -1

def right (s : CString) (count : Int) : CString := s.drop (s.length - count.toNat)

def checkFilter (w : Shell) (m_strFilter strFile : CString) (bExt : Bool) : Bool :=
  let strFileupper := w.makeUpper strFile
  let strCompare :=
    if !bExt then
      let nPos := reverseFind strFileupper backslash
      if 0 ≤ nPos ∧ nPos ≠ strFileupper.length - 2 then right strFileupper nPos else []
    else w.pathFindExtension strFileupper
  if 0 < strCompare.length then
    let nPos := find m_strFilter strCompare
    if 0 ≤ nPos then
      let nPos := nPos.toNat + strCompare.length
      -- the character behind the last one reads as zero
      let behind := m_strFilter.getD nPos 0
      behind == space || behind == semicolon || m_strFilter.length == nPos
    else false
  else false

def rejects (w : Shell) (m_strFilter strFile : CString) : Bool :=
  let strTemp := w.makeUpper strFile
  checkFilter w m_strFilter strTemp true || checkFilter w m_strFilter strTemp false

/-- What CFileFind enumerates, in its order: an entry and the entries behind it. -/
inductive Listing where
  | last
  | dots (behind : Listing)
  | file (name : CString) (length : BitVec 64) (behind : Listing)
  | directory (name : CString) (entries behind : Listing)
  deriving DecidableEq, Repr

def Listing.more : Listing → Bool
  | last => false
  | _ => true

inductive ScanStep where
  | waited (signalled : Bool)
  | examined
  | queued (file : FileInfo)
  deriving DecidableEq, Repr

structure Scan where
  m_strFilter : CString
  m_nFoundFiles : Uint
  m_nFiltedFiles : Uint
  m_nTotalFileSize : BitVec 64
  m_FileListtoSend : List FileInfo
  waits : Nat
  trace : List ScanStep
  deriving DecidableEq, Repr

def relativeFile (m_nDirLength : Nat) (strFile : CString) : FileInfo :=
  let strReletivePath := right strFile (strFile.length - m_nDirLength)
  ⟨strReletivePath,strFile⟩

namespace Scan

def new (szFilter : CString) : Scan := ⟨szFilter,0,0,0,[],0,[]⟩

/-- `hEventStop` tells for every wait whether the event was set since the wait before it. The event is
auto-reset: a wait that reports it clears it. -/
def wait (hEventStop : Nat → Bool) (s : Scan) : Bool × Scan :=
  let signalled := hEventStop s.waits
  (signalled,{s with waits := s.waits + 1, trace := .waited signalled :: s.trace})

def findNextFile (s : Scan) : Scan := {s with trace := .examined :: s.trace}

def filter (s : Scan) : Scan := {s with m_nFiltedFiles := s.m_nFiltedFiles + 1}

def find (m_nDirLength : Nat) (strFile : CString) (length : BitVec 64) (s : Scan) : Scan :=
  let file := relativeFile m_nDirLength strFile
  {s with
    m_nFoundFiles := s.m_nFoundFiles + 1
    m_nTotalFileSize := s.m_nTotalFileSize + length
    m_FileListtoSend := s.m_FileListtoSend ++ [file]
    trace := .queued file :: s.trace}

end Scan

section Access
variable (w : Shell) (m_nDirLength : Nat) (hEventStop : Nat → Bool)

/-- AccessDirectory before its loop: what FindFile is given, without the pattern. `CString::GetAt` throws
behind the terminator. -/
def openDirectory (strDirectory : CString) (s : Scan) : Outcome Scan CString :=
  if strDirectory.length < m_nDirLength - 1 then .thrown s
  else
    let strDirectory :=
      if strDirectory[m_nDirLength - 1]? = some backslash then strDirectory.set (m_nDirLength - 1) backslash
      else strDirectory
    .done strDirectory {s with m_strFilter := w.makeUpper s.m_strFilter}

theorem setSame (s : CString) (i : Nat) (ch : WChar) : (if s[i]? = some ch then s.set i ch else s) = s := by
  split
  · rename_i there
    obtain ⟨inside,rfl⟩ := List.getElem?_eq_some_iff.mp there
    exact List.set_getElem_self inside
  · rfl

theorem openDirectoryEnds (strDirectory : CString) (s : Scan) : openDirectory w m_nDirLength strDirectory s =
    if strDirectory.length < m_nDirLength - 1 then .thrown s
    else .done strDirectory {s with m_strFilter := w.makeUpper s.m_strFilter} := by
  simp only [openDirectory,setSame]

def turn (bWorking : Bool) (s : Scan) (next : Scan → Outcome Scan Unit) : Outcome Scan Unit :=
  if bWorking then
    let (signalled,s) := s.wait hEventStop
    if signalled then .done () s else next s.findNextFile
  else .done () s

section Turn
variable {hEventStop} {s : Scan} (next : Scan → Outcome Scan Unit)

theorem turnSignalled (signalled : hEventStop s.waits = true) :
    turn hEventStop true s next = .done () (s.wait hEventStop).2 := by
  simp [turn,Scan.wait,signalled]

theorem turnGoes (silent : hEventStop s.waits = false) :
    turn hEventStop true s next = next (s.wait hEventStop).2.findNextFile := by
  simp [turn,Scan.wait,silent]

end Turn

def getFilePath (strRoot name : CString) : CString := strRoot ++ backslash :: name

/-- The loop of AccessDirectory. `strRoot` is the normalised full path of the directory; a path that
GetFilePath returned is its own normalised path. -/
def accessLoop : (strRoot : CString) → Listing → (bWorking : Bool) → Scan → Outcome Scan Unit
  | _, .last, _, s => .done () s
  | strRoot, .dots behind, bWorking, s =>
    turn hEventStop bWorking s fun s => accessLoop strRoot behind behind.more s
  | strRoot, .file name length behind, bWorking, s =>
    turn hEventStop bWorking s fun s =>
    let strFile := getFilePath strRoot name
    if rejects w s.m_strFilter strFile then accessLoop strRoot behind behind.more s.filter
    else accessLoop strRoot behind behind.more (s.find m_nDirLength strFile length)
  | strRoot, .directory name entries behind, bWorking, s =>
    turn hEventStop bWorking s fun s =>
    let strFile := getFilePath strRoot name
    if rejects w s.m_strFilter strFile then accessLoop strRoot behind behind.more s.filter
    else
      -- AccessDirectory(finder.GetFilePath())
      (openDirectory w m_nDirLength strFile s).bind fun strDirectory s =>
      (accessLoop strDirectory entries entries.more s).bind fun _ s =>
      accessLoop strRoot behind behind.more s

def accessDirectory (strDirectory strRoot : CString) (entries : Listing) (s : Scan) : Outcome Scan Unit :=
  (openDirectory w m_nDirLength strDirectory s).bind fun _ s =>
  accessLoop w m_nDirLength hEventStop strRoot entries entries.more s

end Access

def findFiles (w : Shell) (hEventStop : Nat → Bool) (szSourcePath szFilter strRoot : CString)
    (entries : Listing) : Outcome Scan Unit :=
  let m_nDirLength := szSourcePath.length
  let s := Scan.new szFilter
  if 0 < m_nDirLength then
    accessDirectory w m_nDirLength hEventStop szSourcePath strRoot entries s
  else .done () s

def Listing.files : Listing → List CString
  | .last => []
  | .dots behind => behind.files
  | .file name _ behind => name :: behind.files
  | .directory name entries behind => entries.files.map (getFilePath name) ++ behind.files

@[simp] theorem filePathAssoc (strRoot name rel : CString) :
    getFilePath (getFilePath strRoot name) rel = getFilePath strRoot (getFilePath name rel) := by
  simp [getFilePath]

structure ScanKeeps (hEventStop : Nat → Bool) (m_nDirLength : Nat) (paths : List CString) (I : Scan → Prop) : Prop where
  wait : ∀ s, I s → I (s.wait hEventStop).2
  findNextFile : ∀ s : Scan, I s → I s.findNextFile
  filter : ∀ s : Scan, I s → I s.filter
  makeUpper : ∀ s m_strFilter, I s → I {s with m_strFilter}
  find : ∀ s, ∀ strFile ∈ paths, ∀ length, I s → I (s.find m_nDirLength strFile length)

section Keeps
variable {w : Shell} {m_nDirLength : Nat} {hEventStop : Nat → Bool} {I : Scan → Prop}

theorem ScanKeeps.fewer {paths fewer : List CString} (keeps : ScanKeeps hEventStop m_nDirLength paths I)
    (subset : fewer ⊆ paths) : ScanKeeps hEventStop m_nDirLength fewer I :=
  {keeps with find := fun s strFile member => keeps.find s strFile (subset member)}

theorem turnKeeps {paths : List CString} (keeps : ScanKeeps hEventStop m_nDirLength paths I) {bWorking : Bool}
    {s : Scan} {next : Scan → Outcome Scan Unit} (holds : I s) (rest : ∀ s', I s' → I (next s').state) :
    I (turn hEventStop bWorking s next).state := by
  have waited := keeps.wait s holds
  cases bWorking with
  | false => exact holds
  | true =>
    cases signalled : hEventStop s.waits with
    | true =>
      rw [turnSignalled next signalled]
      exact waited
    | false =>
      rw [turnGoes next signalled]
      exact rest _ (keeps.findNextFile _ waited)

theorem accessLoopKeeps {strRoot : CString} {entries : Listing} {bWorking : Bool} {s : Scan}
    (keeps : ScanKeeps hEventStop m_nDirLength (entries.files.map (getFilePath strRoot)) I) (holds : I s) :
    I (accessLoop w m_nDirLength hEventStop strRoot entries bWorking s).state := by
  induction entries generalizing strRoot bWorking s with
  | last => exact holds
  | dots behind ih => exact turnKeeps keeps holds fun s' holds => ih keeps holds
  | file name length behind ih =>
    have rest := keeps.fewer (List.subset_cons_self _ _)
    refine turnKeeps keeps holds fun s' holds => ?_
    cases reject : rejects w s'.m_strFilter (getFilePath strRoot name) with
    | true =>
      simp only [reject,if_true]
      exact ih rest (keeps.filter _ holds)
    | false =>
      simp only [reject,Bool.false_eq_true,if_false]
      exact ih rest (keeps.find _ _ (List.mem_cons_self ..) _ holds)
  | directory name entries behind inner ih =>
    have within : ScanKeeps hEventStop m_nDirLength (entries.files.map (getFilePath (getFilePath strRoot name))) I := by
      apply keeps.fewer
      intro strFile member
      obtain ⟨rel,inside,rfl⟩ := List.mem_map.mp member
      rw [filePathAssoc]
      exact List.mem_map_of_mem (List.mem_append_left _ (List.mem_map_of_mem inside))
    have rest : ScanKeeps hEventStop m_nDirLength (behind.files.map (getFilePath strRoot)) I :=
      keeps.fewer (List.map_subset _ (List.subset_append_right _ _))
    refine turnKeeps keeps holds fun s' holds => ?_
    cases reject : rejects w s'.m_strFilter (getFilePath strRoot name) with
    | true =>
      simp only [reject,if_true]
      exact ih rest (keeps.filter _ holds)
    | false =>
      simp only [reject,Bool.false_eq_true,if_false,openDirectoryEnds]
      split
      · exact holds
      · rw [Outcome.bindDone]
        exact Outcome.bindKeeps (inner within (keeps.makeUpper _ _ holds)) fun _ s'' holds => ih rest holds

theorem findFilesKeeps {szSourcePath szFilter strRoot : CString} {entries : Listing}
    (keeps : ScanKeeps hEventStop szSourcePath.length (entries.files.map (getFilePath strRoot)) I)
    (holds : I (Scan.new szFilter)) :
    I (findFiles w hEventStop szSourcePath szFilter strRoot entries).state := by
  by_cases given : 0 < szSourcePath.length
  · simp only [findFiles,if_pos given,accessDirectory,openDirectoryEnds]
    split
    · exact holds
    · rw [Outcome.bindDone]
      exact accessLoopKeeps keeps (keeps.makeUpper _ _ holds)
  · simp only [findFiles,if_neg given]
    exact holds

end Keeps

def asciiUpper (ch : WChar) : WChar := if 0x61#16 ≤ ch ∧ ch ≤ 0x7A#16 then ch - 0x20#16 else ch

theorem asciiUpperTwice (ch : WChar) : asciiUpper (asciiUpper ch) = asciiUpper ch := by
  unfold asciiUpper
  split
  · rename_i small
    rw [if_neg]
    rintro ⟨low,-⟩
    simp only [BitVec.le_def,BitVec.toNat_sub,BitVec.toNat_ofNat] at small low
    omega
  · rfl

def extensionFrom (lastPoint : CString) : CString → CString
  | [] => lastPoint
  | ch :: rest =>
    if ch == backslash || ch == space then extensionFrom [] rest
    else extensionFrom (if ch == 0x2E#16 then ch :: rest else lastPoint) rest

def asciiShell : Shell := ⟨asciiUpper,asciiUpperTwice,extensionFrom []⟩

def sourceDirectory : CString := chars ['D',':','\\','s','r','c']

-- `D:\src` with the files `x.log` and `y` and, in the directory `a`, the file `b`.
def sourceTree : Listing :=
  .dots (.file (chars ['x','.','l','o','g']) 5 (.directory (chars ['a']) (.dots (.file (chars ['b']) 7 .last))
    (.file (chars ['y']) 9 .last)))

def logFilter : CString := chars ['.','l','o','g']

example : (findFiles asciiShell (fun _ => false) sourceDirectory logFilter sourceDirectory
    sourceTree).state.m_FileListtoSend.map FileInfo.strDir = [chars ['\\','a','\\','b'],chars ['\\','y']] := by decide +kernel

end JokeDse
