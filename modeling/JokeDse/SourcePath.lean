import JokeDse.Scan
import JokeDse.Transfer

/-! Where a file of the source tree is saved: AccessDirectory cuts the length of the source directory as
the user spelled it off the path, and GetFile joins the rest to m_strSavePath. -/
namespace JokeDse
open Framing

def Scan.Queues (P : FileInfo → Prop) (s : Scan) : Prop := ∀ file ∈ s.m_FileListtoSend, P file

section Queue
variable {w : Shell} {hEventStop : Nat → Bool} {P : FileInfo → Prop}

theorem queuesKept {m_nDirLength : Nat} {paths : List CString}
    (each : ∀ strFile ∈ paths, P (relativeFile m_nDirLength strFile)) :
    ScanKeeps hEventStop m_nDirLength paths (Scan.Queues P) where
  wait _ queues := queues
  findNextFile _ queues := queues
  filter _ queues := queues
  makeUpper _ _ queues := queues
  find s strFile member length queues := by
    intro f inQueue
    rcases List.mem_append.mp inQueue with earlier | last
    · exact queues f earlier
    · rw [List.mem_singleton.mp last]
      exact each strFile member

theorem findFilesQueues {szSourcePath szFilter strRoot : CString} {entries : Listing}
    (each : ∀ rel ∈ entries.files, P (relativeFile szSourcePath.length (getFilePath strRoot rel))) :
    (findFiles w hEventStop szSourcePath szFilter strRoot entries).state.Queues P := by
  apply findFilesKeeps
  · apply queuesKept
    intro strFile member
    obtain ⟨rel,inside,rfl⟩ := List.mem_map.mp member
    exact each rel inside
  · simp [Scan.Queues,Scan.new]

end Queue

theorem cutsRoot (strRoot rel : CString) (n : Nat) :
    (relativeFile n (getFilePath strRoot rel)).strDir = backslash :: rel ↔ n = strRoot.length := by
  have size : (getFilePath strRoot rel).length = strRoot.length + (rel.length + 1) := by simp [getFilePath]
  constructor
  · intro cut
    have length := congrArg List.length cut
    simp only [relativeFile,right,List.length_drop,List.length_cons] at length
    omega
  · rintro rfl
    have count : (((getFilePath strRoot rel).length : Int) - strRoot.length).toNat = rel.length + 1 := by omega
    simp only [relativeFile,right,count]
    rw [size,Nat.add_sub_cancel,getFilePath,List.drop_left]

section Saved
variable (w : Shell) (hEventStop : Nat → Bool) (szSourcePath szFilter strRoot : CString) (entries : Listing)
variable (ansiString : CString → Bytes) (env : Env)

theorem enteredFiles {ops : FileOps} {k : Nat} (pBuffer : Bytes) (o : Nat) (h : FilebufHeader) (name : Bytes)
    (c : Ctx) (opens : ops (.opened k) = true) :
    (entered env ops k pBuffer o h name c).disk.files = c.disk.files ++ [⟨c.destFile env name,[]⟩] := by
  simp only [entered,opens]
  rfl

theorem acceptSaves {file : FileInfo} (s : Surroundings) (m_nSendFiles : Uint) {ops : FileOps} {k o : Nat}
    {pBuffer : Bytes} (c : Ctx) (short : (sentName ansiString file).length < 1024)
    (there : (sentFrame ansiString s file m_nSendFiles).front <+: pBuffer.drop o)
    (opens : ops (.opened k) = true) :
    ∃ c', acceptHeader env ops k pBuffer o (sentHeader ansiString s file m_nSendFiles) c = .done () c' ∧
      c'.disk.files = c.disk.files ++ [⟨c.destFile env (sentName ansiString file),[]⟩] := by
  have read : (sentFrame ansiString s file m_nSendFiles).Read := sentRead s m_nSendFiles (Nat.lt_trans short (by decide))
  have length : (sentFrame ansiString s file m_nSendFiles).front.length =
      (sentHeader ansiString s file m_nSendFiles).headerSize := read.front
  have front := List.prefix_iff_eq_take.mp there
  rw [length] at front
  have name : fileName ⟨sentHeader ansiString s file m_nSendFiles,
      (pBuffer.drop o).take (sentHeader ansiString s file m_nSendFiles).headerSize,s.content⟩ =
      sentName ansiString file := by
    rw [← front]
    exact sentFrameName s file m_nSendFiles
  refine ⟨_,acceptEnters env ops k s.content (by rw [name]; exact short),?_⟩
  rw [name]
  exact enteredFiles env pBuffer o _ _ c opens

theorem savedBelow {file : FileInfo} (s : Surroundings) (m_nSendFiles : Uint) {ops : FileOps} {k o : Nat}
    {pBuffer : Bytes} (c : Ctx)
    (queued : file ∈ (findFiles w hEventStop szSourcePath szFilter strRoot entries).state.m_FileListtoSend)
    (back : env.unicodeString (sentName ansiString file) = file.strDir)
    (short : (sentName ansiString file).length < 1024)
    (there : (sentFrame ansiString s file m_nSendFiles).front <+: pBuffer.drop o)
    (opens : ops (.opened k) = true) :
    ∃ rel ∈ entries.files, file.strFile = getFilePath strRoot rel ∧
      ∃ c' path, acceptHeader env ops k pBuffer o (sentHeader ansiString s file m_nSendFiles) c = .done () c' ∧
        c'.disk.files = c.disk.files ++ [⟨path,[]⟩] ∧
        (path = getFilePath c.dialog.m_strSavePath rel ↔ szSourcePath.length = strRoot.length) := by
  have each : (findFiles w hEventStop szSourcePath szFilter strRoot entries).state.Queues fun f =>
      ∃ rel ∈ entries.files, f = relativeFile szSourcePath.length (getFilePath strRoot rel) :=
    findFilesQueues fun rel member => ⟨rel,member,rfl⟩
  obtain ⟨rel,member,same⟩ := each file queued
  obtain ⟨c',accepted,files⟩ := acceptSaves ansiString env s m_nSendFiles c short there opens
  have strFile : file.strFile = getFilePath strRoot rel := by
    rw [same]
    rfl
  refine ⟨rel,member,strFile,c',_,accepted,files,?_⟩
  rw [Rx.destFile,back,getFilePath,List.append_cancel_left_eq,same]
  exact cutsRoot strRoot rel szSourcePath.length

end Saved

def lastFile (m_nDirLength : Nat) : FileInfo := relativeFile m_nDirLength (getFilePath sourceDirectory (chars ['y']))

def lastFront (m_nDirLength : Nat) : Bytes := (sentFrame asciiString (undisturbed [1]) (lastFile m_nDirLength) 0).front

def lastAccepted (m_nDirLength : Nat) : Outcome Ctx Unit :=
  acceptHeader plainEnv allSucceed 0 (lastFront m_nDirLength) 0
    (sentHeader asciiString (undisturbed [1]) (lastFile m_nDirLength) 0) (Conn.new plainDialog emptyDisk).toCtx

theorem savedBelowShort : ∃ rel ∈ sourceTree.files, (lastFile 6).strFile = getFilePath sourceDirectory rel ∧
    ∃ c' path, lastAccepted 6 = .done () c' ∧ c'.disk.files = emptyDisk.files ++ [⟨path,[]⟩] ∧
      (path = getFilePath plainDialog.m_strSavePath rel ↔ sourceDirectory.length = sourceDirectory.length) :=
  savedBelow asciiShell (fun _ => false) sourceDirectory [] sourceDirectory sourceTree asciiString plainEnv
    (undisturbed [1]) 0 (Conn.new plainDialog emptyDisk).toCtx (by decide +kernel) (by decide +kernel)
    (by decide +kernel) List.prefix_rfl rfl

theorem slashLost : lastFile 7 ∈ (findFiles asciiShell (fun _ => false) (sourceDirectory ++ [backslash]) [] sourceDirectory
      sourceTree).state.m_FileListtoSend ∧
    (lastAccepted 7).state.disk.files.map SavedFile.strFileName = [plainDialog.m_strSavePath ++ chars ['y']] ∧
    plainDialog.m_strSavePath ++ chars ['y'] ≠ getFilePath plainDialog.m_strSavePath (chars ['y']) := by
  refine ⟨by decide +kernel,by decide +kernel,by decide +kernel⟩

end JokeDse
