import JokeDse.FileHeader
import JokeDse.MemMerge

/-! The receiving side of one connection: session::do_read, Parser, GetFile and CloseFile of
JokeDSEDlg.cpp with the dialog members they share. Names are converted and directories looked up by
Windows, so both come with the environment; every operation on FileSave may fail. -/
namespace JokeDse

structure FileItem where
  strSourceFile : CString
  strDestFile : CString
  nFileSize : Uint
  nRecved : Uint
  nStatus : Bool
  deriving DecidableEq, Repr

def FileItem.new (str1 str2 : CString) (nSize : Int) : FileItem := ⟨str1,str2,toUint nSize,0,false⟩

/-- What one `CFile::Open` has brought. A Disk is the record of the Opens in their order and not the file system, where
the same path opened again is the same file, emptied. -/
structure SavedFile where
  strFileName : CString
  content : Bytes
  deriving DecidableEq, Repr

structure Disk where
  files : List SavedFile
  dirTrees : List CString
  deriving DecidableEq, Repr

/-- Members of CJokeDSEDlg. A FileItemPtr is the position of its item in `items`, which keeps every
item ever made. -/
structure Dialog where
  m_strSavePath : CString
  m_nSavedFiles : Int
  m_nFoundFiles : Int
  m_nSkippedFiles : Int
  m_nDecrypedFiles : Int
  items : List FileItem
  m_vecFileTemp : List Nat
  deriving DecidableEq, Repr

structure Session where
  szFilePath : Bytes
  strFileName : CString
  nFileSize : Int
  nSavedLength : Int
  FileSave : Option Nat
  pFileItem : Option Nat
  deriving DecidableEq, Repr

structure Rx where
  session : Session
  dialog : Dialog
  disk : Disk
  deriving DecidableEq, Repr

/-- What the functions did, for the record: slices of pBuffer that were read, counts that Write was
given, moves of nOffset, what was stored in szFilePath, and which octets of the stream were used up as
header and name or as payload. -/
inductive Access where
  | slice (nOffset length nDataLength : Int)
  | write (nOffset nCount nDataLength : Int)
  | offset (before after nDataLength : Int)
  | name (size : Nat)
  | accepted (size : Nat)
  | saved (size : Nat)
  deriving DecidableEq, Repr

structure FileException where
  nWriteLine : Int
  nBlockSize : Int
  deriving DecidableEq, Repr

structure Ctx extends Rx where
  m_vecMessage : List FileException
  m_nExceptions : Int
  trace : List Access
  deriving DecidableEq, Repr

structure Env where
  unicodeString : Bytes → CString
  pathFileExists : Disk → CString → Bool

inductive FileOp where
  | midWrite
  | midClose
  | opened (k : Nat)
  | written (k : Nat)
  | closed (k : Nat)
  deriving DecidableEq, Repr

abbrev FileOps := FileOp → Bool

def allSucceed : FileOps := fun _ => true

@[simp] theorem allSucceedTrue (op : FileOp) : allSucceed op = true := rfl

/-! What the statements of the functions do to the members. -/

namespace Rx

def raiseCounters (h : FilebufHeader) (r : Rx) : Rx :=
  let raise (member : Int) (announced : Uint) : Int :=
    if uint member < announced.toNat then int announced.toNat else member
  {r with dialog := {r.dialog with
    m_nFoundFiles := raise r.dialog.m_nFoundFiles h.nFoundFiles
    m_nSkippedFiles := raise r.dialog.m_nSkippedFiles h.nFilterFiles
    m_nDecrypedFiles := raise r.dialog.m_nDecrypedFiles h.nDecryptFiles}}

def destFile (env : Env) (r : Rx) (name : Bytes) : CString := r.dialog.m_strSavePath ++ env.unicodeString name

/-- That no file operation fails includes CreateDirectoryTree, which does not end the process here. -/
def announce (env : Env) (h : FilebufHeader) (name : Bytes) (r : Rx) : Rx :=
  let nFileSize := int h.nFileSize.toNat
  let strFileName := r.destFile env name
  let strDir := left strFileName (reverseFind strFileName backslash)
  let item := FileItem.new (env.unicodeString name) strFileName nFileSize
  { session := {r.session with
      szFilePath := name
      nFileSize := nFileSize
      strFileName := strFileName
      pFileItem := some r.dialog.items.length}
    dialog := {r.dialog with
      items := r.dialog.items ++ [item]
      m_vecFileTemp := r.dialog.m_vecFileTemp ++ [r.dialog.items.length]}
    disk := {r.disk with
      dirTrees := if env.pathFileExists r.disk strDir then r.disk.dirTrees else r.disk.dirTrees ++ [strDir]} }

/-- `FileSave.Open(strFileName, modeCreate | modeWrite)`; its result is not looked at. -/
def openFile (succeeds : Bool) (r : Rx) : Rx :=
  if succeeds then
    {r with
      disk := {r.disk with files := r.disk.files ++ [⟨r.session.strFileName,[]⟩]}
      session := {r.session with FileSave := some r.disk.files.length}}
  else {r with session := {r.session with FileSave := none}}

def append (data : Bytes) (r : Rx) : Rx :=
  match r.session.FileSave with
  | none => r
  | some i => {r with disk := {r.disk with
      files := r.disk.files.modify i fun f => {f with content := f.content ++ data}}}

def setSaved (nSavedLength : Int) (r : Rx) : Rx :=
  {r with session := {r.session with nSavedLength := nSavedLength}}

def setItem (i : Nat) (change : FileItem → FileItem) (r : Rx) : Rx :=
  {r with dialog := {r.dialog with items := r.dialog.items.modify i change}}

def resetFile (r : Rx) : Rx :=
  {r with session := {r.session with nSavedLength := 0, nFileSize := 0, szFilePath := []}}

def releaseHandle (r : Rx) : Rx := {r with session := {r.session with FileSave := none}}

def countSaved (r : Rx) : Rx :=
  {r with dialog := {r.dialog with m_nSavedFiles := int (r.dialog.m_nSavedFiles + 1)}}

end Rx

namespace Ctx

def on (f : Rx → Rx) (c : Ctx) : Ctx := {c with toRx := f c.toRx}

def note (a : Access) (c : Ctx) : Ctx := {c with trace := a :: c.trace}

end Ctx

/-! The functions. acceptHeader and takePayload are the halves of GetFile's loop body before and behind
FileSave.Open; saveRest is the first branch of Parser, parserBody what stands inside its try. -/

def withItem (change : FileItem → FileItem) (c : Ctx) : Outcome Ctx Unit :=
  match c.session.pFileItem with
  | none => .stopped .accessViolation c
  | some i => .done () (c.on (Rx.setItem i change))

/-- `FileSave.Write(&pBuffer[nOffset], nToSave)`. The count is a UINT; zero returns at once. A file that
is not open makes it throw, and so does any failure, before anything is written. -/
def write (succeeds : Bool) (pBuffer : Bytes) (nOffset nToSave : Int) (c : Ctx) : Outcome Ctx Unit :=
  let nCount := uint nToSave
  let c := c.note (.write nOffset nCount pBuffer.length)
  if nCount = 0 then .done () c
  else if nOffset < 0 ∨ (pBuffer.length : Int) < nOffset + nCount then .stopped .accessViolation c
  else if c.session.FileSave.isSome && succeeds then
    .done () ((c.on (Rx.append ((pBuffer.drop nOffset.toNat).take nCount))).note (.saved nCount))
  else .thrown c

/-- `FileSave.Close()`. The handle is gone even when it throws; a file that is not open does not throw. -/
def close (succeeds : Bool) (c : Ctx) : Outcome Ctx Unit :=
  if c.session.FileSave.isSome && !succeeds then .thrown (c.on Rx.releaseHandle)
  else .done () (c.on Rx.releaseHandle)

def closeFile (succeeds : Bool) (c : Ctx) : Outcome Ctx Unit :=
  (close succeeds (c.on Rx.resetFile)).bind fun _ c =>
  withItem (fun item => {item with nStatus := true}) (c.on Rx.countSaved)

def acceptHeader (env : Env) (ops : FileOps) (k : Nat) (pBuffer : Bytes) (nOffset : Int)
    (pHeader : FilebufHeader) (c : Ctx) : Outcome Ctx Unit :=
  let c := c.on (Rx.raiseCounters pHeader)
  let nameAt := nOffset + sizeofFilebufHeader
  let c := c.note (.slice nameAt pHeader.nNameSize.toNat pBuffer.length)
  match strncpy_s 1024 (pBuffer.drop nameAt.toNat) pHeader.nNameSize.toNat with
  | none => .stopped .invalidParameter c
  | some szFilePath =>
    let c := (c.note (.name (szFilePath.length + 1))).note (.accepted pHeader.headerSize)
    .done () ((c.on (Rx.announce env pHeader szFilePath)).on (Rx.openFile (ops (.opened k))))

def takePayload (ops : FileOps) (k : Nat) (pBuffer : Bytes) (nOffset : Int) (pHeader : FilebufHeader)
    (c : Ctx) : Outcome Ctx Int :=
  let nDataLength : Int := pBuffer.length
  if pHeader.nFileSize ≠ 0 then
    let nDataSize := int (int (nDataLength - nOffset) - pHeader.headerSize)
    let nToSave := if nDataSize ≤ c.session.nFileSize then nDataSize else c.session.nFileSize
    (write (ops (.written k)) pBuffer (int (nOffset + pHeader.headerSize)) nToSave c).bind fun _ c =>
    (withItem (fun item => {item with nRecved := toUint nToSave}) (c.on (Rx.setSaved nToSave))).bind fun _ c =>
    let moved := int (nOffset + int (pHeader.headerSize + nToSave))
    let c := c.note (.offset nOffset moved nDataLength)
    if c.session.nSavedLength = c.session.nFileSize then
      (closeFile (ops (.closed k)) c).bind fun _ c => .done moved c
    else .done moved c
  else
    (closeFile (ops (.closed k)) c).bind fun _ c =>
    let moved := int (nOffset + pHeader.headerSize)
    .done moved (c.note (.offset nOffset moved nDataLength))

def getFileLoop (env : Env) (ops : FileOps) (pBuffer : Bytes) :
    (fuel k : Nat) → (nOffset : Int) → Ctx → Outcome Ctx Int
  | 0, _, _, c => .stopped .endless c
  | fuel + 1, k, nOffset, c =>
    let nDataLength : Int := pBuffer.length
    if sizeofFilebufHeader ≤ uint (nDataLength - nOffset) then
      let c := c.note (.slice nOffset sizeofFilebufHeader nDataLength)
      if nOffset < 0 ∨ nDataLength < nOffset + sizeofFilebufHeader then .stopped .accessViolation c
      else
        let pHeader := FilebufHeader.ofMemory ((pBuffer.drop nOffset.toNat).take sizeofFilebufHeader)
        if pHeader.checkPreFix && pHeader.checkCRC &&
            decide (int (pHeader.headerSize + nOffset) < nDataLength) then
          (acceptHeader env ops k pBuffer nOffset pHeader c).bind fun _ c =>
          (takePayload ops k pBuffer nOffset pHeader c).bind fun moved c =>
          getFileLoop env ops pBuffer fuel (k + 1) moved c
        else .done nOffset c
    else .done nOffset c

def getFile (env : Env) (ops : FileOps) (pBuffer : Bytes) (nOffset : Int) (c : Ctx) : Outcome Ctx Int :=
  getFileLoop env ops pBuffer (pBuffer.length + 1) 0 nOffset c

def saveRest (ops : FileOps) (pBuffer : Bytes) (c : Ctx) : Outcome Ctx Int :=
  let nDataLength : Int := pBuffer.length
  if c.session.nSavedLength < c.session.nFileSize then
    let nRemainedFileLen := int (c.session.nFileSize - c.session.nSavedLength)
    let nToSave := if nDataLength ≤ nRemainedFileLen then nDataLength else nRemainedFileLen
    (write (ops .midWrite) pBuffer 0 nToSave c).bind fun _ c =>
    let c := c.note (.offset 0 nToSave nDataLength)
    let nSavedLength := int (c.session.nSavedLength + nToSave)
    (withItem (fun item => {item with nRecved := toUint nSavedLength}) (c.on (Rx.setSaved nSavedLength))).bind
      fun _ c => .done nToSave c
  else .done 0 c

def parserBody (env : Env) (ops : FileOps) (pBuffer : Bytes) (c : Ctx) : Outcome Ctx Int :=
  if c.session.nFileSize ≠ 0 then
    (saveRest ops pBuffer c).bind fun nOffset c =>
    if c.session.nSavedLength = c.session.nFileSize then
      (closeFile (ops .midClose) c).bind fun _ c => getFile env ops pBuffer nOffset c
    else .done nOffset c
  else getFile env ops pBuffer 0 c

structure Conn extends Ctx where
  pBuffer : Buffer

def Buffer.discard (n : Nat) (b : Buffer) : Buffer where
  bytes := b.bytes.drop n
  size := b.size
  fits := by rw [List.length_drop]; exact Nat.le_trans (Nat.sub_le _ _) b.fits
  isInt := b.isInt

@[simp] theorem discardBytes (n : Nat) (b : Buffer) : (b.discard n).bytes = b.bytes.drop n := rfl

/-- `catch (CFileException *e)`. The other two handlers differ in their text only. -/
def caught (nFileSize nDataLength : Int) (c : Ctx) : Ctx :=
  let e : FileException := if nFileSize ≠ 0 then ⟨119,nDataLength⟩ else ⟨0,0⟩
  {c with m_vecMessage := c.m_vecMessage ++ [e], m_nExceptions := int (c.m_nExceptions + 1)}

def parser (env : Env) (ops : FileOps) (s : Conn) : Outcome Conn Unit :=
  let nDataLength : Int := s.pBuffer.bytes.length
  match parserBody env ops s.pBuffer.bytes s.toCtx with
  | .done nOffset c =>
    if nOffset < nDataLength then
      let c := c.note (.slice nOffset (nDataLength - nOffset) nDataLength)
      if nOffset < 0 then .stopped .accessViolation ⟨c,s.pBuffer⟩
      else .done () ⟨c,s.pBuffer.discard nOffset.toNat⟩
    else .done () ⟨c,s.pBuffer.discard s.pBuffer.bytes.length⟩
  | .thrown c => .done () ⟨caught s.session.nFileSize nDataLength c,s.pBuffer⟩
  | .stopped why c => .stopped why ⟨c,s.pBuffer⟩

/-- The completion handler of do_read. `operator new` does not return null, it throws. -/
def doRead (env : Env) (ops : FileOps) (data : Bytes) (s : Conn) : Outcome Conn Unit :=
  match memMerge (fun _ => true) s.pBuffer data with
  | .returned _ pBuffer => parser env ops {s with pBuffer}
  | .endless => .stopped .endless s
  | .overrun => .stopped .accessViolation s

def run (env : Env) : List (Bytes × FileOps) → Conn → Outcome Conn Unit
  | [], s => .done () s
  | (data,ops) :: rest, s => (doRead env ops data s).bind fun _ s => run env rest s

/-- A new session of a dialog. szFilePath is not initialised, but nothing reads it before it is set. -/
def Session.new : Session := ⟨[],[],0,0,none,none⟩

def Buffer.new : Buffer := ⟨[],131072,by decide,by decide⟩

def Conn.new (dialog : Dialog) (disk : Disk) : Conn :=
  ⟨⟨⟨Session.new,dialog,disk⟩,[],0,[]⟩,Buffer.new⟩

end JokeDse
