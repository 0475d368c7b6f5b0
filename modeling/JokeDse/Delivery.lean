import JokeDse.Session
import JokeDse.Lib.Framing

/-! What the stream says, and what a session makes of it. The frames of the stream are those of the
general frame format with FilebufHeader as its head; `delivered` and `filled` are the members and files
that a complete frame and a running one leave. While no file operation fails, Parser leaves exactly
these, for any stream and wherever the reads cut it. -/
namespace JokeDse
open Framing

def accepts (p : Bytes) : Option FilebufHeader :=
  let h := FilebufHeader.ofMemory (p.take sizeofFilebufHeader)
  if sizeofFilebufHeader ≤ p.length ∧ h.checkPreFix = true ∧ h.checkCRC = true ∧ h.headerSize < p.length then
    some h
  else none

theorem acceptsSome {p : Bytes} {h : FilebufHeader} (found : accepts p = some h) :
    sizeofFilebufHeader ≤ p.length ∧ h = FilebufHeader.ofMemory (p.take sizeofFilebufHeader) ∧
    h.checkPreFix = true ∧ h.checkCRC = true ∧ h.headerSize < p.length := by
  unfold accepts at found
  simp only at found
  split at found <;> try contradiction
  rename_i test
  cases Option.some.inj found
  exact ⟨test.1,rfl,test.2⟩

theorem acceptsNone {p : Bytes} (none : accepts p = none) (long : sizeofFilebufHeader ≤ p.length) :
    ¬ ((FilebufHeader.ofMemory (p.take sizeofFilebufHeader)).checkPreFix = true ∧
      (FilebufHeader.ofMemory (p.take sizeofFilebufHeader)).checkCRC = true ∧
      (FilebufHeader.ofMemory (p.take sizeofFilebufHeader)).headerSize < p.length) := by
  intro test
  rw [accepts,if_pos ⟨long,test⟩] at none
  contradiction

@[reducible]
def fileFormat : Format Byte where
  Head := FilebufHeader
  head := accepts
  headSize h := h.headerSize
  bodySize h := h.nFileSize.toNat
  spans h := Nat.lt_of_lt_of_le (by decide) h.headerSizeLow
  beyond found := (acceptsSome found).2.2.2.2
  settled := by
    intro p h found rest more
    obtain ⟨long,same,marks,sum,beyond⟩ := acceptsSome found
    have low := h.headerSizeLow
    have some : 0 < rest.length := List.length_pos_iff.mpr more
    have length : (p.take h.headerSize ++ rest).length = h.headerSize + rest.length := by
      rw [List.length_append,List.length_take_of_le (Nat.le_of_lt beyond)]
    have front : (p.take h.headerSize ++ rest).take sizeofFilebufHeader = p.take sizeofFilebufHeader := by
      rw [List.take_append_of_le_length (by rw [List.length_take_of_le (Nat.le_of_lt beyond)]; exact low),
        List.take_take,Nat.min_eq_left low]
    rw [accepts,front,← same]
    refine if_pos ⟨?_,marks,sum,?_⟩
    · rw [length]; exact Nat.le_trans low (Nat.le_add_right _ _)
    · rw [length]; omega

@[simp] theorem fileHead (p : Bytes) : fileFormat.head p = accepts p := rfl
@[simp] theorem fileHeadSize (h : FilebufHeader) : fileFormat.headSize h = h.headerSize := rfl
@[simp] theorem fileBodySize (h : FilebufHeader) : fileFormat.bodySize h = h.nFileSize.toNat := rfl

section Equations
variable {p : Bytes} {h : FilebufHeader}

theorem fileWaiting (none : accepts p = none) : decode fileFormat p = ⟨[],.none,p⟩ := decodeWaiting none

theorem fileRunning (found : accepts p = some h) (short : p.length < h.headerSize + h.nFileSize.toNat) :
    decode fileFormat p = ⟨[],some ⟨h,p.take h.headerSize,p.drop h.headerSize⟩,[]⟩ :=
  decodeRunning found short

theorem fileWhole (found : accepts p = some h) (enough : h.headerSize + h.nFileSize.toNat ≤ p.length) :
    decode fileFormat p = (decode fileFormat (p.drop (h.headerSize + h.nFileSize.toNat))).after
      [⟨h,p.take h.headerSize,(p.drop h.headerSize).take h.nFileSize.toNat⟩] :=
  decodeFrame found enough

end Equations

theorem fileInduction {motive : Bytes → Prop} (waiting : ∀ p, accepts p = none → motive p)
    (running : ∀ p (h : FilebufHeader), accepts p = some h →
      p.length < h.headerSize + h.nFileSize.toNat → motive p)
    (frame : ∀ p (h : FilebufHeader), accepts p = some h → h.headerSize + h.nFileSize.toNat ≤ p.length →
      motive (p.drop (h.headerSize + h.nFileSize.toNat)) → motive p) (p : Bytes) : motive p :=
  decodeInduction fileFormat waiting running frame p

def fileName (f : Frame fileFormat) : Bytes := cstr (f.front.drop sizeofFilebufHeader)

/-- What a session can take: the size is a non-negative int and the name fits szFilePath. -/
structure Admissible (f : Frame fileFormat) : Prop where
  size : f.head.nFileSize.toNat < 2147483648
  name : (fileName f).length < 1024

theorem admissibleEarlier {p q : Bytes} (all : ∀ f ∈ (decode fileFormat (p ++ q)).all, Admissible f) :
    ∀ f ∈ (decode fileFormat p).all, Admissible f := by
  obtain ⟨frames,running⟩ := decodeExtends (F := fileFormat) p q
  intro f member
  rcases List.mem_append.mp member with complete | current
  · exact all f (List.mem_append_left _ (frames.subset complete))
  · obtain ⟨more,rest,same,_⟩ := running f (Option.mem_toList.mp current)
    have later := all {f with body := f.body ++ more} (by rw [same]; simp)
    exact ⟨later.size,later.name⟩

theorem builtRead {h : FilebufHeader} (marks : h.checkPreFix = true) (sum : h.checkCRC = true) {name : Bytes}
    (size : name.length = h.nNameSize.toNat) (body : Bytes) :
    (Frame.mk (F := fileFormat) h (h.bytes ++ name) body).Read := by
  have front : (h.bytes ++ name).length = h.headerSize := by
    rw [List.length_append,FilebufHeader.bytesLength,size,FilebufHeader.headerSize]
  have low := h.headerSizeLow
  refine ⟨?_,front⟩
  intro rest more
  have some : 0 < rest.length := List.length_pos_iff.mpr more
  have length : (h.bytes ++ name ++ rest).length = h.headerSize + rest.length := by
    rw [List.length_append,front]
  have same : FilebufHeader.ofMemory ((h.bytes ++ name ++ rest).take sizeofFilebufHeader) = h := by
    rw [List.append_assoc,List.take_append_of_le_length (by rw [FilebufHeader.bytesLength]),
      ← FilebufHeader.bytesLength h,List.take_length]
    simpa using h.ofMemoryBytes []
  simp only [accepts,same]
  exact if_pos ⟨by omega,marks,sum,by omega⟩

def Declares (stream : Bytes) : Prop :=
  ∀ f ∈ (decode fileFormat stream).all, f.head.nFileSize.toNat < 2147483648 ∧ f.head.nNameSize.toNat < 1024

theorem fileNameLength {f : Frame fileFormat} (read : f.Read) : (fileName f).length ≤ f.head.nNameSize.toNat := by
  have front : f.front.length = f.head.headerSize := read.front
  have short := cstrLength (f.front.drop sizeofFilebufHeader)
  rw [List.length_drop,front,FilebufHeader.headerSize] at short
  exact Nat.le_trans short (by omega)

theorem Declares.admissible {stream : Bytes} (declared : Declares stream) :
    ∀ f ∈ (decode fileFormat stream).all, Admissible f := by
  intro f member
  have name := fileNameLength ((decodeSound (F := fileFormat) stream).read f member)
  have small := (declared f member).2
  exact ⟨(declared f member).1,by omega⟩

namespace Rx

def itemOf (env : Env) (f : Frame fileFormat) (r : Rx) (nStatus : Bool) : FileItem where
  strSourceFile := env.unicodeString (fileName f)
  strDestFile := r.destFile env (fileName f)
  nFileSize := f.head.nFileSize
  nRecved := BitVec.ofNat 32 f.body.length
  nStatus := nStatus

def withFile (env : Env) (f : Frame fileFormat) (nStatus : Bool) (r : Rx) : Rx :=
  let strDir := left (r.destFile env (fileName f)) (reverseFind (r.destFile env (fileName f)) backslash)
  { session := r.session
    dialog := {(r.raiseCounters f.head).dialog with
      items := r.dialog.items ++ [r.itemOf env f nStatus]
      m_vecFileTemp := r.dialog.m_vecFileTemp ++ [r.dialog.items.length]}
    disk :=
      { files := r.disk.files ++ [⟨r.destFile env (fileName f),f.body⟩]
        dirTrees := if env.pathFileExists r.disk strDir then r.disk.dirTrees else r.disk.dirTrees ++ [strDir] } }

def filled (env : Env) (r : Rx) (f : Frame fileFormat) : Rx :=
  {r.withFile env f false with session := {
    szFilePath := fileName f
    strFileName := r.destFile env (fileName f)
    nFileSize := f.head.nFileSize.toNat
    nSavedLength := f.body.length
    FileSave := some r.disk.files.length
    pFileItem := some r.dialog.items.length}}

def delivered (env : Env) (r : Rx) (f : Frame fileFormat) : Rx :=
  countSaved {r.withFile env f true with session := {
    szFilePath := []
    strFileName := r.destFile env (fileName f)
    nFileSize := 0
    nSavedLength := 0
    FileSave := none
    pFileItem := some r.dialog.items.length}}

def settled (env : Env) (r : Rx) (f : Frame fileFormat) : Rx :=
  if f.body.length = f.head.nFileSize.toNat then r.delivered env f else r.filled env f

structure Idle (r : Rx) : Prop where
  nFileSize : r.session.nFileSize = 0
  nSavedLength : r.session.nSavedLength = 0
  FileSave : r.session.FileSave = none

def start (dialog : Dialog) (disk : Disk) : Rx := ⟨Session.new,dialog,disk⟩

theorem startIdle (dialog : Dialog) (disk : Disk) : (start dialog disk).Idle := ⟨rfl,rfl,rfl⟩

theorem deliveredIdle (env : Env) (r : Rx) (f : Frame fileFormat) : (r.delivered env f).Idle := ⟨rfl,rfl,rfl⟩

def image (env : Env) (r : Rx) (s : Reception fileFormat) : Rx :=
  match s.current with
  | none => s.frames.foldl (delivered env) r
  | some f => (s.frames.foldl (delivered env) r).filled env f

@[simp] theorem appendSession (data : Bytes) (r : Rx) : (r.append data).session = r.session := by
  unfold append
  split <;> rfl

section Filled
variable (env : Env) (r : Rx) (f : Frame fileFormat)

@[simp] theorem filledSize : (r.filled env f).session.nFileSize = f.head.nFileSize.toNat := rfl
@[simp] theorem filledSaved : (r.filled env f).session.nSavedLength = f.body.length := rfl
@[simp] theorem filledFile : (r.filled env f).session.FileSave = some r.disk.files.length := rfl
@[simp] theorem filledItem : (r.filled env f).session.pFileItem = some r.dialog.items.length := rfl

end Filled

theorem imageIdle {env : Env} {r : Rx} {s : Reception fileFormat} (current : s.current = none) :
    r.image env s = s.frames.foldl (delivered env) r := by
  rw [image,current]

theorem imageFilled {env : Env} {r : Rx} {s : Reception fileFormat} {f : Frame fileFormat}
    (current : s.current = some f) : r.image env s = (s.frames.foldl (delivered env) r).filled env f := by
  rw [image,current]

theorem imageAfter (env : Env) (r : Rx) (done : List (Frame fileFormat)) (s : Reception fileFormat) :
    r.image env (s.after done) = (done.foldl (delivered env) r).image env s := by
  cases current : s.current <;> simp [image,current]

theorem foldlIdle (env : Env) {r : Rx} (idle : r.Idle) (fs : List (Frame fileFormat)) :
    (fs.foldl (delivered env) r).Idle := by
  induction fs generalizing r with
  | nil => exact idle
  | cons f fs ih => exact ih (deliveredIdle env r f)

def fileOf (env : Env) (r : Rx) (f : Frame fileFormat) : SavedFile := ⟨r.destFile env (fileName f),f.body⟩

section Fold
variable (env : Env) (r : Rx) (fs : List (Frame fileFormat))

theorem foldlDelivered : (fs.foldl (delivered env) r).disk.files = r.disk.files ++ fs.map (r.fileOf env) ∧
    (fs.foldl (delivered env) r).dialog.items = r.dialog.items ++ fs.map (fun f => r.itemOf env f true) ∧
    (fs.foldl (delivered env) r).dialog.m_strSavePath = r.dialog.m_strSavePath := by
  induction fs generalizing r with
  | nil => simp
  | cons f fs ih =>
    obtain ⟨files,items,path⟩ := ih (r.delivered env f)
    have file : (r.delivered env f).fileOf env = r.fileOf env := rfl
    have item : (fun g => (r.delivered env f).itemOf env g true) = fun g => r.itemOf env g true := rfl
    rw [List.foldl_cons,files,items,path,file,item]
    refine ⟨?_,?_,rfl⟩
    · simp [delivered,withFile,countSaved,fileOf]
    · simp [delivered,withFile,countSaved]

end Fold

theorem imageFiles (env : Env) (r : Rx) (s : Reception fileFormat) :
    (r.image env s).disk.files = r.disk.files ++ s.all.map (r.fileOf env) := by
  obtain ⟨files,_,path⟩ := foldlDelivered env r s.frames
  cases current : s.current with
  | none => simp [image,Reception.all,current,files]
  | some f => simp [image,Reception.all,current,filled,withFile,files,fileOf,destFile,path]

theorem imageItems (env : Env) (r : Rx) (s : Reception fileFormat) :
    (r.image env s).dialog.items = r.dialog.items ++ s.frames.map (fun f => r.itemOf env f true) ++
      s.current.toList.map (fun f => r.itemOf env f false) := by
  obtain ⟨_,items,path⟩ := foldlDelivered env r s.frames
  cases current : s.current with
  | none => simp [image,current,items]
  | some f => simp [image,current,filled,withFile,items,itemOf,destFile,path]

end Rx

/-! The statements of the functions while they succeed. -/

theorem modifyLast {β : Type} (xs : List β) (x : β) (change : β → β) :
    (xs ++ [x]).modify xs.length change = xs ++ [change x] := by
  induction xs with
  | nil => rfl
  | cons y xs ih => simp [ih]

def Access.taken : Access → Nat
  | .accepted size => size
  | .saved size => size
  | _ => 0

def Ctx.taken (c : Ctx) : Nat := (c.trace.map Access.taken).sum

@[simp] theorem noteRx (a : Access) (c : Ctx) : (c.note a).toRx = c.toRx := rfl
@[simp] theorem onRx (f : Rx → Rx) (c : Ctx) : (c.on f).toRx = f c.toRx := rfl
@[simp] theorem noteTrace (a : Access) (c : Ctx) : (c.note a).trace = a :: c.trace := rfl
@[simp] theorem noteTaken (a : Access) (c : Ctx) : (c.note a).taken = a.taken + c.taken := by
  simp [Ctx.taken]
theorem noteNothing {a : Access} (c : Ctx) (nothing : a.taken = 0) : (c.note a).taken = c.taken := by
  rw [noteTaken,nothing,Nat.zero_add]
@[simp] theorem onTaken (f : Rx → Rx) (c : Ctx) : (c.on f).taken = c.taken := rfl

def Leaves {α : Type} (outcome : Outcome Ctx α) (value : α) (c : Ctx) (r : Rx) (n : Nat) : Prop :=
  ∃ c', outcome = .done value c' ∧ c'.toRx = r ∧ c'.taken = c.taken + n

theorem Leaves.bind {α β : Type} {outcome : Outcome Ctx α} {value : α} {c : Ctx} {r r' : Rx} {n m : Nat}
    {next : α → Ctx → Outcome Ctx β} {result : β} (first : Leaves outcome value c r n)
    (second : ∀ c', c'.toRx = r → Leaves (next value c') result c' r' m) :
    Leaves (outcome.bind next) result c r' (n + m) := by
  obtain ⟨c₁,done₁,rx₁,taken₁⟩ := first
  obtain ⟨c₂,done₂,rx₂,taken₂⟩ := second c₁ rx₁
  exact ⟨c₂,by rw [done₁]; exact done₂,rx₂,by omega⟩

theorem Leaves.noted {α : Type} {outcome : Outcome Ctx α} {value : α} {c : Ctx} {r : Rx} {n : Nat} {a : Access}
    (leaves : Leaves outcome value (c.note a) r n) (nothing : a.taken = 0) : Leaves outcome value c r n := by
  obtain ⟨c',done,rx,taken⟩ := leaves
  exact ⟨c',done,rx,by rw [taken,noteNothing c nothing]⟩

theorem Leaves.done {α : Type} (value : α) (c : Ctx) : Leaves (.done value c) value c c.toRx 0 :=
  ⟨c,rfl,rfl,rfl⟩

theorem appendNil (r : Rx) : r.append [] = r := by
  unfold Rx.append
  cases handle : r.session.FileSave with
  | none => rfl
  | some i =>
    have same : r.disk.files.modify i (fun f => {f with content := f.content ++ []}) = r.disk.files := by
      simp only [List.append_nil]
      exact List.modify_id _ _
    simp only [same]

theorem writeLeaves {pBuffer : Bytes} {o n : Nat} {c : Ctx} (inside : o + n ≤ pBuffer.length)
    (small : pBuffer.length ≤ 1073741824) (handle : c.session.FileSave.isSome = true) :
    Leaves (write true pBuffer o n c) () c (c.toRx.append ((pBuffer.drop o).take n)) n := by
  have count : uint (n : Int) = n := MachineInt.unsignedNat (by omega)
  let c₁ := c.note (.write o (n : Nat) pBuffer.length)
  by_cases none : n = 0
  · have done : write true pBuffer o n c = .done () c₁ := by
      simp only [write,count]
      rw [if_pos none]
    exact ⟨c₁,done,by simp [c₁,none,appendNil],by simp [c₁,none,Access.taken]⟩
  · let c₂ := (c₁.on (Rx.append ((pBuffer.drop o).take n))).note (.saved n)
    have done : write true pBuffer o n c = .done () c₂ := by
      simp only [write,count,noteRx]
      rw [if_neg none,if_neg (by omega),if_pos (by simpa using handle)]
      rfl
    exact ⟨c₂,done,by simp [c₁,c₂],by simp [c₁,c₂,Access.taken,Nat.add_comm]⟩

theorem withItemLeaves {c : Ctx} {i : Nat} (item : c.session.pFileItem = some i)
    (change : FileItem → FileItem) :
    Leaves (withItem change c) () c (c.toRx.setItem i change) 0 := by
  have done : withItem change c = .done () (c.on (Rx.setItem i change)) := by simp only [withItem,item]
  exact ⟨c.on (Rx.setItem i change),done,rfl,rfl⟩

theorem filledMore (env : Env) (r : Rx) (f : Frame fileFormat) (more : Bytes) :
    (((r.filled env f).append more).setSaved ((f.body ++ more).length : Nat)).setItem r.dialog.items.length
      (fun item => {item with nRecved := toUint ((f.body ++ more).length : Nat)}) =
    r.filled env {f with body := f.body ++ more} := by
  have file : (r.disk.files ++ [SavedFile.mk (r.destFile env (fileName f)) f.body]).modify r.disk.files.length
      (fun file => {file with content := file.content ++ more}) =
      r.disk.files ++ [SavedFile.mk (r.destFile env (fileName f)) (f.body ++ more)] := modifyLast _ _ _
  have item : (r.dialog.items ++ [r.itemOf env f false]).modify r.dialog.items.length
      (fun item => {item with nRecved := toUint ((f.body ++ more).length : Nat)}) =
      r.dialog.items ++ [r.itemOf env {f with body := f.body ++ more} false] := by
    rw [modifyLast,toUintNat]
    rfl
  simp only [Rx.filled,Rx.withFile,Rx.append,Rx.setSaved,Rx.setItem,file,item]
  rfl

theorem closeSucceeds (c : Ctx) : close true c = .done () (c.on Rx.releaseHandle) := by simp [close]

theorem closeLeaves {env : Env} {r : Rx} {f : Frame fileFormat} {c : Ctx} (rx : c.toRx = r.filled env f) :
    Leaves (closeFile true c) () c (r.delivered env f) 0 := by
  have item : (((c.on Rx.resetFile).on Rx.releaseHandle).on Rx.countSaved).session.pFileItem =
      some r.dialog.items.length := by
    simp only [onRx,rx]
    rfl
  simp only [closeFile,closeSucceeds,Outcome.bindDone]
  obtain ⟨c',done,left,taken⟩ := withItemLeaves item (fun item => {item with nStatus := true})
  refine ⟨c',done,?_,by simpa using taken⟩
  have status : (r.dialog.items ++ [r.itemOf env f false]).modify r.dialog.items.length
      (fun item => {item with nStatus := true}) = r.dialog.items ++ [r.itemOf env f true] := modifyLast _ _ _
  rw [left]
  simp only [onRx,rx,Rx.filled,Rx.withFile,Rx.resetFile,Rx.releaseHandle,Rx.countSaved,Rx.setItem,status,
    Rx.delivered]

end JokeDse
