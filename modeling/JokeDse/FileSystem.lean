import JokeDse.Apart
import JokeDse.Lib.Versions

/-! The files behind the record of the Opens. CFile::modeCreate empties the file that the path names, and
without a share mode nobody else can open that file before it is closed. -/
namespace JokeDse
open Runs Versions

inductive FileCall where
  | opened (strFileName : CString)
  | written (strFileName : CString) (data : Bytes)
  deriving DecidableEq, Repr

def FileCall.created : FileCall → Option CString
  | .opened strFileName => some strFileName
  | .written .. => none

-- The call that stands between two records: an Open adds an entry, a Write makes one longer.
def fileCall : List SavedFile → List SavedFile → Option FileCall
  | [],[] => none
  | [],f :: _ => some (.opened f.strFileName)
  | _ :: _,[] => none
  | f :: files,f' :: files' =>
    if f = f' then fileCall files files' else some (.written f.strFileName (f'.content.drop f.content.length))

section Calls
variable {files : List SavedFile}

theorem callNone (files : List SavedFile) : fileCall files files = none := by
  induction files with
  | nil => rfl
  | cons f files ih => simp only [fileCall,if_true,ih]

theorem callOpened (files : List SavedFile) (strFileName : CString) :
    fileCall files (files ++ [⟨strFileName,[]⟩]) = some (.opened strFileName) := by
  induction files with
  | nil => rfl
  | cons f files ih => simp only [List.cons_append,fileCall,if_true,ih]

def SavedFile.longer (data : Bytes) (f : SavedFile) : SavedFile := {f with content := f.content ++ data}

theorem callWritten {n : Nat} {f : SavedFile} (there : files[n]? = some f) {data : Bytes} (some' : data ≠ []) :
    fileCall files (files.modify n (SavedFile.longer data)) = some (.written f.strFileName data) := by
  induction files generalizing n with
  | nil => cases there
  | cons g files ih =>
    cases n with
    | zero =>
      cases there
      have changed : ¬ f = f.longer data := by
        intro same
        have lengths := congrArg (fun f => f.content.length) same
        simp only [SavedFile.longer,List.length_append] at lengths
        exact some' (List.length_eq_zero_iff.mp (by omega))
      rw [List.modify_zero_cons,fileCall,if_neg changed,SavedFile.longer,List.drop_left]
    | succ n =>
      simp only [List.modify_succ_cons,fileCall,if_true]
      exact ih there

end Calls

section FileSystem
variable {κ : Type} [DecidableEq κ]

/-- `file` tells which file a path names. -/
def FileCall.on (file : CString → κ) : FileCall → (κ → Option Bytes) → κ → Option Bytes
  | .opened strFileName,now => Function.update now (file strFileName) (some [])
  | .written strFileName data,now =>
    Function.update now (file strFileName) ((now (file strFileName)).map fun content => content ++ data)

structure Stored (κ : Type) where
  server : Server
  now : κ → Option Bytes

def Stored.step (env : Env) (file : CString → κ) (x : Stored κ) (a : ServerStep) : Option (Stored κ) :=
  (x.server.step env a).map fun t =>
    ⟨t,((fileCall x.server.disk.files t.disk.files).elim id (FileCall.on file)) x.now⟩

/-- An Open succeeds only for a file that no session which still reads has open. -/
def OpensAlone (env : Env) (file : CString → κ) (x : Stored κ) (a : ServerStep) : Prop :=
  ∀ t ∈ x.server.step env a, ∀ strFileName ∈ (fileCall x.server.disk.files t.disk.files).bind FileCall.created,
    ∀ part ∈ x.server.sessions, part.reading = true →
      ∀ f ∈ part.session.FileSave.bind fun n => x.server.disk.files[n]?, file f.strFileName ≠ file strFileName

instance (env : Env) (file : CString → κ) (x : Stored κ) (a : ServerStep) : Decidable (OpensAlone env file x a) :=
  inferInstanceAs (Decidable (∀ _ ∈ _, _))

end FileSystem

/-! What a step of a read handler does to the files and to the handle of its session. -/

inductive Touched (r r' : Rx) : Prop where
  | still (files : r'.disk.files = r.disk.files)
    (FileSave : r'.session.FileSave = r.session.FileSave ∨ r'.session.FileSave = none)
  | opened {strFileName : CString} (files : r'.disk.files = r.disk.files ++ [⟨strFileName,[]⟩])
    (FileSave : r'.session.FileSave = some r.disk.files.length)
  | written {n : Nat} {data : Bytes} (handle : r.session.FileSave = some n)
    (files : r'.disk.files = r.disk.files.modify n (SavedFile.longer data)) (FileSave : r'.session.FileSave = some n)

structure FilesStill (r r' : Rx) : Prop where
  files : r'.disk.files = r.disk.files
  FileSave : r'.session.FileSave = r.session.FileSave

section Touched
variable {env : Env} {ops : FileOps} {pBuffer : Bytes} {c : Ctx}

theorem FilesStill.touched {r r' : Rx} (still : FilesStill r r') : Touched r r' :=
  .still still.files (.inl still.FileSave)

theorem Touched.before {r r' r'' : Rx} (first : FilesStill r r') (next : Touched r' r'') : Touched r r'' := by
  cases next with
  | still files FileSave => exact .still (files.trans first.files) (by rwa [first.FileSave] at FileSave)
  | opened files FileSave =>
    rw [first.files] at files FileSave
    exact .opened files FileSave
  | written handle files FileSave =>
    rw [first.files] at files
    exact .written (first.FileSave.symm.trans handle) files FileSave

theorem Touched.after {r r' r'' : Rx} (first : Touched r r') (next : FilesStill r' r'') : Touched r r'' := by
  cases first with
  | still files FileSave => exact .still (next.files.trans files) (by rwa [next.FileSave])
  | opened files FileSave => exact .opened (next.files.trans files) (next.FileSave.trans FileSave)
  | written handle files FileSave => exact .written handle (next.files.trans files) (next.FileSave.trans FileSave)

theorem FilesStill.trans {r r' r'' : Rx} (first : FilesStill r r') (next : FilesStill r' r'') : FilesStill r r'' :=
  ⟨next.files.trans first.files,next.FileSave.trans first.FileSave⟩

theorem doneStill {r : Rx} {α β : Type} {o : Outcome Ctx α} {next : α → Ctx → Outcome Ctx β}
    (first : FilesStill r o.state.toRx) (rest : ∀ a c, FilesStill c.toRx (next a c).state.toRx) :
    FilesStill r (o.bind next).state.toRx :=
  Outcome.bindKeeps (I := fun c => FilesStill r c.toRx) first fun a c still => still.trans (rest a c)

theorem touchedBind {r : Rx} {α β : Type} {o : Outcome Ctx α} {next : α → Ctx → Outcome Ctx β}
    (first : Touched r o.state.toRx) (rest : ∀ a c, FilesStill c.toRx (next a c).state.toRx) :
    Touched r (o.bind next).state.toRx :=
  Outcome.bindKeeps (I := fun c => Touched r c.toRx) first fun a c touched => touched.after (rest a c)

theorem noteStill (a : Access) (c : Ctx) : FilesStill c.toRx (c.note a).toRx := ⟨rfl,rfl⟩

theorem itemStill (change : FileItem → FileItem) (c : Ctx) : FilesStill c.toRx (withItem change c).state.toRx := by
  unfold withItem
  split <;> exact ⟨rfl,rfl⟩

theorem savedStill (nSavedLength : Int) (change : FileItem → FileItem) (c : Ctx) :
    FilesStill c.toRx (withItem change (c.on (Rx.setSaved nSavedLength))).state.toRx := by
  have item := itemStill change (c.on (Rx.setSaved nSavedLength))
  exact ⟨item.files,item.FileSave⟩

theorem touchedWrite (succeeds : Bool) (nOffset nToSave : Int) (c : Ctx) :
    Touched c.toRx (write succeeds pBuffer nOffset nToSave c).state.toRx := by
  unfold write
  simp only
  split
  · exact .still rfl (.inl rfl)
  · split
    · exact .still rfl (.inl rfl)
    · split
      · simp only [Outcome.state,Ctx.on,Ctx.note,Rx.append]
        split
        · exact .still rfl (.inl rfl)
        · rename_i n handle
          exact .written handle rfl handle
      · exact .still rfl (.inl rfl)

theorem touchedRest (c : Ctx) : Touched c.toRx (saveRest ops pBuffer c).state.toRx := by
  unfold saveRest
  simp only
  split
  · refine touchedBind (touchedWrite _ _ _ c) fun _ c => doneStill ?_ fun _ _ => ⟨rfl,rfl⟩
    exact (noteStill _ c).trans (savedStill _ _ _)
  · exact .still rfl (.inl rfl)

theorem touchedPayload (k : Nat) (nOffset : Int) (pHeader : FilebufHeader) (c : Ctx) :
    Touched c.toRx (payloadPart ops k pBuffer nOffset pHeader c).state.toRx :=
  touchedBind (touchedWrite _ _ _ c) fun _ c => doneStill (savedStill _ _ c) fun _ _ => ⟨rfl,rfl⟩

theorem touchedAccept (k : Nat) (nOffset : Int) (pHeader : FilebufHeader) (c : Ctx) :
    Touched c.toRx (acceptHeader env ops k pBuffer nOffset pHeader c).state.toRx := by
  unfold acceptHeader
  simp only
  split
  · exact .still rfl (.inl rfl)
  · simp only [Outcome.state,Ctx.on,Rx.openFile]
    split
    · exact .opened rfl rfl
    · exact .still rfl (.inr rfl)

theorem touchedClose (succeeds : Bool) (c : Ctx) :
    Touched c.toRx (close succeeds (c.on Rx.resetFile)).state.toRx := by
  unfold close
  split <;> exact .still rfl (.inr rfl)

theorem touchedGo (place : Place) (c : Ctx) : Touched c.toRx (go env ops pBuffer place c).state.toRx := by
  cases place with
  | parser =>
    simp only [go]
    split
    · exact touchedBind (touchedRest c) fun _ _ => ⟨rfl,rfl⟩
    · exact .still rfl (.inl rfl)
  | round k nOffset =>
    simp only [go]
    split
    · split
      · exact .still rfl (.inl rfl)
      · split
        · exact touchedBind (.before (noteStill _ c) (touchedAccept k nOffset _ _)) fun _ _ => ⟨rfl,rfl⟩
        · exact .still rfl (.inl rfl)
    · exact .still rfl (.inl rfl)
  | payload k nOffset pHeader =>
    by_cases size : pHeader.nFileSize ≠ 0
    · rw [goPayload size]
      exact touchedBind (touchedPayload k nOffset pHeader c) fun _ _ => ⟨rfl,rfl⟩
    · simp only [go,if_neg size]
      exact .still rfl (.inl rfl)
  | close call => exact touchedBind (touchedClose _ c) fun _ _ => ⟨rfl,rfl⟩
  | count call saved => exact .still rfl (.inl rfl)
  | mark call =>
    simp only [go]
    refine touchedBind (itemStill _ c).touched fun _ c => ?_
    simp only [Outcome.state]
    rw [afterSame]
    exact ⟨rfl,rfl⟩
  | leave nOffset => exact .still rfl (.inl rfl)

end Touched

/-! The files in a run of the dialog. -/

structure Turned (s t : Server) (i : Nat) (part : Part) (session : Session) : Prop where
  before : s.busy = some i
  after : t.busy = some i
  there : s.sessions[i]? = some part
  sessions : ∃ pBuffer, t.sessions = s.sessions.set i ⟨session,pBuffer,part.reading⟩
  touched : Touched ⟨part.session,s.dialog,s.disk⟩ ⟨session,t.dialog,t.disk⟩

section Steps
variable {env : Env} {s t : Server}

theorem goTurned (taken : s.step env .go = some t) : ∃ i part session, Turned s t i part session := by
  simp only [Server.step] at taken
  split at taken
  · rename_i i ops ec nFileSize place handler
    obtain ⟨part,there,taken⟩ := Option.bind_eq_some_iff.mp taken
    have busy : s.busy = some i := by simp only [Server.busy,handler]
    cases left : place.left with
    | true =>
      cases place with
      | leave nOffset =>
        simp only [Server.parse] at taken
        split at taken
        · rename_i c done
          cases taken
          have same := compactStill done
          refine ⟨i,part,c.session,busy,rfl,there,⟨c.pBuffer,rfl⟩,?_⟩
          simp only [Server.put]
          rw [same]
          exact .still rfl (.inl rfl)
        · cases taken
      | _ => cases left
    | false =>
      rw [parseGoes left] at taken
      have touched : Touched (s.ctx part.session).toRx
        (go env ops part.pBuffer.bytes place (s.ctx part.session)).state.toRx := touchedGo place _
      generalize go env ops part.pBuffer.bytes place (s.ctx part.session) = o at taken touched
      cases o with
      | done next c =>
        cases taken
        exact ⟨i,part,c.session,busy,rfl,there,⟨part.pBuffer,rfl⟩,touched⟩
      | thrown c =>
        cases taken
        exact ⟨i,part,c.session,busy,rfl,there,⟨part.pBuffer,rfl⟩,touched⟩
      | stopped why c => cases taken
  · cases taken

theorem Turned.busy {i : Nat} {part : Part} {session : Session} (turned : Turned s t i part session)
    (reading : part.reading = true) : ∀ j part', t.busy = some j → t.sessions[j]? = some part' → part'.reading = true := by
  intro j part' here there
  obtain ⟨pBuffer,sessions⟩ := turned.sessions
  cases turned.after.symm.trans here
  rw [sessions,List.getElem?_set_self (List.getElem?_eq_some_iff.mp turned.there).1] at there
  cases there
  exact reading

-- Every session but this one has the handle that it had.
theorem Turned.held {i : Nat} {part : Part} {session : Session} (turned : Turned s t i part session) {P : Nat → Prop}
    (own : ∀ n, session.FileSave = some n → P n)
    (others : ∀ part' ∈ s.sessions, part'.reading = true → ∀ n, part'.session.FileSave = some n → P n) :
    ∀ part' ∈ t.sessions, part'.reading = true → ∀ n, part'.session.FileSave = some n → P n := by
  intro part' there reading n handle
  obtain ⟨pBuffer,sessions⟩ := turned.sessions
  rw [sessions] at there
  rcases List.mem_or_eq_of_mem_set there with old | rfl
  · exact others part' old reading n handle
  · exact own n handle

structure Handles (s t : Server) : Prop where
  files : t.disk.files = s.disk.files
  held : ∀ part ∈ t.sessions, part.reading = true → part.session.FileSave = none ∨
    ∃ old ∈ s.sessions, old.reading = true ∧ old.session.FileSave = part.session.FileSave
  busy : ∀ i part, t.busy = some i → t.sessions[i]? = some part → part.reading = true

theorem handlesSame (sessions : t.sessions = s.sessions) (files : t.disk.files = s.disk.files)
    (busy : t.busy = none ∨ t.busy = s.busy)
    (reading : ∀ i part, s.busy = some i → s.sessions[i]? = some part → part.reading = true) : Handles s t where
  files := files
  held part member reading := .inr ⟨part,by rwa [← sessions],reading,rfl⟩
  busy i part here there := by
    rw [sessions] at there
    rcases busy with free | same
    · rw [free] at here
      cases here
    · exact reading i part (same.symm.trans here) there

theorem stepHandles {a : ServerStep} (taken : s.step env a = some t) (other : a ≠ .go)
    (reading : ∀ i part, s.busy = some i → s.sessions[i]? = some part → part.reading = true) : Handles s t := by
  cases stepTook taken with
  | gone => exact absurd rfl other
  | accept | failed | finished => exact handlesSame rfl rfl (.inl rfl) reading
  | started accepting =>
    refine ⟨rfl,fun part member on => ?_,fun i part here => by cases here⟩
    rcases List.mem_append.mp member with old | new
    · exact .inr ⟨part,old,on,rfl⟩
    · rw [List.mem_singleton.mp new]
      exact .inl rfl
  | @read i data ops ec part pBuffer free there on =>
    refine ⟨rfl,fun part' member on' => ?_,fun j part' here there' => ?_⟩
    · rcases List.mem_or_eq_of_mem_set member with old | rfl
      · exact .inr ⟨part',old,on',rfl⟩
      · exact .inr ⟨part,List.mem_of_getElem? there,on,rfl⟩
    · cases here
      rw [List.getElem?_set_self (List.getElem?_eq_some_iff.mp there).1] at there'
      cases there'
      exact on
  | @closed i finishing =>
    refine ⟨rfl,fun part member on => ?_,fun i part here => by cases here⟩
    obtain ⟨j,here⟩ := List.mem_iff_getElem?.mp member
    rw [List.getElem?_modify] at here
    obtain ⟨old,there,rfl⟩ := Option.map_eq_some_iff.mp here
    split at on
    · cases on
    · rename_i apart
      exact .inr ⟨old,List.mem_of_getElem? there,on,by rw [if_neg apart]⟩
  | _ => exact handlesSame rfl rfl (.inr rfl) reading

end Steps

section Stored
variable {κ : Type} [DecidableEq κ] {env : Env} {file : CString → κ} {first : Nat} {before : κ → Option Bytes}
variable {x y : Stored κ}

def SavedFile.named (file : CString → κ) (f : SavedFile) : κ := file f.strFileName

structure Stands (file : CString → κ) (first : Nat) (before : κ → Option Bytes) (x : Stored κ) : Prop where
  holds : Holds (SavedFile.named file) SavedFile.content first before x.server.disk.files x.now
  low : first ≤ x.server.disk.files.length
  handles : ∀ part ∈ x.server.sessions, part.reading = true → ∀ n, part.session.FileSave = some n →
    first ≤ n ∧ ∃ f, Newest (SavedFile.named file) x.server.disk.files n f
  busy : ∀ i part, x.server.busy = some i → x.server.sessions[i]? = some part → part.reading = true

omit [DecidableEq κ] in
theorem startStands (file : CString → κ) (m_strSavePath : CString) (disk : Disk) (before : κ → Option Bytes) :
    Stands file disk.files.length before ⟨Server.start m_strSavePath disk,before⟩ where
  holds := holdsNothing _ _ _ _
  low := Nat.le_refl _
  handles part member := by cases member
  busy i part here := by cases here

-- A Write of nothing is no call and changes nothing.
theorem writtenOn {files : List SavedFile} {now : κ → Option Bytes} {n : Nat} {f : SavedFile}
    (holds : Holds (SavedFile.named file) SavedFile.content first before files now) (low : first ≤ n)
    (newest : Newest (SavedFile.named file) files n f) (data : Bytes) :
    ((fileCall files (files.modify n (SavedFile.longer data))).elim id (FileCall.on file)) now =
      Function.update now (SavedFile.named file f) (some (f.longer data).content) := by
  have content : now (file f.strFileName) = some f.content := holds.newest low newest
  by_cases none : data = []
  · have nothing : SavedFile.longer data = id := by
      funext g
      simp only [none,SavedFile.longer,List.append_nil,id]
    have same : Function.update now (file f.strFileName) (some f.content) = now := by
      rw [← content,Function.update_eq_self]
    rw [nothing,List.modify_id,callNone]
    exact same.symm
  · rw [callWritten newest.there none,Option.elim_some,FileCall.on,content]
    rfl

theorem storedSteps {a : ServerStep} (taken : x.step env file a = some y) : x.server.step env a = some y.server ∧
    y.now = ((fileCall x.server.disk.files y.server.disk.files).elim id (FileCall.on file)) x.now := by
  obtain ⟨t,step,rfl⟩ := Option.map_eq_some_iff.mp taken
  exact ⟨step,rfl⟩

theorem Stands.besides (stands : Stands file first before x) (handles : Handles x.server y.server)
    (now : y.now = ((fileCall x.server.disk.files y.server.disk.files).elim id (FileCall.on file)) x.now) :
    Stands file first before y := by
  have still : y.now = x.now := by rw [now,handles.files,callNone]; rfl
  refine ⟨by rw [handles.files,still]; exact stands.holds,by rw [handles.files]; exact stands.low,
    fun part member reading n handle => ?_,handles.busy⟩
  rw [handles.files]
  rcases handles.held part member reading with none | ⟨old,there,reading,same⟩
  · rw [none] at handle
    cases handle
  · exact stands.handles old there reading n (same.trans handle)

theorem Stands.turns (stands : Stands file first before x) {i : Nat} {part : Part} {session : Session}
    (turned : Turned x.server y.server i part session)
    (now : y.now = ((fileCall x.server.disk.files y.server.disk.files).elim id (FileCall.on file)) x.now)
    (exclusive : ∀ strFileName, fileCall x.server.disk.files y.server.disk.files = some (.opened strFileName) →
      ∀ part ∈ x.server.sessions, part.reading = true → ∀ n f, part.session.FileSave = some n →
        x.server.disk.files[n]? = some f → file f.strFileName ≠ file strFileName) :
    Stands file first before y := by
  have reading := stands.busy i part turned.before turned.there
  have mine := stands.handles part (List.mem_of_getElem? turned.there) reading
  cases turned.touched with
  | still files FileSave =>
    simp only at files FileSave
    have still : y.now = x.now := by rw [now,files,callNone]; rfl
    refine ⟨by rw [files,still]; exact stands.holds,by rw [files]; exact stands.low,?_,turned.busy reading⟩
    rw [files]
    refine turned.held (fun n handle => ?_) stands.handles
    rcases FileSave with same | none
    · exact mine n (same.symm.trans handle)
    · rw [none] at handle
      cases handle
  | @opened strFileName files FileSave =>
    simp only at files FileSave
    have call := callOpened x.server.disk.files strFileName
    rw [← files] at call
    refine ⟨?_,by rw [files,List.length_append]; exact Nat.le_add_right_of_le stands.low,?_,turned.busy reading⟩
    · rw [now,call,files]
      exact stands.holds.make stands.low ⟨strFileName,[]⟩
    · rw [files]
      refine turned.held (fun n handle => ?_) fun part' there reading' n handle => ?_
      · cases FileSave.symm.trans handle
        exact ⟨stands.low,_,newestMade _ _ _⟩
      · obtain ⟨low,f,newest⟩ := stands.handles part' there reading' n handle
        have apart := exclusive strFileName call part' there reading' n f handle newest.there
        exact ⟨low,f,newest.make (Ne.symm apart)⟩
  | @written n data handle files FileSave =>
    simp only at handle files FileSave
    obtain ⟨low,f,newest⟩ := mine n handle
    have same : ∀ g : SavedFile, SavedFile.named file (g.longer data) = SavedFile.named file g := fun _ => rfl
    refine ⟨?_,by rw [files,List.length_modify]; exact stands.low,?_,turned.busy reading⟩
    · rw [now,files,writtenOn stands.holds low newest data]
      exact stands.holds.change low newest same
    · rw [files]
      refine turned.held (fun m handle' => ?_) fun part' there reading' m handle' => ?_
      · cases FileSave.symm.trans handle'
        exact ⟨low,_,newest.change same n⟩
      · obtain ⟨low',g,newest'⟩ := stands.handles part' there reading' m handle'
        exact ⟨low',_,newest'.change same n⟩

theorem storedKept {a : ServerStep} (taken : x.step env file a = some y) (alone' : OpensAlone env file x a)
    (stands : Stands file first before x) : Stands file first before y := by
  obtain ⟨step,now⟩ := storedSteps taken
  by_cases here : a = .go
  · subst here
    obtain ⟨i,part,session,turned⟩ := goTurned step
    refine stands.turns turned now fun strFileName call part' there reading n f handle cell => ?_
    exact alone' y.server step strFileName (by rw [call]; rfl) part' there reading f (by rw [handle]; exact cell)
  · exact stands.besides (stepHandles step here stands.busy) now

theorem storedRuns {acts : List ServerStep} (run : follow (Stored.step env file) acts x = some y) :
    follow (Server.step env) acts x.server = some y.server := by
  induction acts generalizing x with
  | nil =>
    cases run
    rfl
  | cons a acts ih =>
    obtain ⟨next,taken,rest⟩ := followCons run
    rw [follow,(storedSteps taken).1]
    exact ih rest

/-- A file that was opened holds what the session wrote that has opened it last, every other file what it held before.
Nothing else of one session reaches another one. -/
theorem sessionsMeet {acts : List ServerStep} {m_strSavePath : CString} {disk : Disk}
    (run : follow (Stored.step env file) acts ⟨Server.start m_strSavePath disk,before⟩ = some x)
    (exclusive : Meets (Stored.step env file) (OpensAlone env file) acts ⟨Server.start m_strSavePath disk,before⟩) :
    (∀ k, (∃ i n f, n ∈ (madeBy env m_strSavePath disk acts i).files ∧
          Newest (SavedFile.named file) x.server.disk.files n f ∧ file f.strFileName = k ∧ x.now k = some f.content) ∨
        x.now k = before k ∧ ∀ i, ∀ n ∈ (madeBy env m_strSavePath disk acts i).files, ∀ f,
          x.server.disk.files[n]? = some f → file f.strFileName ≠ k) ∧
    Separate env m_strSavePath disk acts (madeBy env m_strSavePath disk acts) x.server := by
  have stands : Stands file disk.files.length before x :=
    meetsKeeps storedKept run exclusive (startStands file m_strSavePath disk before)
  have separate := sessionsApart (storedRuns run)
  refine ⟨fun k => ?_,separate⟩
  rcases stands.holds k with ⟨n,f,low,newest,same,now⟩ | ⟨still,none⟩
  · have inside := (List.getElem?_eq_some_iff.mp newest.there).1
    obtain ⟨i,member⟩ := separate.files.every n low inside
    exact .inl ⟨i,n,f,member,newest,same,now⟩
  · exact .inr ⟨still,fun i n member f => none n f (separate.files.inside i n member).1⟩

end Stored

-- Two sessions receive the same file one after the other.
def sameFileTwice : List ServerStep :=
  [.accept false,.start,.accept false,.start,.read 0 shortFrame.symbols allSucceed false,.go,.go,.go,.go,.go,.go,.go,.go,
    .finish,.read 1 shortFrame.symbols allSucceed false,.go,.go,.go,.go,.go,.go,.go,.go,.finish]

theorem sessionsMeetTwice : ∃ x, follow (Stored.step plainEnv id) sameFileTwice
      ⟨Server.start plainDialog.m_strSavePath emptyDisk,fun _ => none⟩ = some x ∧
    x.now [0x44,0x3A,0x5C,0x61] = some [1,2,3] ∧ Separate plainEnv plainDialog.m_strSavePath emptyDisk sameFileTwice
      (madeBy plainEnv plainDialog.m_strSavePath emptyDisk sameFileTwice) x.server := by
  have found : (follow (Stored.step plainEnv id) sameFileTwice
      ⟨Server.start plainDialog.m_strSavePath emptyDisk,fun _ => none⟩).any (fun x =>
        decide (x.now [0x44,0x3A,0x5C,0x61] = some [1,2,3])) = true := by
    decide +kernel
  obtain ⟨x,run,holds⟩ := (Option.any_eq_true _ _).mp found
  exact ⟨x,run,of_decide_eq_true holds,(sessionsMeet run (by decide +kernel)).2⟩

-- The Open of the second session has emptied what the first one has saved.
example : ((follow (Stored.step plainEnv id) (sameFileTwice.take 17)
    ⟨Server.start plainDialog.m_strSavePath emptyDisk,fun _ => none⟩).map fun x => x.now [0x44,0x3A,0x5C,0x61]) =
      some (some []) := by
  decide +kernel

end JokeDse
