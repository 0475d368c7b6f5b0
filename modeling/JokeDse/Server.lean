import JokeDse.Handler
import JokeDse.Lib.Runs

/-! The dialog and its two threads. The io_context runs the completion handlers of do_accept and do_read
one after the other; the dialog's own thread runs OnTimer and OnBnClickedButtonInject. -/
namespace JokeDse
open Runs

structure Part where
  session : Session
  pBuffer : Buffer
  reading : Bool

/-- The handler that is running: that of do_accept behind m_nClients++, or that of do_read in Parser or
behind it. -/
inductive Handler where
  | accepting (ec : Bool)
  | parsing (i : Nat) (ops : FileOps) (ec : Bool) (nFileSize : Int) (place : Place)
  | finishing (i : Nat) (ec : Bool)

/-- The dialog's thread: inside OnTimer behind the swap and behind the insert, inside
OnBnClickedButtonInject behind the clear and behind m_nSavedFiles = 0. -/
inductive Ui where
  | idle
  | swapped
  | inserted
  | cleared
  | zeroed
  deriving DecidableEq

/-- `vecTemp` is what OnTimer has swapped out and not inserted yet, `itemCount` the last argument of
SetItemCount. For the record, `mark` is the number of items at the last clear of m_vecFileList and
`waiting` what m_vecFileTemp held there. -/
structure Server where
  dialog : Dialog
  disk : Disk
  m_vecMessage : List FileException
  m_nExceptions : Int
  trace : List Access
  m_nClients : Uint
  sessions : List Part
  m_vecFileList : List Nat
  m_vecFileSize : Int
  vecTemp : List Nat
  itemCount : Int
  handler : Option Handler
  ui : Ui
  mark : Nat
  waiting : List Nat

inductive ServerStep where
  | accept (ec : Bool)
  | start
  | read (i : Nat) (data : Bytes) (ops : FileOps) (ec : Bool)
  | go
  | finish
  | onTimer
  | insert
  | setItemCount
  | inject (m_strSavePath m_strSourcePath : CString)
  | zeroSaved
  | restart

def compact (nOffset : Int) (pBuffer : Buffer) (c : Ctx) : Outcome Conn Unit :=
  let nDataLength : Int := pBuffer.bytes.length
  if nOffset < nDataLength then
    let c := c.note (.slice nOffset (nDataLength - nOffset) nDataLength)
    if nOffset < 0 then .stopped .accessViolation ⟨c,pBuffer⟩
    else .done () ⟨c,pBuffer.discard nOffset.toNat⟩
  else .done () ⟨c,pBuffer.discard pBuffer.bytes.length⟩

namespace Server

def start (m_strSavePath : CString) (disk : Disk) : Server where
  dialog := ⟨m_strSavePath,0,0,0,0,[],[]⟩
  disk := disk
  m_vecMessage := []
  m_nExceptions := 0
  trace := []
  m_nClients := 0
  sessions := []
  m_vecFileList := []
  m_vecFileSize := 0
  vecTemp := []
  itemCount := 0
  handler := none
  ui := .idle
  mark := 0
  waiting := []

/-- The io thread holds m_csList: it is in CloseFile. The push_back of GetFile is one step. -/
def locked (s : Server) : Bool :=
  match s.handler with
  | some (.parsing _ _ _ _ place) => place.locked
  | _ => false

def ctx (session : Session) (s : Server) : Ctx := ⟨⟨session,s.dialog,s.disk⟩,s.m_vecMessage,s.m_nExceptions,s.trace⟩

def put (i : Nat) (part : Part) (c : Ctx) (s : Server) : Server :=
  {s with
    dialog := c.dialog
    disk := c.disk
    m_vecMessage := c.m_vecMessage
    m_nExceptions := c.m_nExceptions
    trace := c.trace
    sessions := s.sessions.set i {part with session := c.session}}

def parse (env : Env) (i : Nat) (ops : FileOps) (ec : Bool) (nFileSize : Int) (place : Place) (part : Part)
    (s : Server) : Option Server :=
  match place with
  | .leave nOffset =>
    match compact nOffset part.pBuffer (s.ctx part.session) with
    | .done _ c => some {s.put i {part with pBuffer := c.pBuffer} c.toCtx with handler := some (.finishing i ec)}
    | _ => none
  | place =>
    match go env ops part.pBuffer.bytes place (s.ctx part.session) with
    | .done next c => some {s.put i part c with handler := some (.parsing i ops ec nFileSize next)}
    | .thrown c =>
      some {s.put i part (caught nFileSize part.pBuffer.bytes.length c) with handler := some (.finishing i ec)}
    | .stopped _ _ => none

/-- The steps of the io thread are not possible while another handler runs, and those of the dialog's
thread only in the order of the source; OnTimer's swap waits for m_csList. -/
def step (env : Env) (s : Server) : ServerStep → Option Server
  | .accept ec =>
    match s.handler with
    | none => some {s with m_nClients := s.m_nClients + 1, handler := some (.accepting ec)}
    | some _ => none
  | .start =>
    match s.handler with
    | some (.accepting ec) =>
      some {s with
        sessions := if ec then s.sessions else s.sessions ++ [⟨Session.new,Buffer.new,true⟩]
        handler := none}
    | _ => none
  | .read i data ops ec =>
    match s.handler, s.sessions[i]? with
    | none, some part =>
      match part.reading, memMerge (fun _ => true) part.pBuffer data with
      | true, .returned _ pBuffer =>
        some {s with
          sessions := s.sessions.set i {part with pBuffer}
          handler := some (.parsing i ops ec part.session.nFileSize .parser)}
      | _, _ => none
    | _, _ => none
  | .go =>
    match s.handler with
    | some (.parsing i ops ec nFileSize place) =>
      (s.sessions[i]?).bind fun part => s.parse env i ops ec nFileSize place part
    | _ => none
  | .finish =>
    match s.handler with
    | some (.finishing i ec) =>
      some (if ec then
        {s with
          m_nClients := s.m_nClients - 1
          sessions := s.sessions.modify i fun part => {part with reading := false}
          handler := none}
      else {s with handler := none})
    | _ => none
  | .onTimer =>
    if s.ui = .idle ∧ s.locked = false then
      some {s with vecTemp := s.dialog.m_vecFileTemp, dialog := {s.dialog with m_vecFileTemp := []}, ui := .swapped}
    else none
  | .insert =>
    if s.ui = .swapped then
      some {s with m_vecFileList := s.m_vecFileList ++ s.vecTemp, vecTemp := [], ui := .inserted}
    else none
  | .setItemCount =>
    if s.ui = .inserted then
      if uint s.m_vecFileSize < s.m_vecFileList.length then
        some {s with
          m_vecFileSize := int s.m_vecFileList.length
          itemCount := int s.m_vecFileList.length
          m_vecMessage := []
          ui := .idle}
      else some {s with m_vecMessage := [], ui := .idle}
    else none
  | .inject m_strSavePath m_strSourcePath =>
    if s.ui = .idle then
      if m_strSourcePath = [] ∨ m_strSavePath = [] then some {s with dialog := {s.dialog with m_strSavePath}}
      else
        some {s with
          dialog := {s.dialog with m_strSavePath}
          m_vecFileList := []
          ui := .cleared
          mark := s.dialog.items.length
          waiting := s.dialog.m_vecFileTemp}
    else none
  | .zeroSaved =>
    if s.ui = .cleared then some {s with dialog := {s.dialog with m_nSavedFiles := 0}, ui := .zeroed} else none
  | .restart =>
    if s.ui = .zeroed then
      some {s with
        dialog := {s.dialog with m_nFoundFiles := 0, m_nSkippedFiles := 0, m_nDecrypedFiles := 0}
        m_vecFileSize := 0
        itemCount := 0
        m_nClients := 0
        m_nExceptions := 0
        ui := .idle}
    else none

end Server

/-! A read without an interruption is doRead. -/

theorem parserCompacts (env : Env) (ops : FileOps) (s : Conn) : parser env ops s =
    match parserBody env ops s.pBuffer.bytes s.toCtx with
    | .done nOffset c => compact nOffset s.pBuffer c
    | .thrown c => .done () ⟨caught s.session.nFileSize s.pBuffer.bytes.length c,s.pBuffer⟩
    | .stopped why c => .stopped why ⟨c,s.pBuffer⟩ := rfl

section Uninterrupted
variable {env : Env} {ops : FileOps} {s : Server} {i : Nat} {ec : Bool} {nFileSize : Int} {part : Part}

theorem putThere {c : Ctx} (there : s.sessions[i]? = some part) :
    (s.put i part c).sessions[i]? = some {part with session := c.session} := by
  obtain ⟨inside,-⟩ := List.getElem?_eq_some_iff.mp there
  simp only [Server.put,List.getElem?_set_self inside]

theorem stepGo (env : Env) {place : Place} (handler : s.handler = some (.parsing i ops ec nFileSize place))
    (there : s.sessions[i]? = some part) :
    s.step env .go = s.parse env i ops ec nFileSize place part := by
  simp only [Server.step,handler,there,Option.bind_some]

theorem leaveStays (n : Nat) (nOffset : Int) (c : Ctx) {pBuffer : Bytes} :
    walk env ops pBuffer n (.leave nOffset) c = .done (.leave nOffset) c := by
  induction n with
  | zero => rfl
  | succ n ih => exact ih

def Server.parsed (i : Nat) (ops : FileOps) (ec : Bool) (nFileSize : Int) (part : Part) (s : Server) :
    Outcome Ctx Place → Option Server
  | .done next c => some {s.put i part c with handler := some (.parsing i ops ec nFileSize next)}
  | .thrown c =>
    some {s.put i part (caught nFileSize part.pBuffer.bytes.length c) with handler := some (.finishing i ec)}
  | .stopped _ _ => none

def Place.left : Place → Bool
  | .leave _ => true
  | _ => false

theorem parseGoes {place : Place} (inside : place.left = false) : s.parse env i ops ec nFileSize place part =
    s.parsed i ops ec nFileSize part (go env ops part.pBuffer.bytes place (s.ctx part.session)) := by
  cases place with
  | leave nOffset => cases inside
  | _ => rfl

theorem putSame (handler : Option Handler) (same : s.handler = handler) (there : s.sessions[i]? = some part) :
    {s.put i part (s.ctx part.session) with handler} = s := by
  obtain ⟨inside,there⟩ := List.getElem?_eq_some_iff.mp there
  subst same there
  have sessions : s.sessions.set i s.sessions[i] = s.sessions := List.set_getElem_self inside
  simp only [Server.put,Server.ctx]
  exact congrArg (fun sessions => {s with sessions}) sessions

theorem parsedAgain (handler : Option Handler) (c : Ctx) (o : Outcome Ctx Place) :
    Server.parsed i ops ec nFileSize {part with session := c.session} {s.put i part c with handler} o =
      s.parsed i ops ec nFileSize part o := by
  cases o <;> simp only [Server.parsed,Server.put,List.set_set]

theorem followGoes {n : Nat} {place : Place} {o : Outcome Ctx Int} {t : Server}
    (handler : s.handler = some (.parsing i ops ec nFileSize place)) (there : s.sessions[i]? = some part)
    (walked : walk env ops part.pBuffer.bytes n place (s.ctx part.session) = leaving o)
    (next : s.parsed i ops ec nFileSize part (leaving o) = some t) :
    ∃ m, follow (Server.step env) (List.replicate m .go) s = some t := by
  induction n generalizing s part place with
  | zero =>
    rw [← walked,walk,Server.parsed,putSame _ handler there] at next
    exact ⟨0,next⟩
  | succ n ih =>
    cases inside : place.left with
    | true =>
      cases place with
      | leave nOffset =>
        rw [leaveStays] at walked
        rw [← walked,Server.parsed,putSame _ handler there] at next
        exact ⟨0,next⟩
      | _ => cases inside
    | false =>
      have stepped := (stepGo env handler there).trans (parseGoes inside)
      rw [walk] at walked
      cases gone : go env ops part.pBuffer.bytes place (s.ctx part.session) with
      | done place' c =>
        rw [gone] at stepped walked
        have still : (s.put i part c).sessions[i]? = some {part with session := c.session} := putThere there
        obtain ⟨m,run⟩ := ih (s := {s.put i part c with handler := some (.parsing i ops ec nFileSize place')}) rfl still
          walked (by rwa [parsedAgain])
        exact ⟨m + 1,by simp only [List.replicate,follow,stepped,Server.parsed,Option.bind_some,run]⟩
      | thrown c =>
        rw [gone] at stepped walked
        have same : Outcome.thrown c = leaving o := walked
        rw [← same] at next
        exact ⟨1,by simp only [List.replicate,follow,stepped,next,Option.bind_some]⟩
      | stopped why c =>
        rw [gone] at walked
        have same : Outcome.stopped why c = leaving o := walked
        rw [← same] at next
        cases next

def Server.readDone (i : Nat) (ec : Bool) (part : Part) (s : Server) (c : Conn) : Server :=
  let t := {s.put i {part with pBuffer := c.pBuffer} c.toCtx with handler := none}
  if ec then
    {t with
      m_nClients := t.m_nClients - 1
      sessions := t.sessions.modify i fun part => {part with reading := false}}
  else t

theorem finishes (c : Conn) : Server.step env
      {s.put i {part with pBuffer := c.pBuffer} c.toCtx with handler := some (.finishing i ec)} .finish =
    some (s.readDone i ec part c) := by
  cases ec <;> rfl

theorem walkedFrom (part : Part) {c : Ctx} {o : Outcome Ctx Int} (body : parserBody env ops part.pBuffer.bytes c = o)
    (ends : ∀ c', o ≠ .stopped .endless c') {t : Server}
    (handler : s.handler = some (.parsing i ops ec nFileSize .parser)) (there : s.sessions[i]? = some part)
    (here : s.ctx part.session = c) (next : s.parsed i ops ec nFileSize part (leaving o) = some t) :
    ∃ m, follow (Server.step env) (List.replicate m .go) s = some t := by
  have walks : Walks env ops part.pBuffer.bytes .parser c (parserBody env ops part.pBuffer.bytes c) := walksBody c
  obtain ⟨n,walked⟩ := walks (body ▸ ends)
  rw [body,← here] at walked
  exact followGoes handler there walked next

def Server.called (i : Nat) (ops : FileOps) (ec : Bool) (part : Part) (pBuffer : Buffer) (s : Server) : Server :=
  {s with
    sessions := s.sessions.set i {part with pBuffer}
    handler := some (.parsing i ops ec part.session.nFileSize .parser)}

theorem calledPart {pBuffer : Buffer} (there : s.sessions[i]? = some part) :
    (s.called i ops ec part pBuffer).sessions[i]? = some {part with pBuffer} := by
  obtain ⟨inside,-⟩ := List.getElem?_eq_some_iff.mp there
  exact List.getElem?_set_self inside

theorem calledPut (handler : Option Handler) (pBuffer : Buffer) (c : Ctx) (part' : Part) :
    {(s.called i ops ec part pBuffer).put i part' c with handler} = {s.put i part' c with handler} := by
  simp only [Server.called,Server.put,List.set_set]

theorem goLeaves {pBuffer : Buffer} {nOffset : Int} {c : Ctx} {c' : Conn}
    (there : s.sessions[i]? = some {part with pBuffer}) (done : compact nOffset pBuffer c = .done () c') :
    Server.step env {s.put i {part with pBuffer} c with handler := some (.parsing i ops ec nFileSize (.leave nOffset))}
      .go = some {s.put i {part with pBuffer := c'.pBuffer} c'.toCtx with handler := some (.finishing i ec)} := by
  have still : (s.put i {part with pBuffer} c).sessions[i]? = some {part with pBuffer, session := c.session} :=
    putThere there
  have here : {s.put i {part with pBuffer} c with
      handler := some (.parsing i ops ec nFileSize (.leave nOffset))}.ctx c.session = c := rfl
  simp only [Server.step,still,Option.bind_some,Server.parse,here,done]
  simp only [Server.put,List.set_set]

theorem goesUninterrupted (ec : Bool) {data : Bytes} {c : Conn} (free : s.handler = none)
    (there : s.sessions[i]? = some part) (reading : part.reading = true)
    (done : doRead env ops data ⟨s.ctx part.session,part.pBuffer⟩ = .done () c) :
    ∃ n, follow (Server.step env) (.read i data ops ec :: List.replicate n .go) s =
      some {s.put i {part with pBuffer := c.pBuffer} c.toCtx with handler := some (.finishing i ec)} := by
  cases merged : memMerge (fun _ => true) part.pBuffer data with
  | endless => simp only [doRead,merged] at done; cases done
  | overrun => simp only [doRead,merged] at done; cases done
  | returned value pBuffer =>
    simp only [doRead,merged,parserCompacts] at done
    have begun : s.step env (.read i data ops ec) = some (s.called i ops ec part pBuffer) := by
      simp only [Server.step,Server.called,free,there,reading,merged]
    have still : (s.called i ops ec part pBuffer).sessions[i]? = some {part with pBuffer} := calledPart there
    have here : (s.called i ops ec part pBuffer).ctx part.session = s.ctx part.session := rfl
    generalize body : parserBody env ops pBuffer.bytes (s.ctx part.session) = o at done
    cases o with
    | done nOffset c₁ =>
      have next : (s.called i ops ec part pBuffer).parsed i ops ec part.session.nFileSize {part with pBuffer}
          (leaving (.done nOffset c₁)) = some {(s.called i ops ec part pBuffer).put i {part with pBuffer} c₁ with
            handler := some (.parsing i ops ec part.session.nFileSize (.leave nOffset))} := rfl
      obtain ⟨m,run⟩ := walkedFrom {part with pBuffer} body (fun _ stops => by cases stops) rfl still here next
      refine ⟨m + 1,?_⟩
      rw [List.replicate_succ',← List.cons_append,followAppend,follow,begun,Option.bind_some,run,Option.bind_some,follow,
        goLeaves still done,calledPut]
      rfl
    | thrown c₁ =>
      have next : (s.called i ops ec part pBuffer).parsed i ops ec part.session.nFileSize {part with pBuffer}
          (leaving (.thrown c₁)) = some {(s.called i ops ec part pBuffer).put i {part with pBuffer}
            (caught part.session.nFileSize pBuffer.bytes.length c₁) with handler := some (.finishing i ec)} := rfl
      obtain ⟨m,run⟩ := walkedFrom {part with pBuffer} body (fun _ stops => by cases stops) rfl still here next
      cases done
      refine ⟨m,?_⟩
      rw [follow,begun,Option.bind_some,run,calledPut]
      rfl
    | stopped why c₁ => cases done

theorem readUninterrupted {data : Bytes} {c : Conn} (free : s.handler = none) (there : s.sessions[i]? = some part)
    (reading : part.reading = true) (done : doRead env ops data ⟨s.ctx part.session,part.pBuffer⟩ = .done () c) :
    ∃ n, follow (Server.step env) (.read i data ops ec :: (List.replicate n .go ++ [.finish])) s =
      some (s.readDone i ec part c) := by
  obtain ⟨n,run⟩ := goesUninterrupted ec free there reading done
  refine ⟨n,?_⟩
  rw [← List.cons_append,followAppend,run,Option.bind_some,follow,finishes]
  rfl

end Uninterrupted

/-! What a step of Parser means for the other members. -/

structure UiStill (s t : Server) : Prop where
  m_vecFileList : t.m_vecFileList = s.m_vecFileList
  vecTemp : t.vecTemp = s.vecTemp
  itemCount : t.itemCount = s.itemCount
  ui : t.ui = s.ui
  mark : t.mark = s.mark
  waiting : t.waiting = s.waiting

inductive Effect (i : Nat) (c c' : Ctx) : Place → Option Handler → Prop
  | quiet {ops : FileOps} {ec : Bool} {nFileSize : Int} {place next : Place} (quiet : Quiet c c')
    (owned : next.holding = true → Owns place c.session) (unlocked : place.locked = false ∧ next.locked = false) :
    Effect i c c' place (some (.parsing i ops ec nFileSize next))
  | announced {ops : FileOps} {ec : Bool} {nFileSize : Int} {k : Nat} {nOffset : Int} {pHeader : FilebufHeader}
    (announced : Announced c c') :
    Effect i c c' (.round k nOffset) (some (.parsing i ops ec nFileSize (.payload k nOffset pHeader)))
  | loaded {ops : FileOps} {ec : Bool} {nFileSize : Int} {call : Closing} (quiet : Quiet c c')
    (ended : c'.session.nFileSize = 0) :
    Effect i c c' (.close call) (some (.parsing i ops ec nFileSize (.count call c.dialog.m_nSavedFiles)))
  | counted {ops : FileOps} {ec : Bool} {nFileSize : Int} {call : Closing} {saved : Int} (counts : Counts saved c c') :
    Effect i c c' (.count call saved) (some (.parsing i ops ec nFileSize (.mark call)))
  | marked {ops : FileOps} {ec : Bool} {nFileSize : Int} {call : Closing} {next : Place} {p : Nat}
    (marks : Marks p c c') (free : next.holding = false) :
    Effect i c c' (.mark call) (some (.parsing i ops ec nFileSize next))
  | finished {ec : Bool} {place : Place} (quiet : Quiet c c') (unlocked : place.locked = false) :
    Effect i c c' place (some (.finishing i ec))

structure Gone (s t : Server) (i : Nat) (place : Place) (part : Part) (c : Ctx) : Prop where
  handler : ∃ ops ec nFileSize, s.handler = some (.parsing i ops ec nFileSize place)
  there : s.sessions[i]? = some part
  dialog : t.dialog = c.dialog
  sessions : ∃ pBuffer, t.sessions = s.sessions.set i ⟨c.session,pBuffer,part.reading⟩
  m_nClients : t.m_nClients = s.m_nClients
  still : UiStill s t
  effect : Effect i (s.ctx part.session) c place t.handler

theorem compactStill {nOffset : Int} {pBuffer : Buffer} {c : Ctx} {c' : Conn}
    (done : compact nOffset pBuffer c = .done () c') : c'.toRx = c.toRx := by
  unfold compact at done
  simp only at done
  split at done
  · split at done <;> cases done
    rfl
  · cases done
    rfl

theorem gonePut {s : Server} {i : Nat} {ops : FileOps} {ec : Bool} {nFileSize : Int} {place : Place} {part : Part}
    {c : Ctx} {next : Option Handler} (pBuffer : Buffer) (handler : s.handler = some (.parsing i ops ec nFileSize place))
    (there : s.sessions[i]? = some part) (effect : Effect i (s.ctx part.session) c place next) :
    Gone s {s.put i {part with pBuffer} c with handler := next} i place part c where
  handler := ⟨ops,ec,nFileSize,handler⟩
  there := there
  dialog := rfl
  sessions := ⟨pBuffer,rfl⟩
  m_nClients := rfl
  still := ⟨rfl,rfl,rfl,rfl,rfl,rfl⟩
  effect := effect

theorem stepGone {env : Env} {s t : Server} (taken : s.step env .go = some t) :
    ∃ i place part c, Gone s t i place part c := by
  simp only [Server.step] at taken
  split at taken
  · rename_i i ops ec nFileSize place handler
    obtain ⟨part,there,taken⟩ := Option.bind_eq_some_iff.mp taken
    cases left : place.left with
    | true =>
      cases place with
      | leave nOffset =>
        simp only [Server.parse] at taken
        split at taken
        · rename_i c done
          cases taken
          have same := compactStill done
          have quiet : Quiet (s.ctx part.session) c.toCtx := by
            constructor <;> rw [same]
            exact id
          exact ⟨i,_,part,_,gonePut c.pBuffer handler there (.finished quiet rfl)⟩
        · cases taken
      | _ => cases left
    | false =>
      rw [parseGoes left] at taken
      have went : Went (s.ctx part.session) place (go env ops part.pBuffer.bytes place (s.ctx part.session)) :=
        goWent place _
      generalize go env ops part.pBuffer.bytes place (s.ctx part.session) = o at taken went
      cases went with
      | quiet quiet owned unlocked =>
        cases taken
        exact ⟨i,place,part,_,gonePut part.pBuffer handler there (.quiet quiet owned unlocked)⟩
      | announced announced =>
        cases taken
        exact ⟨i,_,part,_,gonePut part.pBuffer handler there (.announced announced)⟩
      | loaded quiet ended =>
        cases taken
        exact ⟨i,_,part,_,gonePut part.pBuffer handler there (.loaded quiet ended)⟩
      | counted counts =>
        cases taken
        exact ⟨i,_,part,_,gonePut part.pBuffer handler there (.counted counts)⟩
      | marked marks free =>
        cases taken
        exact ⟨i,_,part,_,gonePut part.pBuffer handler there (.marked marks free)⟩
      | thrown quiet unlocked =>
        cases taken
        have caught : Quiet (s.ctx part.session) (caught nFileSize part.pBuffer.bytes.length _) :=
          ⟨quiet.statuses,quiet.m_vecFileTemp,quiet.m_nSavedFiles,quiet.pFileItem,quiet.nFileSize⟩
        exact ⟨i,place,part,_,gonePut part.pBuffer handler there (.finished caught unlocked)⟩
      | stopped why c => cases taken
  · cases taken

inductive Took (s : Server) : ServerStep → Server → Prop where
  | accept {ec : Bool} (free : s.handler = none) :
    Took s (.accept ec) {s with m_nClients := s.m_nClients + 1, handler := some (.accepting ec)}
  | failed (accepting : s.handler = some (.accepting true)) : Took s .start {s with handler := none}
  | started (accepting : s.handler = some (.accepting false)) :
    Took s .start {s with sessions := s.sessions ++ [⟨Session.new,Buffer.new,true⟩], handler := none}
  | read {i : Nat} {data : Bytes} {ops : FileOps} {ec : Bool} {part : Part} (pBuffer : Buffer) (free : s.handler = none)
    (there : s.sessions[i]? = some part) (reading : part.reading = true) :
    Took s (.read i data ops ec) {s with
      sessions := s.sessions.set i {part with pBuffer}
      handler := some (.parsing i ops ec part.session.nFileSize .parser)}
  | gone {t : Server} {i : Nat} {place : Place} {part : Part} {c : Ctx} (gone : Gone s t i place part c) :
    Took s .go t
  | closed {i : Nat} (finishing : s.handler = some (.finishing i true)) :
    Took s .finish {s with
      m_nClients := s.m_nClients - 1
      sessions := s.sessions.modify i fun part => {part with reading := false}
      handler := none}
  | finished {i : Nat} (finishing : s.handler = some (.finishing i false)) : Took s .finish {s with handler := none}
  | onTimer (idle : s.ui = .idle) (unlocked : s.locked = false) :
    Took s .onTimer {s with
      vecTemp := s.dialog.m_vecFileTemp
      dialog := {s.dialog with m_vecFileTemp := []}
      ui := .swapped}
  | insert (swapped : s.ui = .swapped) :
    Took s .insert {s with m_vecFileList := s.m_vecFileList ++ s.vecTemp, vecTemp := [], ui := .inserted}
  | shown (inserted : s.ui = .inserted) {count : Int} (low : count ≤ s.m_vecFileList.length) :
    Took s .setItemCount {s with m_vecFileSize := count, itemCount := count, m_vecMessage := [], ui := .idle}
  | unchanged (inserted : s.ui = .inserted) : Took s .setItemCount {s with m_vecMessage := [], ui := .idle}
  | asked (idle : s.ui = .idle) {m_strSavePath m_strSourcePath : CString} :
    Took s (.inject m_strSavePath m_strSourcePath) {s with dialog := {s.dialog with m_strSavePath}}
  | cleared (idle : s.ui = .idle) {m_strSavePath m_strSourcePath : CString} :
    Took s (.inject m_strSavePath m_strSourcePath) {s with
      dialog := {s.dialog with m_strSavePath}
      m_vecFileList := []
      ui := .cleared
      mark := s.dialog.items.length
      waiting := s.dialog.m_vecFileTemp}
  | zeroSaved (cleared : s.ui = .cleared) :
    Took s .zeroSaved {s with dialog := {s.dialog with m_nSavedFiles := 0}, ui := .zeroed}
  | restart (zeroed : s.ui = .zeroed) :
    Took s .restart {s with
      dialog := {s.dialog with m_nFoundFiles := 0, m_nSkippedFiles := 0, m_nDecrypedFiles := 0}
      m_vecFileSize := 0
      itemCount := 0
      m_nClients := 0
      m_nExceptions := 0
      ui := .idle}

theorem stepTook {env : Env} {s t : Server} {a : ServerStep} (taken : s.step env a = some t) : Took s a t := by
  cases a with
  | accept ec =>
    simp only [Server.step] at taken
    split at taken <;> cases taken
    exact .accept ‹_›
  | start =>
    simp only [Server.step] at taken
    split at taken <;> cases taken
    rename_i ec accepting
    cases ec with
    | true => exact .failed accepting
    | false => exact .started accepting
  | read i data ops ec =>
    simp only [Server.step] at taken
    split at taken
    · rename_i free there
      split at taken <;> cases taken
      exact .read _ free there ‹_›
    · cases taken
  | go =>
    obtain ⟨i,place,part,c,gone⟩ := stepGone taken
    exact .gone gone
  | finish =>
    simp only [Server.step] at taken
    split at taken <;> cases taken
    rename_i i ec finishing
    cases ec with
    | true => exact .closed finishing
    | false => exact .finished finishing
  | onTimer =>
    simp only [Server.step] at taken
    split at taken <;> cases taken
    rename_i free
    exact .onTimer free.1 free.2
  | insert =>
    simp only [Server.step] at taken
    split at taken <;> cases taken
    exact .insert ‹_›
  | setItemCount =>
    simp only [Server.step] at taken
    split at taken
    · rename_i inserted
      split at taken <;> cases taken
      · exact .shown inserted (MachineInt.signedLow 32 _)
      · exact .unchanged inserted
    · cases taken
  | inject m_strSavePath m_strSourcePath =>
    simp only [Server.step] at taken
    split at taken
    · rename_i idle
      split at taken <;> cases taken
      · exact .asked idle
      · exact .cleared idle
    · cases taken
  | zeroSaved =>
    simp only [Server.step] at taken
    split at taken <;> cases taken
    exact .zeroSaved ‹_›
  | restart =>
    simp only [Server.step] at taken
    split at taken <;> cases taken
    exact .restart ‹_›

end JokeDse
