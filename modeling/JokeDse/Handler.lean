import JokeDse.Reading

/-! The completion handler of do_read in steps. It runs on the thread of the io_context while the dialog
has a thread of its own, so it is cut such that no step enters m_csList twice. -/
namespace JokeDse

inductive Closing where
  | rest (nOffset : Int)
  | full (k : Nat) (nOffset : Int)
  | empty (k : Nat) (nOffset : Int) (pHeader : FilebufHeader)

/-- Where the handler stands in Parser: in front of its try, in front of the test of GetFile's loop,
behind FileSave.Open, in front of a call of CloseFile, or behind GetFile. In CloseFile, where it holds
m_csList: behind the load of `m_nSavedFiles++`, whose value it has, and behind the store. -/
inductive Place where
  | parser
  | round (k : Nat) (nOffset : Int)
  | payload (k : Nat) (nOffset : Int) (pHeader : FilebufHeader)
  | close (call : Closing)
  | count (call : Closing) (m_nSavedFiles : Int)
  | mark (call : Closing)
  | leave (nOffset : Int)

namespace Closing

def op : Closing → FileOp
  | .rest _ => .midClose
  | .full k _ | .empty k _ _ => .closed k

def next : Closing → Place
  | .rest nOffset => .round 0 nOffset
  | .full k nOffset => .round (k + 1) nOffset
  | .empty k nOffset pHeader => .round (k + 1) (int (nOffset + pHeader.headerSize))

def after (nDataLength : Int) : Closing → Ctx → Ctx
  | .empty _ nOffset pHeader, c => c.note (.offset nOffset (int (nOffset + pHeader.headerSize)) nDataLength)
  | _, c => c

end Closing

def Rx.setSavedFiles (m_nSavedFiles : Int) (r : Rx) : Rx := {r with dialog := {r.dialog with m_nSavedFiles}}

def go (env : Env) (ops : FileOps) (pBuffer : Bytes) : Place → Ctx → Outcome Ctx Place
  | .parser, c =>
    if c.session.nFileSize ≠ 0 then
      (saveRest ops pBuffer c).bind fun nOffset c =>
      .done (if c.session.nSavedLength = c.session.nFileSize then .close (.rest nOffset) else .leave nOffset) c
    else .done (.round 0 0) c
  | .round k nOffset, c =>
    let nDataLength : Int := pBuffer.length
    if sizeofFilebufHeader ≤ uint (nDataLength - nOffset) then
      let c := c.note (.slice nOffset sizeofFilebufHeader nDataLength)
      if nOffset < 0 ∨ nDataLength < nOffset + sizeofFilebufHeader then .stopped .accessViolation c
      else
        let pHeader := FilebufHeader.ofMemory ((pBuffer.drop nOffset.toNat).take sizeofFilebufHeader)
        if pHeader.checkPreFix && pHeader.checkCRC &&
            decide (int (pHeader.headerSize + nOffset) < nDataLength) then
          (acceptHeader env ops k pBuffer nOffset pHeader c).bind fun _ c => .done (.payload k nOffset pHeader) c
        else .done (.leave nOffset) c
    else .done (.leave nOffset) c
  | .payload k nOffset pHeader, c =>
    let nDataLength : Int := pBuffer.length
    if pHeader.nFileSize ≠ 0 then
      let nDataSize := int (int (nDataLength - nOffset) - pHeader.headerSize)
      let nToSave := if nDataSize ≤ c.session.nFileSize then nDataSize else c.session.nFileSize
      (write (ops (.written k)) pBuffer (int (nOffset + pHeader.headerSize)) nToSave c).bind fun _ c =>
      (withItem (fun item => {item with nRecved := toUint nToSave}) (c.on (Rx.setSaved nToSave))).bind fun _ c =>
      let moved := int (nOffset + int (pHeader.headerSize + nToSave))
      let c := c.note (.offset nOffset moved nDataLength)
      .done (if c.session.nSavedLength = c.session.nFileSize then .close (.full k moved) else .round (k + 1) moved) c
    else .done (.close (.empty k nOffset pHeader)) c
  | .close call, c =>
    (close (ops call.op) (c.on Rx.resetFile)).bind fun _ c => .done (.count call c.dialog.m_nSavedFiles) c
  | .count call m_nSavedFiles, c => .done (.mark call) (c.on (Rx.setSavedFiles (int (m_nSavedFiles + 1))))
  | .mark call, c =>
    (withItem (fun item => {item with nStatus := true}) c).bind fun _ c =>
    .done call.next (call.after pBuffer.length c)
  | .leave nOffset, c => .done (.leave nOffset) c

def walk (env : Env) (ops : FileOps) (pBuffer : Bytes) : Nat → Place → Ctx → Outcome Ctx Place
  | 0, place, c => .done place c
  | n + 1, place, c => (go env ops pBuffer place c).bind (walk env ops pBuffer n)

def leaving (o : Outcome Ctx Int) : Outcome Ctx Place := o.bind fun nOffset c => .done (.leave nOffset) c

section Walk
variable {env : Env} {ops : FileOps} {pBuffer : Bytes} {place : Place} {c : Ctx}

def Walks (env : Env) (ops : FileOps) (pBuffer : Bytes) (place : Place) (c : Ctx) (o : Outcome Ctx Int) : Prop :=
  (∀ c', o ≠ .stopped .endless c') → ∃ n, walk env ops pBuffer n place c = leaving o

theorem walksLeave (nOffset : Int) : Walks env ops pBuffer (.leave nOffset) c (.done nOffset c) :=
  fun _ => ⟨0,rfl⟩

theorem walksBind {α : Type} {first : Outcome Ctx α} {place' : α → Ctx → Place} {after : α → Ctx → Ctx}
    {next : α → Ctx → Outcome Ctx Int}
    (step : go env ops pBuffer place c = first.bind fun a c => .done (place' a c) (after a c))
    (rest : ∀ a c, Walks env ops pBuffer (place' a c) (after a c) (next a c)) :
    Walks env ops pBuffer place c (first.bind next) := by
  intro ends
  cases first with
  | done a c' =>
    obtain ⟨n,walked⟩ := rest a c' ends
    exact ⟨n + 1,by rw [walk,step]; exact walked⟩
  | thrown c' => exact ⟨1,by rw [walk,step]; rfl⟩
  | stopped why c' => exact ⟨1,by rw [walk,step]; rfl⟩

theorem walksStep {place' : Place} {c' : Ctx} {o : Outcome Ctx Int}
    (step : go env ops pBuffer place c = .done place' c') (rest : Walks env ops pBuffer place' c' o) :
    Walks env ops pBuffer place c o := by
  intro ends
  obtain ⟨n,walked⟩ := rest ends
  exact ⟨n + 1,by rw [walk,step]; exact walked⟩

theorem goPayload {k : Nat} {nOffset : Int} {pHeader : FilebufHeader} (size : pHeader.nFileSize ≠ 0) :
    go env ops pBuffer (.payload k nOffset pHeader) c =
      (payloadPart ops k pBuffer nOffset pHeader c).bind fun moved c =>
        .done (if c.session.nSavedLength = c.session.nFileSize then .close (.full k moved) else .round (k + 1) moved) c := by
  simp only [go,payloadPart,if_pos size,Outcome.bindAssoc,Outcome.bindDone]

theorem walksClose {next : Unit → Ctx → Outcome Ctx Int} (call : Closing)
    (rest : ∀ c, Walks env ops pBuffer call.next (call.after pBuffer.length c) (next () c)) :
    Walks env ops pBuffer (.close call) c ((closeFile (ops call.op) c).bind next) := by
  rw [closeFile,Outcome.bindAssoc]
  refine walksBind rfl fun _ c => ?_
  have counted : go env ops pBuffer (.count call c.dialog.m_nSavedFiles) c = .done (.mark call) (c.on Rx.countSaved) := rfl
  exact walksStep counted (walksBind rfl fun _ c => rest c)

theorem walksPayload {k : Nat} {nOffset : Int} {pHeader : FilebufHeader} {next : Int → Ctx → Outcome Ctx Int}
    (rest : ∀ moved c, Walks env ops pBuffer (.round (k + 1) moved) c (next moved c)) :
    Walks env ops pBuffer (.payload k nOffset pHeader) c
      ((takePayload ops k pBuffer nOffset pHeader c).bind next) := by
  by_cases size : pHeader.nFileSize ≠ 0
  · rw [payloadSplits size,Outcome.bindAssoc]
    refine walksBind (goPayload size) fun moved c => ?_
    split
    · rw [Outcome.bindAssoc]
      exact walksClose (.full k moved) fun c => rest moved c
    · exact rest moved c
  · have there : go env ops pBuffer (.payload k nOffset pHeader) c = .done (.close (.empty k nOffset pHeader)) c := by
      simp only [go,if_neg size]
    refine walksStep there ?_
    simp only [takePayload,if_neg size,Outcome.bindAssoc,Outcome.bindDone]
    exact walksClose (.empty k nOffset pHeader) fun c => rest _ _

theorem walksLoop (fuel k : Nat) (nOffset : Int) (c : Ctx) :
    Walks env ops pBuffer (.round k nOffset) c (getFileLoop env ops pBuffer fuel k nOffset c) := by
  induction fuel generalizing k nOffset c with
  | zero => exact fun ends => absurd rfl (ends c)
  | succ fuel ih =>
    by_cases more : sizeofFilebufHeader ≤ uint ((pBuffer.length : Int) - nOffset)
    · by_cases outside : nOffset < 0 ∨ (pBuffer.length : Int) < nOffset + sizeofFilebufHeader
      · simp only [getFileLoop,if_pos more,if_pos outside]
        exact fun _ => ⟨1,by simp only [walk,go,if_pos more,if_pos outside]; rfl⟩
      · simp only [getFileLoop,if_pos more,if_neg outside]
        split
        · rename_i accepted
          refine walksBind ?_ fun _ c => walksPayload fun moved c => ih (k + 1) moved c
          simp only [go,if_pos more,if_neg outside,if_pos accepted]
        · rename_i refused
          refine walksStep ?_ (walksLeave nOffset)
          simp only [go,if_pos more,if_neg outside,if_neg refused]
    · simp only [getFileLoop,if_neg more]
      refine walksStep ?_ (walksLeave nOffset)
      simp only [go,if_neg more]

theorem walksBody (c : Ctx) : Walks env ops pBuffer .parser c (parserBody env ops pBuffer c) := by
  by_cases running : c.session.nFileSize ≠ 0
  · simp only [parserBody,if_pos running]
    have step : go env ops pBuffer .parser c = (saveRest ops pBuffer c).bind fun nOffset c =>
        .done (if c.session.nSavedLength = c.session.nFileSize then .close (.rest nOffset) else .leave nOffset) c := by
      simp only [go,if_pos running]
    refine walksBind step fun nOffset c => ?_
    split
    · exact walksClose (.rest nOffset) fun c => walksLoop _ 0 nOffset c
    · exact walksLeave nOffset
  · simp only [parserBody,if_neg running]
    refine walksStep ?_ (walksLoop _ 0 0 c)
    simp only [go,if_neg running]

end Walk

/-! What a step means for the items and their counter. -/

def Dialog.statuses (d : Dialog) : List Bool := d.items.map FileItem.nStatus

def Place.holding : Place → Bool
  | .payload .. | .close _ | .count .. | .mark _ => true
  | _ => false

def Place.locked : Place → Bool
  | .count .. | .mark _ => true
  | _ => false

theorem lockedHolds {place : Place} (locked : place.locked = true) : place.holding = true := by
  cases place <;> first | rfl | cases locked

def Owns (place : Place) (session : Session) : Prop := session.nFileSize ≠ 0 ∨ place.holding = true

structure Quiet (c c' : Ctx) : Prop where
  statuses : c'.dialog.statuses = c.dialog.statuses
  m_vecFileTemp : c'.dialog.m_vecFileTemp = c.dialog.m_vecFileTemp
  m_nSavedFiles : c'.dialog.m_nSavedFiles = c.dialog.m_nSavedFiles
  pFileItem : c'.session.pFileItem = c.session.pFileItem
  nFileSize : c'.session.nFileSize ≠ 0 → c.session.nFileSize ≠ 0

theorem Quiet.refl (c : Ctx) : Quiet c c := ⟨rfl,rfl,rfl,rfl,id⟩

theorem Quiet.trans {c c' c'' : Ctx} (first : Quiet c c') (next : Quiet c' c'') : Quiet c c'' where
  statuses := next.statuses.trans first.statuses
  m_vecFileTemp := next.m_vecFileTemp.trans first.m_vecFileTemp
  m_nSavedFiles := next.m_nSavedFiles.trans first.m_nSavedFiles
  pFileItem := next.pFileItem.trans first.pFileItem
  nFileSize := fun running => first.nFileSize (next.nFileSize running)

section Effects
variable {env : Env} {ops : FileOps} {pBuffer : Bytes} {place : Place} {c : Ctx}

theorem modifyStatuses (d : Dialog) (i : Nat) (change : FileItem → FileItem) (nStatus : Bool → Bool)
    (same : ∀ item, (change item).nStatus = nStatus item.nStatus) :
    (d.items.modify i change).map FileItem.nStatus = d.statuses.modify i nStatus := by
  rw [Dialog.statuses]
  apply List.ext_getElem?
  intro j
  simp only [List.getElem?_map,List.getElem?_modify]
  cases d.items[j]? with
  | none => rfl
  | some item =>
    by_cases here : i = j
    · simp [here,same]
    · simp [here]

theorem quietItem (change : FileItem → FileItem) (same : ∀ item, (change item).nStatus = item.nStatus) (c : Ctx) :
    Quiet c (withItem change c).state := by
  unfold withItem
  split
  · exact Quiet.refl c
  · rename_i i there
    refine ⟨?_,rfl,rfl,rfl,id⟩
    rw [Dialog.statuses]
    exact (modifyStatuses c.dialog i change id same).trans (List.modify_id _ _)

theorem quietWrite (succeeds : Bool) (nOffset nToSave : Int) (c : Ctx) :
    Quiet c (write succeeds pBuffer nOffset nToSave c).state := by
  unfold write
  simp only
  split
  · exact ⟨rfl,rfl,rfl,rfl,id⟩
  · split
    · exact ⟨rfl,rfl,rfl,rfl,id⟩
    · split
      · simp only [Outcome.state,Ctx.on,Ctx.note,Rx.append]
        split <;> exact ⟨rfl,rfl,rfl,rfl,id⟩
      · exact ⟨rfl,rfl,rfl,rfl,id⟩

theorem quietBind {α β : Type} {o : Outcome Ctx α} {next : α → Ctx → Outcome Ctx β} (first : Quiet c o.state)
    (rest : ∀ a c', Quiet c' (next a c').state) : Quiet c (o.bind next).state :=
  Outcome.bindKeeps (I := Quiet c) first fun a c' quiet => quiet.trans (rest a c')

theorem quietNote (a : Access) (c : Ctx) : Quiet c (c.note a) := ⟨rfl,rfl,rfl,rfl,id⟩

theorem quietSaved (nSavedLength : Int) (nRecved : Uint) (c : Ctx) :
    Quiet c (withItem (fun item => {item with nRecved}) (c.on (Rx.setSaved nSavedLength))).state := by
  have first : Quiet c (c.on (Rx.setSaved nSavedLength)) := ⟨rfl,rfl,rfl,rfl,id⟩
  exact first.trans (quietItem (fun item => {item with nRecved}) (fun _ => rfl) _)

theorem quietRest (c : Ctx) : Quiet c (saveRest ops pBuffer c).state := by
  unfold saveRest
  simp only
  split
  · refine quietBind (quietWrite _ _ _ c) fun _ c => quietBind ?_ fun _ c => Quiet.refl c
    exact (quietNote _ c).trans (quietSaved _ _ _)
  · exact Quiet.refl c

theorem quietPayload (k : Nat) (nOffset : Int) (pHeader : FilebufHeader) (c : Ctx) :
    Quiet c (payloadPart ops k pBuffer nOffset pHeader c).state :=
  quietBind (quietWrite _ _ _ c) fun _ c => quietBind (quietSaved _ _ c) fun _ c => quietNote _ c

structure Announced (c c' : Ctx) : Prop where
  statuses : c'.dialog.statuses = c.dialog.statuses ++ [false]
  m_vecFileTemp : c'.dialog.m_vecFileTemp = c.dialog.m_vecFileTemp ++ [c.dialog.items.length]
  m_nSavedFiles : c'.dialog.m_nSavedFiles = c.dialog.m_nSavedFiles
  pFileItem : c'.session.pFileItem = some c.dialog.items.length

structure Counts (saved : Int) (c c' : Ctx) : Prop where
  statuses : c'.dialog.statuses = c.dialog.statuses
  m_vecFileTemp : c'.dialog.m_vecFileTemp = c.dialog.m_vecFileTemp
  m_nSavedFiles : c'.dialog.m_nSavedFiles = int (saved + 1)
  session : c'.session = c.session

structure Marks (p : Nat) (c c' : Ctx) : Prop where
  pFileItem : c.session.pFileItem = some p
  statuses : c'.dialog.statuses = c.dialog.statuses.modify p fun _ => true
  m_vecFileTemp : c'.dialog.m_vecFileTemp = c.dialog.m_vecFileTemp
  m_nSavedFiles : c'.dialog.m_nSavedFiles = c.dialog.m_nSavedFiles
  session : c'.session = c.session

inductive Went (c : Ctx) : Place → Outcome Ctx Place → Prop
  | quiet {place next : Place} {c' : Ctx} (quiet : Quiet c c') (owned : next.holding = true → Owns place c.session)
    (unlocked : place.locked = false ∧ next.locked = false) : Went c place (.done next c')
  | announced {k : Nat} {nOffset : Int} {pHeader : FilebufHeader} {c' : Ctx} (announced : Announced c c') :
    Went c (.round k nOffset) (.done (.payload k nOffset pHeader) c')
  | loaded {call : Closing} {c' : Ctx} (quiet : Quiet c c') (ended : c'.session.nFileSize = 0) :
    Went c (.close call) (.done (.count call c.dialog.m_nSavedFiles) c')
  | counted {call : Closing} {saved : Int} {c' : Ctx} (counts : Counts saved c c') :
    Went c (.count call saved) (.done (.mark call) c')
  | marked {call : Closing} {next : Place} {c' : Ctx} {p : Nat} (marks : Marks p c c') (free : next.holding = false) :
    Went c (.mark call) (.done next c')
  | thrown {place : Place} {c' : Ctx} (quiet : Quiet c c') (unlocked : place.locked = false) :
    Went c place (.thrown c')
  | stopped {place : Place} (why : Stop) (c' : Ctx) : Went c place (.stopped why c')

theorem acceptAnnounces {k : Nat} {nOffset : Int} {pHeader : FilebufHeader} {c' : Ctx}
    (accepted : acceptHeader env ops k pBuffer nOffset pHeader c = .done () c') : Announced c c' := by
  obtain ⟨name,rx⟩ := acceptDone env ops k accepted
  have item (succeeds : Bool) (r : Rx) : (r.openFile succeeds).session.pFileItem = r.session.pFileItem := by
    unfold Rx.openFile
    split <;> rfl
  constructor <;> rw [rx]
  · rw [openFileDialog]
    simp only [Dialog.statuses,Rx.announce,Rx.raiseCounters,List.map_append,List.map_singleton]
    rfl
  · rw [openFileDialog]
    rfl
  · rw [openFileDialog]
    rfl
  · rw [item]
    rfl

theorem wentBind {α : Type} {first : Outcome Ctx α} {next : α → Ctx → Place} (quiet : Quiet c first.state)
    (owned : Owns place c.session) (unlocked : place.locked = false) (free : ∀ a c', (next a c').locked = false) :
    Went c place (first.bind fun a c => .done (next a c) c) := by
  cases first with
  | done a c' => exact .quiet quiet (fun _ => owned) ⟨unlocked,free a c'⟩
  | thrown c' => exact .thrown quiet unlocked
  | stopped why c' => exact .stopped why c'

theorem closeWent (call : Closing) : Went c (.close call) (go env ops pBuffer (.close call) c) := by
  have reset : Quiet c ((c.on Rx.resetFile).on Rx.releaseHandle) := ⟨rfl,rfl,rfl,rfl,fun running => absurd rfl running⟩
  simp only [go,close]
  split
  · exact .thrown reset rfl
  · exact .loaded reset rfl

theorem markDone {p : Nat} (there : c.session.pFileItem = some p) :
    ∃ c', withItem (fun item => {item with nStatus := true}) c = .done () c' ∧ Marks p c c' := by
  unfold withItem
  rw [there]
  exact ⟨_,rfl,there,modifyStatuses c.dialog p _ _ fun _ => rfl,rfl,rfl,rfl⟩

theorem afterSame (call : Closing) (nDataLength : Int) (c : Ctx) : (call.after nDataLength c).toRx = c.toRx := by
  cases call <;> rfl

theorem nextOutside (call : Closing) : call.next.holding = false := by
  cases call <;> rfl

theorem markWent (call : Closing) : Went c (.mark call) (go env ops pBuffer (.mark call) c) := by
  rw [go]
  cases there : c.session.pFileItem with
  | none =>
    unfold withItem
    rw [there]
    exact .stopped _ _
  | some p =>
    obtain ⟨c',done,marks⟩ := markDone there
    rw [done]
    refine .marked ⟨there,?_,?_,?_,?_⟩ (nextOutside call) <;> rw [afterSame]
    · exact marks.statuses
    · exact marks.m_vecFileTemp
    · exact marks.m_nSavedFiles
    · exact marks.session

theorem goWent (place : Place) (c : Ctx) : Went c place (go env ops pBuffer place c) := by
  cases place with
  | parser =>
    simp only [go]
    split
    · rename_i running
      exact wentBind (quietRest c) (.inl running) rfl fun _ _ => by split <;> rfl
    · exact .quiet (Quiet.refl c) (fun held => by cases held) ⟨rfl,rfl⟩
  | round k nOffset =>
    simp only [go]
    split
    · split
      · exact .stopped _ _
      · split
        · generalize called : acceptHeader env ops k pBuffer nOffset _ _ = o
          cases o with
          | done a c' =>
            obtain ⟨statuses,m_vecFileTemp,m_nSavedFiles,pFileItem⟩ := acceptAnnounces called
            exact .announced ⟨statuses,m_vecFileTemp,m_nSavedFiles,pFileItem⟩
          | thrown c' =>
            simp only [acceptHeader] at called
            split at called <;> cases called
          | stopped why c' => exact .stopped why c'
        · exact .quiet (quietNote _ c) (fun held => by cases held) ⟨rfl,rfl⟩
    · exact .quiet (Quiet.refl c) (fun held => by cases held) ⟨rfl,rfl⟩
  | payload k nOffset pHeader =>
    by_cases size : pHeader.nFileSize ≠ 0
    · rw [goPayload size]
      exact wentBind (quietPayload k nOffset pHeader c) (.inr rfl) rfl fun _ _ => by split <;> rfl
    · simp only [go,if_neg size]
      exact .quiet (Quiet.refl c) (fun _ => .inr rfl) ⟨rfl,rfl⟩
  | close call => exact closeWent call
  | count call saved => exact .counted ⟨rfl,rfl,rfl,rfl⟩
  | mark call => exact markWent call
  | leave nOffset => exact .quiet (Quiet.refl c) (fun held => by cases held) ⟨rfl,rfl⟩

end Effects

end JokeDse
