import JokeDse.Stream

/-! The receive path of the dialog that came before the sessions: CJokeDSEDlg::ParserData with a GetFile of
its own (JokeDSEDlg.h), run on a CFileClient behind CSockClient::Recv. The members a CFileClient has are
those of a session. It finds the same files in a buffer as a session does, but it takes what it used up off
nDataLength twice, so part of what is left over is lost. -/
namespace JokeDse

namespace JokeDSEDlg

/-- The loop body behind FileSave.Open. An empty file has no branch of its own. -/
def takePayload (ops : FileOps) (k : Nat) (pBuffer : Bytes) (nOffset : Int) (pHeader : FilebufHeader) (c : Ctx) :
    Outcome Ctx Int :=
  let nDataLength : Int := pBuffer.length
  let nDataSize := int (int (nDataLength - nOffset) - pHeader.headerSize)
  let nToSave := if nDataSize ≤ c.session.nFileSize then nDataSize else c.session.nFileSize
  (write (ops (.written k)) pBuffer (int (nOffset + pHeader.headerSize)) nToSave c).bind fun _ c =>
  (withItem (fun item => {item with nRecved := toUint nToSave}) (c.on (Rx.setSaved nToSave))).bind fun _ c =>
  let moved := int (nOffset + int (pHeader.headerSize + nToSave))
  let c := c.note (.offset nOffset moved nDataLength)
  if c.session.nSavedLength = c.session.nFileSize then
    (closeFile (ops (.closed k)) c).bind fun _ c => .done moved c
  else .done moved c

def getFileLoop (env : Env) (ops : FileOps) (pBuffer : Bytes) :
    (fuel k : Nat) → (nOffset : Int) → Ctx → Outcome Ctx Int
  | 0, _, _, c => .stopped .endless c
  | fuel + 1, k, nOffset, c =>
    let nDataLength : Int := pBuffer.length
    if sizeofFilebufHeader ≤ uint (nDataLength - nOffset) then
      let c := c.note (.slice nOffset sizeofFilebufHeader nDataLength)
      if nOffset < 0 ∨ nDataLength < nOffset + sizeofFilebufHeader then .stopped .accessViolation c
      else
        let pHeader := FilebufHeader.ofMemory ((pBuffer.drop nOffset.toNat).take sizeofFilebufHeader)
        if pHeader.checkPreFix && pHeader.checkCRC &&
            decide (int (pHeader.headerSize + nOffset) < nDataLength) then
          (acceptHeader env ops k pBuffer nOffset pHeader c).bind fun _ c =>
          (takePayload ops k pBuffer nOffset pHeader c).bind fun moved c =>
          getFileLoop env ops pBuffer fuel (k + 1) moved c
        else .done nOffset c
    else .done nOffset c

def getFile (env : Env) (ops : FileOps) (pBuffer : Bytes) (nOffset : Int) (c : Ctx) : Outcome Ctx Int :=
  getFileLoop env ops pBuffer (pBuffer.length + 1) 0 nOffset c

/-- What stands in front of the last test of ParserData: nOffset and nDataLength, which GetFile's result is
taken off here already. -/
def parserDataBody (env : Env) (ops : FileOps) (pBuffer : Bytes) (c : Ctx) : Outcome Ctx (Int × Int) :=
  let nDataLength : Int := pBuffer.length
  let searched (nOffset : Int) (c : Ctx) : Outcome Ctx (Int × Int) :=
    (getFile env ops pBuffer nOffset c).bind fun nOffset c => .done (nOffset,int (nDataLength - nOffset)) c
  if c.session.nFileSize ≠ 0 then
    (saveRest ops pBuffer c).bind fun nOffset c =>
    (if c.session.nSavedLength = c.session.nFileSize then
      (withItem (fun item => {item with nRecved := toUint c.session.nFileSize}) c).bind fun _ c =>
      closeFile (ops .midClose) c
    else .done () c).bind fun _ c =>
    if 0 < nDataLength then searched nOffset c else .done (nOffset,nDataLength) c
  else searched 0 c

end JokeDSEDlg

def Buffer.slide (n count : Nat) (b : Buffer) : Buffer where
  bytes := (b.bytes.drop n).take count
  size := b.size
  fits := by
    have fits := b.fits
    rw [List.length_take,List.length_drop]
    omega
  isInt := b.isInt

namespace JokeDSEDlg

def caught (nFileSize nDataLength : Int) (c : Ctx) : Ctx :=
  let e : FileException := if nFileSize ≠ 0 then ⟨306,nDataLength⟩ else ⟨0,0⟩
  {c with m_vecMessage := c.m_vecMessage ++ [e], m_nExceptions := int (c.m_nExceptions + 1)}

def parserData (env : Env) (ops : FileOps) (s : Conn) : Outcome Conn Unit :=
  match parserDataBody env ops s.pBuffer.bytes s.toCtx with
  | .done (nOffset,nDataLength) c =>
    if nOffset < nDataLength then
      let c := c.note (.slice nOffset (nDataLength - nOffset) s.pBuffer.bytes.length)
      if nOffset < 0 ∨ (s.pBuffer.bytes.length : Int) < nDataLength then .stopped .accessViolation ⟨c,s.pBuffer⟩
      else .done () ⟨c,s.pBuffer.slide nOffset.toNat (nDataLength - nOffset).toNat⟩
    else .done () ⟨c,s.pBuffer.discard s.pBuffer.bytes.length⟩
  | .thrown c => .done () ⟨caught s.session.nFileSize s.pBuffer.bytes.length c,s.pBuffer⟩
  | .stopped why c => .stopped why ⟨c,s.pBuffer⟩

def recv (data : Bytes) (pRecvBuffer : Buffer) : Merge :=
  if data = [] then .returned false pRecvBuffer else memMerge (fun _ => true) pRecvBuffer data

def onRecv (env : Env) (ops : FileOps) (data : Bytes) (s : Conn) : Outcome Conn Unit :=
  match recv data s.pBuffer with
  | .returned _ pBuffer =>
    if 0 < pBuffer.bytes.length then parserData env ops {s with pBuffer} else .done () {s with pBuffer}
  | .endless => .stopped .endless s
  | .overrun => .stopped .accessViolation s

def run (env : Env) : List (Bytes × FileOps) → Conn → Outcome Conn Unit
  | [], s => .done () s
  | (data,ops) :: rest, s => (onRecv env ops data s).bind fun _ s => run env rest s

end JokeDSEDlg

def FileClient.new (dialog : Dialog) (disk : Disk) : Conn :=
  ⟨⟨⟨Session.new,dialog,disk⟩,[],0,[]⟩,⟨[],65536,by decide,by decide⟩⟩

/-! Inside the try the two paths do the same. -/

namespace JokeDSEDlg
open Framing

theorem takeLeaves (env : Env) {pBuffer : Bytes} {k o : Nat} {c : Ctx} {h : FilebufHeader} {r : Rx} {front : Bytes}
    (inside : o + h.headerSize < pBuffer.length) (small : pBuffer.length ≤ 1073741824)
    (rx : c.toRx = r.filled env ⟨h,front,[]⟩) :
    Leaves (takePayload allSucceed k pBuffer o h c) (o + h.headerSize + (payloadThere pBuffer o h).length : Nat) c
      (r.settled env ⟨h,front,payloadThere pBuffer o h⟩) (payloadThere pBuffer o h).length := by
  have splits : takePayload allSucceed k pBuffer o h c =
      (payloadPart allSucceed k pBuffer o h c).bind fun moved c =>
        if c.session.nSavedLength = c.session.nFileSize then
          (closeFile (allSucceed (.closed k)) c).bind fun _ c => .done moved c
        else .done moved c := by
    simp only [takePayload,payloadPart,Outcome.bindAssoc,Outcome.bindDone]
  rw [splits]
  exact (payloadLeaves env k inside small rx).bind (m := 0) fun _ rx' => settleLeaves env k _ rx'

theorem getFileRounds (env : Env) (pBuffer : Bytes) :
    Rounds env pBuffer (getFileLoop env allSucceed pBuffer) (takePayload allSucceed · pBuffer) where
  tests := fun _ _ _ _ => rfl
  takes := fun inside small rx => takeLeaves env inside small rx

section Body
variable (env : Env) {pBuffer : Bytes} {c : Ctx}

def offsets (pBuffer : Bytes) (n : Nat) : Int × Int := (n,(pBuffer.length - n : Nat))

theorem searchLeaves {o : Nat} (small : pBuffer.length ≤ 1073741824) (inside : o ≤ pBuffer.length)
    (idle : c.toRx.Idle) (admissible : ∀ f ∈ (decode fileFormat (pBuffer.drop o)).all, Admissible f) :
    Leaves ((getFile env allSucceed pBuffer o c).bind fun nOffset c => .done (nOffset,int (pBuffer.length - nOffset)) c)
      (offsets pBuffer (pBuffer.length - (decode fileFormat (pBuffer.drop o)).pending.length)) c
      (c.toRx.image env (decode fileFormat (pBuffer.drop o)))
      ((pBuffer.drop o).length - (decode fileFormat (pBuffer.drop o)).pending.length) := by
  have found := roundsLeave env (getFileRounds env pBuffer) small (pBuffer.drop o) o (pBuffer.length + 1) 0 c rfl inside
    (by rw [List.length_drop]; omega) idle admissible
  refine found.bind (m := 0) ?_
  intro c' rx'
  rw [intSub (by omega) (by omega),← rx']
  exact Leaves.done _ _

theorem filledAgain (r : Rx) (f : Frame fileFormat) :
    (r.filled env f).setItem r.dialog.items.length (fun item => {item with nRecved := toUint f.body.length}) =
      r.filled env f := by
  have more := filledMore env r f []
  rwa [appendNil,List.append_nil] at more

theorem bodyRunning {r : Rx} {f : Frame fileFormat} (rx : c.toRx = r.filled env f)
    (size : f.head.nFileSize.toNat < 2147483648) (short : f.body.length + pBuffer.length < f.head.nFileSize.toNat)
    (small : pBuffer.length ≤ 1073741824) :
    Leaves (parserDataBody env allSucceed pBuffer c) (offsets pBuffer pBuffer.length) c
      (r.filled env {f with body := f.body ++ pBuffer}) pBuffer.length := by
  have more : (f.head.nFileSize.toNat : Int) ≠ 0 := by omega
  obtain ⟨rest,left⟩ := restShort env rx size short small
  simp only [parserDataBody,rx,Rx.filledSize]
  rw [if_pos more]
  refine rest.bind (m := 0) ?_
  intro c₁ rx₁
  simp only [rx₁,Rx.filledSize,Rx.filledSaved]
  rw [if_neg left,Outcome.bindDone,← rx₁]
  by_cases some : 0 < pBuffer.length
  · -- GetFile is called here as well, but nothing stands behind nOffset.
    have stays : getFile env allSucceed pBuffer pBuffer.length c₁ =
        .done (pBuffer.length : Nat) (looked pBuffer pBuffer.length c₁) := by
      rw [getFile,(getFileRounds env pBuffer).tests]
      exact testedWaits (Nat.le_refl _) small (endWaits pBuffer)
    rw [if_pos (by omega),stays,Outcome.bindDone,intSub (Nat.le_refl _) (by omega)]
    exact ⟨_,rfl,lookedRx _ _ _,lookedTaken _ _ _⟩
  · have none : pBuffer.length = 0 := by omega
    rw [if_neg (by omega),offsets,Nat.sub_self,none]
    exact Leaves.done _ _

theorem bodyCompletes {r : Rx} {f : Frame fileFormat} (need : Nat) (rx : c.toRx = r.filled env f)
    (size : f.head.nFileSize.toNat < 2147483648) (running : f.body.length < f.head.nFileSize.toNat)
    (small : pBuffer.length ≤ 1073741824) (whole : f.body.length + need = f.head.nFileSize.toNat)
    (enough : need ≤ pBuffer.length) (admissible : ∀ g ∈ (decode fileFormat (pBuffer.drop need)).all, Admissible g) :
    Leaves (parserDataBody env allSucceed pBuffer c)
      (offsets pBuffer (pBuffer.length - (decode fileFormat (pBuffer.drop need)).pending.length)) c
      ((r.delivered env {f with body := f.body ++ pBuffer.take need}).image env (decode fileFormat (pBuffer.drop need)))
      (pBuffer.length - (decode fileFormat (pBuffer.drop need)).pending.length) := by
  have more : (f.head.nFileSize.toNat : Int) ≠ 0 := by omega
  have all := bodyWhole enough whole
  have used := usedBehind enough
  simp only [parserDataBody,rx,Rx.filledSize]
  rw [if_pos more,used]
  refine (restLeaves env need rx running size small (by omega)).bind ?_
  intro c₁ rx₁
  simp only [rx₁,Rx.filledSize,Rx.filledSaved]
  have some : (0 : Int) < pBuffer.length := by omega
  simp only [if_pos all,if_pos some]
  rw [← used]
  have closed : Leaves ((withItem (fun item => {item with nRecved := toUint f.head.nFileSize.toNat}) c₁).bind
      fun _ c => closeFile (allSucceed .midClose) c) () c₁
      (r.delivered env {f with body := f.body ++ pBuffer.take need}) 0 := by
    have item := withItemLeaves (c := c₁) (i := r.dialog.items.length) (by rw [rx₁]; rfl)
      (fun item => {item with nRecved := toUint f.head.nFileSize.toNat})
    rw [← all,rx₁,filledAgain env r {f with body := f.body ++ pBuffer.take need},all] at item
    exact item.bind (m := 0) fun _ rx₂ => closeLeaves rx₂
  refine closed.bind ?_
  intro c₂ rx₂
  have behind := searchLeaves env (o := need) (c := c₂) small enough (by rw [rx₂]; exact Rx.deliveredIdle _ _ _)
    admissible
  rwa [rx₂] at behind

theorem parserDataFeeds (small : pBuffer.length ≤ 1073741824) :
    Feeds env pBuffer (parserDataBody env allSucceed pBuffer) (offsets pBuffer) where
  idle := by
    intro c still admissible
    simp only [parserDataBody]
    rw [if_neg (by simpa using still.nFileSize)]
    exact searchLeaves env (o := 0) small (Nat.zero_le _) still admissible
  running := fun rx size short => bodyRunning env rx size short small
  completes := fun need rx size running whole enough admissible =>
    bodyCompletes env need rx size running small whole enough admissible

end Body

/-! What ParserData keeps: it takes the octets used up off nDataLength once more before memmove. -/

def leftOver (kept : Bytes) (used : Nat) : Bytes := kept.take (kept.length - used)

theorem leftOverWhole {kept : Bytes} {used : Nat} : leftOver kept used = kept ↔ kept = [] ∨ used = 0 := by
  constructor
  · intro whole
    have size := congrArg List.length whole
    rw [leftOver,List.length_take] at size
    rw [← List.length_eq_zero_iff]
    omega
  · rintro (rfl | rfl)
    · exact List.take_nil
    · exact List.take_of_length_le (Nat.le_refl _)

section Read
variable (env : Env) {r : Rx} {read : Bytes} {s : Conn}

theorem parserDataLeaves (ops : FileOps) {n : Nat} {kept : Bytes} (ends : kept <:+ s.pBuffer.bytes)
    (leaves : Leaves (parserDataBody env ops s.pBuffer.bytes s.toCtx)
      (offsets s.pBuffer.bytes (s.pBuffer.bytes.length - kept.length)) s.toCtx r n) :
    ∃ s', parserData env ops s = .done () s' ∧ s'.toRx = r ∧
      s'.pBuffer.bytes = leftOver kept (s.pBuffer.bytes.length - kept.length) ∧ s'.pBuffer.size = s.pBuffer.size := by
  obtain ⟨c,done,rx,_⟩ := leaves
  have length := ends.length_le
  have cut : s.pBuffer.bytes.drop (s.pBuffer.bytes.length - kept.length) = kept := (List.suffix_iff_eq_drop.mp ends).symm
  have back : s.pBuffer.bytes.length - (s.pBuffer.bytes.length - kept.length) = kept.length := by omega
  rw [offsets,back] at done
  simp only [parserData,done,leftOver]
  generalize s.pBuffer.bytes.length - kept.length = used at *
  by_cases more : used < kept.length
  · rw [if_pos (by omega),if_neg (by omega)]
    refine ⟨_,rfl,rx,?_,rfl⟩
    have count : ((kept.length : Int) - used).toNat = kept.length - used := by omega
    simp only [Buffer.slide,Int.toNat_natCast,cut,count]
  · have nothing : kept.length - used = 0 := by omega
    rw [if_neg (by omega),nothing]
    exact ⟨_,rfl,rx,by simp,rfl⟩

theorem recvAppends {pRecvBuffer : Buffer} {k : Nat} (high : k ≤ 30) (size : pRecvBuffer.size = 2 ^ k) {data : Bytes}
    (room : pRecvBuffer.bytes.length + data.length ≤ 1073741824) :
    ∃ result b j, recv data pRecvBuffer = .returned result b ∧ j ≤ 30 ∧ b.size = 2 ^ j ∧
      b.bytes = pRecvBuffer.bytes ++ data := by
  by_cases empty : data = []
  · exact ⟨false,pRecvBuffer,k,by rw [recv,if_pos empty],high,size,by rw [empty,List.append_nil]⟩
  · obtain ⟨result,b,j,merged,_,top,size',bytes⟩ := memMergeGrows high size room
    exact ⟨result,b,j,by rw [recv,if_neg empty,merged],top,size',bytes⟩

structure Holds (env : Env) (r : Rx) (read : Bytes) (s : Conn) : Prop where
  members : s.toRx = r.image env (decode fileFormat read)
  buffer : s.pBuffer.bytes = (decode fileFormat read).pending
  capacity : ∃ k, k ≤ 30 ∧ s.pBuffer.size = 2 ^ k

theorem onRecvFeeds {data : Bytes} (idle : r.Idle) (holds : Holds env r read s)
    (room : ((decode fileFormat read).pending ++ data).length ≤ 1073741824)
    (admissible : ∀ f ∈ (decode fileFormat (read ++ data)).all, Admissible f) :
    ∃ s', onRecv env allSucceed data s = .done () s' ∧ s'.toRx = r.image env (decode fileFormat (read ++ data)) ∧
      s'.pBuffer.bytes = leftOver (decode fileFormat (read ++ data)).pending
        (((decode fileFormat read).pending ++ data).length - (decode fileFormat (read ++ data)).pending.length) ∧
      ∃ k, k ≤ 30 ∧ s'.pBuffer.size = 2 ^ k := by
  obtain ⟨k,high,size⟩ := holds.capacity
  have fits : s.pBuffer.bytes.length + data.length ≤ 1073741824 := by
    rwa [holds.buffer,← List.length_append]
  obtain ⟨result,pBuffer,j,received,top,size',bytes⟩ := recvAppends high size fits
  rw [holds.buffer] at bytes
  simp only [onRecv,received]
  by_cases some : 0 < pBuffer.bytes.length
  · have leaves := bodyFeeds (c := s.toCtx) env (parserDataFeeds env (by rw [bytes]; exact room)) idle holds.members
      bytes admissible
    have suffix := feedPending (decode fileFormat read) data
    rw [feedDecode,← bytes] at suffix
    obtain ⟨s',done,rx,left,same⟩ := parserDataLeaves (s := {s with pBuffer}) env allSucceed suffix leaves
    rw [if_pos some]
    exact ⟨s',done,rx,by rw [left,bytes],j,top,by rw [same]; exact size'⟩
  · have none : pBuffer.bytes = [] := List.length_eq_zero_iff.mp (by omega)
    obtain ⟨pending,nothing⟩ := List.append_eq_nil_iff.mp (bytes.symm.trans none)
    rw [if_neg some,nothing,List.append_nil,pending]
    exact ⟨_,rfl,holds.members,none,j,top,size'⟩

theorem onRecvHangs {data : Bytes} (holds : Holds env r read s) (short : data.length ≤ 8192)
    (full : 1073741824 < ((decode fileFormat read).pending ++ data).length) :
    onRecv env allSucceed data s = .stopped .endless s := by
  obtain ⟨k,high,size⟩ := holds.capacity
  have fits := s.pBuffer.fits
  have bound : 2 ^ k ≤ 2 ^ 30 := Nat.pow_le_pow_right (by omega) high
  rw [List.length_append,← holds.buffer] at full
  have some : data ≠ [] := by
    rintro rfl
    rw [List.length_nil] at full
    omega
  obtain ⟨endless,_⟩ := memMergeHangs high size short full
  simp only [onRecv,recv]
  rw [if_neg some,endless]

end Read

end JokeDSEDlg

/-! The two paths side by side. -/

section Agreement
open Framing

structure Agree (s t : Conn) : Prop where
  files : s.disk.files = t.disk.files
  items : s.dialog.items = t.dialog.items
  retained : s.pBuffer.bytes = t.pBuffer.bytes

inductive SameResult : Outcome Conn Unit → Outcome Conn Unit → Prop where
  | done {s t : Conn} (agree : Agree s t) : SameResult (.done () s) (.done () t)
  | thrown {s t : Conn} (agree : Agree s t) : SameResult (.thrown s) (.thrown t)
  | stopped {s t : Conn} (why : Stop) (agree : Agree s t) : SameResult (.stopped why s) (.stopped why t)

/-- Each read leaves nothing pending, or it uses nothing up. Where what is pending and the next read go beyond
2^30 octets both paths hang in MemMerge. -/
def UsedUp : (read : Bytes) → List Bytes → Prop
  | _, [] => True
  | read, data :: rest =>
    let before := (decode fileFormat read).pending ++ data
    let kept := (decode fileFormat (read ++ data)).pending
    1073741824 < before.length ∨ (kept = [] ∨ kept = before) ∧ UsedUp (read ++ data) rest

variable (env : Env) {r : Rx} {read data : Bytes} {s t : Conn}

theorem holdsAgree (denotes : Denotes env r read [] s) (holds : JokeDSEDlg.Holds env r read t) : Agree s t where
  files := by rw [denotes.members,holds.members]
  items := by rw [denotes.members,holds.members]
  retained := by rw [denotes.buffer,holds.buffer,List.append_nil]

theorem doReadHangs (denotes : Denotes env r read [] s) (short : data.length ≤ 8192)
    (full : 1073741824 < ((decode fileFormat read).pending ++ data).length) :
    doRead env allSucceed data s = .stopped .endless s := by
  have buffer := denotes.buffer
  rw [List.append_nil] at buffer
  rw [List.length_append,← buffer] at full
  obtain ⟨endless,_⟩ := memMergeEndless denotes.capacity short full
  simp only [doRead,endless]

theorem readsSide (idle : r.Idle) (denotes : Denotes env r read [] s) (holds : JokeDSEDlg.Holds env r read t)
    (room : ((decode fileFormat read).pending ++ data).length ≤ 1073741824)
    (admissible : ∀ f ∈ (decode fileFormat (read ++ data)).all, Admissible f) :
    ∃ s' t', doRead env allSucceed data s = .done () s' ∧ JokeDSEDlg.onRecv env allSucceed data t = .done () t' ∧
      Denotes env r (read ++ data) [] s' ∧
      (Agree s' t' ↔ (decode fileFormat (read ++ data)).pending = [] ∨
        (decode fileFormat (read ++ data)).pending = (decode fileFormat read).pending ++ data) ∧
      (Agree s' t' → JokeDSEDlg.Holds env r (read ++ data) t') := by
  have buffer := denotes.buffer
  rw [List.append_nil] at buffer
  obtain ⟨s',read',denotes'⟩ := readFeeds env data idle denotes
    (by rw [buffer,← List.length_append]; exact room) (by rwa [List.nil_append])
  rw [List.nil_append] at denotes'
  obtain ⟨t',received,members,left,capacity⟩ := JokeDSEDlg.onRecvFeeds env idle holds room admissible
  have kept := denotes'.buffer
  rw [List.append_nil] at kept
  have ends := feedPending (decode fileFormat read) data
  rw [feedDecode] at ends
  refine ⟨s',t',read',received,denotes',?_,fun same => ⟨members,by rw [← same.retained,kept],capacity⟩⟩
  calc Agree s' t'
      ↔ t'.pBuffer.bytes = (decode fileFormat (read ++ data)).pending :=
        ⟨fun same => by rw [← same.retained,kept],fun same => ⟨by rw [denotes'.members,members],
          by rw [denotes'.members,members],by rw [kept,same]⟩⟩
    _ ↔ (decode fileFormat (read ++ data)).pending = [] ∨
        ((decode fileFormat read).pending ++ data).length - (decode fileFormat (read ++ data)).pending.length = 0 := by
        rw [left,JokeDSEDlg.leftOverWhole]
    _ ↔ (decode fileFormat (read ++ data)).pending = [] ∨
        (decode fileFormat (read ++ data)).pending = (decode fileFormat read).pending ++ data :=
        or_congr Iff.rfl ⟨fun all => ends.eq_of_length_le (by omega),fun all => by rw [all,Nat.sub_self]⟩

theorem runsAgree (idle : r.Idle) (reads : List Bytes) (short : ∀ data ∈ reads, data.length ≤ 8192) :
    ∀ {read : Bytes} {s t : Conn}, Denotes env r read [] s → JokeDSEDlg.Holds env r read t →
    (∀ f ∈ (decode fileFormat (read ++ reads.flatten)).all, Admissible f) →
    ((∀ n, SameResult (run env (smooth (reads.take n)) s) (JokeDSEDlg.run env (smooth (reads.take n)) t)) ↔
      UsedUp read reads) := by
  induction reads with
  | nil =>
    intro read s t denotes holds admissible
    refine iff_of_true (fun n => ?_) trivial
    rw [List.take_nil]
    exact .done (holdsAgree env denotes holds)
  | cons data rest ih =>
    intro read s t denotes holds admissible
    have short' := short data List.mem_cons_self
    -- The reads so far are none, or they begin with this one.
    have split : (∀ n, SameResult (run env (smooth ((data :: rest).take n)) s)
          (JokeDSEDlg.run env (smooth ((data :: rest).take n)) t)) ↔
        ∀ n, SameResult ((doRead env allSucceed data s).bind fun _ s => run env (smooth (rest.take n)) s)
          ((JokeDSEDlg.onRecv env allSucceed data t).bind fun _ t => JokeDSEDlg.run env (smooth (rest.take n)) t) := by
      constructor
      · exact fun all n => all (n + 1)
      · intro all n
        cases n with
        | zero => exact .done (holdsAgree env denotes holds)
        | succ n => exact all n
    rw [split,UsedUp]
    by_cases full : 1073741824 < ((decode fileFormat read).pending ++ data).length
    · rw [doReadHangs env denotes short' full,JokeDSEDlg.onRecvHangs env holds short' full]
      exact iff_of_true (fun _ => .stopped .endless (holdsAgree env denotes holds)) (.inl full)
    · rw [List.flatten_cons,← List.append_assoc] at admissible
      obtain ⟨s',t',read',received,denotes',same,still⟩ := readsSide env idle denotes holds (Nat.le_of_not_lt full)
        (admissibleEarlier admissible)
      simp only [read',received,Outcome.bindDone,full,false_or,← same]
      have later := fun agree => ih (fun d member => short d (List.mem_cons_of_mem _ member)) denotes' (still agree)
        admissible
      constructor
      · intro all
        have agree : Agree s' t' := by
          cases all 0 with
          | done agree => exact agree
        exact ⟨agree,(later agree).mp all⟩
      · exact fun ⟨agree,usedUp⟩ => (later agree).mpr usedUp

theorem startHolds (dialog : Dialog) (disk : Disk) :
    JokeDSEDlg.Holds env (Rx.start dialog disk) [] (FileClient.new dialog disk) := by
  have nothing := decodeNil fileFormat
  exact ⟨by rw [nothing]; rfl,by rw [nothing]; rfl,16,by decide,rfl⟩

theorem receiversAgree (dialog : Dialog) (disk : Disk) {reads : List Bytes} (short : ∀ data ∈ reads, data.length ≤ 8192)
    (declared : Declares reads.flatten) :
    (∀ n, SameResult (run env (smooth (reads.take n)) (Conn.new dialog disk))
      (JokeDSEDlg.run env (smooth (reads.take n)) (FileClient.new dialog disk))) ↔ UsedUp [] reads :=
  runsAgree env (Rx.startIdle dialog disk) reads short (startDenotes env dialog disk) (startHolds env dialog disk)
    (by rw [List.nil_append]; exact declared.admissible)

end Agreement

theorem shortFrameUsedUp : UsedUp [] [shortFrame.symbols] := by
  rw [UsedUp]
  refine .inr ⟨.inl ?_,trivial⟩
  rw [List.nil_append,shortFrameDecoded]

theorem receiversAgreeShort : SameResult
    (run plainEnv (smooth ([shortFrame.symbols].take 1)) (Conn.new plainDialog emptyDisk))
    (JokeDSEDlg.run plainEnv (smooth ([shortFrame.symbols].take 1)) (FileClient.new plainDialog emptyDisk)) :=
  (receiversAgree plainEnv plainDialog emptyDisk
    (by intro data member; rw [List.mem_singleton.mp member,shortFrameLength]; decide)
    (by rw [List.flatten_singleton]; exact shortFrameDeclares)).mpr shortFrameUsedUp 1

-- A read that ends inside the header of the next file.
def cutRead : Bytes := shortFrame.symbols ++ shortFrame.symbols.take 10

theorem cutHeaderLength : (shortFrame.symbols.take 10).length = 10 := by
  rw [List.length_take,shortFrameLength]
  rfl

theorem cutReadDecoded : Framing.decode fileFormat cutRead = ⟨[shortFrame],none,shortFrame.symbols.take 10⟩ := by
  have waits : accepts (shortFrame.symbols.take 10) = none := by
    cases found : accepts (shortFrame.symbols.take 10) with
    | none => rfl
    | some h =>
      have long := (acceptsSome found).1
      rw [cutHeaderLength] at long
      exact absurd long (by decide)
  rw [cutRead,← Framing.feedDecode,shortFrameDecoded,Framing.feed,List.nil_append,fileWaiting waits]
  rfl

theorem cutReadDeclares : Declares cutRead := by
  intro f member
  rw [cutReadDecoded] at member
  have same : f = shortFrame := by simpa [Framing.Reception.all] using member
  rw [same]
  decide

theorem restLost : Declares cutRead ∧ cutRead.length ≤ 8192 ∧
    ∃ s t, run plainEnv (smooth [cutRead]) (Conn.new plainDialog emptyDisk) = .done () s ∧
      JokeDSEDlg.run plainEnv (smooth [cutRead]) (FileClient.new plainDialog emptyDisk) = .done () t ∧
      s.pBuffer.bytes = shortFrame.symbols.take 10 ∧ t.pBuffer.bytes = [] ∧ ¬ Agree s t := by
  have length : cutRead.length = 41 := by rw [cutRead,List.length_append,shortFrameLength,cutHeaderLength]
  have nothing := Framing.decodeNil fileFormat
  have decoded : Framing.decode fileFormat ([] ++ cutRead) = ⟨[shortFrame],none,shortFrame.symbols.take 10⟩ := by
    rw [List.nil_append,cutReadDecoded]
  refine ⟨cutReadDeclares,by rw [length]; decide,?_⟩
  have room : ((Framing.decode fileFormat []).pending ++ cutRead).length ≤ 1073741824 := by
    rw [nothing,List.nil_append,length]
    decide
  obtain ⟨t,received,_,left,_⟩ := JokeDSEDlg.onRecvFeeds plainEnv (Rx.startIdle plainDialog emptyDisk)
    (startHolds plainEnv plainDialog emptyDisk) room (by rw [List.nil_append]; exact cutReadDeclares.admissible)
  have short : ∀ data ∈ [cutRead], data.length ≤ cutRead.length := readsShort (by rw [List.flatten_singleton])
  obtain ⟨s,done,denotes⟩ := streamFeeds plainEnv plainDialog emptyDisk short
    (by rw [List.flatten_singleton]; exact roomShort (by rw [length]; decide) _)
    (by rw [List.flatten_singleton]; exact cutReadDeclares.admissible)
  have kept : s.pBuffer.bytes = shortFrame.symbols.take 10 := by
    rw [denotes.buffer,List.flatten_singleton,cutReadDecoded,List.append_nil]
  have lost : t.pBuffer.bytes = [] := by
    rw [left,decoded,nothing,List.nil_append,length,cutHeaderLength,JokeDSEDlg.leftOver,cutHeaderLength]
    exact List.take_zero
  refine ⟨s,t,done,?_,kept,lost,?_⟩
  · simp only [smooth,List.map_cons,List.map_nil,JokeDSEDlg.run,received,Outcome.bindDone]
  · intro agree
    have size := congrArg List.length agree.retained
    rw [kept,lost,cutHeaderLength] at size
    exact absurd size (by decide)

end JokeDse
