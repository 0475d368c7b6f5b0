import JokeDse.Reading

/-! A connection as a whole: read after read, MemMerge and then Parser. What a session holds is said by
two pieces of the stream, the one it has dealt with and the one that only waits in pBuffer. -/
namespace JokeDse
open Framing

/-- The session has dealt with `read`: its members and files are what `read` brought, and pBuffer holds
what is pending of it and then `rest`. -/
structure Denotes (env : Env) (r : Rx) (read rest : Bytes) (s : Conn) : Prop where
  members : s.toRx = r.image env (decode fileFormat read)
  buffer : s.pBuffer.bytes = (decode fileFormat read).pending ++ rest
  taken : s.taken + (decode fileFormat read).pending.length = read.length
  capacity : s.pBuffer.Doubled
  admissible : ∀ f ∈ (decode fileFormat read).all, Admissible f

section Step
variable (env : Env) {r : Rx} {read rest : Bytes} {s : Conn}

theorem parserLeaves (ops : FileOps) {n : Nat} {kept : Bytes} (ends : kept <:+ s.pBuffer.bytes)
    (leaves : Leaves (parserBody env ops s.pBuffer.bytes s.toCtx) (s.pBuffer.bytes.length - kept.length : Nat)
      s.toCtx r n) :
    ∃ s', parser env ops s = .done () s' ∧ s'.toRx = r ∧ s'.taken = s.taken + n ∧ s'.pBuffer.bytes = kept ∧
      s'.pBuffer.size = s.pBuffer.size := by
  obtain ⟨c,done,rx,taken⟩ := leaves
  have length := ends.length_le
  have cut : s.pBuffer.bytes.drop (s.pBuffer.bytes.length - kept.length) = kept := (List.suffix_iff_eq_drop.mp ends).symm
  simp only [parser,done]
  by_cases none : kept = []
  · rw [none,List.length_nil,Nat.sub_zero,if_neg (by omega)]
    exact ⟨_,rfl,rx,taken,by simp [Buffer.discard],rfl⟩
  · have some : 0 < kept.length := List.length_pos_iff.mpr none
    rw [if_pos (by omega),if_neg (by omega)]
    refine ⟨_,rfl,rx,?_,cut,rfl⟩
    exact (noteNothing c rfl).trans taken

theorem readAppends (ops : FileOps) {data : Bytes} (capacity : s.pBuffer.Doubled)
    (room : s.pBuffer.bytes.length + data.length ≤ 1073741824) :
    ∃ pBuffer : Buffer, pBuffer.Doubled ∧ pBuffer.bytes = s.pBuffer.bytes ++ data ∧
      doRead env ops data s = parser env ops {s with pBuffer} := by
  obtain ⟨_,pBuffer,merged,doubled,bytes⟩ := memMergeAppends capacity room
  exact ⟨pBuffer,doubled,bytes,by simp only [doRead,merged]⟩

theorem readFeeds (data : Bytes) (idle : r.Idle) (holds : Denotes env r read rest s)
    (room : s.pBuffer.bytes.length + data.length ≤ 1073741824)
    (admissible : ∀ f ∈ (decode fileFormat (read ++ (rest ++ data))).all, Admissible f) :
    ∃ s', doRead env allSucceed data s = .done () s' ∧ Denotes env r (read ++ (rest ++ data)) [] s' := by
  obtain ⟨pBuffer,doubled,bytes,called⟩ := readAppends env allSucceed holds.capacity room
  have buffer : pBuffer.bytes = (decode fileFormat read).pending ++ (rest ++ data) := by
    rw [bytes,holds.buffer,List.append_assoc]
  have leaves := bodyFeeds (c := s.toCtx) env (parserFeeds env doubled.bound) idle holds.members buffer admissible
  have suffix := feedPending (decode fileFormat read) (rest ++ data)
  rw [feedDecode,← buffer] at suffix
  obtain ⟨s',done,rx,taken,kept,size⟩ := parserLeaves (s := {s with pBuffer}) env allSucceed suffix leaves
  refine ⟨s',by rw [called,done],rx,by rw [kept,List.append_nil],?_,?_,admissible⟩
  · have before := holds.taken
    have short := suffix.length_le
    have total := congrArg List.length buffer
    have taken' : s'.taken = s.taken +
        (pBuffer.bytes.length - (decode fileFormat (read ++ (rest ++ data))).pending.length) := taken
    simp only [List.length_append] at total ⊢
    omega
  · obtain ⟨k,low,high,same⟩ := doubled
    exact ⟨k,low,high,by rw [size]; exact same⟩

end Step

def smooth (reads : List Bytes) : List (Bytes × FileOps) := reads.map fun data => (data,allSucceed)

/-- However the stream is cut, what is pending and the next read fit 2^30 octets together. -/
def Room (limit : Nat) (stream : Bytes) : Prop :=
  ∀ p q, p ++ q <+: stream → q.length ≤ limit → (decode fileFormat p).pending.length + q.length ≤ 1073741824

theorem roomShort {stream : Bytes} (short : stream.length < 1073741824) (limit : Nat) : Room limit stream := by
  intro p q part _
  have pending := (decodePending (F := fileFormat) p).length_le
  have within := part.length_le
  rw [List.length_append] at within
  omega

theorem startDenotes (env : Env) (dialog : Dialog) (disk : Disk) :
    Denotes env (Rx.start dialog disk) [] [] (Conn.new dialog disk) := by
  have nothing := decodeNil fileFormat
  exact ⟨by rw [nothing]; rfl,by rw [nothing]; rfl,by rw [nothing]; rfl,⟨17,by decide,by decide,rfl⟩,
    by simp [nothing,Reception.all]⟩

theorem runFeeds (env : Env) {r : Rx} {limit : Nat} (idle : r.Idle) (reads : List Bytes)
    (short : ∀ data ∈ reads, data.length ≤ limit) :
    ∀ {read : Bytes} {s : Conn}, Denotes env r read [] s → Room limit (read ++ reads.flatten) →
    (∀ f ∈ (decode fileFormat (read ++ reads.flatten)).all, Admissible f) →
    ∃ s', run env (smooth reads) s = .done () s' ∧ Denotes env r (read ++ reads.flatten) [] s' := by
  induction reads with
  | nil =>
    intro read s holds room admissible
    exact ⟨s,rfl,by simpa using holds⟩
  | cons data reads ih =>
    intro read s holds room admissible
    rw [List.flatten_cons,← List.append_assoc] at room admissible ⊢
    have fits := room read data (List.prefix_append _ _) (short data List.mem_cons_self)
    obtain ⟨s₁,done,now⟩ := readFeeds env data idle holds
      (by rw [holds.buffer,List.append_nil]; exact fits) (admissibleEarlier admissible)
    obtain ⟨s₂,rest,last⟩ := ih (fun d member => short d (List.mem_cons_of_mem _ member)) now room admissible
    refine ⟨s₂,?_,last⟩
    rw [smooth,List.map_cons,run,done]
    exact rest

theorem streamFeeds (env : Env) {limit : Nat} (dialog : Dialog) (disk : Disk) {reads : List Bytes}
    (short : ∀ data ∈ reads, data.length ≤ limit) (room : Room limit reads.flatten)
    (admissible : ∀ f ∈ (decode fileFormat reads.flatten).all, Admissible f) :
    ∃ s, run env (smooth reads) (Conn.new dialog disk) = .done () s ∧
      Denotes env (Rx.start dialog disk) reads.flatten [] s := by
  have fed := runFeeds env (Rx.startIdle dialog disk) reads short (startDenotes env dialog disk) room
    admissible
  simpa using fed

theorem readsShort {reads : List Bytes} {stream : Bytes} (cut : reads.flatten = stream) :
    ∀ data ∈ reads, data.length ≤ stream.length := by
  intro data member
  rw [← cut]
  exact (List.sublist_flatten_of_mem member).length_le

section Cuts
variable (env : Env) (dialog : Dialog) (disk : Disk) {stream : Bytes}

theorem cutsAgree (short : stream.length < 1073741824) (declared : Declares stream) {a b : List Bytes}
    (cutA : a.flatten = stream) (cutB : b.flatten = stream) :
    ∃ s t, run env (smooth a) (Conn.new dialog disk) = .done () s ∧
      run env (smooth b) (Conn.new dialog disk) = .done () t ∧
      s.toRx = t.toRx ∧ s.pBuffer.bytes = t.pBuffer.bytes := by
  have each : ∀ {reads : List Bytes}, reads.flatten = stream → ∃ s,
      run env (smooth reads) (Conn.new dialog disk) = .done () s ∧ Denotes env (Rx.start dialog disk) stream [] s := by
    intro reads cut
    have fed := streamFeeds env dialog disk (readsShort cut) (by rw [cut]; exact roomShort short _)
      (by rw [cut]; exact declared.admissible)
    rwa [cut] at fed
  obtain ⟨s,doneA,holdsA⟩ := each cutA
  obtain ⟨t,doneB,holdsB⟩ := each cutB
  exact ⟨s,t,doneA,doneB,by rw [holdsA.members,holdsB.members],by rw [holdsA.buffer,holdsB.buffer]⟩

end Cuts

/-! A small receiver and a small stream to try things on. -/

def plainEnv : Env := ⟨fun name => name.map (BitVec.setWidth 16),fun _ _ => true⟩

-- A dialog that saves to `D:`.
def plainDialog : Dialog := ⟨[0x44,0x3A],0,0,0,0,[],[]⟩

def emptyDisk : Disk := ⟨[],[]⟩

-- The file `\a` with three octets.
def shortFrame : Frame fileFormat where
  head := FilebufHeader.new [0x5C,0x61] 3 1 1 0
  front := (FilebufHeader.new [0x5C,0x61] 3 1 1 0).bytes ++ [0x5C,0x61]
  body := [1,2,3]

theorem shortFrameWhole : shortFrame.Whole where
  toRead := builtRead (FilebufHeader.newChecks _ _ _ _ _).1 (FilebufHeader.newChecks _ _ _ _ _).2 (by decide) _
  body := by decide

theorem shortFrameLength : shortFrame.symbols.length = 31 := by
  rw [Frame.symbols,shortFrame,List.length_append,List.length_append,FilebufHeader.bytesLength]
  rfl

theorem shortFrameDecoded : decode fileFormat shortFrame.symbols = ⟨[shortFrame],none,[]⟩ := by
  have whole : ∀ f ∈ [] ++ [shortFrame], f.Whole := by simpa using shortFrameWhole
  have decoded := decodeEncodeLast whole
  rwa [List.nil_append,encodeCons,encodeNil,List.append_nil,if_neg (by decide)] at decoded

theorem shortFrameDeclares : Declares shortFrame.symbols := by
  intro f member
  rw [shortFrameDecoded] at member
  have same : f = shortFrame := by simpa [Reception.all] using member
  rw [same]
  decide

theorem cutsAgreeShort : ∃ s t, run plainEnv (smooth [shortFrame.symbols]) (Conn.new plainDialog emptyDisk) = .done () s ∧
    run plainEnv (smooth [shortFrame.symbols.take 10,shortFrame.symbols.drop 10]) (Conn.new plainDialog emptyDisk) =
      .done () t ∧ s.toRx = t.toRx ∧ s.pBuffer.bytes = t.pBuffer.bytes :=
  cutsAgree plainEnv plainDialog emptyDisk (by rw [shortFrameLength]; decide) shortFrameDeclares
    (by simp) (by simp)

/-! The two shapes of a session between reads. -/

structure Waiting (s : Conn) : Prop where
  nFileSize : s.session.nFileSize = 0
  nSavedLength : s.session.nSavedLength = 0
  FileSave : s.session.FileSave = none
  kept : s.pBuffer.bytes.length < sizeofFilebufHeader ∨
    ¬ ((FilebufHeader.ofMemory (s.pBuffer.bytes.take sizeofFilebufHeader)).checkPreFix = true ∧
      (FilebufHeader.ofMemory (s.pBuffer.bytes.take sizeofFilebufHeader)).checkCRC = true) ∨
    s.pBuffer.bytes.length ≤ (FilebufHeader.ofMemory (s.pBuffer.bytes.take sizeofFilebufHeader)).headerSize

structure Receiving (s : Conn) : Prop where
  some : 0 < s.session.nSavedLength
  running : s.session.nSavedLength < s.session.nFileSize
  kept : s.pBuffer.bytes = []
  file : ∃ i f, s.session.FileSave = .some i ∧ s.disk.files[i]? = .some f ∧
    (f.content.length : Int) = s.session.nSavedLength
  item : ∃ i item, s.session.pFileItem = .some i ∧ s.dialog.items[i]? = .some item ∧
    (item.nRecved.toNat : Int) = s.session.nSavedLength ∧ item.nStatus = false

def EarlierDone (n : Nat) (s : Conn) : Prop :=
  ∀ i item, n ≤ i → s.dialog.items[i]? = .some item → (s.session.nFileSize = 0 ∨ s.session.pFileItem ≠ .some i) →
    item.nStatus = true ∧ item.nRecved = item.nFileSize

section Shapes
variable {env : Env} {r : Rx} {stream : Bytes} {s : Conn}

theorem waitingShape (idle : r.Idle) (holds : Denotes env r stream [] s)
    (current : (decode fileFormat stream).current = none) : Waiting s := by
  have members : s.toRx = (decode fileFormat stream).frames.foldl (Rx.delivered env) r := by
    rw [holds.members,Rx.imageIdle current]
  have buffer : s.pBuffer.bytes = (decode fileFormat stream).pending := by rw [holds.buffer,List.append_nil]
  have still := Rx.foldlIdle env idle (decode fileFormat stream).frames
  rw [← members] at still
  refine ⟨still.nFileSize,still.nSavedLength,still.FileSave,?_⟩
  have waits : accepts s.pBuffer.bytes = none := by
    rw [buffer]
    exact (decodeSound (F := fileFormat) stream).waiting
  by_cases long : sizeofFilebufHeader ≤ s.pBuffer.bytes.length
  · have test := acceptsNone waits long
    by_cases valid : (FilebufHeader.ofMemory (s.pBuffer.bytes.take sizeofFilebufHeader)).checkPreFix = true ∧
        (FilebufHeader.ofMemory (s.pBuffer.bytes.take sizeofFilebufHeader)).checkCRC = true
    · refine .inr (.inr (Nat.le_of_not_lt fun beyond => test ⟨valid.1,valid.2,beyond⟩))
    · exact .inr (.inl valid)
  · exact .inl (Nat.lt_of_not_le long)

theorem receivingShape {f : Frame fileFormat} (holds : Denotes env r stream [] s)
    (current : (decode fileFormat stream).current = some f) : Receiving s := by
  obtain ⟨nonempty,running,none⟩ := (decodeSound (F := fileFormat) stream).running f current
  have running' : f.body.length < f.head.nFileSize.toNat := running
  have positive : 0 < f.body.length := List.length_pos_iff.mpr nonempty
  have bound := f.head.nFileSize.isLt
  have members : s.toRx = ((decode fileFormat stream).frames.foldl (Rx.delivered env) r).filled env f := by
    rw [holds.members,Rx.imageFilled current]
  generalize (decode fileFormat stream).frames.foldl (Rx.delivered env) r = before at members
  have kept : s.pBuffer.bytes = [] := by rw [holds.buffer,none,List.append_nil]
  refine ⟨?_,?_,kept,⟨_,before.fileOf env f,by rw [members]; rfl,?_,?_⟩,
    ⟨_,before.itemOf env f false,by rw [members]; rfl,?_,?_,rfl⟩⟩
  · rw [members,Rx.filledSaved]
    omega
  · rw [members,Rx.filledSaved,Rx.filledSize]
    omega
  · rw [members]
    exact List.getElem?_concat_length
  · rw [members]
    rfl
  · rw [members]
    exact List.getElem?_concat_length
  · have field : (before.itemOf env f false).nRecved.toNat = f.body.length := by
      simp only [Rx.itemOf,BitVec.toNat_ofNat]
      omega
    rw [members,field,Rx.filledSaved]

theorem completeDone {f : Frame fileFormat} (member : f ∈ (decode fileFormat stream).frames) :
    (r.itemOf env f true).nStatus = true ∧ (r.itemOf env f true).nRecved = (r.itemOf env f true).nFileSize := by
  have complete : f.body.length = f.head.nFileSize.toNat :=
    (decodeSound (F := fileFormat) stream).complete f member
  refine ⟨rfl,?_⟩
  simp only [Rx.itemOf,complete,BitVec.ofNat_toNat,BitVec.setWidth_eq]

theorem earlierDone (holds : Denotes env r stream [] s) : EarlierDone r.dialog.items.length s := by
  intro i item low found settled
  have items := Rx.imageItems env r (decode fileFormat stream)
  rw [← holds.members] at items
  have done : ∀ x ∈ (decode fileFormat stream).frames.map (fun f => r.itemOf env f true),
      x.nStatus = true ∧ x.nRecved = x.nFileSize := by
    intro x member
    obtain ⟨f,inside,rfl⟩ := List.mem_map.mp member
    exact completeDone inside
  refine done item ?_
  rw [items,List.append_assoc,List.getElem?_append_right low] at found
  cases current : (decode fileFormat stream).current with
  | none =>
    rw [current,Option.toList_none,List.map_nil,List.append_nil] at found
    exact List.mem_of_getElem? found
  | some f =>
    -- The last item is the open one, which `settled` excludes.
    have running := (decodeSound (F := fileFormat) stream).running f current
    have running' : f.body.length < f.head.nFileSize.toNat := running.2.1
    obtain ⟨_,before,_⟩ := Rx.foldlDelivered env r (decode fileFormat stream).frames
    have members : s.toRx = ((decode fileFormat stream).frames.foldl (Rx.delivered env) r).filled env f := by
      rw [holds.members,Rx.imageFilled current]
    have other : i ≠ r.dialog.items.length + (decode fileFormat stream).frames.length := by
      rintro rfl
      rw [members,Rx.filledSize,Rx.filledItem,before,List.length_append,List.length_map] at settled
      rcases settled with zero | differs
      · omega
      · exact differs rfl
    rw [current,Option.toList_some,List.map_cons,List.map_nil] at found
    have bound := (List.getElem?_eq_some_iff.mp found).1
    rw [List.length_append,List.length_map,List.length_singleton] at bound
    rw [List.getElem?_append_left (by rw [List.length_map]; omega)] at found
    exact List.mem_of_getElem? found

end Shapes

theorem sessionShapes (env : Env) (dialog : Dialog) (disk : Disk) {stream : Bytes}
    (short : stream.length < 1073741824) (declared : Declares stream) {reads : List Bytes}
    (cut : reads.flatten = stream) (n : Nat) :
    ∃ s, run env (smooth (reads.take n)) (Conn.new dialog disk) = .done () s ∧
      (Waiting s ∧ ¬ Receiving s ∨ Receiving s ∧ ¬ Waiting s) ∧ EarlierDone dialog.items.length s := by
  have parts : (reads.take n).flatten ++ (reads.drop n).flatten = stream := by
    rw [← List.flatten_append,List.take_append_drop,cut]
  have admissible := declared.admissible
  rw [← parts] at short admissible
  have first : (reads.take n).flatten.length < 1073741824 := by
    rw [List.length_append] at short
    omega
  obtain ⟨s,done,holds⟩ := streamFeeds env dialog disk (readsShort rfl) (roomShort first _)
    (admissibleEarlier admissible)
  refine ⟨s,done,?_,earlierDone holds⟩
  cases current : (decode fileFormat (reads.take n).flatten).current with
  | none =>
    have waiting := waitingShape (Rx.startIdle dialog disk) holds current
    refine .inl ⟨waiting,?_⟩
    intro receiving
    have some := receiving.some
    rw [waiting.nSavedLength] at some
    omega
  | some f =>
    have receiving := receivingShape holds current
    refine .inr ⟨receiving,?_⟩
    intro waiting
    have some := receiving.some
    rw [waiting.nSavedLength] at some
    omega

theorem sessionShapesShort : ∃ s, run plainEnv (smooth ([shortFrame.symbols.take 10,shortFrame.symbols.drop 10].take 1))
      (Conn.new plainDialog emptyDisk) = .done () s ∧
    (Waiting s ∧ ¬ Receiving s ∨ Receiving s ∧ ¬ Waiting s) ∧ EarlierDone plainDialog.items.length s :=
  sessionShapes plainEnv plainDialog emptyDisk (by rw [shortFrameLength]; decide) shortFrameDeclares (by simp) 1

end JokeDse
