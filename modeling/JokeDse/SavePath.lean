import JokeDse.Bounds
import JokeDse.Lib.Paths

/-! Where the received files go. GetFile joins m_strSavePath and the name that arrived, and checks
nothing; where the file ends up is up to the name. -/
namespace JokeDse
open Framing

def separator (ch : WChar) : Bool := ch == backslash || ch == 0x2F#16

def dot : WChar := 0x2E#16

/-- The name of a file that the received octets announce: they hold a header that passes both checks, and behind it
as many octets as it says, of which the ones before a NUL are the name. -/
def Arrived (received name : Bytes) : Prop :=
  ∃ (pHeader : FilebufHeader) (text : Bytes), pHeader.checkPreFix = true ∧ pHeader.checkCRC = true ∧
    text.length = pHeader.nNameSize.toNat ∧ pHeader.bytes ++ text <:+: received ∧ name = cstr text

theorem arrivedMore {received more name : Bytes} (arrived : Arrived received name) (within : received <:+: more) :
    Arrived more name := by
  obtain ⟨pHeader,text,marked,checked,length,there,same⟩ := arrived
  exact ⟨pHeader,text,marked,checked,length,there.trans within,same⟩

theorem arrivedHere {pBuffer name : Bytes} {nOffset : Int} {pHeader : FilebufHeader}
    (small : pBuffer.length ≤ 1073741824) (inside : ¬ (nOffset < 0 ∨ pBuffer.length < nOffset + sizeofFilebufHeader))
    (read : pHeader = FilebufHeader.ofMemory ((pBuffer.drop nOffset.toNat).take sizeofFilebufHeader))
    (valid : (pHeader.checkPreFix && pHeader.checkCRC &&
      decide (int (pHeader.headerSize + nOffset) < pBuffer.length)) = true)
    (copied : strncpy_s 1024 (pBuffer.drop (nOffset + sizeofFilebufHeader).toNat) pHeader.nNameSize.toNat = some name) :
    Arrived pBuffer name := by
  obtain ⟨o,rfl⟩ := Int.eq_ofNat_of_zero_le (show 0 ≤ nOffset by omega)
  simp only [Bool.and_eq_true,decide_eq_true_eq] at valid
  obtain ⟨⟨marked,checked⟩,room⟩ := valid
  have high := pHeader.headerSizeHigh
  have size : sizeofFilebufHeader = 26 := rfl
  have whole : pHeader.headerSize = 26 + pHeader.nNameSize.toNat := rfl
  rw [intAdd (by omega)] at room
  have memory : ((pBuffer.drop o).take 26).length = sizeofFilebufHeader := by
    rw [List.length_take,List.length_drop]
    omega
  refine ⟨pHeader,(pBuffer.drop (o + 26)).take pHeader.nNameSize.toNat,marked,checked,?_,?_,?_⟩
  · rw [List.length_take,List.length_drop]
    omega
  · have bytes : pHeader.bytes = (pBuffer.drop o).take 26 := by
      rw [read]
      exact FilebufHeader.bytesOfMemory memory
    rw [bytes,← List.drop_drop,← List.take_add]
    exact (List.take_prefix _ _).isInfix.trans (List.drop_suffix _ _).isInfix
  · unfold strncpy_s at copied
    dsimp only at copied
    split at copied <;> cases copied
    rfl

structure Rx.Opened (env : Env) (dialog : Dialog) (disk : Disk) (named : Bytes → Prop) (r : Rx) : Prop where
  savePath : r.dialog.m_strSavePath = dialog.m_strSavePath
  paths : ∃ names : List Bytes, r.disk.files.map SavedFile.strFileName =
    disk.files.map SavedFile.strFileName ++ names.map (fun name => dialog.m_strSavePath ++ env.unicodeString name) ∧
      ∀ name ∈ names, named name

def Ctx.Opened (env : Env) (dialog : Dialog) (disk : Disk) (named : Bytes → Prop) (c : Ctx) : Prop :=
  c.toRx.Opened env dialog disk named

section Keeps
variable {env : Env} {dialog : Dialog} {disk : Disk} {named : Bytes → Prop}

theorem Rx.Opened.same {r r' : Rx} (opened : r.Opened env dialog disk named)
    (savePath : r'.dialog.m_strSavePath = r.dialog.m_strSavePath)
    (paths : r'.disk.files.map SavedFile.strFileName = r.disk.files.map SavedFile.strFileName) :
    r'.Opened env dialog disk named where
  savePath := savePath.trans opened.savePath
  paths := by
    rw [paths]
    exact opened.paths

theorem modifyPaths (files : List SavedFile) (i : Nat) (data : Bytes) :
    (files.modify i fun f => {f with content := f.content ++ data}).map SavedFile.strFileName =
      files.map SavedFile.strFileName := by
  induction files generalizing i with
  | nil => simp
  | cons f files ih =>
    cases i with
    | zero => rfl
    | succ i => simp [ih]

theorem appendOpened {r : Rx} (data : Bytes) (opened : r.Opened env dialog disk named) :
    (r.append data).Opened env dialog disk named := by
  unfold Rx.append
  split
  · exact opened
  · exact opened.same rfl (modifyPaths _ _ _)

variable {c : Ctx}

theorem withItemOpened (change : FileItem → FileItem) (opened : c.Opened env dialog disk named) :
    (withItem change c).state.Opened env dialog disk named := by
  unfold withItem
  split
  · exact opened
  · exact opened.same rfl rfl

theorem writeOpened (succeeds : Bool) (pBuffer : Bytes) (nOffset nToSave : Int)
    (opened : c.Opened env dialog disk named) :
    (write succeeds pBuffer nOffset nToSave c).state.Opened env dialog disk named := by
  unfold write
  dsimp only
  split
  · exact opened
  · split
    · exact opened
    · split
      · exact appendOpened _ opened
      · exact opened

theorem closeFileOpened (succeeds : Bool) (opened : c.Opened env dialog disk named) :
    (closeFile succeeds c).state.Opened env dialog disk named := by
  unfold closeFile
  refine Outcome.bindKeeps ?_ ?_
  · unfold close
    split
    · exact opened.same rfl rfl
    · exact opened.same rfl rfl
  · intro _ c opened
    exact withItemOpened _ (opened.same rfl rfl)

theorem openOpened {r : Rx} (h : FilebufHeader) {name : Bytes} (arrived : named name) (succeeds : Bool)
    (opened : r.Opened env dialog disk named) : ((r.announce env h name).openFile succeeds).Opened env dialog disk named := by
  unfold Rx.openFile
  split
  · obtain ⟨names,paths,all⟩ := opened.paths
    refine ⟨opened.savePath,names ++ [name],?_,fun name' member => ?_⟩
    · simp only [Rx.announce,Rx.destFile,List.map_append,List.map_cons,List.map_nil,paths,opened.savePath,
        List.append_assoc]
    · rcases List.mem_append.mp member with earlier | last
      · exact all name' earlier
      · exact List.mem_singleton.mp last ▸ arrived
  · exact opened.same rfl rfl

theorem acceptOpened (ops : FileOps) (k : Nat) (pBuffer : Bytes) (nOffset : Int) (h : FilebufHeader)
    (arrives : ∀ name, strncpy_s 1024 (pBuffer.drop (nOffset + sizeofFilebufHeader).toNat) h.nNameSize.toNat = some name →
      named name) (opened : c.Opened env dialog disk named) :
    (acceptHeader env ops k pBuffer nOffset h c).state.Opened env dialog disk named := by
  have raised : (c.toRx.raiseCounters h).Opened env dialog disk named := opened.same rfl rfl
  unfold acceptHeader
  dsimp only
  split
  · exact raised
  · rename_i name copied
    exact openOpened h (arrives name copied) _ raised

theorem takeOpened (ops : FileOps) (k : Nat) (pBuffer : Bytes) (nOffset : Int) (h : FilebufHeader)
    (opened : c.Opened env dialog disk named) : (takePayload ops k pBuffer nOffset h c).state.Opened env dialog disk named := by
  unfold takePayload
  by_cases full : h.nFileSize ≠ 0
  · rw [if_pos full]
    dsimp only
    generalize (if int (int ((pBuffer.length : Int) - nOffset) - h.headerSize) ≤ c.session.nFileSize then _ else _) =
      nToSave
    refine Outcome.bindKeeps (writeOpened _ _ _ _ opened) ?_
    intro _ c opened
    refine Outcome.bindKeeps (withItemOpened _ (opened.same rfl rfl)) ?_
    intro _ c opened
    split
    · refine Outcome.bindKeeps (closeFileOpened _ opened) ?_
      exact fun _ _ kept => kept
    · exact opened
  · rw [if_neg full]
    refine Outcome.bindKeeps (closeFileOpened _ opened) ?_
    exact fun _ _ kept => kept

theorem getFileOpened (ops : FileOps) {pBuffer : Bytes} (small : pBuffer.length ≤ 1073741824)
    (arrives : ∀ name, Arrived pBuffer name → named name) (fuel k : Nat) (nOffset : Int)
    (opened : c.Opened env dialog disk named) :
    (getFileLoop env ops pBuffer fuel k nOffset c).state.Opened env dialog disk named := by
  induction fuel generalizing k nOffset c with
  | zero => exact opened
  | succ fuel ih =>
    unfold getFileLoop
    dsimp only
    split
    · split
      · exact opened
      · rename_i inside
        split
        · rename_i valid
          refine Outcome.bindKeeps (acceptOpened ops k pBuffer nOffset _ (fun name copied => ?_) opened) ?_
          · exact arrives name (arrivedHere small inside rfl valid copied)
          intro _ c opened
          refine Outcome.bindKeeps (takeOpened ops k pBuffer nOffset _ opened) ?_
          intro moved c opened
          exact ih (k + 1) moved opened
        · exact opened
    · exact opened

theorem saveRestOpened (ops : FileOps) (pBuffer : Bytes) (opened : c.Opened env dialog disk named) :
    (saveRest ops pBuffer c).state.Opened env dialog disk named := by
  unfold saveRest
  dsimp only
  split
  · refine Outcome.bindKeeps (writeOpened _ _ _ _ opened) ?_
    intro _ c opened
    refine Outcome.bindKeeps (withItemOpened _ (opened.same rfl rfl)) ?_
    exact fun _ _ kept => kept
  · exact opened

theorem bodyOpened (ops : FileOps) {pBuffer : Bytes} (small : pBuffer.length ≤ 1073741824)
    (arrives : ∀ name, Arrived pBuffer name → named name) (opened : c.Opened env dialog disk named) :
    (parserBody env ops pBuffer c).state.Opened env dialog disk named := by
  unfold parserBody
  split
  · refine Outcome.bindKeeps (saveRestOpened ops pBuffer opened) ?_
    intro nOffset c opened
    split
    · refine Outcome.bindKeeps (closeFileOpened _ opened) ?_
      intro _ c opened
      exact getFileOpened ops small arrives _ 0 nOffset opened
    · exact opened
  · exact getFileOpened ops small arrives _ 0 0 opened

end Keeps

structure Conn.Opened (env : Env) (dialog : Dialog) (disk : Disk) (received : Bytes) (s : Conn) : Prop where
  files : s.toRx.Opened env dialog disk (Arrived received)
  buffer : s.pBuffer.bytes <:+ received
  capacity : s.pBuffer.Doubled

section Runs
variable {env : Env} {dialog : Dialog} {disk : Disk} {received : Bytes} {s : Conn}

theorem openedMore {r : Rx} (more : Bytes) (opened : r.Opened env dialog disk (Arrived received)) :
    r.Opened env dialog disk (Arrived (received ++ more)) := by
  obtain ⟨savePath,names,paths,all⟩ := opened
  exact ⟨savePath,names,paths,fun name member => arrivedMore (all name member) (List.prefix_append _ _).isInfix⟩

theorem parserOpened (ops : FileOps) (opened : s.Opened env dialog disk received) :
    (parser env ops s).state.toRx.Opened env dialog disk (Arrived received) ∧
      ∀ s', parser env ops s = .done () s' → s'.Opened env dialog disk received := by
  have kept := bodyOpened (c := s.toCtx) ops opened.capacity.bound
    (fun name arrived => arrivedMore arrived opened.buffer.isInfix) opened.files
  have discards (n : Nat) : (s.pBuffer.discard n).bytes <:+ received :=
    (List.drop_suffix n s.pBuffer.bytes).trans opened.buffer
  unfold parser
  dsimp only
  generalize parserBody env ops s.pBuffer.bytes s.toCtx = outcome at kept
  cases outcome with
  | done nOffset c =>
    dsimp only
    split
    · split
      · exact ⟨kept,nofun⟩
      · refine ⟨kept,fun s' same => ?_⟩
        cases same
        exact ⟨kept,discards _,opened.capacity⟩
    · refine ⟨kept,fun s' same => ?_⟩
      cases same
      exact ⟨kept,discards _,opened.capacity⟩
  | thrown c =>
    refine ⟨kept,fun s' same => ?_⟩
    cases same
    exact ⟨kept,opened.buffer,opened.capacity⟩
  | stopped why c => exact ⟨kept,nofun⟩

theorem readOpened (ops : FileOps) {data : Bytes} (short : data.length ≤ 8192)
    (opened : s.Opened env dialog disk received) :
    (doRead env ops data s).state.toRx.Opened env dialog disk (Arrived (received ++ data)) ∧
      ∀ s', doRead env ops data s = .done () s' → s'.Opened env dialog disk (received ++ data) := by
  have more := openedMore data opened.files
  rcases Nat.lt_or_ge 1073741824 (s.pBuffer.bytes.length + data.length) with full | room
  · obtain ⟨endless,-⟩ := memMergeEndless opened.capacity short full
    simp only [doRead,endless]
    exact ⟨more,fun s' done => by cases done⟩
  · obtain ⟨pBuffer,doubled,bytes,called⟩ := readAppends env ops opened.capacity room
    have suffix : pBuffer.bytes <:+ received ++ data := by
      obtain ⟨front,same⟩ := opened.buffer
      exact ⟨front,by rw [bytes,← List.append_assoc,same]⟩
    rw [called]
    exact parserOpened (s := {s with pBuffer}) ops ⟨more,suffix,doubled⟩

theorem runOpened {steps : List (Bytes × FileOps)} (short : ∀ step ∈ steps, step.1.length ≤ 8192)
    (opened : s.Opened env dialog disk received) : (run env steps s).state.toRx.Opened env dialog disk
      (Arrived (received ++ (steps.map Prod.fst).flatten)) := by
  induction steps generalizing s received with
  | nil =>
    rw [List.map_nil,List.flatten_nil,List.append_nil]
    exact opened.files
  | cons step rest ih =>
    obtain ⟨kept,next⟩ := readOpened step.2 (short step List.mem_cons_self) opened
    rw [List.map_cons,List.flatten_cons,← List.append_assoc]
    unfold run
    cases read : doRead env step.2 step.1 s with
    | done _ s' => exact ih (fun step member => short step (List.mem_cons_of_mem _ member)) (next s' read)
    | thrown s' =>
      rw [read] at kept
      exact openedMore _ kept
    | stopped why s' =>
      rw [read] at kept
      exact openedMore _ kept

end Runs

theorem openedInside (env : Env) (dialog : Dialog) (disk : Disk) {steps : List (Bytes × FileOps)}
    (short : ∀ step ∈ steps, step.1.length ≤ 8192) :
    ∃ names : List Bytes, (run env steps (Conn.new dialog disk)).state.disk.files.map SavedFile.strFileName =
        disk.files.map SavedFile.strFileName ++
          names.map (fun name => dialog.m_strSavePath ++ env.unicodeString name) ∧
      ∀ name ∈ names, Arrived (steps.map Prod.fst).flatten name ∧
        (Paths.joined separator dialog.m_strSavePath (env.unicodeString name) = true →
          Paths.descends dot ((env.unicodeString name).splitOnP separator) 0 = true →
          Paths.Inside separator dot dialog.m_strSavePath (dialog.m_strSavePath ++ env.unicodeString name)) := by
  have start : (Conn.new dialog disk).Opened env dialog disk [] :=
    ⟨⟨rfl,[],(List.append_nil _).symm,nofun⟩,List.nil_suffix,(newSane dialog disk).capacity⟩
  obtain ⟨names,paths,all⟩ := (runOpened short start).paths
  rw [List.nil_append] at all
  exact ⟨names,paths,fun name member => ⟨all name member,fun separated down => Paths.joinedInside separated down⟩⟩

-- The file of shortFrame in two reads, the first of which ends inside its name.
theorem openedInsideShort : ∃ name, Arrived shortFrame.symbols name ∧
    (run plainEnv [(shortFrame.symbols.take 27,allSucceed),(shortFrame.symbols.drop 27,allSucceed)]
      (Conn.new plainDialog emptyDisk)).state.disk.files.map SavedFile.strFileName =
        [plainDialog.m_strSavePath ++ plainEnv.unicodeString name] ∧
    Paths.Inside separator dot plainDialog.m_strSavePath (plainDialog.m_strSavePath ++ plainEnv.unicodeString name) := by
  obtain ⟨names,paths,all⟩ := @openedInside plainEnv plainDialog emptyDisk
    [(shortFrame.symbols.take 27,allSucceed),(shortFrame.symbols.drop 27,allSucceed)] (by decide +kernel)
  have there : (run plainEnv [(shortFrame.symbols.take 27,allSucceed),(shortFrame.symbols.drop 27,allSucceed)]
      (Conn.new plainDialog emptyDisk)).state.disk.files.map SavedFile.strFileName = [[0x44,0x3A,0x5C,0x61]] := by
    decide +kernel
  have one := paths.symm.trans there
  rw [emptyDisk,List.map_nil,List.nil_append,List.map_eq_singleton_iff] at one
  obtain ⟨name,rfl,path⟩ := one
  obtain ⟨arrived,inside⟩ := all name List.mem_cons_self
  have letter : plainEnv.unicodeString name = [0x5C,0x61] := @List.append_cancel_left _ [0x44,0x3A] _ _ path
  refine ⟨name,?_,there.trans (congrArg (fun path => [path]) path.symm),inside ?_ ?_⟩
  · rwa [List.map_cons,List.map_cons,List.map_nil,List.flatten_cons,List.flatten_cons,List.flatten_nil,List.append_nil,
      List.take_append_drop] at arrived
  · rw [letter]
    decide +kernel
  · rw [letter]
    decide +kernel

-- A dialog that saves to `D:\S`.
def deepDialog : Dialog := {plainDialog with m_strSavePath := [0x44,0x3A,0x5C,0x53]}

-- The file `\..\x` with one octet.
def outsideFrame : Frame fileFormat where
  head := FilebufHeader.new [0x5C,0x2E,0x2E,0x5C,0x78] 1 1 1 0
  front := (FilebufHeader.new [0x5C,0x2E,0x2E,0x5C,0x78] 1 1 1 0).bytes ++ [0x5C,0x2E,0x2E,0x5C,0x78]
  body := [1]

theorem openedOutside : ¬ ∀ f ∈ (run plainEnv [(outsideFrame.symbols,allSucceed)]
    (Conn.new deepDialog emptyDisk)).state.disk.files,
    Paths.Inside separator dot deepDialog.m_strSavePath f.strFileName := by
  decide +kernel

end JokeDse
