import JokeDse.FileHeader

/-! The sending side: CJokeAssistApp::SendFile and the loop of SendThread (JokeAssist.cpp). What Windows
answers, how the socket takes the data and what other workers count in between are given for each call
of SendFile. -/
namespace JokeDse

structure FileInfo where
  strDir : CString
  strFile : CString
  deriving DecidableEq, Repr

/-- Everything one call of SendFile meets. The k-th Send of n octets returns `sends k n`, -1 for an error;
the k-th Read succeeds when `reads k`; `others` is what the other workers add to m_nSendFiles between
the two critical sections. -/
structure Surroundings where
  pathFileExists : Bool
  opens : Bool
  content : Bytes
  m_nFoundFiles : Uint
  m_nFiltedFiles : Uint
  others : Uint
  reads : Nat → Bool
  sends : Nat → Nat → Int
  low : ∀ k n, -1 ≤ sends k n
  high : ∀ k n, sends k n ≤ n

/-- `handed` are the arguments of Send in turn, `accepted` is what the connection took of them. -/
structure Sending where
  m_nSendFiles : Uint
  handed : List Bytes
  accepted : Bytes
  deriving DecidableEq, Repr

def Sending.new (m_nSendFiles : Uint) : Sending := ⟨m_nSendFiles,[],[]⟩

def Sending.send (s : Surroundings) (data : Bytes) (w : Sending) : Int × Sending :=
  let nSendNum := s.sends w.handed.length data.length
  (nSendNum,{w with handed := w.handed ++ [data], accepted := w.accepted ++ data.take nSendNum.toNat})

def nPackSize : Nat := 16 * 1024
def nBufferSize : Nat := 1 * 1024 * 1024

def sendBlock (s : Surroundings) (pBuffer : Bytes) : (fuel nOffset : Nat) → Sending → Outcome Sending Bool
  | 0, _, w => .stopped .endless w
  | fuel + 1, nOffset, w =>
    let nReadBytes := pBuffer.length
    if nOffset < nReadBytes then
      let nToSendBytes := if nPackSize ≤ nReadBytes - nOffset then nPackSize else nReadBytes - nOffset
      let (nSentBytes,w) := w.send s ((pBuffer.drop nOffset).take nToSendBytes)
      if nSentBytes ≠ nToSendBytes then .done false w
      else sendBlock s pBuffer fuel (nOffset + nToSendBytes) w
    else .done true w

def sendContent (s : Surroundings) : (fuel k : Nat) → (unread : Bytes) → Sending → Outcome Sending Bool
  | 0, _, _, w => .stopped .endless w
  | fuel + 1, k, unread, w =>
    if s.reads k then
      let pBuffer := unread.take nBufferSize
      if pBuffer = [] then .done true w
      else (sendBlock s pBuffer (pBuffer.length + 1) 0 w).bind fun sent w =>
        if sent then sendContent s fuel (k + 1) (unread.drop nBufferSize) w else .done false w
    else .thrown w

def builtHeader (szPath : Bytes) (m_nSendFiles : Uint) (s : Surroundings) : FilebufHeader :=
  let nFileSize := int s.content.length
  FilebufHeader.new szPath nFileSize (int s.m_nFoundFiles.toNat) (int m_nSendFiles.toNat)
    (int s.m_nFiltedFiles.toNat)

/-- SendFile. The constructor of CFile throws when the file cannot be opened; every handler returns
false. -/
def sendFile (ansiString : CString → Bytes) (s : Surroundings) (file : FileInfo) (m_nSendFiles : Uint) :
    Outcome Sending Bool :=
  let w := Sending.new m_nSendFiles
  if !s.pathFileExists then .done false w
  else if !s.opens then .done false w
  else match strcpy_s 1024 (ansiString file.strDir) with
    | none => .stopped .invalidParameter w
    | some szPath =>
      let w := {w with m_nSendFiles := w.m_nSendFiles + 1 + s.others}
      let fh := builtHeader szPath w.m_nSendFiles s
      let szPackage := fh.bytes ++ szPath.take fh.nNameSize.toNat
      let (nSentBytes,w) := w.send s (szPackage.take fh.headerSize)
      if (fh.headerSize : Int) ≠ nSentBytes then .done false w
      else match sendContent s (s.content.length + 1) 0 s.content w with
        | .thrown w => .done false w
        | ended => ended

structure Call where
  file : FileInfo
  surroundings : Surroundings
  m_nSendFiles : Uint
  returned : Bool
  accepted : Bytes

structure Worker where
  m_nSendFiles : Uint
  calls : List Call

def Worker.new (m_nSendFiles : Uint) : Worker := ⟨m_nSendFiles,[]⟩

def Worker.wire (t : Worker) : Bytes := (t.calls.map Call.accepted).flatten

def Worker.called (file : FileInfo) (s : Surroundings) (returned : Bool) (w : Sending) (t : Worker) : Worker :=
  ⟨w.m_nSendFiles,t.calls ++ [⟨file,s,t.m_nSendFiles,returned,w.accepted⟩]⟩

/-- SendThread's loop over the files it takes off the queue. After a file that failed the next one goes
over the same connection. -/
def sendThread (ansiString : CString → Bytes) : List (FileInfo × Surroundings) → Worker → Outcome Worker Unit
  | [], t => .done () t
  | (file,s) :: rest, t =>
    match sendFile ansiString s file t.m_nSendFiles with
    | .done returned w => sendThread ansiString rest (t.called file s returned w)
    | .thrown _ => .thrown t
    | .stopped why _ => .stopped why t

/-! What reaches Send and the connection. -/

structure Sent (data : Bytes) (w w' : Sending) : Prop where
  handed : w'.handed.flatten = w.handed.flatten ++ data
  accepted : w'.accepted = w.accepted ++ data
  counter : w'.m_nSendFiles = w.m_nSendFiles

structure Cut (data : Bytes) (w w' : Sending) : Prop where
  accepted : ∃ n ≤ data.length, w'.accepted = w.accepted ++ data.take n
  counter : w'.m_nSendFiles = w.m_nSendFiles

theorem Sent.trans {a b : Bytes} {w w' w'' : Sending} (first : Sent a w w') (second : Sent b w' w'') :
    Sent (a ++ b) w w'' where
  handed := by rw [second.handed,first.handed,List.append_assoc]
  accepted := by rw [second.accepted,first.accepted,List.append_assoc]
  counter := by rw [second.counter,first.counter]

theorem Sent.nothing (w : Sending) : Sent [] w w := ⟨by simp,by simp,rfl⟩

theorem Sent.cut {a b : Bytes} {w w' w'' : Sending} (first : Sent a w w') (second : Cut b w' w'') :
    Cut (a ++ b) w w'' where
  accepted := by
    obtain ⟨n,bound,taken⟩ := second.accepted
    refine ⟨a.length + n,by rw [List.length_append]; omega,?_⟩
    rw [taken,first.accepted,List.take_length_add_append,List.append_assoc]
  counter := by rw [second.counter,first.counter]

theorem Cut.of {a : Bytes} {w w' : Sending} (cut : Cut a w w') (b : Bytes) : Cut (a ++ b) w w' where
  accepted := by
    obtain ⟨n,bound,taken⟩ := cut.accepted
    refine ⟨n,by rw [List.length_append]; omega,?_⟩
    rw [taken,List.take_append_of_le_length bound]
  counter := cut.counter

theorem Cut.fromStart {a : Bytes} {w w' : Sending} (cut : Cut a w w') (start : w.accepted = []) :
    w'.accepted <+: a := by
  obtain ⟨n,_,taken⟩ := cut.accepted
  rw [taken,start,List.nil_append]
  exact List.take_prefix n a

theorem sendEnds (s : Surroundings) (data : Bytes) (w : Sending) :
    if (w.send s data).1 = data.length then Sent data w (w.send s data).2 else Cut data w (w.send s data).2 := by
  have high := s.high w.handed.length data.length
  have count : (w.send s data).1 = s.sends w.handed.length data.length := rfl
  split
  · rename_i all
    rw [count] at all
    refine ⟨by simp [Sending.send],?_,rfl⟩
    simp only [Sending.send,all,Int.toNat_natCast,List.take_length]
  · exact ⟨⟨_,by omega,rfl⟩,rfl⟩

structure Surroundings.Reliable (s : Surroundings) : Prop where
  pathFileExists : s.pathFileExists = true
  opens : s.opens = true
  reads : ∀ k, s.reads k = true
  sends : ∀ k n : Nat, s.sends k n = n

inductive Ends (s : Surroundings) (data : Bytes) (w : Sending) : Outcome Sending Bool → Prop where
  | all {w'} (sent : Sent data w w') : Ends s data w (.done true w')
  | cut {w'} (part : Cut data w w') (fault : ¬ s.Reliable) : Ends s data w (.done false w')
  | failed {w'} (part : Cut data w w') (fault : ¬ s.Reliable) : Ends s data w (.thrown w')

theorem Ends.after {s : Surroundings} {a b : Bytes} {w w' : Sending} {outcome : Outcome Sending Bool}
    (first : Sent a w w') (second : Ends s b w' outcome) : Ends s (a ++ b) w outcome := by
  cases second with
  | all sent => exact .all (first.trans sent)
  | cut part fault => exact .cut (first.cut part) fault
  | failed part fault => exact .failed (first.cut part) fault

theorem sendFault {s : Surroundings} {data : Bytes} {w : Sending} (short : (w.send s data).1 ≠ data.length) :
    ¬ s.Reliable := by
  intro reliable
  exact short (reliable.sends _ _)

theorem sendBlockEnds (s : Surroundings) (pBuffer : Bytes) {fuel : Nat} (o : Nat) (w : Sending)
    (fuelled : pBuffer.length - o < fuel) : Ends s (pBuffer.drop o) w (sendBlock s pBuffer fuel o w) := by
  induction fuel generalizing o w with
  | zero => omega
  | succ fuel ih =>
    simp only [sendBlock]
    by_cases more : o < pBuffer.length
    · rw [if_pos more]
      generalize size : (if nPackSize ≤ pBuffer.length - o then nPackSize else pBuffer.length - o) = n
      have count : 0 < n ∧ n ≤ pBuffer.length - o := by
        have positive : 0 < nPackSize := by decide
        split at size <;> omega
      have length : ((pBuffer.drop o).take n).length = n := by
        rw [List.length_take_of_le (by rw [List.length_drop]; omega)]
      have cut : (pBuffer.drop o).take n ++ pBuffer.drop (o + n) = pBuffer.drop o := by
        rw [← List.drop_drop,List.take_append_drop]
      have ends := sendEnds s ((pBuffer.drop o).take n) w
      by_cases all : (w.send s ((pBuffer.drop o).take n)).1 = n
      · rw [length,if_pos all] at ends
        have rest := Ends.after ends (ih (o + n) (w.send s ((pBuffer.drop o).take n)).2 (by omega))
        rw [cut] at rest
        rw [if_neg (not_not.mpr all)]
        exact rest
      · rw [length,if_neg all] at ends
        have part := ends.of (pBuffer.drop (o + n))
        rw [cut] at part
        rw [if_pos all]
        exact .cut part (sendFault (by rwa [length]))
    · rw [if_neg more,List.drop_of_length_le (by omega)]
      exact .all (.nothing w)

theorem sendContentEnds (s : Surroundings) (unread : Bytes) {fuel : Nat} (k : Nat) (w : Sending)
    (fuelled : unread.length < fuel) : Ends s unread w (sendContent s fuel k unread w) := by
  induction fuel generalizing unread k w with
  | zero => omega
  | succ fuel ih =>
    simp only [sendContent]
    by_cases readable : s.reads k = true
    · rw [if_pos readable]
      have positive : 0 < nBufferSize := by decide
      by_cases none : unread.take nBufferSize = []
      · have empty : unread = [] := by
          rcases List.take_eq_nil_iff.mp none with zero | empty
          · omega
          · exact empty
        rw [if_pos none,empty]
        exact .all (.nothing w)
      · rw [if_neg none]
        have block := sendBlockEnds s (unread.take nBufferSize) 0 w
          (show _ < (unread.take nBufferSize).length + 1 by omega)
        rw [List.drop_zero] at block
        have some : 0 < (unread.take nBufferSize).length := List.length_pos_iff.mpr none
        rw [List.length_take] at some
        have joined := List.take_append_drop nBufferSize unread
        generalize sendBlock s (unread.take nBufferSize) ((unread.take nBufferSize).length + 1) 0 w = outcome at *
        cases block with
        | @all w' sent =>
          have rest := Ends.after sent (ih (unread.drop nBufferSize) (k + 1) w'
            (by rw [List.length_drop]; omega))
          rw [joined] at rest
          simpa using rest
        | cut part fault => exact .cut (joined ▸ part.of _) fault
        | failed part fault => exact .failed (joined ▸ part.of _) fault
    · rw [if_neg readable]
      exact .failed ⟨⟨0,Nat.zero_le _,by simp⟩,rfl⟩ fun reliable => readable (reliable.reads k)

def sentName (ansiString : CString → Bytes) (file : FileInfo) : Bytes := cstr (ansiString file.strDir)

def sentHeader (ansiString : CString → Bytes) (s : Surroundings) (file : FileInfo) (m_nSendFiles : Uint) :
    FilebufHeader :=
  builtHeader (sentName ansiString file) (m_nSendFiles + 1 + s.others) s

section Frame
variable (ansiString : CString → Bytes) (s : Surroundings) (file : FileInfo) (m_nSendFiles : Uint)

theorem sentNameSize (name : (sentName ansiString file).length < 65536) :
    (sentHeader ansiString s file m_nSendFiles).nNameSize.toNat = (sentName ansiString file).length := by
  have size : strlen (sentName ansiString file) = (sentName ansiString file).length := by
    have free : (0 : Byte) ∉ sentName ansiString file := cstrFree _
    rw [strlen,cstrClean free]
  have field : (sentHeader ansiString s file m_nSendFiles).nNameSize =
      BitVec.ofNat 16 (strlen (sentName ansiString file)) := rfl
  rw [field,size,BitVec.toNat_ofNat]
  exact Nat.mod_eq_of_lt name

theorem sentPackage (name : (sentName ansiString file).length < 65536) :
    ((sentHeader ansiString s file m_nSendFiles).bytes ++ (sentName ansiString file).take
      (sentHeader ansiString s file m_nSendFiles).nNameSize.toNat).take
      (sentHeader ansiString s file m_nSendFiles).headerSize =
    (sentHeader ansiString s file m_nSendFiles).bytes ++ sentName ansiString file := by
  rw [sentNameSize ansiString s file m_nSendFiles name,List.take_length,FilebufHeader.headerSize,
    sentNameSize ansiString s file m_nSendFiles name,← FilebufHeader.bytesLength (sentHeader ansiString s file m_nSendFiles),
    ← List.length_append,List.take_length]

theorem sentPackageSize (name : (sentName ansiString file).length < 65536) :
    ((sentHeader ansiString s file m_nSendFiles).bytes ++ sentName ansiString file).length =
      (sentHeader ansiString s file m_nSendFiles).headerSize := by
  rw [List.length_append,FilebufHeader.bytesLength,FilebufHeader.headerSize,
    sentNameSize ansiString s file m_nSendFiles name]

theorem sendFileSends (exists_ : s.pathFileExists = true) (opens : s.opens = true)
    (name : (sentName ansiString file).length < 1024) :
    sendFile ansiString s file m_nSendFiles =
      let (nSentBytes,w) := (Sending.new (m_nSendFiles + 1 + s.others)).send s
        ((sentHeader ansiString s file m_nSendFiles).bytes ++ sentName ansiString file)
      if ((sentHeader ansiString s file m_nSendFiles).headerSize : Int) ≠ nSentBytes then .done false w
      else match sendContent s (s.content.length + 1) 0 s.content w with
        | .thrown w => .done false w
        | ended => ended := by
  have copied : strcpy_s 1024 (ansiString file.strDir) = some (sentName ansiString file) := if_pos name
  rw [← sentPackage ansiString s file m_nSendFiles (by omega)]
  simp only [sendFile,exists_,opens,copied]
  rfl

theorem sendFileMissing (missing : s.pathFileExists = false ∨ s.opens = false) :
    sendFile ansiString s file m_nSendFiles = .done false (Sending.new m_nSendFiles) := by
  unfold sendFile
  cases exists_ : s.pathFileExists with
  | false => rfl
  | true =>
    have opens : s.opens = false := missing.resolve_left (by simp [exists_])
    simp only [opens,Bool.not_true,Bool.not_false,if_true]
    rfl

theorem sendFileEnds (name : (sentName ansiString file).length < 1024) :
    ∃ sent w, sendFile ansiString s file m_nSendFiles = .done sent w ∧
      if sent = true then
        w.handed.flatten = (sentHeader ansiString s file m_nSendFiles).bytes ++ sentName ansiString file ++ s.content ∧
        w.accepted = (sentHeader ansiString s file m_nSendFiles).bytes ++ sentName ansiString file ++ s.content ∧
        w.m_nSendFiles = m_nSendFiles + 1 + s.others
      else
        ¬ s.Reliable ∧ w.accepted <+:
          (sentHeader ansiString s file m_nSendFiles).bytes ++ sentName ansiString file ++ s.content := by
  cases exists_ : s.pathFileExists with
  | false =>
    refine ⟨false,_,sendFileMissing ansiString s file m_nSendFiles (.inl exists_),?_⟩
    exact ⟨fun reliable => by simp [reliable.pathFileExists] at exists_,List.nil_prefix⟩
  | true =>
    cases opens : s.opens with
    | false =>
      refine ⟨false,_,sendFileMissing ansiString s file m_nSendFiles (.inr opens),?_⟩
      exact ⟨fun reliable => by simp [reliable.opens] at opens,List.nil_prefix⟩
    | true =>
      have size := sentPackageSize ansiString s file m_nSendFiles (by omega)
      have first := sendEnds s ((sentHeader ansiString s file m_nSendFiles).bytes ++ sentName ansiString file)
        (.new (m_nSendFiles + 1 + s.others))
      rw [sendFileSends ansiString s file m_nSendFiles exists_ opens name]
      rw [size] at first
      dsimp only
      by_cases all : ((Sending.new (m_nSendFiles + 1 + s.others)).send s
          ((sentHeader ansiString s file m_nSendFiles).bytes ++ sentName ansiString file)).1 =
          (sentHeader ansiString s file m_nSendFiles).headerSize
      · rw [if_pos all] at first
        rw [if_neg (not_not.mpr all.symm)]
        have whole := Ends.after first (sendContentEnds s s.content 0 _ (Nat.lt_succ_self _))
        generalize sendContent s (s.content.length + 1) 0 s.content _ = outcome at whole
        cases whole with
        | @all w' sent =>
          refine ⟨true,w',rfl,?_⟩
          rw [if_pos rfl]
          exact ⟨by simpa [Sending.new] using sent.handed,by simpa [Sending.new] using sent.accepted,sent.counter⟩
        | @cut w' part fault => exact ⟨false,w',rfl,fault,part.fromStart rfl⟩
        | @failed w' part fault => exact ⟨false,w',rfl,fault,part.fromStart rfl⟩
      · rw [if_neg all] at first
        rw [if_pos (Ne.symm all)]
        exact ⟨false,_,rfl,sendFault (by rwa [size]),(first.of _).fromStart rfl⟩

theorem sentFileSize :
    (sentHeader ansiString s file m_nSendFiles).nFileSize.toNat = s.content.length % 4294967296 := by
  have field : (sentHeader ansiString s file m_nSendFiles).nFileSize = toUint (int s.content.length) := rfl
  rw [field,toUintInt,toUintNat,BitVec.toNat_ofNat]

theorem sentTells {w : Sending} (name : (sentName ansiString file).length < 1024)
    (returned : sendFile ansiString s file m_nSendFiles = .done true w) :
    (w.handed.flatten = (sentHeader ansiString s file m_nSendFiles).bytes ++ sentName ansiString file ++ s.content ∧
      (sentHeader ansiString s file m_nSendFiles).nFileSize.toNat = s.content.length ∧
      (sentHeader ansiString s file m_nSendFiles).nNameSize.toNat = (sentName ansiString file).length) ↔
    s.content.length < 4294967296 := by
  obtain ⟨sent,w',ended,all⟩ := sendFileEnds ansiString s file m_nSendFiles name
  rw [returned] at ended
  injection ended with same same'
  subst same same'
  have size := sentFileSize ansiString s file m_nSendFiles
  constructor
  · rintro ⟨_,told,_⟩
    rw [← told]
    exact (sentHeader ansiString s file m_nSendFiles).nFileSize.isLt
  · intro fits
    exact ⟨all.1,by rw [size]; exact Nat.mod_eq_of_lt fits,sentNameSize ansiString s file m_nSendFiles (by omega)⟩

theorem sendFileReturns (reliable : s.Reliable) (name : (sentName ansiString file).length < 1024) :
    ∃ w, sendFile ansiString s file m_nSendFiles = .done true w ∧
      w.handed.flatten = (sentHeader ansiString s file m_nSendFiles).bytes ++ sentName ansiString file ++ s.content ∧
      w.accepted = (sentHeader ansiString s file m_nSendFiles).bytes ++ sentName ansiString file ++ s.content ∧
      w.m_nSendFiles = m_nSendFiles + 1 + s.others := by
  obtain ⟨sent,w,ended,all⟩ := sendFileEnds ansiString s file m_nSendFiles name
  cases sent with
  | true => exact ⟨w,ended,all⟩
  | false => exact absurd reliable all.1

end Frame

def undisturbed (content : Bytes) : Surroundings where
  pathFileExists := true
  opens := true
  content := content
  m_nFoundFiles := 1
  m_nFiltedFiles := 0
  others := 0
  reads _ := true
  sends _ n := n
  low _ _ := by omega
  high _ _ := Int.le_refl _

theorem undisturbedReliable (content : Bytes) : (undisturbed content).Reliable :=
  ⟨rfl,rfl,fun _ => rfl,fun _ _ => rfl⟩

def asciiString (name : CString) : Bytes := name.map (BitVec.setWidth 8)

-- `\a`
def shortName : FileInfo := ⟨[0x5C,0x61],[0x43,0x3A,0x5C,0x61]⟩

theorem sentTellsShort : ∃ w, sendFile asciiString (undisturbed [1,2,3]) shortName 0 = .done true w ∧
    w.handed.flatten = (sentHeader asciiString (undisturbed [1,2,3]) shortName 0).bytes ++
      sentName asciiString shortName ++ [1,2,3] ∧
    (sentHeader asciiString (undisturbed [1,2,3]) shortName 0).nFileSize.toNat = 3 ∧
    (sentHeader asciiString (undisturbed [1,2,3]) shortName 0).nNameSize.toNat =
      (sentName asciiString shortName).length := by
  obtain ⟨w,returned,_⟩ := sendFileReturns asciiString (undisturbed [1,2,3]) shortName 0 (undisturbedReliable _)
    (by decide)
  exact ⟨w,returned,(sentTells _ _ _ _ (by decide) returned).mpr (by decide)⟩

theorem longFileUntold : ∃ w,
    sendFile asciiString (undisturbed (List.replicate 4294967296 0)) shortName 0 = .done true w ∧
    ¬ (w.handed.flatten = (sentHeader asciiString (undisturbed (List.replicate 4294967296 0)) shortName 0).bytes ++
        sentName asciiString shortName ++ List.replicate 4294967296 0 ∧
      (sentHeader asciiString (undisturbed (List.replicate 4294967296 0)) shortName 0).nFileSize.toNat = 4294967296 ∧
      (sentHeader asciiString (undisturbed (List.replicate 4294967296 0)) shortName 0).nNameSize.toNat =
        (sentName asciiString shortName).length) := by
  have length : (undisturbed (List.replicate 4294967296 0)).content.length = 4294967296 := List.length_replicate
  generalize List.replicate 4294967296 (0 : Byte) = content at *
  obtain ⟨w,returned,_⟩ := sendFileReturns asciiString (undisturbed content) shortName 0 (undisturbedReliable _)
    (by decide)
  refine ⟨w,returned,?_⟩
  rintro ⟨_,told,_⟩
  rw [sentFileSize,length] at told
  contradiction

end JokeDse
