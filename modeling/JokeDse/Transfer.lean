import JokeDse.SendFile
import JokeDse.Stream

/-! Both ends of one connection: what SendThread sends is a stream of whole frames, and the session
reads it. -/
namespace JokeDse
open Framing

section Frames
variable (ansiString : CString → Bytes)

def sentFrame (s : Surroundings) (file : FileInfo) (m_nSendFiles : Uint) : Frame fileFormat where
  head := sentHeader ansiString s file m_nSendFiles
  front := (sentHeader ansiString s file m_nSendFiles).bytes ++ sentName ansiString file
  body := s.content

def sentFrames : List (FileInfo × Surroundings) → Uint → List (Frame fileFormat)
  | [], _ => []
  | (file,s) :: rest, m_nSendFiles =>
    sentFrame ansiString s file m_nSendFiles :: sentFrames rest (m_nSendFiles + 1 + s.others)

variable {ansiString}

theorem sentRead (s : Surroundings) {file : FileInfo} (m_nSendFiles : Uint)
    (name : (sentName ansiString file).length < 65536) : (sentFrame ansiString s file m_nSendFiles).Read :=
  have checks := FilebufHeader.newChecks _ _ _ _ _
  builtRead checks.1 checks.2 (sentNameSize ansiString s file m_nSendFiles name).symm s.content

theorem sentWhole {s : Surroundings} {file : FileInfo} (m_nSendFiles : Uint)
    (name : (sentName ansiString file).length < 65536) (size : s.content.length < 4294967296) :
    (sentFrame ansiString s file m_nSendFiles).Whole where
  toRead := sentRead s m_nSendFiles name
  body := by
    have field := sentFileSize ansiString s file m_nSendFiles
    rw [fileBodySize,sentFrame,field,Nat.mod_eq_of_lt size]

@[simp] theorem sentFrameName (s : Surroundings) (file : FileInfo) (m_nSendFiles : Uint) :
    fileName (sentFrame ansiString s file m_nSendFiles) = sentName ansiString file := by
  have free : (0 : Byte) ∉ sentName ansiString file := cstrFree _
  rw [fileName,sentFrame,List.drop_append_of_le_length (by rw [FilebufHeader.bytesLength]),
    List.drop_of_length_le (by rw [FilebufHeader.bytesLength]),List.nil_append,cstrClean free]

theorem sentAdmissible {s : Surroundings} {file : FileInfo} (m_nSendFiles : Uint)
    (name : (sentName ansiString file).length < 1024) (size : s.content.length < 2147483648) :
    Admissible (sentFrame ansiString s file m_nSendFiles) where
  size := by
    have field := sentFileSize ansiString s file m_nSendFiles
    have same := field.trans (Nat.mod_eq_of_lt (by omega))
    exact same ▸ size
  name := by rwa [sentFrameName]

structure Sendable (ansiString : CString → Bytes) (files : List (FileInfo × Surroundings)) : Prop where
  names : ∀ x ∈ files, (sentName ansiString x.1).length < 1024
  sizes : ∀ x ∈ files, x.2.content.length < 2147483648

theorem Sendable.rest {x : FileInfo × Surroundings} {files : List (FileInfo × Surroundings)}
    (sendable : Sendable ansiString (x :: files)) : Sendable ansiString files where
  names y member := sendable.names y (List.mem_cons_of_mem _ member)
  sizes y member := sendable.sizes y (List.mem_cons_of_mem _ member)

theorem sentFramesEach {files : List (FileInfo × Surroundings)} {m_nSendFiles : Uint} {f : Frame fileFormat}
    (member : f ∈ sentFrames ansiString files m_nSendFiles) :
    ∃ x ∈ files, ∃ n, f = sentFrame ansiString x.2 x.1 n := by
  induction files generalizing m_nSendFiles with
  | nil => contradiction
  | cons x files ih =>
    rcases List.mem_cons.mp member with rfl | later
    · exact ⟨x,List.mem_cons_self,_,rfl⟩
    · obtain ⟨y,inside,n,same⟩ := ih later
      exact ⟨y,List.mem_cons_of_mem _ inside,n,same⟩

section Sendable
variable {files : List (FileInfo × Surroundings)} (sendable : Sendable ansiString files) (m_nSendFiles : Uint)
include sendable

theorem Sendable.whole : ∀ f ∈ sentFrames ansiString files m_nSendFiles, f.Whole := by
  intro f member
  obtain ⟨x,inside,n,rfl⟩ := sentFramesEach member
  have name := sendable.names x inside
  have size := sendable.sizes x inside
  exact sentWhole n (by omega) (by omega)

theorem Sendable.admissible : ∀ f ∈ sentFrames ansiString files m_nSendFiles, Admissible f := by
  intro f member
  obtain ⟨x,inside,n,rfl⟩ := sentFramesEach member
  exact sentAdmissible n (sendable.names x inside) (sendable.sizes x inside)

end Sendable

theorem sendThreadSends {files : List (FileInfo × Surroundings)} (reliable : ∀ x ∈ files, x.2.Reliable)
    (sendable : Sendable ansiString files) (t : Worker) :
    ∃ t', sendThread ansiString files t = .done () t' ∧
      t'.wire = t.wire ++ encode (sentFrames ansiString files t.m_nSendFiles) := by
  induction files generalizing t with
  | nil => exact ⟨t,rfl,by simp [sentFrames]⟩
  | cons x files ih =>
    obtain ⟨file,s⟩ := x
    obtain ⟨w,returned,_,accepted,counter⟩ := sendFileReturns ansiString s file
      t.m_nSendFiles (reliable _ List.mem_cons_self) (sendable.names _ List.mem_cons_self)
    obtain ⟨t',ended,wire⟩ := ih (fun y member => reliable y (List.mem_cons_of_mem _ member)) sendable.rest
      (t.called file s true w)
    refine ⟨t',by simp only [sendThread,returned,ended],?_⟩
    have next : (t.called file s true w).m_nSendFiles = t.m_nSendFiles + 1 + s.others := counter
    rw [wire,next,sentFrames,encodeCons]
    simp [Worker.wire,Worker.called,accepted,sentFrame,Frame.symbols]

theorem sentWire {files : List (FileInfo × Surroundings)} {t : Worker} {m_nSendFiles : Uint}
    (reliable : ∀ x ∈ files, x.2.Reliable) (sendable : Sendable ansiString files)
    (sent : sendThread ansiString files (Worker.new m_nSendFiles) = .done () t) :
    t.wire = encode (sentFrames ansiString files m_nSendFiles) := by
  obtain ⟨t',ended,wire⟩ := sendThreadSends reliable sendable (Worker.new m_nSendFiles)
  rw [sent] at ended
  injection ended with _ same
  subst same
  exact wire

end Frames

section Parts
variable {fs : List (Frame fileFormat)} {p : Bytes}

theorem encodeRoom (whole : ∀ f ∈ fs, f.Whole) (part : p <+: encode fs) : Room 8192 p := by
  intro a b inside short
  have first : a <+: encode fs := ((List.prefix_append a b).trans inside).trans part
  have fronts : ∀ f ∈ fs, f.front.length ≤ 26 + 65535 := by
    intro f member
    have size := (whole f member).front
    rw [fileHeadSize] at size
    rw [size]
    exact f.head.headerSizeHigh
  have pending := decodeEncodePending whole fronts first
  omega

theorem partAdmissible (whole : ∀ f ∈ fs, f.Whole) (each : ∀ f ∈ fs, Admissible f) (part : p <+: encode fs) :
    ∀ f ∈ (decode fileFormat p).all, Admissible f := by
  obtain ⟨frames,running⟩ := decodeEncodePart whole part
  intro f member
  rcases List.mem_append.mp member with complete | current
  · exact each f (frames.subset complete)
  · obtain ⟨more,rest,same⟩ := running f (Option.mem_toList.mp current)
    have later := each {f with body := f.body ++ more} (by rw [same]; simp)
    exact ⟨later.size,later.name⟩

theorem partFeeds (env : Env) (dialog : Dialog) (disk : Disk) (whole : ∀ f ∈ fs, f.Whole)
    (each : ∀ f ∈ fs, Admissible f) (part : p <+: encode fs) {reads : List Bytes} (cut : reads.flatten = p)
    (short : ∀ data ∈ reads, data.length ≤ 8192) :
    ∃ s, run env (smooth reads) (Conn.new dialog disk) = .done () s ∧
      Denotes env (Rx.start dialog disk) p [] s := by
  have fed := streamFeeds env dialog disk short (by rw [cut]; exact encodeRoom whole part)
    (by rw [cut]; exact partAdmissible whole each part)
  rwa [cut] at fed

end Parts

/-! One small file on the way. -/

def shortList (content : Bytes) : List (FileInfo × Surroundings) := [(shortName,undisturbed content)]

theorem shortReliable (content : Bytes) : ∀ x ∈ shortList content, x.2.Reliable := by
  intro x member
  rw [List.mem_singleton.mp member]
  exact undisturbedReliable content

theorem shortSendable {content : Bytes} (size : content.length < 2147483648) :
    Sendable asciiString (shortList content) := by
  constructor
  · intro x member
    have name : (sentName asciiString shortName).length < 1024 := by decide
    rw [List.mem_singleton.mp member]
    exact name
  · intro x member
    rw [List.mem_singleton.mp member]
    exact size

theorem shortSent (content : Bytes) (size : content.length < 2147483648) :
    ∃ t, sendThread asciiString (shortList content) (Worker.new 0) = .done () t ∧
      t.wire.length = 28 + content.length := by
  obtain ⟨t,sent,wire⟩ := sendThreadSends (shortReliable content) (shortSendable size) (Worker.new 0)
  refine ⟨t,sent,?_⟩
  have name : sentName asciiString shortName = [0x5C,0x61] := by decide
  rw [wire]
  simp [shortList,sentFrames,sentFrame,Frame.symbols,name,Worker.wire,Worker.new,undisturbed,
    sizeofFilebufHeader]
  omega

-- `\b`
def otherName : FileInfo := ⟨[0x5C,0x62],[0x43,0x3A,0x5C,0x62]⟩

def twoFiles : List (FileInfo × Surroundings) := [(shortName,undisturbed [1,2,3]),(otherName,undisturbed [4,5])]

theorem twoReliable : ∀ x ∈ twoFiles, x.2.Reliable := by
  intro x member
  rcases List.mem_pair.mp member with rfl | rfl <;> exact undisturbedReliable _

theorem twoSendable : Sendable asciiString twoFiles := ⟨by decide,by decide⟩

theorem twoSent : ∃ t, sendThread asciiString twoFiles (Worker.new 0) = .done () t ∧ t.wire.length = 61 :=
  ⟨_,rfl,by decide +kernel⟩

section Prefixes
variable {ansiString : CString → Bytes} {files : List (FileInfo × Surroundings)} {t : Worker} {reads : List Bytes}

theorem receivedPart (env : Env) (dialog : Dialog) (disk : Disk) {m_nSendFiles : Uint}
    (reliable : ∀ x ∈ files, x.2.Reliable) (sendable : Sendable ansiString files)
    (sent : sendThread ansiString files (Worker.new m_nSendFiles) = .done () t) {p : Bytes} (part : p <+: t.wire)
    (cut : reads.flatten = p) (short : ∀ data ∈ reads, data.length ≤ 8192) :
    ∃ s, run env (smooth reads) (Conn.new dialog disk) = .done () s ∧
      ∃ complete later, sentFrames ansiString files m_nSendFiles = complete ++ later ∧
        (s.disk.files = disk.files ++ complete.map
            (fun f => ⟨dialog.m_strSavePath ++ env.unicodeString (fileName f),f.body⟩) ∧
          encode complete ++ s.pBuffer.bytes = p ∨
        ∃ f rest content, later = f :: rest ∧ content <+: f.body ∧
          s.disk.files = disk.files ++ complete.map
            (fun f => ⟨dialog.m_strSavePath ++ env.unicodeString (fileName f),f.body⟩) ++
            [⟨dialog.m_strSavePath ++ env.unicodeString (fileName f),content⟩] ∧
          encode complete ++ (f.front ++ content) ++ s.pBuffer.bytes = p) := by
  have whole := sendable.whole m_nSendFiles
  rw [sentWire reliable sendable sent] at part
  obtain ⟨s,done,holds⟩ := partFeeds env dialog disk whole (sendable.admissible m_nSendFiles) part cut short
  obtain ⟨⟨later,split⟩,running⟩ := decodeEncodePart whole part
  have symbols := decodeSymbols (F := fileFormat) p
  have files_ := Rx.imageFiles env (Rx.start dialog disk) (decode fileFormat p)
  have buffer := holds.buffer
  rw [← holds.members] at files_
  rw [List.append_nil] at buffer
  rw [Reception.symbols,← buffer] at symbols
  refine ⟨s,done,(decode fileFormat p).frames,?_⟩
  cases current : (decode fileFormat p).current with
  | none =>
    rw [Reception.all,current,Option.toList_none,List.append_nil] at files_
    rw [current,Option.elim_none,List.nil_append] at symbols
    exact ⟨later,split.symm,.inl ⟨files_,symbols⟩⟩
  | some f =>
    obtain ⟨more,rest,all⟩ := running f current
    rw [Reception.all,current,Option.toList_some,List.map_append,← List.append_assoc] at files_
    rw [current,Option.elim_some,← List.append_assoc] at symbols
    exact ⟨_,all,.inr ⟨_,rest,f.body,rfl,List.prefix_append _ _,files_,symbols⟩⟩

-- The first read ends inside the name of the first file, the second one inside the second file.
theorem receivedPartShort : ∃ t, sendThread asciiString twoFiles (Worker.new 0) = .done () t ∧
    ∃ s, run plainEnv (smooth [t.wire.take 27,(t.wire.drop 27).take 33]) (Conn.new plainDialog emptyDisk) = .done () s ∧
      ∃ complete later, sentFrames asciiString twoFiles 0 = complete ++ later ∧
        (s.disk.files = emptyDisk.files ++ complete.map
            (fun f => ⟨plainDialog.m_strSavePath ++ plainEnv.unicodeString (fileName f),f.body⟩) ∧
          encode complete ++ s.pBuffer.bytes = t.wire.take 60 ∨
        ∃ f rest content, later = f :: rest ∧ content <+: f.body ∧
          s.disk.files = emptyDisk.files ++ complete.map
            (fun f => ⟨plainDialog.m_strSavePath ++ plainEnv.unicodeString (fileName f),f.body⟩) ++
            [⟨plainDialog.m_strSavePath ++ plainEnv.unicodeString (fileName f),content⟩] ∧
          encode complete ++ (f.front ++ content) ++ s.pBuffer.bytes = t.wire.take 60) := by
  obtain ⟨t,sent,length⟩ := twoSent
  have cut : [t.wire.take 27,(t.wire.drop 27).take 33].flatten = t.wire.take 60 := by
    rw [List.flatten_cons,List.flatten_singleton,← List.take_add]
  refine ⟨t,sent,receivedPart plainEnv plainDialog emptyDisk twoReliable twoSendable sent (List.take_prefix 60 _) cut ?_⟩
  intro data member
  rcases List.mem_pair.mp member with rfl | rfl <;> simp only [List.length_take,List.length_drop,length] <;> decide

structure Transferred (dialog : Dialog) (disk : Disk) (sent : List (FileInfo × Surroundings)) (s : Conn) : Prop where
  files : s.disk.files = disk.files ++ sent.map fun x => ⟨dialog.m_strSavePath ++ x.1.strDir,x.2.content⟩
  items : s.dialog.items = dialog.items ++ sent.map fun x => {
    strSourceFile := x.1.strDir
    strDestFile := dialog.m_strSavePath ++ x.1.strDir
    nFileSize := BitVec.ofNat 32 x.2.content.length
    nRecved := BitVec.ofNat 32 x.2.content.length
    nStatus := true }
  FileSave : s.session.FileSave = none
  pBuffer : s.pBuffer.bytes = []

theorem sentShown (env : Env) (dialog : Dialog) (disk : Disk)
    (clean : ∀ x ∈ files, (0 : Byte) ∉ ansiString x.1.strDir)
    (back : ∀ x ∈ files, env.unicodeString (ansiString x.1.strDir) = x.1.strDir) (m_nSendFiles : Uint) :
    (sentFrames ansiString files m_nSendFiles).map ((Rx.start dialog disk).fileOf env) =
      files.map (fun x => ⟨dialog.m_strSavePath ++ x.1.strDir,x.2.content⟩) ∧
    (sentFrames ansiString files m_nSendFiles).map (fun f => (Rx.start dialog disk).itemOf env f true) =
      files.map fun x => ⟨x.1.strDir,dialog.m_strSavePath ++ x.1.strDir,BitVec.ofNat 32 x.2.content.length,
        BitVec.ofNat 32 x.2.content.length,true⟩ := by
  induction files generalizing m_nSendFiles with
  | nil => exact ⟨rfl,rfl⟩
  | cons x files ih =>
    obtain ⟨shown,items⟩ := ih (fun y member => clean y (List.mem_cons_of_mem _ member))
      (fun y member => back y (List.mem_cons_of_mem _ member)) (m_nSendFiles + 1 + x.2.others)
    have name : env.unicodeString (fileName (sentFrame ansiString x.2 x.1 m_nSendFiles)) = x.1.strDir := by
      rw [sentFrameName,sentName,cstrClean (clean x List.mem_cons_self)]
      exact back x List.mem_cons_self
    have size : (sentHeader ansiString x.2 x.1 m_nSendFiles).nFileSize = BitVec.ofNat 32 x.2.content.length := by
      apply BitVec.eq_of_toNat_eq
      rw [sentFileSize,BitVec.toNat_ofNat]
    constructor
    · rw [sentFrames,List.map_cons,List.map_cons,shown,Rx.fileOf,Rx.destFile,name]
      rfl
    · rw [sentFrames,List.map_cons,List.map_cons,items,Rx.itemOf,Rx.destFile,name,sentFrame,size]
      rfl

theorem sentFramesLast (ansiString : CString → Bytes) (init : List (FileInfo × Surroundings))
    (x : FileInfo × Surroundings) (m_nSendFiles : Uint) :
    ∃ n, sentFrames ansiString (init ++ [x]) m_nSendFiles =
      sentFrames ansiString init m_nSendFiles ++ [sentFrame ansiString x.2 x.1 n] := by
  induction init generalizing m_nSendFiles with
  | nil => exact ⟨m_nSendFiles,rfl⟩
  | cons y init ih =>
    obtain ⟨n,same⟩ := ih (m_nSendFiles + 1 + y.2.others)
    exact ⟨n,by rw [List.cons_append,sentFrames,same,sentFrames,List.cons_append]⟩

theorem sentDecoded (sendable : Sendable ansiString files) (m_nSendFiles : Uint) :
    if ∀ x, files.getLast? = some x → x.2.content ≠ [] then
      decode fileFormat (encode (sentFrames ansiString files m_nSendFiles)) =
        ⟨sentFrames ansiString files m_nSendFiles,none,[]⟩
    else (decode fileFormat (encode (sentFrames ansiString files m_nSendFiles))).pending ≠ [] := by
  have whole := sendable.whole m_nSendFiles
  rcases List.eq_nil_or_concat files with rfl | ⟨init,x,rfl⟩
  · rw [if_pos (by simp)]
    exact decodeNil fileFormat
  · rw [List.concat_eq_append] at whole ⊢
    obtain ⟨n,frames⟩ := sentFramesLast ansiString init x m_nSendFiles
    rw [frames] at whole ⊢
    rw [decodeEncodeLast whole]
    have body : (sentFrame ansiString x.2 x.1 n).body = x.2.content := rfl
    have front : (sentFrame ansiString x.2 x.1 n).front ≠ [] := by
      intro none
      have size := (whole _ (List.mem_append_right _ List.mem_cons_self)).front
      have positive := fileFormat.spans (sentFrame ansiString x.2 x.1 n).head
      rw [none,List.length_nil] at size
      omega
    rw [body]
    by_cases empty : x.2.content = []
    · rw [if_neg (by simp [empty]),if_pos empty]
      exact front
    · rw [if_pos (by simp [empty]),if_neg empty]

theorem sentFeeds (env : Env) (dialog : Dialog) (disk : Disk) {m_nSendFiles : Uint}
    (reliable : ∀ x ∈ files, x.2.Reliable) (sendable : Sendable ansiString files)
    (sent : sendThread ansiString files (Worker.new m_nSendFiles) = .done () t) (cut : reads.flatten = t.wire)
    (short : ∀ data ∈ reads, data.length ≤ 8192) :
    ∃ s, run env (smooth reads) (Conn.new dialog disk) = .done () s ∧
      Denotes env (Rx.start dialog disk) (encode (sentFrames ansiString files m_nSendFiles)) [] s := by
  rw [sentWire reliable sendable sent] at cut
  exact partFeeds env dialog disk (sendable.whole m_nSendFiles) (sendable.admissible m_nSendFiles) List.prefix_rfl cut short

theorem lastEmptyLost {env : Env} {dialog : Dialog} {disk : Disk} {m_nSendFiles : Uint}
    (reliable : ∀ x ∈ files, x.2.Reliable) (sendable : Sendable ansiString files)
    (sent : sendThread ansiString files (Worker.new m_nSendFiles) = .done () t) (cut : reads.flatten = t.wire)
    (short : ∀ data ∈ reads, data.length ≤ 8192) (last : ¬ ∀ x, files.getLast? = some x → x.2.content ≠ []) :
    ¬ ∃ s, run env (smooth reads) (Conn.new dialog disk) = .done () s ∧ Transferred dialog disk files s := by
  rintro ⟨s',done',there⟩
  obtain ⟨s,done,holds⟩ := sentFeeds env dialog disk reliable sendable sent cut short
  have decoded := sentDecoded sendable m_nSendFiles
  rw [if_neg last] at decoded
  rw [done] at done'
  injection done' with _ same
  subst same
  have buffer := holds.buffer
  rw [List.append_nil,there.pBuffer] at buffer
  exact decoded buffer.symm

theorem transferArrives (env : Env) (dialog : Dialog) (disk : Disk) {m_nSendFiles : Uint}
    (reliable : ∀ x ∈ files, x.2.Reliable) (sendable : Sendable ansiString files)
    (clean : ∀ x ∈ files, (0 : Byte) ∉ ansiString x.1.strDir)
    (back : ∀ x ∈ files, env.unicodeString (ansiString x.1.strDir) = x.1.strDir)
    (sent : sendThread ansiString files (Worker.new m_nSendFiles) = .done () t) (cut : reads.flatten = t.wire)
    (short : ∀ data ∈ reads, data.length ≤ 8192) :
    (∃ s, run env (smooth reads) (Conn.new dialog disk) = .done () s ∧ Transferred dialog disk files s) ↔
    ∀ x, files.getLast? = some x → x.2.content ≠ [] := by
  constructor
  · intro there
    by_contra last
    exact lastEmptyLost reliable sendable sent cut short last there
  · intro last
    obtain ⟨s,done,holds⟩ := sentFeeds env dialog disk reliable sendable sent cut short
    have decoded := sentDecoded sendable m_nSendFiles
    rw [if_pos last] at decoded
    obtain ⟨shown,items⟩ := sentShown env dialog disk clean back m_nSendFiles
    have files_ := Rx.imageFiles env (Rx.start dialog disk)
      (decode fileFormat (encode (sentFrames ansiString files m_nSendFiles)))
    have items_ := Rx.imageItems env (Rx.start dialog disk)
      (decode fileFormat (encode (sentFrames ansiString files m_nSendFiles)))
    have waiting := waitingShape (Rx.startIdle dialog disk) holds (by rw [decoded])
    have buffer := holds.buffer
    rw [← holds.members,decoded] at files_ items_
    rw [decoded] at buffer
    simp only [Reception.all,Option.toList_none,List.append_nil,List.map_nil,shown,items] at files_ items_
    exact ⟨s,done,files_,items_,waiting.FileSave,buffer⟩

-- The read ends inside the header of the second file.
theorem transferArrivesShort : ∃ t, sendThread asciiString twoFiles (Worker.new 0) = .done () t ∧
    ∃ s, run plainEnv (smooth [t.wire.take 40,t.wire.drop 40]) (Conn.new plainDialog emptyDisk) = .done () s ∧
      Transferred plainDialog emptyDisk twoFiles s := by
  obtain ⟨t,sent,length⟩ := twoSent
  have cut : [t.wire.take 40,t.wire.drop 40].flatten = t.wire := by
    rw [List.flatten_cons,List.flatten_singleton,List.take_append_drop]
  refine ⟨t,sent,(transferArrives plainEnv plainDialog emptyDisk twoReliable twoSendable (by decide) (by decide) sent cut
    ?_).mpr (by decide)⟩
  intro data member
  rcases List.mem_pair.mp member with rfl | rfl <;> simp only [List.length_take,List.length_drop,length] <;> decide

theorem emptyFileLost : ∃ t, sendThread asciiString (shortList []) (Worker.new 0) = .done () t ∧
    ¬ ∃ s, run plainEnv (smooth [t.wire]) (Conn.new plainDialog emptyDisk) = .done () s ∧
      Transferred plainDialog emptyDisk (shortList []) s := by
  obtain ⟨t,sent,length⟩ := shortSent [] (by decide)
  exact ⟨t,sent,lastEmptyLost (shortReliable _) (shortSendable (by decide)) sent (by simp) (by simp [length])
    (by simp [shortList,undisturbed])⟩

end Prefixes

end JokeDse
