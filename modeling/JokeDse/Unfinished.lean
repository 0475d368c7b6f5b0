import JokeDse.Transfer

/-! Files that SendThread could not send to the end. The next file goes over the same connection, where
the receiver takes its header for the rest of the payload. As long as nothing goes out behind a file that
was broken off, every file that SendFile sent is saved. -/
namespace JokeDse
open Framing

section Wire
variable (ansiString : CString → Bytes)

def Call.frame (c : Call) : Frame fileFormat := sentFrame ansiString c.surroundings c.file c.m_nSendFiles

def Call.Unfinished (c : Call) : Prop := c.accepted ≠ [] ∧ c.accepted ≠ (c.frame ansiString).symbols

structure Call.Fits (c : Call) : Prop where
  name : (sentName ansiString c.file).length < 1024
  size : c.surroundings.content.length < 2147483648

theorem Call.Fits.whole {c : Call} (fits : c.Fits ansiString) : (c.frame ansiString).Whole := by
  have name := fits.name
  have size := fits.size
  exact sentWhole c.m_nSendFiles (by omega) (by omega)

theorem Call.Fits.admissible {c : Call} (fits : c.Fits ansiString) : Admissible (c.frame ansiString) :=
  sentAdmissible c.m_nSendFiles fits.name fits.size

def Silent (s : Surroundings) (file : FileInfo) (m_nSendFiles : Uint) : Prop :=
  s.pathFileExists = false ∨ s.opens = false ∨ s.sends 0 (sentHeader ansiString s file m_nSendFiles).headerSize ≤ 0

def lastSending (cs : List Call) : Option Call := (cs.filter fun c => c.accepted ≠ []).getLast?

def Worker.EndsFull (t : Worker) : Prop :=
  ∀ c ∈ lastSending t.calls, ¬ (c.surroundings.content = [] ∧ c.accepted = (c.frame ansiString).symbols)

/-- Before every call of SendFile that puts octets on the connection no file has been broken off. -/
def Apart : List (FileInfo × Surroundings) → Worker → Prop
  | [], t => t.EndsFull ansiString
  | (file,s) :: rest, t =>
    (Silent ansiString s file t.m_nSendFiles ∨
      s.content.length < 2147483648 ∧ ∀ c ∈ t.calls, ¬ c.Unfinished ansiString) ∧
    match sendFile ansiString s file t.m_nSendFiles with
    | .done returned w => Apart rest (t.called file s returned w)
    | _ => t.EndsFull ansiString

instance (c : Call) : Decidable (c.Unfinished ansiString) :=
  inferInstanceAs (Decidable (c.accepted ≠ [] ∧ c.accepted ≠ (c.frame ansiString).symbols))

instance (s : Surroundings) (file : FileInfo) (m_nSendFiles : Uint) : Decidable (Silent ansiString s file m_nSendFiles) :=
  inferInstanceAs (Decidable (s.pathFileExists = false ∨ s.opens = false ∨
    s.sends 0 (sentHeader ansiString s file m_nSendFiles).headerSize ≤ 0))

instance (t : Worker) : Decidable (t.EndsFull ansiString) :=
  inferInstanceAs (Decidable (∀ c ∈ lastSending t.calls,
    ¬ (c.surroundings.content = [] ∧ c.accepted = (c.frame ansiString).symbols)))

instance decideApart : (files : List (FileInfo × Surroundings)) → (t : Worker) → Decidable (Apart ansiString files t)
  | [], t => inferInstanceAs (Decidable (t.EndsFull ansiString))
  | (file,s) :: rest, t =>
    have : Decidable (match sendFile ansiString s file t.m_nSendFiles with
        | .done returned w => Apart ansiString rest (t.called file s returned w)
        | _ => t.EndsFull ansiString) :=
      match sendFile ansiString s file t.m_nSendFiles with
      | .done returned w => decideApart rest (t.called file s returned w)
      | .thrown _ => inferInstanceAs (Decidable (t.EndsFull ansiString))
      | .stopped _ _ => inferInstanceAs (Decidable (t.EndsFull ansiString))
    inferInstanceAs (Decidable (_ ∧ _))

inductive OnWire : List Call → List (Frame fileFormat) → Bytes → Prop where
  | start : OnWire [] [] []
  | silent {cs fs p c} (before : OnWire cs fs p) (nothing : c.accepted = []) (failed : c.returned = false) :
    OnWire (cs ++ [c]) fs p
  | whole {cs fs c} (before : OnWire cs fs []) (fits : c.Fits ansiString)
    (all : c.accepted = (c.frame ansiString).symbols) : OnWire (cs ++ [c]) (fs ++ [c.frame ansiString]) []
  | part {cs fs c} (before : OnWire cs fs []) (fits : c.Fits ansiString)
    (within : c.accepted <+: (c.frame ansiString).symbols) (unfinished : c.Unfinished ansiString)
    (failed : c.returned = false) : OnWire (cs ++ [c]) fs c.accepted

variable {ansiString}

theorem wholeSymbols {f : Frame fileFormat} (whole : f.Whole) : f.symbols ≠ [] := by
  have spans := fileFormat.spans f.head
  have front := whole.front
  intro none
  rw [Frame.symbols,List.append_eq_nil_iff] at none
  rw [none.1,List.length_nil] at front
  omega

section OnWire
variable {cs : List Call} {fs : List (Frame fileFormat)} {p : Bytes}

theorem OnWire.octets (wire : OnWire ansiString cs fs p) : (cs.map Call.accepted).flatten = encode fs ++ p := by
  induction wire with
  | start => rfl
  | silent before nothing failed ih => simp [ih,nothing]
  | whole before fits all ih => simp [ih,all]
  | part before fits within unfinished failed ih => simp [ih]

theorem OnWire.frames (wire : OnWire ansiString cs fs p) : ∀ f ∈ fs, f.Whole ∧ Admissible f := by
  induction wire with
  | start => simp
  | silent before nothing failed ih => exact ih
  | whole before fits all ih =>
    intro f member
    rcases List.mem_append.mp member with earlier | last
    · exact ih f earlier
    · rw [List.mem_singleton.mp last]
      exact ⟨fits.whole,fits.admissible⟩
  | part before fits within unfinished failed ih => exact ih

theorem OnWire.returned (wire : OnWire ansiString cs fs p) :
    ∀ c ∈ cs, c.returned = true → c.Fits ansiString ∧ c.frame ansiString ∈ fs := by
  induction wire with
  | start => simp
  | silent before nothing failed ih =>
    intro c member returned
    rcases List.mem_append.mp member with earlier | last
    · exact ih c earlier returned
    · rw [List.mem_singleton.mp last,failed] at returned
      contradiction
  | whole before fits all ih =>
    intro c member returned
    rcases List.mem_append.mp member with earlier | last
    · obtain ⟨fits',inside⟩ := ih c earlier returned
      exact ⟨fits',List.mem_append_left _ inside⟩
    · rw [List.mem_singleton.mp last]
      exact ⟨fits,List.mem_append_right _ List.mem_cons_self⟩
  | part before fits within unfinished failed ih =>
    intro c member returned
    rcases List.mem_append.mp member with earlier | last
    · exact ih c earlier returned
    · rw [List.mem_singleton.mp last,failed] at returned
      contradiction

theorem OnWire.finished (wire : OnWire ansiString cs fs p) (none : ∀ c ∈ cs, ¬ c.Unfinished ansiString) : p = [] := by
  induction wire with
  | start => rfl
  | silent before nothing failed ih => exact ih fun c member => none c (List.mem_append_left _ member)
  | whole before fits all ih => rfl
  | part before fits within unfinished failed ih =>
    exact absurd unfinished (none _ (List.mem_append_right _ List.mem_cons_self))

theorem OnWire.begins (wire : OnWire ansiString cs fs p) :
    ∃ gs : List (Frame fileFormat), (∀ f ∈ gs, f.Whole ∧ Admissible f) ∧ encode fs ++ p <+: encode gs := by
  induction wire with
  | start => exact ⟨[],by simp,List.prefix_rfl⟩
  | silent before nothing failed ih => exact ih
  | @whole cs fs c before fits all ih =>
    exact ⟨_,(before.whole fits all).frames,by simp only [List.append_nil,List.prefix_rfl]⟩
  | @part cs fs c before fits within unfinished failed ih =>
    refine ⟨fs ++ [c.frame ansiString],?_,?_⟩
    · intro f member
      rcases List.mem_append.mp member with earlier | last
      · exact before.frames f earlier
      · rw [List.mem_singleton.mp last]
        exact ⟨fits.whole,fits.admissible⟩
    · rw [encodeAppend,encodeCons,encodeNil,List.append_nil]
      exact (List.prefix_append_right_inj _).mpr within

theorem OnWire.last (wire : OnWire ansiString cs fs p) (whole : p = []) {f : Frame fileFormat}
    (last : fs.getLast? = some f) :
    ∃ c, lastSending cs = some c ∧ c.accepted = (c.frame ansiString).symbols ∧ f = c.frame ansiString := by
  induction wire with
  | start => contradiction
  | silent before nothing failed ih =>
    obtain ⟨c,sending,same⟩ := ih whole last
    exact ⟨c,by simpa [lastSending,nothing] using sending,same⟩
  | @whole cs fs c before fits all ih =>
    have some : c.accepted ≠ [] := by
      rw [all]
      exact wholeSymbols fits.whole
    rw [List.getLast?_concat] at last
    exact ⟨c,by simp [lastSending,some],all,(Option.some.inj last).symm⟩
  | part before fits within unfinished failed ih => exact absurd whole unfinished.1

end OnWire

section Call
variable {s : Surroundings} {file : FileInfo} {m_nSendFiles : Uint} {returned : Bool} {w : Sending}

theorem silentCall (silent : Silent ansiString s file m_nSendFiles)
    (ended : sendFile ansiString s file m_nSendFiles = .done returned w) : returned = false ∧ w.accepted = [] := by
  have missing : s.pathFileExists = false ∨ s.opens = false → returned = false ∧ w.accepted = [] := by
    intro missing
    rw [sendFileMissing ansiString s file m_nSendFiles missing] at ended
    cases ended
    exact ⟨rfl,rfl⟩
  cases exists_ : s.pathFileExists with
  | false => exact missing (.inl exists_)
  | true =>
    cases opens : s.opens with
    | false => exact missing (.inr opens)
    | true =>
      have refused : s.sends 0 (sentHeader ansiString s file m_nSendFiles).headerSize ≤ 0 := by
        simpa [Silent,exists_,opens] using silent
      by_cases name : (sentName ansiString file).length < 1024
      · have low := (sentHeader ansiString s file m_nSendFiles).headerSizeLow
        have size := sentPackageSize ansiString s file m_nSendFiles (by omega)
        rw [sendFileSends ansiString s file m_nSendFiles exists_ opens name] at ended
        have positive : 0 < sizeofFilebufHeader := by decide
        simp only [Sending.send,Sending.new,List.length_nil,size] at ended
        rw [if_pos (by omega)] at ended
        cases ended
        exact ⟨rfl,by simp [Int.toNat_of_nonpos refused]⟩
      · have none : strcpy_s 1024 (ansiString file.strDir) = none := if_neg name
        simp only [sendFile,exists_,opens,none] at ended
        contradiction

theorem longName (name : ¬ (sentName ansiString file).length < 1024)
    (ended : sendFile ansiString s file m_nSendFiles = .done returned w) : Silent ansiString s file m_nSendFiles := by
  have none : strcpy_s 1024 (ansiString file.strDir) = none := if_neg name
  cases exists_ : s.pathFileExists with
  | false => exact .inl exists_
  | true =>
    cases opens : s.opens with
    | false => exact .inr (.inl opens)
    | true =>
      simp only [sendFile,exists_,opens,none] at ended
      contradiction

theorem OnWire.call {t : Worker} {fs : List (Frame fileFormat)} {p : Bytes} (wire : OnWire ansiString t.calls fs p)
    (step : Silent ansiString s file t.m_nSendFiles ∨
      s.content.length < 2147483648 ∧ ∀ c ∈ t.calls, ¬ c.Unfinished ansiString)
    (ended : sendFile ansiString s file t.m_nSendFiles = .done returned w) :
    ∃ fs' p', OnWire ansiString (t.called file s returned w).calls fs' p' := by
  have quiet : Silent ansiString s file t.m_nSendFiles →
      ∃ fs' p', OnWire ansiString (t.called file s returned w).calls fs' p' := by
    intro silent
    obtain ⟨failed,nothing⟩ := silentCall silent ended
    exact ⟨fs,p,.silent wire nothing failed⟩
  rcases step with silent | ⟨size,none⟩
  · exact quiet silent
  · by_cases name : (sentName ansiString file).length < 1024
    -- Nothing is broken off so far: the call adds a whole frame, the first part of one, or nothing.
    · have fits : Call.Fits ansiString ⟨file,s,t.m_nSendFiles,returned,w.accepted⟩ := ⟨name,size⟩
      obtain ⟨sent,w',ended',all⟩ := sendFileEnds ansiString s file t.m_nSendFiles name
      rw [ended] at ended'
      cases ended'
      cases wire.finished none
      cases returned with
      | true => exact ⟨_,_,.whole wire fits all.2.1⟩
      | false =>
        by_cases nothing : w.accepted = []
        · exact ⟨_,_,.silent wire nothing rfl⟩
        · by_cases whole : w.accepted = (sentFrame ansiString s file t.m_nSendFiles).symbols
          · exact ⟨_,_,.whole wire fits whole⟩
          · exact ⟨_,_,.part wire fits all.2 ⟨nothing,whole⟩ rfl⟩
    · exact quiet (longName name ended)

end Call

theorem OnWire.run {files : List (FileInfo × Surroundings)} {t : Worker} {fs : List (Frame fileFormat)} {p : Bytes}
    (wire : OnWire ansiString t.calls fs p) (apart : Apart ansiString files t) :
    (∃ fs' p', OnWire ansiString (sendThread ansiString files t).state.calls fs' p') ∧
      (sendThread ansiString files t).state.EndsFull ansiString := by
  induction files generalizing t fs p with
  | nil => exact ⟨⟨fs,p,wire⟩,apart⟩
  | cons x rest ih =>
    obtain ⟨file,s⟩ := x
    simp only [Apart] at apart
    simp only [sendThread]
    cases ended : sendFile ansiString s file t.m_nSendFiles with
    | done returned w =>
      rw [ended] at apart
      obtain ⟨fs',p',wire'⟩ := wire.call apart.1 ended
      exact ih wire' apart.2
    | thrown w =>
      rw [ended] at apart
      exact ⟨⟨fs,p,wire⟩,apart.2⟩
    | stopped why w =>
      rw [ended] at apart
      exact ⟨⟨fs,p,wire⟩,apart.2⟩

theorem OnWire.read {t : Worker} {fs : List (Frame fileFormat)} {p : Bytes} (wire : OnWire ansiString t.calls fs p)
    (full : t.EndsFull ansiString) : ∀ f ∈ fs, f ∈ (decode fileFormat t.wire).frames := by
  have whole : ∀ f ∈ fs, f.Whole := fun f member => (wire.frames f member).1
  have octets : t.wire = encode fs ++ p := wire.octets
  rw [octets]
  by_cases none : p = []
  · rw [none,List.append_nil]
    rcases List.eq_nil_or_concat fs with rfl | ⟨init,f,rfl⟩
    · simp
    · rw [List.concat_eq_append] at whole wire ⊢
      obtain ⟨c,sending,all,same⟩ := wire.last none List.getLast?_concat
      have body : f.body ≠ [] := by
        intro empty
        rw [same] at empty
        exact full c sending ⟨empty,all⟩
      rw [decodeEncodeLast whole,if_neg body]
      exact fun _ member => member
  · rw [decodeEncode whole none,Reception.afterFrames]
    exact fun f member => List.mem_append_left _ member

end Wire

def savedName (env : Env) (ansiString : CString → Bytes) (file : FileInfo) : CString :=
  env.unicodeString (sentName ansiString file)

structure Saved (env : Env) (ansiString : CString → Bytes) (dialog : Dialog) (disk : Disk) (c : Call) (s : Conn) :
    Prop where
  file : ⟨dialog.m_strSavePath ++ savedName env ansiString c.file,c.surroundings.content⟩ ∈
    s.disk.files.drop disk.files.length
  item : ∃ item ∈ s.dialog.items.drop dialog.items.length,
    item.strDestFile = dialog.m_strSavePath ++ savedName env ansiString c.file ∧
      item.nRecved = item.nFileSize ∧ item.nStatus = true
  own : (0 : Byte) ∉ ansiString c.file.strDir → env.unicodeString (ansiString c.file.strDir) = c.file.strDir →
    savedName env ansiString c.file = c.file.strDir

section Receiver
variable {ansiString : CString → Bytes} {c : Call} {s : Conn} {stream : Bytes}

theorem savedFrame {env : Env} {dialog : Dialog} {disk : Disk} (holds : Denotes env (Rx.start dialog disk) stream [] s)
    (member : c.frame ansiString ∈ (decode fileFormat stream).frames) : Saved env ansiString dialog disk c s := by
  have files := Rx.imageFiles env (Rx.start dialog disk) (decode fileFormat stream)
  have items := Rx.imageItems env (Rx.start dialog disk) (decode fileFormat stream)
  have name : fileName (c.frame ansiString) = sentName ansiString c.file := sentFrameName _ _ _
  have start : (Rx.start dialog disk).disk.files = disk.files ∧ (Rx.start dialog disk).dialog.items = dialog.items :=
    ⟨rfl,rfl⟩
  rw [← holds.members] at files items
  rw [start.1] at files
  rw [start.2,List.append_assoc] at items
  refine ⟨?_,?_,?_⟩
  · rw [files,List.drop_left]
    refine List.mem_map.mpr ⟨c.frame ansiString,List.mem_append_left _ member,?_⟩
    rw [Rx.fileOf,Rx.destFile,name]
    rfl
  · rw [items,List.drop_left]
    refine ⟨_,List.mem_append_left _ (List.mem_map.mpr ⟨c.frame ansiString,member,rfl⟩),?_,?_,?_⟩
    · rw [Rx.itemOf,Rx.destFile,name]
      rfl
    · exact (completeDone member).2
    · rfl
  · intro clean back
    rw [savedName,sentName,cstrClean clean,back]

theorem failuresApart (env : Env) (dialog : Dialog) (disk : Disk) {files : List (FileInfo × Surroundings)}
    {m_nSendFiles : Uint} (apart : Apart ansiString files (Worker.new m_nSendFiles)) {t : Worker}
    (ran : (sendThread ansiString files (Worker.new m_nSendFiles)).state = t) {reads : List Bytes}
    (cut : reads.flatten = t.wire) (short : ∀ data ∈ reads, data.length ≤ 8192) :
    ∃ s, run env (smooth reads) (Conn.new dialog disk) = .done () s ∧
      ∀ c ∈ t.calls, c.returned = true → Saved env ansiString dialog disk c s := by
  obtain ⟨⟨fs,p,wire⟩,full⟩ := OnWire.run .start apart
  rw [ran] at wire full
  obtain ⟨gs,each,begins⟩ := wire.begins
  have octets : t.wire = encode fs ++ p := wire.octets
  rw [← octets] at begins
  obtain ⟨s,done,holds⟩ := partFeeds env dialog disk (fun f member => (each f member).1)
    (fun f member => (each f member).2) begins cut short
  refine ⟨s,done,?_⟩
  intro c member returned
  obtain ⟨_,inside⟩ := wire.returned c member returned
  exact savedFrame holds (wire.read full _ inside)

end Receiver

def brokenOff (content : Bytes) : Surroundings :=
  {undisturbed content with
    sends := fun k n => if k = 0 then n else (min n 1 : Nat)
    low := fun k n => by split <;> omega
    high := fun k n => by split <;> omega}

theorem failuresApartShort :
    let files := [(shortName,undisturbed [1,2,3]),(otherName,brokenOff [4,5,6])]
    ∃ s, run plainEnv (smooth [(sendThread asciiString files (Worker.new 0)).state.wire])
        (Conn.new plainDialog emptyDisk) = .done () s ∧
      ∀ c ∈ (sendThread asciiString files (Worker.new 0)).state.calls, c.returned = true →
        Saved plainEnv asciiString plainDialog emptyDisk c s :=
  failuresApart plainEnv plainDialog emptyDisk (by decide +kernel) rfl (List.flatten_singleton) (by decide +kernel)

theorem headerTaken :
    let files := [(shortName,brokenOff [1,2,3]),(otherName,undisturbed [4,5,6])]
    ∃ t, sendThread asciiString files (Worker.new 0) = .done () t ∧ ∃ c ∈ t.calls, c.returned = true ∧
      ¬ ∃ s, run plainEnv (smooth [t.wire]) (Conn.new plainDialog emptyDisk) = .done () s ∧
        Saved plainEnv asciiString plainDialog emptyDisk c s := by
  intro files
  refine ⟨_,rfl,_,List.mem_of_getElem? (i := 1) rfl,rfl,?_⟩
  rintro ⟨s,done,saved⟩
  have there : s.disk.files = [⟨[0x44,0x3A,0x5C,0x61],[1,0xFF,0xFF]⟩] := by
    have state := congrArg Outcome.state done
    rw [Outcome.state] at state
    rw [← state]
    decide +kernel
  have file := saved.file
  rw [there] at file
  exact absurd file (by decide +kernel)

end JokeDse
