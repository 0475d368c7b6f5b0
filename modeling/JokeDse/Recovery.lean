import JokeDse.Bounds

/-! What is left of the stream when a file operation fails. Parser's handlers keep all of pBuffer, so
whatever was used up before the exception is read again. Only the Write of the first branch throws
before anything is used up. -/
namespace JokeDse
open Framing

def Follows (env : Env) (r : Rx) (stream : Bytes) (s : Conn) : Prop :=
  ∃ read rest, stream = read ++ rest ∧ Denotes env r read rest s

def Recovers (env : Env) (r : Rx) (stream : Bytes) (s : Conn) : Prop :=
  ∀ reads s', (∀ data ∈ reads, data.length ≤ 8192) → run env (smooth reads) s = .done () s' →
    Follows env r (stream ++ reads.flatten) s'

section Denotes
variable {env : Env} {r : Rx} {read rest : Bytes} {s : Conn}

theorem Denotes.cases (holds : Denotes env r read rest s) (idle : r.Idle) :
    (decode fileFormat read).current = none ∧ s.toRx.Idle ∨
    ∃ f before, (decode fileFormat read).current = some f ∧ s.toRx = Rx.filled env before f ∧
      f.body.length < f.head.nFileSize.toNat ∧ (decode fileFormat read).pending = [] ∧ Admissible f := by
  have members := holds.members
  have sound := decodeSound (F := fileFormat) read
  cases current : (decode fileFormat read).current with
  | none =>
    have still := Rx.foldlIdle env idle (decode fileFormat read).frames
    rw [Rx.imageIdle current] at members
    exact .inl ⟨rfl,members ▸ still⟩
  | some f =>
    obtain ⟨_,running,none⟩ := sound.running f current
    rw [Rx.imageFilled current] at members
    have admissible := holds.admissible f (List.mem_append_right _ (Option.mem_toList.mpr current))
    exact .inr ⟨f,_,rfl,members,running,none,admissible⟩

theorem Denotes.sane (holds : Denotes env r read rest s) (idle : r.Idle) : s.Sane where
  members := by
    rcases holds.cases idle with ⟨_,still⟩ | ⟨f,before,_,members,running,_,admissible⟩
    · exact ⟨fun _ => still.nSavedLength,fun other => absurd still.nFileSize other⟩
    · have size := admissible.size
      rw [members]
      refine ⟨fun zero => ?_,fun _ => ⟨Int.natCast_nonneg _,?_,?_,rfl⟩⟩
      · rw [Rx.filledSize] at zero
        omega
      · exact Int.ofNat_lt.mpr running
      · exact Int.ofNat_lt.mpr size
  capacity := holds.capacity

theorem Denotes.ahead (holds : Denotes env r read rest s) (idle : r.Idle) {data : Bytes}
    (admissible : ∀ f ∈ (decode fileFormat (afterFile s.toRx (s.pBuffer.bytes ++ data))).all, Admissible f) :
    ∀ f ∈ (decode fileFormat (read ++ (rest ++ data))).all, Admissible f := by
  have earlier := holds.admissible
  have buffer := holds.buffer
  rw [← feedDecode]
  rcases holds.cases idle with ⟨current,still⟩ | ⟨f,before,current,members,running,none,_⟩
  · have all : afterFile s.toRx (s.pBuffer.bytes ++ data) = (decode fileFormat read).pending ++ (rest ++ data) := by
      rw [afterFile,if_pos still.nFileSize,buffer,List.append_assoc]
    rw [all] at admissible
    simp only [feed,current]
    intro g member
    rw [Reception.afterAll] at member
    rcases List.mem_append.mp member with first | later
    · exact earlier g (List.mem_append_left _ first)
    · exact admissible g later
  · have remained : (s.session.nFileSize - s.session.nSavedLength).toNat = f.head.nFileSize.toNat - f.body.length := by
      rw [members,Rx.filledSize,Rx.filledSaved]
      omega
    have started : s.session.nFileSize ≠ 0 := by
      rw [members,Rx.filledSize]
      omega
    have all : afterFile s.toRx (s.pBuffer.bytes ++ data) =
        (rest ++ data).drop (f.head.nFileSize.toNat - f.body.length) := by
      rw [afterFile,if_neg started,remained,buffer,none,List.nil_append]
    have grown : ∀ more, Admissible {f with body := f.body ++ more} := by
      have now := earlier f (List.mem_append_right _ (Option.mem_toList.mpr current))
      exact fun more => ⟨now.size,now.name⟩
    rw [all] at admissible
    simp only [feed,current]
    intro g member
    split at member
    · rcases List.mem_append.mp member with first | same
      · exact earlier g (List.mem_append_left _ first)
      · rw [List.mem_singleton.mp same]
        exact grown _
    · rw [Reception.afterAll,List.append_assoc] at member
      rcases List.mem_append.mp member with first | later
      · exact earlier g (List.mem_append_left _ first)
      · rcases List.mem_cons.mp later with same | behind
        · rw [same]
          exact grown _
        · exact admissible g behind

theorem Denotes.taken_ (holds : Denotes env r read rest s) (idle : r.Idle) {data : Bytes} {s' : Conn}
    (short : data.length ≤ 8192) (done : doRead env allSucceed data s = .done () s') :
    Denotes env r (read ++ (rest ++ data)) [] s' := by
  have room := readRoom _ _ holds.capacity short done
  obtain ⟨pBuffer,doubled,bytes,called⟩ := readAppends env allSucceed holds.capacity room
  have ends := bodyEnds (c := s.toCtx) env allSucceed pBuffer.bytes
    (holds.sane idle).members doubled.bound
  have admissible : ∀ f ∈ (decode fileFormat (read ++ (rest ++ data))).all, Admissible f := by
    rw [called] at done
    simp only [parser] at done
    generalize parserBody env allSucceed pBuffer.bytes s.toCtx = outcome at ends done
    cases ends with
    | done bound waits ended all =>
      rw [bytes] at all
      exact holds.ahead idle all
    | unwritten running fails inside taken rx =>
      rcases holds.cases idle with ⟨_,still⟩ | ⟨f,before,_,members,_⟩
      · exact absurd still.nFileSize running
      · rw [members,Rx.filledFile] at fails
        contradiction
    | throws fails writes ended more fit => exact absurd rfl fails
    | stops inside => contradiction
  obtain ⟨s'',done',now⟩ := readFeeds env data idle holds room admissible
  rw [done] at done'
  injection done' with _ same
  exact same ▸ now

theorem Denotes.recovers (holds : Denotes env r read rest s) (idle : r.Idle) : Recovers env r (read ++ rest) s := by
  intro reads
  induction reads generalizing read rest s with
  | nil =>
    intro s' _ done
    injection done with _ same
    rw [List.flatten_nil,List.append_nil]
    exact ⟨read,rest,rfl,same ▸ holds⟩
  | cons data reads ih =>
    intro s' short done
    rw [smooth,List.map_cons,run] at done
    generalize outcome_ : doRead env allSucceed data s = outcome at done
    cases outcome with
    | done value s₁ =>
      have now := holds.taken_ idle (short data List.mem_cons_self) outcome_
      have later := ih now s' (fun d member => short d (List.mem_cons_of_mem _ member)) done
      rwa [List.append_nil,← List.append_assoc,List.append_assoc,← List.flatten_cons] at later
    | thrown s₁ => contradiction
    | stopped why s₁ => contradiction

end Denotes

theorem Follows.total {env : Env} {r : Rx} {stream : Bytes} {s : Conn} (follows : Follows env r stream s) :
    s.taken + s.pBuffer.bytes.length = stream.length := by
  obtain ⟨read,rest,rfl,holds⟩ := follows
  have taken := holds.taken
  rw [holds.buffer,List.length_append,List.length_append]
  omega

structure Caught (c : Ctx) (bytes : Bytes) (s' : Conn) : Prop where
  members : s'.toRx = c.toRx
  taken : s'.taken = c.taken
  bytes : s'.pBuffer.bytes = bytes
  capacity : s'.pBuffer.Doubled

section Failure
variable {env : Env} {r : Rx} {stream : Bytes} {s s' : Conn} {ops : FileOps} {data : Bytes} {c : Ctx}

theorem handlersKeep (capacity : s.pBuffer.Doubled) (room : s.pBuffer.bytes.length + data.length ≤ 1073741824)
    (thrown : parserBody env ops (s.pBuffer.bytes ++ data) s.toCtx = .thrown c) :
    ∃ s', doRead env ops data s = .done () s' ∧ Caught c (s.pBuffer.bytes ++ data) s' := by
  obtain ⟨pBuffer,doubled,bytes,called⟩ := readAppends env ops capacity room
  refine ⟨⟨caught s.session.nFileSize pBuffer.bytes.length c,pBuffer⟩,?_,rfl,rfl,bytes,doubled⟩
  rw [called]
  simp only [parser,bytes,thrown]

theorem failureRecovers (idle : r.Idle) (follows : Follows env r stream s) (short : data.length ≤ 8192)
    (thrown : parserBody env ops (s.pBuffer.bytes ++ data) s.toCtx = .thrown c)
    (done : doRead env ops data s = .done () s') :
    Recovers env r (stream ++ data) s' ↔ s.session.nFileSize ≠ 0 ∧ ops .midWrite = false := by
  have total := follows.total
  obtain ⟨read,rest,rfl,holds⟩ := follows
  have room := readRoom _ _ holds.capacity short done
  obtain ⟨s₁,done₁,caught⟩ := handlersKeep holds.capacity room thrown
  rw [done] at done₁
  injection done₁ with _ same
  subst same
  have ends := bodyEnds (c := s.toCtx) env ops (s.pBuffer.bytes ++ data)
    (holds.sane idle).members (by rw [List.length_append]; exact room)
  rw [thrown] at ends
  cases ends with
  | unwritten running fails inside taken rx =>
    -- Nothing was used up and no member has changed.
    have writes : ops .midWrite = false := by
      rcases holds.cases idle with ⟨_,still⟩ | ⟨f,before,_,members,_⟩
      · exact absurd still.nFileSize running
      · rw [members,Rx.filledFile] at fails
        simpa using fails
    refine ⟨fun _ => ⟨running,writes⟩,fun _ => ?_⟩
    have again : Denotes env r read (rest ++ data) s' := by
      refine ⟨caught.members.trans (rx.trans holds.members),?_,?_,caught.capacity,holds.admissible⟩
      · rw [caught.bytes,holds.buffer,List.append_assoc]
      · rw [caught.taken,taken]
        exact holds.taken
    rw [List.append_assoc]
    exact again.recovers idle
  | throws fails writes ended more fit =>
    -- The header, or the end of the file, is used up and still there.
    refine ⟨fun recovers => ?_,fun both => ?_⟩
    · have now := (recovers [] s' (fun _ member => absurd member List.not_mem_nil) rfl).total
      rw [caught.taken,caught.bytes] at now
      simp only [List.length_append,List.flatten_nil,List.append_nil] at now total
      omega
    · have written := writes both.1
      rw [both.2] at written
      simp at written

end Failure

theorem failureRecoversShort : ∃ s s',
    run plainEnv (smooth [shortFrame.symbols.take 29]) (Conn.new plainDialog emptyDisk) = .done () s ∧
    doRead plainEnv (fun op => op != .midWrite) (shortFrame.symbols.drop 29) s = .done () s' ∧
    Recovers plainEnv (Rx.start plainDialog emptyDisk) (shortFrame.symbols.take 29 ++ shortFrame.symbols.drop 29) s' := by
  have admissible := shortFrameDeclares.admissible
  rw [← List.take_append_drop 29 shortFrame.symbols] at admissible
  have length := shortFrameLength
  have parts : ∀ data ∈ [shortFrame.symbols.take 29], data.length ≤ 29 := by simp [length]
  have fed := streamFeeds plainEnv plainDialog emptyDisk parts
    (by rw [List.flatten_singleton]; exact roomShort (by rw [List.length_take]; omega) _)
    (by rw [List.flatten_singleton]; exact admissibleEarlier admissible)
  rw [List.flatten_singleton] at fed
  obtain ⟨s,done,holds⟩ := fed
  have state : (run plainEnv (smooth [shortFrame.symbols.take 29]) (Conn.new plainDialog emptyDisk)).state = s := by
    rw [done]
    rfl
  have short : (shortFrame.symbols.drop 29).length ≤ 8192 := by rw [List.length_drop]; omega
  have buffer : s.pBuffer.bytes.length ≤ 29 := by
    rw [← state]
    decide +kernel
  have thrown : parserBody plainEnv (fun op => op != .midWrite) (s.pBuffer.bytes ++ shortFrame.symbols.drop 29) s.toCtx =
      .thrown (parserBody plainEnv (fun op => op != .midWrite) (s.pBuffer.bytes ++ shortFrame.symbols.drop 29)
        s.toCtx).state := by
    rw [← state]
    decide +kernel
  obtain ⟨s',done',_⟩ := handlersKeep holds.capacity (by omega) thrown
  exact ⟨s,s',done,done',(failureRecovers (Rx.startIdle _ _) ⟨_,[],(List.append_nil _).symm,holds⟩ short thrown done').mpr
    ⟨by rw [← state]; decide +kernel,rfl⟩⟩

theorem headerWritten :
    (∃ s, doRead plainEnv (fun op => op != .written 0) shortFrame.symbols (Conn.new plainDialog emptyDisk) = .done () s ∧
      ¬ Recovers plainEnv (Rx.start plainDialog emptyDisk) shortFrame.symbols s) ∧
    (run plainEnv [(shortFrame.symbols,fun op => op != .written 0),([0x2A],allSucceed)]
      (Conn.new plainDialog emptyDisk)).state.disk.files = [⟨[0x44,0x3A,0x5C,0x61],[0xFF,0xFF,0xFF]⟩] := by
  refine ⟨?_,by decide +kernel⟩
  have thrown : parserBody plainEnv (fun op => op != .written 0)
      ((Conn.new plainDialog emptyDisk).pBuffer.bytes ++ shortFrame.symbols) (Conn.new plainDialog emptyDisk).toCtx =
      .thrown (parserBody plainEnv (fun op => op != .written 0)
        ((Conn.new plainDialog emptyDisk).pBuffer.bytes ++ shortFrame.symbols)
        (Conn.new plainDialog emptyDisk).toCtx).state := by decide +kernel
  have used : (parserBody plainEnv (fun op => op != .written 0)
      ((Conn.new plainDialog emptyDisk).pBuffer.bytes ++ shortFrame.symbols)
      (Conn.new plainDialog emptyDisk).toCtx).state.taken = 28 := by decide +kernel
  obtain ⟨s,done,caught⟩ := handlersKeep (newSane plainDialog emptyDisk).capacity
    (by rw [shortFrameLength]; decide) thrown
  refine ⟨s,done,fun recovers => ?_⟩
  have total := (recovers [] s (fun _ member => absurd member List.not_mem_nil) rfl).total
  rw [caught.taken,caught.bytes,used] at total
  have nothing : (Conn.new plainDialog emptyDisk).pBuffer.bytes = [] := rfl
  simp only [nothing,List.length_append,List.flatten_nil,List.length_nil] at total
  omega

end JokeDse
