import JokeDse.Recovery

/-! How much pBuffer keeps. A header with its name is at most 26 + 65535 octets long, and no more is kept
of anything that can still become a frame. But nothing ever drops octets that are no header. -/
namespace JokeDse
open Framing

structure Unreadable (p : Bytes) : Prop where
  long : sizeofFilebufHeader ≤ p.length
  invalid : ¬ ((FilebufHeader.ofMemory (p.take sizeofFilebufHeader)).checkPreFix = true ∧
    (FilebufHeader.ofMemory (p.take sizeofFilebufHeader)).checkCRC = true)

theorem Unreadable.more {p : Bytes} (unreadable : Unreadable p) (q : Bytes) : Unreadable (p ++ q) where
  long := by
    have long := unreadable.long
    rw [List.length_append]
    omega
  invalid := by
    rw [List.take_append_of_le_length unreadable.long]
    exact unreadable.invalid

theorem Unreadable.waits {p : Bytes} (unreadable : Unreadable p) : accepts p = none :=
  if_neg fun test => unreadable.invalid ⟨test.2.1,test.2.2.1⟩

theorem waitsShort {p : Bytes} (waits : accepts p = none) : p.length ≤ 26 + 65535 ∨ Unreadable p := by
  by_cases long : sizeofFilebufHeader ≤ p.length
  · have test := acceptsNone waits long
    by_cases valid : (FilebufHeader.ofMemory (p.take sizeofFilebufHeader)).checkPreFix = true ∧
        (FilebufHeader.ofMemory (p.take sizeofFilebufHeader)).checkCRC = true
    · have size := (FilebufHeader.ofMemory (p.take sizeofFilebufHeader)).headerSizeHigh
      exact .inl (Nat.le_trans (Nat.le_of_not_lt fun beyond => test ⟨valid.1,valid.2,beyond⟩) size)
    · exact .inr ⟨long,valid⟩
  · have short : p.length < 26 := Nat.lt_of_not_le long
    exact .inl (by omega)

section Read
variable {env : Env} {ops : FileOps} {s s' : Conn} {data : Bytes}

theorem readKeeps (sane : s.Sane) (short : data.length ≤ 8192) (done : doRead env ops data s = .done () s') :
    (∃ c, parserBody env ops (s.pBuffer.bytes ++ data) s.toCtx = .thrown c) ∧
      s'.pBuffer.bytes = s.pBuffer.bytes ++ data ∨
    (∀ c, parserBody env ops (s.pBuffer.bytes ++ data) s.toCtx ≠ .thrown c) ∧ accepts s'.pBuffer.bytes = none := by
  have room := readRoom _ _ sane.capacity short done
  have ends := bodyEnds (c := s.toCtx) env ops (s.pBuffer.bytes ++ data) sane.members
    (by rw [List.length_append]; exact room)
  obtain ⟨pBuffer,doubled,bytes,called⟩ := readAppends env ops sane.capacity room
  generalize body : parserBody env ops (s.pBuffer.bytes ++ data) s.toCtx = outcome at ends
  cases outcome with
  | thrown c =>
    obtain ⟨s₁,done₁,caught⟩ := handlersKeep sane.capacity room body
    rw [done] at done₁
    injection done₁ with _ same
    exact .inl ⟨⟨c,rfl⟩,same ▸ caught.bytes⟩
  | stopped why c =>
    rw [called] at done
    simp only [parser,bytes,body] at done
    contradiction
  | done moved c =>
    refine .inr ⟨fun c same => by contradiction,?_⟩
    cases ends with
    | @done m _ bound waits ended admissible =>
      rw [called] at done
      simp only [parser,bytes,body] at done
      have cut : s'.pBuffer.bytes = (s.pBuffer.bytes ++ data).drop m := by
        by_cases more : (m : Int) < (s.pBuffer.bytes ++ data).length
        · rw [if_pos more,if_neg (by omega)] at done
          injection done with _ same
          rw [← same,discardBytes,bytes,Int.toNat_natCast]
        · rw [if_neg more] at done
          injection done with _ same
          rw [← same,discardBytes,bytes,List.drop_length,List.drop_of_length_le (by omega)]
      rw [cut]
      exact waits

theorem unreadableStays (capacity : s.pBuffer.Doubled) (short : data.length ≤ 8192) (idle : s.session.nFileSize = 0)
    (unreadable : Unreadable s.pBuffer.bytes) (done : doRead env ops data s = .done () s') :
    s'.pBuffer.bytes = s.pBuffer.bytes ++ data ∧ s'.toRx = s.toRx := by
  have room := readRoom _ _ capacity short done
  obtain ⟨pBuffer,doubled,bytes,called⟩ := readAppends env ops capacity room
  have waits : accepts ((s.pBuffer.bytes ++ data).drop 0) = none := (unreadable.more data).waits
  have body : parserBody env ops (s.pBuffer.bytes ++ data) s.toCtx =
      .done (0 : Nat) (looked (s.pBuffer.bytes ++ data) 0 s.toCtx) := by
    rw [parserBody,if_neg (not_not.mpr idle)]
    exact loopWaits (Nat.zero_le _) (by rw [List.length_append]; exact room) waits
  have long := (unreadable.more data).long
  have some : ((0 : Nat) : Int) < (s.pBuffer.bytes ++ data).length := by
    have positive : 0 < sizeofFilebufHeader := by decide
    omega
  rw [called] at done
  simp only [parser,bytes,body] at done
  rw [if_pos some,if_neg (by omega)] at done
  injection done with _ same
  subst same
  refine ⟨?_,lookedRx _ _ _⟩
  rw [discardBytes,bytes]
  rfl

end Read

theorem retained (env : Env) (dialog : Dialog) (disk : Disk) {steps : List (Bytes × FileOps)}
    (short : ∀ step ∈ steps, step.1.length ≤ 8192) {s s' : Conn}
    (ran : run env steps (Conn.new dialog disk) = .done () s) {data : Bytes} {ops : FileOps}
    (short' : data.length ≤ 8192) (done : doRead env ops data s = .done () s') :
    ((∃ c, parserBody env ops (s.pBuffer.bytes ++ data) s.toCtx = .thrown c) ∧
        s'.pBuffer.bytes = s.pBuffer.bytes ++ data ∨
      (∀ c, parserBody env ops (s.pBuffer.bytes ++ data) s.toCtx ≠ .thrown c) ∧
        (s'.pBuffer.bytes.length ≤ 26 + 65535 ∨ Unreadable s'.pBuffer.bytes)) ∧
    (s.session.nFileSize = 0 → Unreadable s.pBuffer.bytes →
      s'.pBuffer.bytes = s.pBuffer.bytes ++ data ∧ s'.toRx = s.toRx) ∧
    s'.pBuffer.size ≤ 1073741824 := by
  have sane := runSane steps short (newSane dialog disk) ran
  obtain ⟨k,_,high,size⟩ := ((readInside env ops sane short').2 s' done).capacity
  have bound : 2 ^ k ≤ 2 ^ 30 := Nat.pow_le_pow_right (by omega) high
  refine ⟨(readKeeps sane short' done).imp id (And.imp id waitsShort),?_,by omega⟩
  exact fun idle unreadable => unreadableStays sane.capacity short' idle unreadable done

theorem retainedShort : ∃ s', doRead plainEnv allSucceed shortFrame.symbols (Conn.new plainDialog emptyDisk) =
      .done () s' ∧
    ((∃ c, parserBody plainEnv allSucceed ((Conn.new plainDialog emptyDisk).pBuffer.bytes ++ shortFrame.symbols)
          (Conn.new plainDialog emptyDisk).toCtx = .thrown c) ∧
        s'.pBuffer.bytes = (Conn.new plainDialog emptyDisk).pBuffer.bytes ++ shortFrame.symbols ∨
      (∀ c, parserBody plainEnv allSucceed ((Conn.new plainDialog emptyDisk).pBuffer.bytes ++ shortFrame.symbols)
          (Conn.new plainDialog emptyDisk).toCtx ≠ .thrown c) ∧
        (s'.pBuffer.bytes.length ≤ 26 + 65535 ∨ Unreadable s'.pBuffer.bytes)) := by
  have short : shortFrame.symbols.length ≤ 8192 := by rw [shortFrameLength]; decide
  obtain ⟨s',done,_⟩ := readFeeds plainEnv shortFrame.symbols (Rx.startIdle plainDialog emptyDisk)
    (startDenotes plainEnv plainDialog emptyDisk) (by rw [shortFrameLength]; decide) shortFrameDeclares.admissible
  have none : ∀ step ∈ ([] : List (Bytes × FileOps)), step.1.length ≤ 8192 :=
    fun _ member => absurd member List.not_mem_nil
  exact ⟨s',done,(retained plainEnv plainDialog emptyDisk none rfl short done).1⟩

theorem zerosWait (n : Nat) : accepts (List.replicate n 0) = none := by
  refine if_neg fun test => ?_
  have long := test.1
  have front : (List.replicate n (0 : Byte)).take sizeofFilebufHeader = List.replicate sizeofFilebufHeader 0 := by
    rw [List.length_replicate] at long
    rw [List.take_replicate,Nat.min_eq_left long]
  rw [front] at test
  exact absurd test.2.1 (by decide)

theorem zerosRetained : ∃ s,
    run plainEnv (smooth (List.replicate 9 (List.replicate 8192 0))) (Conn.new plainDialog emptyDisk) = .done () s ∧
    ¬ s.pBuffer.bytes.length ≤ 26 + 65535 := by
  have stream : (List.replicate 9 (List.replicate 8192 (0 : Byte))).flatten = List.replicate 73728 0 := by
    rw [List.flatten_replicate_replicate]
  have decoded : decode fileFormat (List.replicate 73728 0) = ⟨[],none,List.replicate 73728 0⟩ :=
    fileWaiting (zerosWait _)
  have parts : ∀ data ∈ List.replicate 9 (List.replicate 8192 (0 : Byte)), data.length ≤ 8192 :=
    fun data member => by rw [List.eq_of_mem_replicate member,List.length_replicate]
  obtain ⟨s,done,holds⟩ := streamFeeds plainEnv plainDialog emptyDisk parts
    (by rw [stream]; exact roomShort (by rw [List.length_replicate]; decide) _)
    (by rw [stream,decoded]; simp [Reception.all])
  refine ⟨s,done,?_⟩
  rw [holds.buffer,stream,decoded,List.append_nil,List.length_replicate]
  decide

end JokeDse
