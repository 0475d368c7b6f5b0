import JokeDse.Faults

/-! What Parser touches, over whole runs and whatever fails in them. Every access stays inside pBuffer
exactly when no header that is taken up has a size that is negative as an int. -/
namespace JokeDse
open Framing

/-- The frames that a read gets Parser to. Beyond 2^30 octets MemMerge does not return. -/
def framesRead (ops : FileOps) (data : Bytes) (s : Conn) : List (Frame fileFormat) :=
  if s.pBuffer.bytes.length + data.length ≤ 1073741824 then framesReached ops s.toRx (s.pBuffer.bytes ++ data) else []

structure Conn.Sane (s : Conn) : Prop where
  members : s.toRx.Sane
  capacity : s.pBuffer.Doubled

theorem newSane (dialog : Dialog) (disk : Disk) : (Conn.new dialog disk).Sane :=
  ⟨⟨fun _ => rfl,fun running => absurd rfl running⟩,⟨17,by decide,by decide,rfl⟩⟩

theorem Conn.Sane.done {s : Conn} (sane : s.Sane) : ∀ s', Outcome.done () s = .done () s' → s'.Sane := by
  rintro _ ⟨⟩
  exact sane

section Read
variable (env : Env) (ops : FileOps) {s : Conn}

theorem parserInside (members : s.toRx.Sane) (capacity : s.pBuffer.Doubled) :
    ((parser env ops s).state.Inside ↔ s.Inside ∧ Fit (framesReached ops s.toRx s.pBuffer.bytes)) ∧
    ∀ s', parser env ops s = .done () s' → s'.Sane := by
  obtain ⟨k,low,high,size⟩ := capacity
  have ends := bodyEnds env ops s.pBuffer.bytes members
    (Buffer.Doubled.bound ⟨k,low,high,size⟩)
  simp only [parser]
  generalize parserBody env ops s.pBuffer.bytes s.toCtx = outcome at ends
  cases ends with
  | @done moved c bound waits ended admissible =>
    have fit : Fit (framesReached ops s.toRx s.pBuffer.bytes) := by
      rw [framesReached]
      split
      · exact fitSubset admissible (reachedSubset _ _ _)
      · exact fitNil
    dsimp only
    by_cases more : (moved : Int) < s.pBuffer.bytes.length
    · rw [if_pos more,if_neg (by omega)]
      refine ⟨?_,?_⟩
      · have slice : (Access.slice (moved : Nat) (s.pBuffer.bytes.length - (moved : Nat)) s.pBuffer.bytes.length).Inside := by
          simp only [Access.Inside]
          omega
        rw [Outcome.state,noteInside,ended.inside]
        exact ⟨fun all => ⟨all.2,fit⟩,fun both => ⟨slice,both.1⟩⟩
      · exact Conn.Sane.done ⟨ended.sane,k,low,high,size⟩
    · rw [if_neg more]
      refine ⟨?_,?_⟩
      · rw [Outcome.state,ended.inside]
        exact ⟨fun before => ⟨before,fit⟩,And.left⟩
      · exact Conn.Sane.done ⟨ended.sane,k,low,high,size⟩
  | @unwritten c running fails inside taken rx =>
    have fit : Fit (framesReached ops s.toRx s.pBuffer.bytes) := by
      have nothing : framesReached ops s.toRx s.pBuffer.bytes = [] := by
        refine if_neg fun either => either.elim running fun mid => ?_
        rw [midSucceeds,fails] at mid
        contradiction
      rw [nothing]
      exact fitNil
    refine ⟨inside.trans ⟨fun before => ⟨before,fit⟩,And.left⟩,?_⟩
    exact Conn.Sane.done ⟨rx.symm ▸ members,k,low,high,size⟩
  | throws fails writes ended more fit =>
    refine ⟨ended.inside.trans ⟨fun before => ⟨before,fit⟩,And.left⟩,?_⟩
    exact Conn.Sane.done ⟨ended.sane,k,low,high,size⟩
  | stops inside => exact ⟨inside,fun s' same => by contradiction⟩

theorem readRoom {data : Bytes} {s' : Conn} (capacity : s.pBuffer.Doubled) (short : data.length ≤ 8192)
    (done : doRead env ops data s = .done () s') : s.pBuffer.bytes.length + data.length ≤ 1073741824 := by
  by_contra full
  obtain ⟨endless,_⟩ := memMergeEndless capacity short (Nat.lt_of_not_le full)
  simp only [doRead,endless] at done
  contradiction

theorem readInside {data : Bytes} (sane : s.Sane) (short : data.length ≤ 8192) :
    ((doRead env ops data s).state.Inside ↔ s.Inside ∧ Fit (framesRead ops data s)) ∧
    ∀ s', doRead env ops data s = .done () s' → s'.Sane := by
  by_cases room : s.pBuffer.bytes.length + data.length ≤ 1073741824
  · obtain ⟨pBuffer,doubled,bytes,called⟩ := readAppends env ops sane.capacity room
    rw [called,framesRead,if_pos room,← bytes]
    exact parserInside (s := {s with pBuffer}) env ops sane.members doubled
  -- MemMerge does not return, so nothing is touched.
  · obtain ⟨endless,_⟩ := memMergeEndless sane.capacity short (Nat.lt_of_not_le room)
    rw [framesRead,if_neg room]
    simp only [doRead,endless]
    exact ⟨⟨fun before => ⟨before,fitNil⟩,And.left⟩,fun s' same => by contradiction⟩

end Read

def RunFits (env : Env) : List (Bytes × FileOps) → Conn → Prop
  | [], _ => True
  | (data,ops) :: rest, s =>
    Fit (framesRead ops data s) ∧ ∀ s', doRead env ops data s = .done () s' → RunFits env rest s'

theorem runInside (env : Env) (steps : List (Bytes × FileOps)) (short : ∀ step ∈ steps, step.1.length ≤ 8192) :
    ∀ {s : Conn}, s.Sane → ((run env steps s).state.Inside ↔ s.Inside ∧ RunFits env steps s) := by
  induction steps with
  | nil => exact fun _ => ⟨fun before => ⟨before,trivial⟩,And.left⟩
  | cons step rest ih =>
    intro s sane
    obtain ⟨data,ops⟩ := step
    obtain ⟨inside,kept⟩ := readInside env ops sane (short _ List.mem_cons_self)
    have rest_ : ∀ step ∈ rest, step.1.length ≤ 8192 := fun step member => short step (List.mem_cons_of_mem _ member)
    simp only [run,RunFits]
    generalize outcome_ : doRead env ops data s = outcome at *
    cases outcome with
    | done value s' =>
      rw [Outcome.bindDone,ih rest_ (kept s' rfl)]
      rw [Outcome.state] at inside
      rw [inside,and_assoc]
      refine and_congr_right fun _ => and_congr_right fun _ => ?_
      exact ⟨fun fits s'' same => by injection same with _ same; exact same ▸ fits,fun all => all s' rfl⟩
    | thrown s' => exact inside.trans (and_congr_right fun _ => (and_iff_left fun _ same => by contradiction).symm)
    | stopped why s' => exact inside.trans (and_congr_right fun _ => (and_iff_left fun _ same => by contradiction).symm)

theorem runSane {env : Env} (steps : List (Bytes × FileOps)) (short : ∀ step ∈ steps, step.1.length ≤ 8192) :
    ∀ {s s' : Conn}, s.Sane → run env steps s = .done () s' → s'.Sane := by
  induction steps with
  | nil =>
    intro s s' sane done
    injection done with _ same
    exact same ▸ sane
  | cons step rest ih =>
    intro s s' sane done
    obtain ⟨data,ops⟩ := step
    obtain ⟨_,kept⟩ := readInside env ops sane (short _ List.mem_cons_self)
    simp only [run] at done
    generalize outcome_ : doRead env ops data s = outcome at *
    cases outcome with
    | done value s₁ => exact ih (fun step member => short step (List.mem_cons_of_mem _ member)) (kept s₁ rfl) done
    | thrown s₁ => contradiction
    | stopped why s₁ => contradiction

theorem accessesInside (env : Env) (dialog : Dialog) (disk : Disk) {steps : List (Bytes × FileOps)}
    (short : ∀ step ∈ steps, step.1.length ≤ 8192) :
    (∀ a ∈ (run env steps (Conn.new dialog disk)).state.trace, a.Inside) ↔
      RunFits env steps (Conn.new dialog disk) := by
  have inside := runInside env steps short (newSane dialog disk)
  have start : (Conn.new dialog disk).Inside := fun _ member => by contradiction
  exact inside.trans (and_iff_right start)

theorem accessesInsideShort : RunFits plainEnv [(shortFrame.symbols,allSucceed)] (Conn.new plainDialog emptyDisk) ∧
    ∀ a ∈ (run plainEnv [(shortFrame.symbols,allSucceed)] (Conn.new plainDialog emptyDisk)).state.trace, a.Inside := by
  have fits : RunFits plainEnv [(shortFrame.symbols,allSucceed)] (Conn.new plainDialog emptyDisk) := by
    refine ⟨?_,fun _ _ => trivial⟩
    have frames : framesRead allSucceed shortFrame.symbols (Conn.new plainDialog emptyDisk) ⊆ [shortFrame] := by
      have all := reachedSubset allSucceed 0 (decode fileFormat shortFrame.symbols).all
      have within : framesRead allSucceed shortFrame.symbols (Conn.new plainDialog emptyDisk) =
          reached allSucceed 0 (decode fileFormat shortFrame.symbols).all :=
        (if_pos (by rw [shortFrameLength]; decide)).trans (if_pos (.inl rfl))
      rwa [within,shortFrameDecoded] at *
    refine fitSubset (fun f member => shortFrameDeclares.admissible f ?_) frames
    rw [shortFrameDecoded]
    exact member
  refine ⟨fits,(accessesInside plainEnv plainDialog emptyDisk ?_).mpr fits⟩
  intro step member
  rw [List.mem_singleton.mp member,shortFrameLength]
  decide

-- The name `a` and a size of 2^31.
def hugeFrame : Frame fileFormat where
  head := FilebufHeader.new [0x61] (-2147483648) 1 1 0
  front := (FilebufHeader.new [0x61] (-2147483648) 1 1 0).bytes ++ [0x61]
  body := [0]

theorem hugeFrameDecoded : decode fileFormat hugeFrame.symbols = ⟨[],some hugeFrame,[]⟩ := by
  have read : hugeFrame.Read :=
    builtRead (FilebufHeader.newChecks _ _ _ _ _).1 (FilebufHeader.newChecks _ _ _ _ _).2 (by decide) _
  have front : hugeFrame.front.length = hugeFrame.head.headerSize := read.front
  have size : hugeFrame.symbols.length = hugeFrame.front.length + 1 := by
    rw [Frame.symbols,List.length_append]
    rfl
  have huge : hugeFrame.head.nFileSize.toNat = 2147483648 := by decide
  have short : hugeFrame.symbols.length < hugeFrame.head.headerSize + hugeFrame.head.nFileSize.toNat := by omega
  have found : accepts hugeFrame.symbols = some hugeFrame.head := by
    rw [Frame.symbols,← fileHead]
    exact read.found hugeFrame.body (by decide)
  have head : hugeFrame.symbols.take hugeFrame.front.length = hugeFrame.front := by simp [Frame.symbols]
  have rest : hugeFrame.symbols.drop hugeFrame.front.length = hugeFrame.body := by simp [Frame.symbols]
  rw [fileRunning found short,← front,head,rest]

theorem hugeFrameOutside : ¬ ∀ a ∈ (run plainEnv [(hugeFrame.symbols,allSucceed)]
    (Conn.new plainDialog emptyDisk)).state.trace, a.Inside := by
  intro all
  have length : hugeFrame.symbols.length = 28 := by
    rw [Frame.symbols,hugeFrame,List.length_append,List.length_append,FilebufHeader.bytesLength]
    rfl
  have fits := (runInside plainEnv [(hugeFrame.symbols,allSucceed)]
    (fun step member => by rw [List.mem_singleton.mp member,length]; decide)
    (newSane plainDialog emptyDisk)).mp all
  have frames : framesRead allSucceed hugeFrame.symbols (Conn.new plainDialog emptyDisk) =
      reached allSucceed 0 (decode fileFormat hugeFrame.symbols).all :=
    (if_pos (by rw [length]; decide)).trans (if_pos (.inl rfl))
  have fit := fits.2.1
  rw [frames,hugeFrameDecoded] at fit
  have size := fit hugeFrame List.mem_cons_self (by decide)
  exact absurd size (by decide)

end JokeDse
