import JokeDse.Stream

/-! Parser when file operations fail. A round of GetFile's loop ends in one of four ways, which the
frame at nOffset and the operations decide: the name does not fit, the size is negative, an operation
throws, or the round is done. -/
namespace JokeDse
open Framing

def Access.Inside : Access → Prop
  | .slice nOffset length nDataLength => 0 ≤ nOffset ∧ 0 ≤ length ∧ nOffset + length ≤ nDataLength
  | .write nOffset nCount nDataLength => 0 ≤ nOffset ∧ 0 ≤ nCount ∧ nOffset + nCount ≤ nDataLength
  | .offset before after nDataLength => before ≤ after ∧ after ≤ nDataLength
  | .name size => size ≤ 1024
  | .accepted _ => True
  | .saved _ => True

def Ctx.Inside (c : Ctx) : Prop := ∀ a ∈ c.trace, a.Inside

@[simp] theorem noteInside (a : Access) (c : Ctx) : (c.note a).Inside ↔ a.Inside ∧ c.Inside := by
  simp [Ctx.Inside]
@[simp] theorem onInside (f : Rx → Rx) (c : Ctx) : (c.on f).Inside ↔ c.Inside := Iff.rfl
theorem noteStays {a : Access} (bound : a.Inside) (c : Ctx) : (c.note a).Inside ↔ c.Inside := by
  rw [noteInside,and_iff_right bound]

structure Rx.Sane (r : Rx) : Prop where
  waiting : r.session.nFileSize = 0 → r.session.nSavedLength = 0
  running : r.session.nFileSize ≠ 0 → 0 ≤ r.session.nSavedLength ∧
    r.session.nSavedLength < r.session.nFileSize ∧ r.session.nFileSize < 2147483648 ∧
    r.session.pFileItem.isSome = true

section Statements
variable {pBuffer : Bytes} {c : Ctx}

structure Wrote (n : Nat) (saved : Int) (c c' : Ctx) : Prop where
  inside : c'.Inside ↔ c.Inside
  taken : c'.taken = c.taken + n
  session : c'.session = {c.session with nSavedLength := saved}

theorem Wrote.note {n : Nat} {saved : Int} {c' : Ctx} {a : Access} (took : Wrote n saved c c') (bound : a.Inside)
    (nothing : a.taken = 0) : Wrote n saved c (c'.note a) where
  inside := (noteStays bound c').trans took.inside
  taken := (noteNothing c' nothing).trans took.taken
  session := took.session

theorem Wrote.saves {n : Nat} {c' : Ctx} (took : Wrote n c.session.nSavedLength c c')
    (item : c.session.pFileItem.isSome = true) (change : FileItem → FileItem) (saved : Int) :
    ∃ c'', Wrote n saved c c'' ∧ withItem change (c'.on (Rx.setSaved saved)) = .done () c'' := by
  obtain ⟨i,present⟩ := Option.isSome_iff_exists.mp item
  have there : (c'.on (Rx.setSaved saved)).session.pFileItem = some i := by
    rw [onRx,Rx.setSaved,took.session,present]
  refine ⟨(c'.on (Rx.setSaved saved)).on (Rx.setItem i change),⟨took.inside,took.taken,?_⟩,?_⟩
  · rw [onRx,onRx,Rx.setItem,Rx.setSaved,took.session]
  · simp only [withItem,there]

theorem writeEnds (succeeds : Bool) {o n : Nat} (some : 0 < n) (inside : o + n ≤ pBuffer.length)
    (small : pBuffer.length ≤ 1073741824) :
    ∃ c₁, Wrote n c.session.nSavedLength c c₁ ∧ write succeeds pBuffer o n c =
      if (c.session.FileSave.isSome && succeeds) = true then .done () c₁
      else .thrown (c.note (.write o n pBuffer.length)) := by
  have count : uint (n : Int) = n := MachineInt.unsignedNat (by omega)
  have bound : (Access.write o n pBuffer.length).Inside := by
    simp only [Access.Inside]
    omega
  refine ⟨((c.note (.write o n pBuffer.length)).on (Rx.append ((pBuffer.drop o).take n))).note (.saved n),⟨?_,?_,?_⟩,?_⟩
  · exact (@noteStays (.saved n) trivial _).trans (noteStays bound c)
  · rw [noteTaken,onTaken,noteNothing c rfl,Access.taken,Nat.add_comm]
  · rw [noteRx,onRx,Rx.appendSession,noteRx]
  · simp only [write,count]
    rw [if_neg (by omega),if_neg (by omega)]
    rfl

structure Closed (c c' : Ctx) : Prop where
  nFileSize : c'.session.nFileSize = 0
  nSavedLength : c'.session.nSavedLength = 0
  trace : c'.trace = c.trace

theorem Closed.sane {c c' : Ctx} (closed : Closed c c') : c'.toRx.Sane :=
  ⟨fun _ => closed.nSavedLength,fun running => absurd closed.nFileSize running⟩

theorem Closed.inside {c c' : Ctx} (closed : Closed c c') : c'.Inside ↔ c.Inside := by
  rw [Ctx.Inside,closed.trace,Ctx.Inside]

theorem Closed.taken {c c' : Ctx} (closed : Closed c c') : c'.taken = c.taken := by
  rw [Ctx.taken,closed.trace,Ctx.taken]

theorem closeFileEnds (succeeds : Bool) (item : c.session.pFileItem.isSome = true) :
    ∃ c', Closed c c' ∧ closeFile succeeds c =
      if (!c.session.FileSave.isSome || succeeds) = true then .done () c' else .thrown c' := by
  obtain ⟨i,present⟩ := Option.isSome_iff_exists.mp item
  have handle : (c.on Rx.resetFile).session.FileSave = c.session.FileSave := rfl
  by_cases closes : (!c.session.FileSave.isSome || succeeds) = true
  · have open_ : ¬ (c.session.FileSave.isSome && !succeeds) = true := by
      revert closes
      cases c.session.FileSave.isSome <;> cases succeeds <;> decide
    have there : (((c.on Rx.resetFile).on Rx.releaseHandle).on Rx.countSaved).session.pFileItem = some i := present
    refine ⟨(((c.on Rx.resetFile).on Rx.releaseHandle).on Rx.countSaved).on
      (Rx.setItem i fun item => {item with nStatus := true}),⟨rfl,rfl,rfl⟩,?_⟩
    rw [if_pos closes,closeFile,close,handle,if_neg open_,Outcome.bindDone]
    simp only [withItem,there]
  · have open_ : (c.session.FileSave.isSome && !succeeds) = true := by
      revert closes
      cases c.session.FileSave.isSome <;> cases succeeds <;> decide
    refine ⟨(c.on Rx.resetFile).on Rx.releaseHandle,⟨rfl,rfl,rfl⟩,?_⟩
    rw [if_neg closes,closeFile,close,handle,if_pos open_,Outcome.bindThrown]

end Statements

section Round
variable (env : Env) (ops : FileOps) (k : Nat) {pBuffer : Bytes} {o : Nat} {c : Ctx} {h : FilebufHeader}

def roundSucceeds (ops : FileOps) (k : Nat) (f : Frame fileFormat) : Bool :=
  if f.head.nFileSize = 0 then !ops (.opened k) || ops (.closed k)
  else ops (.opened k) && ops (.written k) && (f.body.length != f.head.nFileSize.toNat || ops (.closed k))

theorem enteredSession (pBuffer : Bytes) (o : Nat) (c : Ctx) (name : Bytes) (fits : h.nFileSize.toNat < 2147483648) :
    (entered env ops k pBuffer o h name c).session.nFileSize = h.nFileSize.toNat ∧
    (entered env ops k pBuffer o h name c).session.nSavedLength = c.session.nSavedLength ∧
    (entered env ops k pBuffer o h name c).session.pFileItem.isSome = true ∧
    (entered env ops k pBuffer o h name c).session.FileSave.isSome = ops (.opened k) := by
  have size : int (h.nFileSize.toNat : Int) = h.nFileSize.toNat := intFits (by omega) (by omega)
  simp only [entered,onRx,Rx.openFile]
  split
  · rename_i opens
    simp [Rx.announce,size,opens,Rx.raiseCounters]
  · rename_i fails
    simp [Rx.announce,size,fails,Rx.raiseCounters]

theorem enteredInside {name : Bytes} (inside : o + h.headerSize < pBuffer.length) (fits : name.length < 1024) :
    (entered env ops k pBuffer o h name c).Inside ↔ c.Inside := by
  simp only [entered,onInside,noteInside,Access.Inside]
  have size : h.headerSize = sizeofFilebufHeader + h.nNameSize.toNat := rfl
  constructor
  · exact fun all => all.2.2.2
  · exact fun before => ⟨trivial,by omega,⟨by omega,by omega,by omega⟩,before⟩

structure Ended (c c' : Ctx) : Prop where
  inside : c'.Inside ↔ c.Inside
  sane : c'.toRx.Sane
  taken : c.taken ≤ c'.taken

theorem takeEndsEmpty (inside : o + h.headerSize < pBuffer.length) (small : pBuffer.length ≤ 1073741824)
    (empty : h.nFileSize = 0) (item : c.session.pFileItem.isSome = true)
    (opened : c.session.FileSave.isSome = ops (.opened k)) :
    ∃ c', Ended c c' ∧ c'.session.nFileSize = 0 ∧ takePayload ops k pBuffer o h c =
      if (!ops (.opened k) || ops (.closed k)) = true then .done (o + h.headerSize : Nat) c' else .thrown c' := by
  obtain ⟨c₁,closed,ends⟩ := closeFileEnds (ops (.closed k)) item
  have moved : int ((o : Int) + h.headerSize) = (o + h.headerSize : Nat) := intAdd (by omega)
  have taken : c.taken ≤ c₁.taken := Nat.le_of_eq closed.taken.symm
  rw [opened] at ends
  simp only [takePayload]
  rw [if_neg (not_not.mpr empty),ends,moved]
  by_cases closes : (!ops (.opened k) || ops (.closed k)) = true
  · refine ⟨c₁.note (.offset o (o + h.headerSize : Nat) pBuffer.length),⟨?_,closed.sane,?_⟩,closed.nFileSize,?_⟩
    · refine Iff.trans (noteStays ?_ c₁) closed.inside
      exact ⟨by omega,by omega⟩
    · rwa [noteNothing c₁ rfl]
    · rw [if_pos closes,if_pos closes,Outcome.bindDone]
  · refine ⟨c₁,⟨closed.inside,closed.sane,taken⟩,closed.nFileSize,?_⟩
    rw [if_neg closes,if_neg closes,Outcome.bindThrown]

section Full
variable (inside : o + h.headerSize < pBuffer.length) (small : pBuffer.length ≤ 1073741824)
  (full : 0 < h.nFileSize.toNat) (fits : h.nFileSize.toNat < 2147483648)
  (nFileSize : c.session.nFileSize = h.nFileSize.toNat) (item : c.session.pFileItem.isSome = true)
  (opened : c.session.FileSave.isSome = ops (.opened k)) {n : Nat} (count : n = (payloadThere pBuffer o h).length)
include inside small full fits nFileSize item opened count

theorem takeWrites : ∃ c₁, Wrote n n c c₁ ∧ takePayload ops k pBuffer o h c =
    if (ops (.opened k) && ops (.written k)) = true then
      if n = h.nFileSize.toNat then
        (closeFile (ops (.closed k)) c₁).bind fun _ c => .done ((o + h.headerSize + n : Nat) : Int) c
      else .done ((o + h.headerSize + n : Nat) : Int) c₁
    else .thrown (c.note (.write (o + h.headerSize : Nat) n pBuffer.length)) := by
  have length := payloadLength pBuffer o h
  have some : 0 < n := by omega
  have fit : o + h.headerSize + n ≤ pBuffer.length := by omega
  have moves : (Access.offset o (o + h.headerSize + n : Nat) pBuffer.length).Inside := by
    simp only [Access.Inside]
    omega
  obtain ⟨nDataSize,nToSave,from_,moved⟩ := takeSizes (h := h) inside small count
  obtain ⟨c₁,wrote,written⟩ := writeEnds (c := c) (ops (.written k)) some fit small
  obtain ⟨c₂,took,saved⟩ := wrote.saves item (fun item => {item with nRecved := toUint n}) n
  refine ⟨c₂.note (.offset o (o + h.headerSize + n : Nat) pBuffer.length),took.note moves rfl,?_⟩
  have sizes : (c₂.note (.offset o (o + h.headerSize + n : Nat) pBuffer.length)).session.nSavedLength =
      (c₂.note (.offset o (o + h.headerSize + n : Nat) pBuffer.length)).session.nFileSize ↔ n = h.nFileSize.toNat := by
    rw [noteRx,took.session,nFileSize]
    exact Int.ofNat_inj
  simp only [takePayload]
  rw [if_pos (uintPositive.mp full),nFileSize,nDataSize,nToSave,from_,moved,written,opened]
  by_cases writes : (ops (.opened k) && ops (.written k)) = true
  · rw [if_pos writes,if_pos writes,Outcome.bindDone,saved,Outcome.bindDone]
    simp only [sizes]
  · rw [if_neg writes,if_neg writes,Outcome.bindThrown]

theorem takeEndsFull (fresh : c.session.nSavedLength = 0) :
    ∃ c', Ended c c' ∧ (n = h.nFileSize.toNat → (ops (.opened k) && ops (.written k)) = true →
        c'.session.nFileSize = 0) ∧
      takePayload ops k pBuffer o h c =
        if (ops (.opened k) && ops (.written k) && (n != h.nFileSize.toNat || ops (.closed k))) = true then
          .done (o + h.headerSize + n : Nat) c'
        else .thrown c' := by
  have length := payloadLength pBuffer o h
  have high : (h.nFileSize.toNat : Int) < 2147483648 := by omega
  obtain ⟨c₁,took,takes⟩ := takeWrites ops k inside small full fits nFileSize item opened count
  have size₁ : c₁.session.nFileSize = h.nFileSize.toNat := by rw [took.session,nFileSize]
  have taken₁ : c.taken ≤ c₁.taken := by rw [took.taken]; exact Nat.le_add_right _ _
  rw [takes]
  by_cases writes : (ops (.opened k) && ops (.written k)) = true
  · rw [if_pos writes,writes,Bool.true_and]
    by_cases whole : n = h.nFileSize.toNat
    · obtain ⟨c₂,closed,ends⟩ := closeFileEnds (c := c₁) (ops (.closed k)) (by rw [took.session]; exact item)
      have handle : c₁.session.FileSave.isSome = true := by
        rw [took.session]
        exact opened.trans (Bool.and_eq_true_iff.mp writes).1
      refine ⟨c₂,⟨closed.inside.trans took.inside,closed.sane,by rwa [closed.taken]⟩,fun _ _ => closed.nFileSize,?_⟩
      rw [if_pos whole,ends,handle]
      by_cases closes : ops (.closed k) = true
      · simp [closes]
      · simp [closes,whole]
    · refine ⟨c₁,⟨took.inside,⟨fun zero => ?_,fun _ => ?_⟩,taken₁⟩,fun same => absurd same whole,?_⟩
      · rw [size₁] at zero
        exact absurd (Int.ofNat_inj.mp zero) (Nat.ne_of_gt full)
      · rw [size₁,took.session]
        exact ⟨Int.natCast_nonneg n,Int.ofNat_lt.mpr (by omega),high,item⟩
      · rw [if_neg whole,if_pos (by simp [whole])]
  · have bound : (Access.write (o + h.headerSize : Nat) n pBuffer.length).Inside := by
      simp only [Access.Inside]
      omega
    refine ⟨_,⟨noteStays bound c,?_,Nat.le_of_eq (noteNothing c rfl).symm⟩,fun _ both => absurd both writes,?_⟩
    · rw [noteRx]
      refine ⟨fun zero => fresh,fun _ => ?_⟩
      rw [fresh,nFileSize]
      exact ⟨Int.le_refl 0,Int.ofNat_lt.mpr full,high,item⟩
    · rw [if_neg writes,if_neg fun all => writes (Bool.and_eq_true_iff.mp all).1]

end Full

theorem takeEnds (front : Bytes) (inside : o + h.headerSize < pBuffer.length) (small : pBuffer.length ≤ 1073741824)
    (fits : h.nFileSize.toNat < 2147483648) (nFileSize : c.session.nFileSize = h.nFileSize.toNat)
    (fresh : c.session.nSavedLength = 0) (item : c.session.pFileItem.isSome = true)
    (opened : c.session.FileSave.isSome = ops (.opened k)) :
    ∃ c', Ended c c' ∧ (roundSucceeds ops k ⟨h,front,payloadThere pBuffer o h⟩ = true →
        (payloadThere pBuffer o h).length = h.nFileSize.toNat → c'.session.nFileSize = 0) ∧
      takePayload ops k pBuffer o h c =
        if roundSucceeds ops k ⟨h,front,payloadThere pBuffer o h⟩ = true then
          .done (o + h.headerSize + (payloadThere pBuffer o h).length : Nat) c'
        else .thrown c' := by
  by_cases empty : h.nFileSize = 0
  · obtain ⟨c',ended,closed,same⟩ := takeEndsEmpty ops k inside small empty item opened
    have none : (payloadThere pBuffer o h).length = 0 := by simp [payloadLength,empty]
    refine ⟨c',ended,fun _ _ => closed,?_⟩
    rw [same,roundSucceeds,if_pos empty,none,Nat.add_zero]
  · have full : 0 < h.nFileSize.toNat := uintPositive.mpr empty
    obtain ⟨c',ended,closed,same⟩ := takeEndsFull ops k inside small full fits nFileSize item opened rfl fresh
    refine ⟨c',ended,fun succeeds whole => ?_,?_⟩
    · rw [roundSucceeds,if_neg empty] at succeeds
      exact closed whole (Bool.and_eq_true_iff.mp succeeds).1
    · rw [same,roundSucceeds,if_neg empty]

inductive RoundEnds (ops : FileOps) (k : Nat) (f : Frame fileFormat) (moved : Nat) (c : Ctx) : Outcome Ctx Int → Prop where
  | aborts {c'} (name : ¬ (fileName f).length < 1024) (inside : c'.Inside ↔ c.Inside) :
    RoundEnds ops k f moved c (.stopped .invalidParameter c')
  | violates {c'} (name : (fileName f).length < 1024) (size : 2147483648 ≤ f.head.nFileSize.toNat)
    (outside : ¬ c'.Inside) : RoundEnds ops k f moved c (.stopped .accessViolation c')
  | throws {c'} (admissible : Admissible f) (fails : roundSucceeds ops k f = false) (ended : Ended c c')
    (more : c.taken < c'.taken) : RoundEnds ops k f moved c (.thrown c')
  | done {c'} (admissible : Admissible f) (succeeds : roundSucceeds ops k f = true) (ended : Ended c c')
    (closed : f.body.length = f.head.nFileSize.toNat → c'.session.nFileSize = 0) :
    RoundEnds ops k f moved c (.done moved c')

theorem roundEnds (c : Ctx) (inside : o + h.headerSize < pBuffer.length) (small : pBuffer.length ≤ 1073741824)
    (fresh : c.session.nSavedLength = 0) :
    RoundEnds ops k ⟨h,(pBuffer.drop o).take h.headerSize,payloadThere pBuffer o h⟩
      (o + h.headerSize + (payloadThere pBuffer o h).length) c
      ((acceptHeader env ops k pBuffer o h c).bind fun _ c => takePayload ops k pBuffer o h c) := by
  by_cases name : (fileName ⟨h,(pBuffer.drop o).take h.headerSize,payloadThere pBuffer o h⟩).length < 1024
  · rw [acceptEnters env ops k _ name,Outcome.bindDone]
    have within := enteredInside (c := c) env ops k inside name
    by_cases size : h.nFileSize.toNat < 2147483648
    · obtain ⟨nFileSize,nSavedLength,item,opened⟩ := enteredSession env ops k pBuffer o c
        (fileName ⟨h,(pBuffer.drop o).take h.headerSize,payloadThere pBuffer o h⟩) size
      have used := enteredTaken env ops k pBuffer o h
        (fileName ⟨h,(pBuffer.drop o).take h.headerSize,payloadThere pBuffer o h⟩) c
      have some : 0 < h.headerSize := fileFormat.spans h
      rw [fresh] at nSavedLength
      generalize entered env ops k pBuffer o h
        (fileName ⟨h,(pBuffer.drop o).take h.headerSize,payloadThere pBuffer o h⟩) c = c₀ at *
      have after : ∀ {c'}, Ended c₀ c' → Ended c c' ∧ c.taken < c'.taken := by
        intro c' ended
        have taken := ended.taken
        exact ⟨⟨ended.inside.trans within,ended.sane,by omega⟩,by omega⟩
      obtain ⟨c',ended,closed,same⟩ := takeEnds ops k ((pBuffer.drop o).take h.headerSize) inside small size nFileSize
        nSavedLength item opened
      rw [same]
      by_cases succeeds : roundSucceeds ops k ⟨h,(pBuffer.drop o).take h.headerSize,payloadThere pBuffer o h⟩ = true
      · rw [if_pos succeeds]
        exact .done ⟨size,name⟩ succeeds (after ended).1 (closed succeeds)
      · rw [if_neg succeeds]
        exact .throws ⟨size,name⟩ (by simpa using succeeds) (after ended).1 (after ended).2
    · obtain ⟨nCount,beyond,stops⟩ := takeViolates ops k inside small (Nat.le_of_not_lt size)
        (enteredSize env ops k pBuffer o h
          (fileName ⟨h,(pBuffer.drop o).take h.headerSize,payloadThere pBuffer o h⟩) c)
      rw [stops]
      refine .violates name (Nat.le_of_not_lt size) fun all => ?_
      have write := ((noteInside _ _).mp all).1
      simp only [Access.Inside] at write
      omega
  · rw [acceptAborts env ops k _ name,Outcome.bindStopped]
    refine .aborts name ?_
    have size : h.headerSize = sizeofFilebufHeader + h.nNameSize.toNat := rfl
    refine noteStays ?_ _
    exact ⟨by omega,by omega,by omega⟩

end Round

/-! The loop. -/

def reached (ops : FileOps) : Nat → List (Frame fileFormat) → List (Frame fileFormat)
  | _, [] => []
  | k, f :: fs =>
    f :: (if (fileName f).length < 1024 ∧ roundSucceeds ops k f = true then reached ops (k + 1) fs else [])

def Fit (fs : List (Frame fileFormat)) : Prop :=
  ∀ f ∈ fs, (fileName f).length < 1024 → f.head.nFileSize.toNat < 2147483648

inductive LoopEnds (ops : FileOps) (k : Nat) (fs : List (Frame fileFormat)) (pBuffer : Bytes) (c : Ctx) :
    Outcome Ctx Int → Prop where
  | done {moved c'} (bound : moved ≤ pBuffer.length) (waits : accepts (pBuffer.drop moved) = none) (ended : Ended c c')
    (admissible : ∀ f ∈ fs, Admissible f) : LoopEnds ops k fs pBuffer c (.done (moved : Nat) c')
  | throws {c'} (fails : ops ≠ allSucceed) (ended : Ended c c') (more : c.taken < c'.taken)
    (fit : Fit (reached ops k fs)) : LoopEnds ops k fs pBuffer c (.thrown c')
  | stops {why c'} (inside : c'.Inside ↔ c.Inside ∧ Fit (reached ops k fs)) (bad : ¬ ∀ f ∈ fs, Admissible f) :
    LoopEnds ops k fs pBuffer c (.stopped why c')

theorem Ended.trans {c c' c'' : Ctx} (first : Ended c c') (second : Ended c' c'') : Ended c c'' where
  inside := second.inside.trans first.inside
  sane := second.sane
  taken := Nat.le_trans first.taken second.taken

theorem fitSubset {fs gs : List (Frame fileFormat)} (admissible : ∀ f ∈ fs, Admissible f) (within : gs ⊆ fs) : Fit gs :=
  fun f member _ => (admissible f (within member)).size

theorem fitNil : Fit [] := by simp [Fit]

theorem reachedSubset (ops : FileOps) (k : Nat) (fs : List (Frame fileFormat)) : reached ops k fs ⊆ fs := by
  induction fs generalizing k with
  | nil => exact fun _ member => member
  | cons f fs ih =>
    intro g member
    rcases List.mem_cons.mp member with rfl | later
    · exact List.mem_cons_self
    · split at later
      · exact List.mem_cons_of_mem _ (ih (k + 1) later)
      · contradiction

theorem allSucceedRound (k : Nat) (f : Frame fileFormat) : roundSucceeds allSucceed k f = true := by
  simp [roundSucceeds,allSucceed]

section Loop
variable {ops : FileOps} {k : Nat} {f : Frame fileFormat} {fs : List (Frame fileFormat)} {pBuffer : Bytes} {c c' : Ctx}

theorem LoopEnds.behind {outcome : Outcome Ctx Int} (rest : LoopEnds ops (k + 1) fs pBuffer c' outcome)
    (ended : Ended c c') (admissible : Admissible f) (succeeds : roundSucceeds ops k f = true) :
    LoopEnds ops k (f :: fs) pBuffer c outcome := by
  have next : reached ops k (f :: fs) = f :: reached ops (k + 1) fs := by
    rw [reached,if_pos ⟨admissible.name,succeeds⟩]
  have fit : Fit (reached ops k (f :: fs)) ↔ Fit (reached ops (k + 1) fs) := by
    rw [next,Fit,List.forall_mem_cons]
    exact ⟨fun all => all.2,fun later => ⟨fun _ => admissible.size,later⟩⟩
  cases rest with
  | done bound waits ended' all =>
    exact .done bound waits (ended.trans ended') (List.forall_mem_cons.mpr ⟨admissible,all⟩)
  | throws fails ended' more fit' =>
    exact .throws fails (ended.trans ended') (Nat.lt_of_le_of_lt ended.taken more) (fit.mpr fit')
  | stops inside bad =>
    refine .stops ?_ fun all => bad fun g member => all g (List.mem_cons_of_mem _ member)
    rw [inside,ended.inside,fit]

theorem LoopEnds.round {moved : Nat} {outcome : Outcome Ctx Int} {next : Int → Ctx → Outcome Ctx Int}
    (round : RoundEnds ops k f moved c outcome)
    (rest : ∀ c', c'.toRx.Sane → (f.body.length = f.head.nFileSize.toNat → c'.session.nFileSize = 0) →
      LoopEnds ops (k + 1) fs pBuffer c' (next moved c')) :
    LoopEnds ops k (f :: fs) pBuffer c (outcome.bind next) := by
  cases round with
  | aborts name inside =>
    refine .stops ?_ fun all => name (all f List.mem_cons_self).name
    have last : reached ops k (f :: fs) = [f] := by rw [reached,if_neg fun both => name both.1]
    rw [inside,last]
    exact ⟨fun before => ⟨before,fun g member fits => absurd (List.mem_singleton.mp member ▸ fits) name⟩,And.left⟩
  | violates name size outside =>
    refine .stops ⟨fun all => absurd all outside,fun both => ?_⟩ fun all =>
      absurd (all f List.mem_cons_self).size (Nat.not_lt_of_le size)
    have fits := both.2 f (by rw [reached]; exact List.mem_cons_self) name
    exact absurd fits (Nat.not_lt_of_le size)
  | throws admissible fails ended more =>
    have last : reached ops k (f :: fs) = [f] := by rw [reached,if_neg fun both => by simp [fails] at both]
    refine .throws ?_ ended more ?_
    · rintro rfl
      rw [allSucceedRound] at fails
      contradiction
    · rw [last]
      exact fun g member _ => List.mem_singleton.mp member ▸ admissible.size
  | done admissible succeeds ended closed => exact (rest _ ended.sane closed).behind ended admissible succeeds

theorem LoopEnds.earlier {outcome : Outcome Ctx Int} (ends : LoopEnds ops k fs pBuffer c' outcome)
    (before : Ended c c') : LoopEnds ops k fs pBuffer c outcome := by
  cases ends with
  | done bound waits ended all => exact .done bound waits (before.trans ended) all
  | throws fails ended more fit =>
    exact .throws fails (before.trans ended) (Nat.lt_of_le_of_lt before.taken more) fit
  | stops inside bad => exact .stops (by rw [inside,before.inside]) bad

end Loop

theorem lookedInside {pBuffer : Bytes} {o : Nat} {c : Ctx} (inside : o ≤ pBuffer.length) :
    (looked pBuffer o c).Inside ↔ c.Inside := by
  unfold looked
  split
  · refine noteStays ?_ c
    exact ⟨by omega,by omega,by omega⟩
  · exact Iff.rfl

theorem lookedEnded {pBuffer : Bytes} {o : Nat} {c : Ctx} (inside : o ≤ pBuffer.length) (sane : c.toRx.Sane) :
    Ended c (looked pBuffer o c) where
  inside := lookedInside inside
  sane := by rwa [lookedRx]
  taken := Nat.le_of_eq (lookedTaken pBuffer o c).symm

theorem loopEnds (env : Env) (ops : FileOps) {pBuffer : Bytes} (small : pBuffer.length ≤ 1073741824) (p : Bytes) :
    ∀ (o fuel k : Nat) (c : Ctx), pBuffer.drop o = p → o ≤ pBuffer.length → p.length < fuel →
    c.toRx.Sane → c.session.nFileSize = 0 →
    LoopEnds ops k (decode fileFormat p).all pBuffer c (getFileLoop env ops pBuffer fuel k o c) := by
  induction p using fileInduction with
  | waiting p none =>
    intro o fuel k c here inside fuelled sane closed
    obtain ⟨fuel,rfl⟩ : ∃ n, fuel = n + 1 := ⟨fuel - 1,by omega⟩
    rw [fileWaiting none,loopWaits inside small (by rw [here]; exact none)]
    exact .done inside (by rwa [here]) (lookedEnded inside sane) (by simp [Reception.all])
  | running p h found short =>
    intro o fuel k c here inside fuelled sane closed
    subst here
    obtain ⟨fuel,rfl⟩ : ∃ n, fuel = n + 2 := ⟨fuel - 2,by have beyond := fileFormat.beyond found; omega⟩
    obtain ⟨fits,body,ends⟩ := payloadRunning found short
    have round := roundEnds env ops k (looked pBuffer o c) fits small
      (by rw [lookedRx]; exact sane.waiting closed)
    rw [ends] at round
    rw [fileRunning found short,← body,loopTakes inside small found]
    refine LoopEnds.earlier (LoopEnds.round round ?_) (lookedEnded inside sane)
    intro c' sane' _
    rw [loopWaits (Nat.le_refl _) small (endWaits pBuffer)]
    exact .done (Nat.le_refl _) (endWaits pBuffer) (lookedEnded (Nat.le_refl _) sane') (by simp)
  | frame p h found enough ih =>
    intro o fuel k c here inside fuelled sane closed
    subst here
    obtain ⟨fuel,rfl⟩ : ∃ n, fuel = n + 1 := ⟨fuel - 1,by omega⟩
    have spans : 0 < h.headerSize := fileFormat.spans h
    have count := List.length_drop (i := o) (l := pBuffer)
    obtain ⟨fits,whole,behind⟩ := payloadWhole found enough
    have round := roundEnds env ops k (looked pBuffer o c) fits small
      (by rw [lookedRx]; exact sane.waiting closed)
    rw [whole] at round
    rw [fileWhole found enough,← bodyThere,Reception.afterAll,loopTakes inside small found]
    rw [behind] at ih ⊢
    refine LoopEnds.earlier (LoopEnds.round round ?_) (lookedEnded inside sane)
    intro c' sane' closed'
    exact ih (o + h.headerSize + h.nFileSize.toNat) fuel (k + 1) c' rfl (by omega) (by rw [List.length_drop]; omega)
      sane' (closed' whole)

/-! Parser. -/

section Body
variable (env : Env) (ops : FileOps) {pBuffer : Bytes} {c : Ctx} {a b : Nat}

inductive RestEnds (ops : FileOps) (a n : Nat) (c : Ctx) : Outcome Ctx Int → Prop where
  | done {c'} (writes : n = 0 ∨ (c.session.FileSave.isSome && ops .midWrite) = true) (inside : c'.Inside ↔ c.Inside)
    (taken : c'.taken = c.taken + n) (session : c'.session = {c.session with nSavedLength := (a + n : Nat)}) :
    RestEnds ops a n c (.done n c')
  | throws {c'} (some : 0 < n) (fails : (c.session.FileSave.isSome && ops .midWrite) = false)
    (inside : c'.Inside ↔ c.Inside) (taken : c'.taken = c.taken) (rx : c'.toRx = c.toRx) :
    RestEnds ops a n c (.thrown c')

theorem saveRestEnds (nFileSize : c.session.nFileSize = b) (nSavedLength : c.session.nSavedLength = a) (less : a < b)
    (size : b < 2147483648) (item : c.session.pFileItem.isSome = true) (small : pBuffer.length ≤ 1073741824) {n : Nat}
    (count : n = min (b - a) pBuffer.length) : RestEnds ops a n c (saveRest ops pBuffer c) := by
  have within : n ≤ pBuffer.length := by omega
  have bounds : (Access.write 0 n pBuffer.length).Inside ∧ (Access.offset 0 n pBuffer.length).Inside := by
    simp only [Access.Inside]
    omega
  have less' : (a : Int) < b := Int.ofNat_lt.mpr less
  have sum : a + n < 2147483648 := by omega
  have remained : int ((b : Int) - a) = (b - a : Nat) := intSub (by omega) (by omega)
  have advanced : int ((a : Int) + n) = (a + n : Nat) := intAdd sum
  simp only [saveRest,nFileSize,nSavedLength]
  rw [if_pos less',remained,intMin,← count]
  -- What happens behind a write that returned.
  have behind : ∀ c₁ : Ctx, Wrote n c.session.nSavedLength c c₁ →
      (n = 0 ∨ (c.session.FileSave.isSome && ops .midWrite) = true) →
      RestEnds ops a n c ((withItem (fun item => {item with
        nRecved := toUint (int ((c₁.note (.offset 0 n pBuffer.length)).session.nSavedLength + n))})
        ((c₁.note (.offset 0 n pBuffer.length)).on
          (Rx.setSaved (int ((c₁.note (.offset 0 n pBuffer.length)).session.nSavedLength + n))))).bind
        fun _ c => .done n c) := by
    intro c₁ wrote writes
    have saved : (c₁.note (.offset 0 n pBuffer.length)).session.nSavedLength = a := by
      rw [noteRx,wrote.session,nSavedLength]
    rw [saved,advanced]
    obtain ⟨c₂,took,done⟩ := (wrote.note bounds.2 rfl).saves item
      (fun item => {item with nRecved := toUint (a + n : Nat)}) (a + n : Nat)
    rw [done,Outcome.bindDone]
    exact .done writes took.inside took.taken took.session
  by_cases none : n = 0
  · subst none
    have count : uint ((0 : Nat) : Int) = 0 := rfl
    simp only [write,count,if_true]
    exact behind _ ⟨noteStays bounds.1 c,noteNothing c rfl,rfl⟩ (.inl rfl)
  · obtain ⟨c₁,wrote,written⟩ := writeEnds (c := c) (ops .midWrite) (Nat.pos_of_ne_zero none)
      (show 0 + n ≤ pBuffer.length by rwa [Nat.zero_add]) small
    rw [Int.natCast_zero] at written
    rw [written]
    by_cases writes : (c.session.FileSave.isSome && ops .midWrite) = true
    · rw [if_pos writes,Outcome.bindDone]
      exact behind c₁ wrote (.inr writes)
    · rw [if_neg writes,Outcome.bindThrown]
      exact .throws (Nat.pos_of_ne_zero none) (by simpa using writes) (noteStays bounds.1 c) (noteNothing c rfl)
        (noteRx _ _)

def midSucceeds (ops : FileOps) (r : Rx) : Bool := r.session.FileSave.isSome && ops .midWrite && ops .midClose

def afterFile (r : Rx) (p : Bytes) : Bytes :=
  if r.session.nFileSize = 0 then p else p.drop (r.session.nFileSize - r.session.nSavedLength).toNat

def framesReached (ops : FileOps) (r : Rx) (p : Bytes) : List (Frame fileFormat) :=
  if r.session.nFileSize = 0 ∨ midSucceeds ops r = true then reached ops 0 (decode fileFormat (afterFile r p)).all else []

inductive BodyEnds (ops : FileOps) (pBuffer : Bytes) (c : Ctx) : Outcome Ctx Int → Prop where
  | done {moved c'} (bound : moved ≤ pBuffer.length) (waits : accepts (pBuffer.drop moved) = none) (ended : Ended c c')
    (admissible : ∀ f ∈ (decode fileFormat (afterFile c.toRx pBuffer)).all, Admissible f) :
    BodyEnds ops pBuffer c (.done (moved : Nat) c')
  | unwritten {c'} (running : c.session.nFileSize ≠ 0)
    (fails : (c.session.FileSave.isSome && ops .midWrite) = false) (inside : c'.Inside ↔ c.Inside)
    (taken : c'.taken = c.taken) (rx : c'.toRx = c.toRx) : BodyEnds ops pBuffer c (.thrown c')
  | throws {c'} (fails : ops ≠ allSucceed)
    (writes : c.session.nFileSize ≠ 0 → (c.session.FileSave.isSome && ops .midWrite) = true) (ended : Ended c c')
    (more : c.taken < c'.taken) (fit : Fit (framesReached ops c.toRx pBuffer)) :
    BodyEnds ops pBuffer c (.thrown c')
  | stops {why c'} (inside : c'.Inside ↔ c.Inside ∧ Fit (framesReached ops c.toRx pBuffer)) :
    BodyEnds ops pBuffer c (.stopped why c')

theorem LoopEnds.body {c' : Ctx} {outcome : Outcome Ctx Int}
    (loop : LoopEnds ops 0 (decode fileFormat (afterFile c.toRx pBuffer)).all pBuffer c' outcome)
    (before : Ended c c') (writes : c.session.nFileSize = 0 ∨ midSucceeds ops c.toRx = true) :
    BodyEnds ops pBuffer c outcome := by
  have frames : framesReached ops c.toRx pBuffer = reached ops 0 (decode fileFormat (afterFile c.toRx pBuffer)).all :=
    if_pos writes
  cases loop.earlier before with
  | done bound waits ended admissible => exact .done bound waits ended admissible
  | throws fails ended more fit =>
    refine .throws fails (fun running => ?_) ended more (by rwa [frames])
    rcases writes with zero | mid
    · exact absurd zero running
    · exact (Bool.and_eq_true_iff.mp mid).1
  | stops inside bad => exact .stops (by rwa [frames])

section Rest
variable {n : Nat} {c₁ : Ctx} (took : Wrote n (a + n : Nat) c c₁) (size : c.session.nFileSize = b)
  (saved : c.session.nSavedLength = a) (item : c.session.pFileItem.isSome = true)
include took size saved item

theorem bodyCloses (less : a < b) (whole : a + n = b) (written : (c.session.FileSave.isSome && ops .midWrite) = true)
    (there : n ≤ pBuffer.length) (small : pBuffer.length ≤ 1073741824) :
    BodyEnds ops pBuffer c ((closeFile (ops .midClose) c₁).bind fun _ c => getFile env ops pBuffer n c) := by
  have running : c.session.nFileSize ≠ 0 := by omega
  obtain ⟨c₂,closed,ends⟩ := closeFileEnds (c := c₁) (ops .midClose) (by rw [took.session]; exact item)
  have handle : c₁.session.FileSave.isSome = true := by
    rw [took.session]
    exact (Bool.and_eq_true_iff.mp written).1
  have ended : Ended c c₂ :=
    ⟨closed.inside.trans took.inside,closed.sane,by rw [closed.taken,took.taken]; exact Nat.le_add_right _ _⟩
  rw [handle,Bool.not_true,Bool.false_or] at ends
  rw [ends]
  by_cases closes : ops .midClose = true
  · have mid : midSucceeds ops c.toRx = true := by rw [midSucceeds,written,closes]; rfl
    have behind : afterFile c.toRx pBuffer = pBuffer.drop n := by
      rw [afterFile,if_neg running,size,saved]
      congr 1
      omega
    have loop := loopEnds env ops small (pBuffer.drop n) n (pBuffer.length + 1) 0 c₂ rfl there
      (by rw [List.length_drop]; omega) closed.sane closed.nFileSize
    rw [if_pos closes,Outcome.bindDone]
    refine LoopEnds.body ops ?_ ended (.inr mid)
    rw [behind]
    exact loop
  · have nothing : framesReached ops c.toRx pBuffer = [] := by
      refine if_neg fun either => either.elim running fun mid => ?_
      exact closes (Bool.and_eq_true_iff.mp mid).2
    rw [if_neg closes,Outcome.bindThrown]
    refine .throws ?_ (fun _ => written) ended ?_ (by rw [nothing]; exact fitNil)
    · rintro rfl
      exact closes rfl
    · rw [closed.taken,took.taken]
      omega

theorem bodyWaits (less : a + n < b) (high : b < 2147483648) (all : n = pBuffer.length) :
    BodyEnds ops pBuffer c (.done n c₁) := by
  have size₁ : c₁.session.nFileSize = b := by rw [took.session,size]
  have waits : accepts (pBuffer.drop n) = none := by
    rw [all,List.drop_length]
    exact emptyWaits fileFormat
  have behind : afterFile c.toRx pBuffer = [] := by
    rw [afterFile,if_neg (by omega),size,saved]
    exact List.drop_of_length_le (by omega)
  refine .done (Nat.le_of_eq all) waits ⟨took.inside,⟨fun zero => ?_,fun _ => ?_⟩,?_⟩ ?_
  · rw [size₁] at zero
    omega
  · rw [size₁,took.session]
    exact ⟨Int.natCast_nonneg _,Int.ofNat_lt.mpr less,Int.ofNat_lt.mpr high,item⟩
  · rw [took.taken]
    exact Nat.le_add_right _ _
  · rw [behind,decodeNil]
    simp [Reception.all]

end Rest

theorem bodyEnds (pBuffer : Bytes) (sane : c.toRx.Sane) (small : pBuffer.length ≤ 1073741824) :
    BodyEnds ops pBuffer c (parserBody env ops pBuffer c) := by
  have same : Ended c c := ⟨Iff.rfl,sane,Nat.le_refl _⟩
  simp only [parserBody]
  by_cases running : c.session.nFileSize = 0
  · have all : afterFile c.toRx pBuffer = pBuffer := if_pos running
    have loop := loopEnds env ops small pBuffer 0 (pBuffer.length + 1) 0 c rfl (Nat.zero_le _)
      (Nat.lt_succ_self _) sane running
    rw [if_neg (not_not.mpr running)]
    exact LoopEnds.body ops (by rwa [all]) same (.inl running)
  · obtain ⟨low,less,high,item⟩ := sane.running running
    obtain ⟨a,saved⟩ := Int.eq_ofNat_of_zero_le low
    obtain ⟨b,size⟩ := Int.eq_ofNat_of_zero_le (Int.le_trans low (Int.le_of_lt less))
    rw [saved,size] at less
    rw [size] at high
    have less' : a < b := Int.ofNat_lt.mp less
    have high' : b < 2147483648 := Int.ofNat_lt.mp high
    generalize count : min (b - a) pBuffer.length = n
    have rest := saveRestEnds ops size saved less' high' item small count.symm
    rw [if_pos running]
    generalize saveRest ops pBuffer c = outcome at rest
    cases rest with
    | throws some fails inside taken rx => exact .unwritten running fails inside taken rx
    | @done c₁ writes inside taken session =>
      have took : Wrote n (a + n : Nat) c c₁ := ⟨inside,taken,session⟩
      have saved₁ : c₁.session.nSavedLength = (a + n : Nat) := by rw [session]
      have size₁ : c₁.session.nFileSize = b := by rw [session,size]
      rw [Outcome.bindDone,saved₁,size₁]
      by_cases whole : a + n = b
      · rw [if_pos (Int.ofNat_inj.mpr whole)]
        exact bodyCloses env ops took size saved item less' whole (writes.resolve_left (by omega)) (by omega) small
      · rw [if_neg (fun same => whole (Int.ofNat_inj.mp same))]
        exact bodyWaits ops took size saved item (by omega) high' (by omega)

end Body

end JokeDse
