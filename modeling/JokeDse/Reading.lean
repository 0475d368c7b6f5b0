import JokeDse.Delivery

/-! GetFile and Parser against the frames of the stream. Each round of GetFile's loop takes one frame;
Parser goes on from a running frame and then from what is pending, just as the frame reader does. -/
namespace JokeDse
open Framing

def looked (pBuffer : Bytes) (o : Nat) (c : Ctx) : Ctx :=
  if sizeofFilebufHeader ≤ pBuffer.length - o then c.note (.slice o sizeofFilebufHeader pBuffer.length) else c

@[simp] theorem lookedRx (pBuffer : Bytes) (o : Nat) (c : Ctx) : (looked pBuffer o c).toRx = c.toRx := by
  unfold looked
  split <;> rfl

@[simp] theorem lookedTaken (pBuffer : Bytes) (o : Nat) (c : Ctx) : (looked pBuffer o c).taken = c.taken := by
  unfold looked
  split
  · simp [Access.taken]
  · rfl

def tested (pBuffer : Bytes) (nOffset : Int) (round : FilebufHeader → Ctx → Outcome Ctx Int) (c : Ctx) :
    Outcome Ctx Int :=
  let nDataLength : Int := pBuffer.length
  if sizeofFilebufHeader ≤ uint (nDataLength - nOffset) then
    let c := c.note (.slice nOffset sizeofFilebufHeader nDataLength)
    if nOffset < 0 ∨ nDataLength < nOffset + sizeofFilebufHeader then .stopped .accessViolation c
    else
      let pHeader := FilebufHeader.ofMemory ((pBuffer.drop nOffset.toNat).take sizeofFilebufHeader)
      if pHeader.checkPreFix && pHeader.checkCRC &&
          decide (int (pHeader.headerSize + nOffset) < nDataLength) then
        round pHeader c
      else .done nOffset c
  else .done nOffset c

theorem endWaits (pBuffer : Bytes) : accepts (pBuffer.drop pBuffer.length) = none := by
  rw [List.drop_length]
  exact emptyWaits fileFormat

section Tested
variable {pBuffer : Bytes} {o : Nat} {round : FilebufHeader → Ctx → Outcome Ctx Int} {c : Ctx}

theorem testedWaits (inside : o ≤ pBuffer.length) (small : pBuffer.length ≤ 1073741824)
    (none : accepts (pBuffer.drop o) = none) : tested pBuffer o round c = .done o (looked pBuffer o c) := by
  have available : uint ((pBuffer.length : Int) - o) = pBuffer.length - o := by
    have same := uintFits (x := (pBuffer.length : Int) - o) (by omega) (by omega)
    omega
  have length : (pBuffer.drop o).length = pBuffer.length - o := List.length_drop
  simp only [tested,available,looked]
  by_cases long : sizeofFilebufHeader ≤ pBuffer.length - o
  · have test := acceptsNone none (by omega)
    have size := (FilebufHeader.ofMemory ((pBuffer.drop o).take sizeofFilebufHeader)).headerSizeHigh
    rw [if_pos long,if_pos long,if_neg (by omega)]
    refine if_neg ?_
    simp only [Int.toNat_natCast,Bool.and_eq_true,decide_eq_true_eq]
    rintro ⟨⟨marks,sum⟩,behind⟩
    rw [intFits (by omega) (by omega)] at behind
    exact test ⟨marks,sum,by omega⟩
  · rw [if_neg long,if_neg long]

theorem testedTakes {h : FilebufHeader} (inside : o ≤ pBuffer.length) (small : pBuffer.length ≤ 1073741824)
    (found : accepts (pBuffer.drop o) = some h) : tested pBuffer o round c = round h (looked pBuffer o c) := by
  obtain ⟨long,same,marks,sum,beyond⟩ := acceptsSome found
  have length : (pBuffer.drop o).length = pBuffer.length - o := List.length_drop
  have available : uint ((pBuffer.length : Int) - o) = pBuffer.length - o := by
    have same := uintFits (x := (pBuffer.length : Int) - o) (by omega) (by omega)
    omega
  have size := h.headerSizeHigh
  have long' : sizeofFilebufHeader ≤ pBuffer.length - o := by omega
  simp only [tested,available,looked]
  rw [if_pos long',if_pos long',if_neg (by omega)]
  simp only [Int.toNat_natCast,← same,marks,sum]
  refine if_pos ?_
  simp only [Bool.and_self,Bool.true_and,decide_eq_true_eq]
  rw [intFits (by omega) (by omega)]
  omega

end Tested

section Loop
variable {env : Env} {ops : FileOps} {pBuffer : Bytes} {fuel k o : Nat} {c : Ctx}

theorem loopTested (nOffset : Int) :
    getFileLoop env ops pBuffer (fuel + 1) k nOffset c = tested pBuffer nOffset (fun h c =>
      (acceptHeader env ops k pBuffer nOffset h c).bind fun _ c =>
      (takePayload ops k pBuffer nOffset h c).bind fun moved c =>
        getFileLoop env ops pBuffer fuel (k + 1) moved c) c := rfl

theorem loopWaits (inside : o ≤ pBuffer.length) (small : pBuffer.length ≤ 1073741824)
    (none : accepts (pBuffer.drop o) = none) :
    getFileLoop env ops pBuffer (fuel + 1) k o c = .done o (looked pBuffer o c) := by
  rw [loopTested]
  exact testedWaits inside small none

theorem loopTakes {h : FilebufHeader} (inside : o ≤ pBuffer.length) (small : pBuffer.length ≤ 1073741824)
    (found : accepts (pBuffer.drop o) = some h) :
    getFileLoop env ops pBuffer (fuel + 1) k o c =
      ((acceptHeader env ops k pBuffer o h (looked pBuffer o c)).bind fun _ c =>
        takePayload ops k pBuffer o h c).bind fun moved c => getFileLoop env ops pBuffer fuel (k + 1) moved c := by
  rw [loopTested,Outcome.bindAssoc]
  exact testedTakes inside small found

end Loop

/-! One round while the operations succeed. -/

def payloadPart (ops : FileOps) (k : Nat) (pBuffer : Bytes) (nOffset : Int) (pHeader : FilebufHeader) (c : Ctx) :
    Outcome Ctx Int :=
  let nDataLength : Int := pBuffer.length
  let nDataSize := int (int (nDataLength - nOffset) - pHeader.headerSize)
  let nToSave := if nDataSize ≤ c.session.nFileSize then nDataSize else c.session.nFileSize
  (write (ops (.written k)) pBuffer (int (nOffset + pHeader.headerSize)) nToSave c).bind fun _ c =>
  (withItem (fun item => {item with nRecved := toUint nToSave}) (c.on (Rx.setSaved nToSave))).bind fun _ c =>
  let moved := int (nOffset + int (pHeader.headerSize + nToSave))
  .done moved (c.note (.offset nOffset moved nDataLength))

theorem payloadSplits {ops : FileOps} {k : Nat} {pBuffer : Bytes} {nOffset : Int} {pHeader : FilebufHeader} {c : Ctx}
    (size : pHeader.nFileSize ≠ 0) :
    takePayload ops k pBuffer nOffset pHeader c =
      (payloadPart ops k pBuffer nOffset pHeader c).bind fun moved c =>
        if c.session.nSavedLength = c.session.nFileSize then
          (closeFile (ops (.closed k)) c).bind fun _ c => .done moved c
        else .done moved c := by
  simp only [takePayload,payloadPart,if_pos size,Outcome.bindAssoc,Outcome.bindDone]

section Round
variable (env : Env) (ops : FileOps) (k : Nat) {pBuffer : Bytes} {o : Nat} {c : Ctx} {h : FilebufHeader}

theorem nameThere (body : Bytes) :
    cstr ((pBuffer.drop (o + sizeofFilebufHeader)).take h.nNameSize.toNat) =
      fileName ⟨h,(pBuffer.drop o).take h.headerSize,body⟩ := by
  rw [fileName,FilebufHeader.headerSize,List.drop_take,List.drop_drop,Nat.add_sub_cancel_left]

def entered (env : Env) (ops : FileOps) (k : Nat) (pBuffer : Bytes) (o : Nat) (h : FilebufHeader)
    (name : Bytes) (c : Ctx) : Ctx :=
  let c₁ := (c.on (Rx.raiseCounters h)).note
    (.slice ((o : Int) + sizeofFilebufHeader) h.nNameSize.toNat pBuffer.length)
  let c₂ := (c₁.note (.name (name.length + 1))).note (.accepted h.headerSize)
  (c₂.on (Rx.announce env h name)).on (Rx.openFile (ops (.opened k)))

theorem openFileSize (succeeds : Bool) (r : Rx) : (r.openFile succeeds).session.nFileSize = r.session.nFileSize := by
  unfold Rx.openFile
  split <;> rfl

theorem announceSize (env : Env) (h : FilebufHeader) (name : Bytes) (r : Rx) :
    (r.announce env h name).session.nFileSize = int h.nFileSize.toNat := by
  simp only [Rx.announce]

theorem enteredSize (pBuffer : Bytes) (o : Nat) (h : FilebufHeader) (name : Bytes) (c : Ctx) :
    (entered env ops k pBuffer o h name c).session.nFileSize = int h.nFileSize.toNat := by
  simp only [entered,onRx,openFileSize,announceSize]

theorem enteredTaken (pBuffer : Bytes) (o : Nat) (h : FilebufHeader) (name : Bytes) (c : Ctx) :
    (entered env ops k pBuffer o h name c).taken = c.taken + h.headerSize := by
  simp [entered,Access.taken,Nat.add_comm]

theorem acceptEnters (body : Bytes)
    (name : (fileName ⟨h,(pBuffer.drop o).take h.headerSize,body⟩).length < 1024) :
    acceptHeader env ops k pBuffer o h c = .done () (entered env ops k pBuffer o h
      (fileName ⟨h,(pBuffer.drop o).take h.headerSize,body⟩) c) := by
  have at_ : ((o : Int) + sizeofFilebufHeader).toNat = o + sizeofFilebufHeader := by omega
  have copied : strncpy_s 1024 (pBuffer.drop (o + sizeofFilebufHeader)) h.nNameSize.toNat =
      some (fileName ⟨h,(pBuffer.drop o).take h.headerSize,body⟩) := by
    rw [strncpy_s,nameThere body,if_pos name]
  simp only [acceptHeader,at_,copied]
  rfl

theorem acceptAborts (body : Bytes)
    (name : ¬ (fileName ⟨h,(pBuffer.drop o).take h.headerSize,body⟩).length < 1024) :
    acceptHeader env ops k pBuffer o h c = .stopped .invalidParameter ((c.on (Rx.raiseCounters h)).note
      (.slice ((o : Int) + sizeofFilebufHeader) h.nNameSize.toNat pBuffer.length)) := by
  have at_ : ((o : Int) + sizeofFilebufHeader).toNat = o + sizeofFilebufHeader := by omega
  have copied : strncpy_s 1024 (pBuffer.drop (o + sizeofFilebufHeader)) h.nNameSize.toNat = none := by
    rw [strncpy_s,nameThere body,if_neg name]
  simp only [acceptHeader,at_,copied]

theorem acceptDone {nOffset : Int} {c' : Ctx} (accepted : acceptHeader env ops k pBuffer nOffset h c = .done () c') :
    ∃ name, c'.toRx = ((c.toRx.raiseCounters h).announce env h name).openFile (ops (.opened k)) := by
  unfold acceptHeader at accepted
  simp only at accepted
  split at accepted <;> cases accepted
  exact ⟨_,rfl⟩

theorem openFileDialog (succeeds : Bool) (r : Rx) : (r.openFile succeeds).dialog = r.dialog := by
  unfold Rx.openFile
  split <;> rfl

theorem acceptLeaves
    (admissible : Admissible ⟨h,(pBuffer.drop o).take h.headerSize,[]⟩)
    (fresh : c.session.nSavedLength = 0) :
    Leaves (acceptHeader env allSucceed k pBuffer o h c) () c
      (c.toRx.filled env ⟨h,(pBuffer.drop o).take h.headerSize,[]⟩) h.headerSize := by
  obtain ⟨size,name⟩ := admissible
  refine ⟨_,acceptEnters env allSucceed k [] name,?_,enteredTaken env allSucceed k pBuffer o h _ c⟩
  have size' : h.nFileSize.toNat < 2147483648 := size
  have small : int (h.nFileSize.toNat : Int) = h.nFileSize.toNat := intFits (by omega) (by omega)
  have field : toUint (h.nFileSize.toNat : Int) = h.nFileSize := by rw [← small,toUintBack]
  simp only [entered,onRx,noteRx,Rx.announce,Rx.openFile,Rx.filled,Rx.withFile,Rx.itemOf,Rx.raiseCounters,
    Rx.destFile,FileItem.new,small,field,fresh,allSucceedTrue,if_true,List.length_nil]
  rfl

def payloadThere (pBuffer : Bytes) (o : Nat) (h : FilebufHeader) : Bytes :=
  (pBuffer.drop (o + h.headerSize)).take h.nFileSize.toNat

theorem payloadLength (pBuffer : Bytes) (o : Nat) (h : FilebufHeader) :
    (payloadThere pBuffer o h).length = min h.nFileSize.toNat (pBuffer.length - (o + h.headerSize)) := by
  rw [payloadThere,List.length_take,List.length_drop]

theorem takeSizes (inside : o + h.headerSize < pBuffer.length) (small : pBuffer.length ≤ 1073741824) {n : Nat}
    (count : n = (payloadThere pBuffer o h).length) :
    int (int ((pBuffer.length : Int) - o) - h.headerSize) = (pBuffer.length - o - h.headerSize : Nat) ∧
    (if ((pBuffer.length - o - h.headerSize : Nat) : Int) ≤ h.nFileSize.toNat then
      ((pBuffer.length - o - h.headerSize : Nat) : Int) else h.nFileSize.toNat) = n ∧
    int ((o : Int) + h.headerSize) = (o + h.headerSize : Nat) ∧
    int ((o : Int) + int (h.headerSize + n)) = (o + h.headerSize + n : Nat) := by
  rw [payloadLength] at count
  refine ⟨?_,?_,intAdd (by omega),?_⟩
  · rw [intSub (by omega) (by omega),intSub (by omega) (by omega)]
  · rw [intMin,count,Nat.sub_sub]
  · rw [intAdd (by omega),intAdd (by omega),Nat.add_assoc]

theorem payloadLeaves {r : Rx} {front : Bytes} (inside : o + h.headerSize < pBuffer.length)
    (small : pBuffer.length ≤ 1073741824) (rx : c.toRx = r.filled env ⟨h,front,[]⟩) :
    Leaves (payloadPart allSucceed k pBuffer o h c) (o + h.headerSize + (payloadThere pBuffer o h).length : Nat) c
      (r.filled env ⟨h,front,payloadThere pBuffer o h⟩) (payloadThere pBuffer o h).length := by
  have length := payloadLength pBuffer o h
  generalize here : payloadThere pBuffer o h = data at *
  have fit : o + h.headerSize + data.length ≤ pBuffer.length := by omega
  have nFileSize : c.session.nFileSize = h.nFileSize.toNat := by rw [rx]; rfl
  obtain ⟨nDataSize,nToSave,from_,moved⟩ := takeSizes (h := h) inside small (congrArg List.length here.symm)
  have slice : (pBuffer.drop (o + h.headerSize)).take data.length = data := by
    rw [← here,payloadThere,List.length_take,List.take_eq_take_iff]
    simp
  simp only [payloadPart,nFileSize,nDataSize,nToSave,from_,allSucceedTrue,moved]
  have handle : c.session.FileSave.isSome = true := by rw [rx]; rfl
  have written := writeLeaves (o := o + h.headerSize) (n := data.length) fit small handle
  rw [slice] at written
  refine written.bind (m := 0) ?_
  intro c₁ rx₁
  have item : (c₁.on (Rx.setSaved data.length)).session.pFileItem = some r.dialog.items.length := by
    simp only [onRx,rx₁,rx]
    rfl
  have saved : ((c₁.on (Rx.setSaved data.length)).toRx.setItem r.dialog.items.length
      (fun item => {item with nRecved := toUint data.length})) = r.filled env ⟨h,front,data⟩ := by
    simp only [onRx,rx₁,rx]
    exact filledMore env r ⟨h,front,[]⟩ data
  refine (withItemLeaves item _).bind (m := 0) ?_
  intro c₂ rx₂
  rw [saved] at rx₂
  refine Leaves.noted (a := .offset o (o + h.headerSize + data.length : Nat) pBuffer.length) ?_ rfl
  have last := Leaves.done ((o + h.headerSize + data.length : Nat) : Int)
    (c₂.note (.offset o (o + h.headerSize + data.length : Nat) pBuffer.length))
  rwa [noteRx,rx₂] at last

theorem settleLeaves {r : Rx} {f : Frame fileFormat} (moved : Int) (rx : c.toRx = r.filled env f) :
    Leaves (if c.session.nSavedLength = c.session.nFileSize then
        (closeFile (allSucceed (.closed k)) c).bind fun _ c => .done moved c
      else .done moved c) moved c (r.settled env f) 0 := by
  have whole : (c.session.nSavedLength = c.session.nFileSize) ↔ f.body.length = f.head.nFileSize.toNat := by
    rw [rx]
    exact Int.ofNat_inj
  by_cases all : f.body.length = f.head.nFileSize.toNat
  · have settled : r.settled env f = r.delivered env f := if_pos all
    rw [if_pos (whole.mpr all),allSucceedTrue,settled]
    refine (closeLeaves rx).bind (m := 0) ?_
    intro c' rx'
    rw [← rx']
    exact Leaves.done _ _
  · have settled : r.settled env f = r.filled env f := if_neg all
    rw [if_neg (fun same => all (whole.mp same)),settled,← rx]
    exact Leaves.done _ _

theorem takeLeaves {r : Rx} {front : Bytes} (inside : o + h.headerSize < pBuffer.length)
    (small : pBuffer.length ≤ 1073741824) (rx : c.toRx = r.filled env ⟨h,front,[]⟩) :
    Leaves (takePayload allSucceed k pBuffer o h c) (o + h.headerSize + (payloadThere pBuffer o h).length : Nat) c
      (r.settled env ⟨h,front,payloadThere pBuffer o h⟩) (payloadThere pBuffer o h).length := by
  by_cases empty : h.nFileSize = 0
  · have zero : h.nFileSize.toNat = 0 := by rw [empty]; rfl
    have none : payloadThere pBuffer o h = [] := List.length_eq_zero_iff.mp (by rw [payloadLength]; omega)
    have moved : int ((o : Int) + h.headerSize) = (o + h.headerSize + ([] : Bytes).length : Nat) :=
      intAdd (by omega)
    have settled : r.settled env ⟨h,front,[]⟩ = r.delivered env ⟨h,front,[]⟩ := if_pos zero.symm
    simp only [takePayload,none]
    rw [if_neg (by simpa using empty),allSucceedTrue,moved,settled]
    refine (closeLeaves rx).bind (m := 0) ?_
    intro c' rx'
    have last := Leaves.done ((o + h.headerSize + ([] : Bytes).length : Nat) : Int) (c'.note
      (.offset o (o + h.headerSize + ([] : Bytes).length : Nat) pBuffer.length))
    rw [noteRx,rx'] at last
    exact last.noted rfl
  · rw [payloadSplits empty]
    exact (payloadLeaves env k inside small rx).bind (m := 0) fun _ rx' => settleLeaves env k _ rx'

theorem takeViolates (inside : o + h.headerSize < pBuffer.length)
    (small : pBuffer.length ≤ 1073741824) (size : 2147483648 ≤ h.nFileSize.toNat)
    (nFileSize : c.session.nFileSize = int h.nFileSize.toNat) :
    ∃ nCount : Nat, pBuffer.length < nCount ∧ takePayload ops k pBuffer o h c =
      .stopped .accessViolation (c.note (.write (o + h.headerSize : Nat) nCount pBuffer.length)) := by
  have bound := h.nFileSize.isLt
  have wrapped : int (h.nFileSize.toNat : Int) = (h.nFileSize.toNat : Int) - 4294967296 := by
    simp only [int,MachineInt.signed,Int.bmod_def]
    omega
  have nonzero : h.nFileSize ≠ 0 := uintPositive.mp (by omega)
  have nDataSize : int (int ((pBuffer.length : Int) - o) - h.headerSize) =
      (pBuffer.length - o - h.headerSize : Nat) := by
    rw [intSub (by omega) (by omega),intSub (by omega) (by omega)]
  have from_ : int ((o : Int) + h.headerSize) = (o + h.headerSize : Nat) := intAdd (by omega)
  have count : uint ((h.nFileSize.toNat : Int) - 4294967296) = h.nFileSize.toNat := by
    have same := uintNegative (x := (h.nFileSize.toNat : Int) - 4294967296) (by omega) (by omega)
    omega
  refine ⟨h.nFileSize.toNat,by omega,?_⟩
  simp only [takePayload]
  rw [if_pos nonzero,nFileSize,nDataSize,wrapped,if_neg (by omega),from_]
  simp only [write,count]
  rw [if_neg (by omega),if_pos (by omega)]
  rfl

end Round

/-! The loop, and Parser around it. -/

section Frames
variable (env : Env) {pBuffer : Bytes}

theorem bodyThere (o : Nat) (h : FilebufHeader) :
    payloadThere pBuffer o h = ((pBuffer.drop o).drop h.headerSize).take h.nFileSize.toNat := by
  rw [payloadThere,List.drop_drop]

section There
variable {o : Nat} {h : FilebufHeader} (found : accepts (pBuffer.drop o) = some h)
include found

theorem payloadRunning (short : (pBuffer.drop o).length < h.headerSize + h.nFileSize.toNat) :
    o + h.headerSize < pBuffer.length ∧ payloadThere pBuffer o h = (pBuffer.drop o).drop h.headerSize ∧
      o + h.headerSize + (payloadThere pBuffer o h).length = pBuffer.length := by
  have beyond : h.headerSize < (pBuffer.drop o).length := fileFormat.beyond found
  have count := List.length_drop (i := o) (l := pBuffer)
  have length := payloadLength pBuffer o h
  refine ⟨by omega,?_,by omega⟩
  rw [bodyThere,List.take_of_length_le (by rw [List.length_drop]; omega)]

theorem payloadWhole (enough : h.headerSize + h.nFileSize.toNat ≤ (pBuffer.drop o).length) :
    o + h.headerSize < pBuffer.length ∧ (payloadThere pBuffer o h).length = h.nFileSize.toNat ∧
      (pBuffer.drop o).drop (h.headerSize + h.nFileSize.toNat) =
        pBuffer.drop (o + h.headerSize + h.nFileSize.toNat) := by
  have beyond : h.headerSize < (pBuffer.drop o).length := fileFormat.beyond found
  have count := List.length_drop (i := o) (l := pBuffer)
  have length := payloadLength pBuffer o h
  exact ⟨by omega,by omega,by rw [List.drop_drop,Nat.add_assoc]⟩

end There

structure Rounds (env : Env) (pBuffer : Bytes) (loop : Nat → Nat → Int → Ctx → Outcome Ctx Int)
    (take : Nat → Int → FilebufHeader → Ctx → Outcome Ctx Int) : Prop where
  tests : ∀ fuel k nOffset c, loop (fuel + 1) k nOffset c = tested pBuffer nOffset (fun h c =>
    (acceptHeader env allSucceed k pBuffer nOffset h c).bind fun _ c =>
    (take k nOffset h c).bind fun moved c => loop fuel (k + 1) moved c) c
  takes : ∀ {k o : Nat} {h : FilebufHeader} {c : Ctx} {r : Rx} {front : Bytes},
    o + h.headerSize < pBuffer.length → pBuffer.length ≤ 1073741824 → c.toRx = r.filled env ⟨h,front,[]⟩ →
    Leaves (take k o h c) (o + h.headerSize + (payloadThere pBuffer o h).length : Nat) c
      (r.settled env ⟨h,front,payloadThere pBuffer o h⟩) (payloadThere pBuffer o h).length

theorem getFileRounds (env : Env) (pBuffer : Bytes) :
    Rounds env pBuffer (getFileLoop env allSucceed pBuffer) (takePayload allSucceed · pBuffer) where
  tests := fun _ _ _ _ => rfl
  takes := fun inside small rx => takeLeaves env _ inside small rx

section Rounds
variable {loop : Nat → Nat → Int → Ctx → Outcome Ctx Int} {take : Nat → Int → FilebufHeader → Ctx → Outcome Ctx Int}

theorem roundLeaves (rounds : Rounds env pBuffer loop take) {h : FilebufHeader} {fuel k o : Nat} {c : Ctx} {r : Rx}
    {value : Int} {n : Nat} (found : accepts (pBuffer.drop o) = some h) (inside : o ≤ pBuffer.length)
    (fits : o + h.headerSize < pBuffer.length) (small : pBuffer.length ≤ 1073741824) (idle : c.toRx.Idle)
    (admissible : Admissible ⟨h,(pBuffer.drop o).take h.headerSize,payloadThere pBuffer o h⟩)
    (rest : ∀ c', c'.toRx = c.toRx.settled env ⟨h,(pBuffer.drop o).take h.headerSize,payloadThere pBuffer o h⟩ →
      Leaves (loop fuel (k + 1) (o + h.headerSize + (payloadThere pBuffer o h).length : Nat) c') value c' r n) :
    Leaves (loop (fuel + 1) k o c) value c r (h.headerSize + ((payloadThere pBuffer o h).length + n)) := by
  have accepted := acceptLeaves env k (c := looked pBuffer o c) ⟨admissible.size,admissible.name⟩
    (by rw [lookedRx]; exact idle.nSavedLength)
  rw [rounds.tests,testedTakes inside small found]
  rw [lookedRx] at accepted
  refine Leaves.bind (c := c) (by simpa [Leaves] using accepted) ?_
  exact fun c₁ rx₁ => (rounds.takes fits small rx₁).bind rest

theorem waitsLeave (rounds : Rounds env pBuffer loop take) {fuel k o : Nat} {c : Ctx} (inside : o ≤ pBuffer.length)
    (small : pBuffer.length ≤ 1073741824) (none : accepts (pBuffer.drop o) = none) :
    Leaves (loop (fuel + 1) k o c) o c c.toRx 0 := by
  rw [rounds.tests,testedWaits inside small none]
  exact ⟨_,rfl,lookedRx ..,lookedTaken ..⟩

section Counts
variable {o : Nat} {h : FilebufHeader} (found : accepts (pBuffer.drop o) = some h)
include found

theorem runningUsed (short : (pBuffer.drop o).length < h.headerSize + h.nFileSize.toNat) :
    (pBuffer.drop o).length - ([] : Bytes).length = h.headerSize + ((payloadThere pBuffer o h).length + 0) := by
  have count := List.length_drop (i := o) (l := pBuffer)
  obtain ⟨fits,body,ends⟩ := payloadRunning found short
  rw [List.length_nil]
  omega

theorem frameUsed (enough : h.headerSize + h.nFileSize.toNat ≤ (pBuffer.drop o).length) {rest pending : Bytes}
    (behind : pBuffer.drop (o + h.headerSize + h.nFileSize.toNat) = rest) (suffix : pending <:+ rest) :
    (pBuffer.drop o).length - pending.length =
      h.headerSize + ((payloadThere pBuffer o h).length + (rest.length - pending.length)) := by
  have count := List.length_drop (i := o) (l := pBuffer)
  have count' := List.length_drop (i := o + h.headerSize + h.nFileSize.toNat) (l := pBuffer)
  obtain ⟨fits,whole,-⟩ := payloadWhole found enough
  have kept := suffix.length_le
  rw [behind] at count'
  omega

end Counts

theorem roundsLeave (rounds : Rounds env pBuffer loop take) (small : pBuffer.length ≤ 1073741824) (p : Bytes) :
    ∀ (o fuel k : Nat) (c : Ctx), pBuffer.drop o = p → o ≤ pBuffer.length → p.length < fuel → c.toRx.Idle →
    (∀ f ∈ (decode fileFormat p).all, Admissible f) →
    Leaves (loop fuel k o c) (pBuffer.length - (decode fileFormat p).pending.length : Nat) c
      (c.toRx.image env (decode fileFormat p)) (p.length - (decode fileFormat p).pending.length) := by
  induction p using fileInduction with
  | waiting p none =>
    intro o fuel k c here inside fuelled idle admissible
    obtain ⟨fuel,rfl⟩ : ∃ n, fuel = n + 1 := ⟨fuel - 1,by omega⟩
    have length : (pBuffer.drop o).length = pBuffer.length - o := List.length_drop
    have stop : pBuffer.length - p.length = o := by rw [← here,length]; omega
    rw [fileWaiting none,stop,Nat.sub_self]
    exact waitsLeave env rounds inside small (by rw [here]; exact none)
  | running p h found short =>
    intro o fuel k c here inside fuelled idle admissible
    subst here
    obtain ⟨fuel,rfl⟩ : ∃ n, fuel = n + 2 := ⟨fuel - 2,by have beyond := fileFormat.beyond found; omega⟩
    obtain ⟨fits,body,ends⟩ := payloadRunning found short
    rw [fileRunning found short,← body] at admissible ⊢
    have only := admissible _ (List.mem_singleton.mpr rfl)
    rw [runningUsed found short]
    refine roundLeaves env rounds found inside fits small idle only ?_
    intro c' rx'
    have filled : c.toRx.settled env ⟨h,(pBuffer.drop o).take h.headerSize,payloadThere pBuffer o h⟩ =
        c.toRx.image env ⟨[],some ⟨h,(pBuffer.drop o).take h.headerSize,payloadThere pBuffer o h⟩,[]⟩ := by
      have count := List.length_drop (i := o) (l := pBuffer)
      exact if_neg (show (payloadThere pBuffer o h).length ≠ h.nFileSize.toNat by omega)
    rw [ends,← filled,← rx']
    exact waitsLeave env rounds (Nat.le_refl _) small (endWaits pBuffer)
  | frame p h found enough ih =>
    intro o fuel k c here inside fuelled idle admissible
    subst here
    obtain ⟨fuel,rfl⟩ : ∃ n, fuel = n + 1 := ⟨fuel - 1,by omega⟩
    have spans : 0 < h.headerSize := fileFormat.spans h
    have count := List.length_drop (i := o) (l := pBuffer)
    obtain ⟨fits,whole,behind⟩ := payloadWhole found enough
    rw [fileWhole found enough,← bodyThere] at admissible ⊢
    rw [behind] at admissible ih ⊢
    rw [Reception.afterAll] at admissible
    have only := admissible _ (List.mem_append_left _ (List.mem_singleton.mpr rfl))
    have rest : ∀ f ∈ (decode fileFormat (pBuffer.drop (o + h.headerSize + h.nFileSize.toNat))).all, Admissible f :=
      fun f member => admissible f (List.mem_append_right _ member)
    rw [Rx.imageAfter,Reception.afterPending,frameUsed found enough rfl (decodePending _)]
    refine roundLeaves env rounds found inside fits small idle only ?_
    intro c' rx'
    have delivered : c.toRx.settled env ⟨h,(pBuffer.drop o).take h.headerSize,payloadThere pBuffer o h⟩ =
        c.toRx.delivered env ⟨h,(pBuffer.drop o).take h.headerSize,payloadThere pBuffer o h⟩ := if_pos whole
    rw [delivered] at rx'
    -- What follows the frame is read by the rest of the loop, from an idle session.
    have next := ih (o + h.headerSize + h.nFileSize.toNat) fuel (k + 1) c' rfl (by omega)
      (by rw [List.length_drop]; omega) (by rw [rx']; exact Rx.deliveredIdle _ _ _) rest
    rw [whole]
    rwa [rx'] at next

end Rounds

theorem restLeaves {r : Rx} {f : Frame fileFormat} {c : Ctx} (n : Nat) (rx : c.toRx = r.filled env f)
    (running : f.body.length < f.head.nFileSize.toNat) (size : f.head.nFileSize.toNat < 2147483648)
    (small : pBuffer.length ≤ 1073741824)
    (count : n = min (f.head.nFileSize.toNat - f.body.length) pBuffer.length) :
    Leaves (saveRest allSucceed pBuffer c) n c (r.filled env {f with body := f.body ++ pBuffer.take n}) n := by
  have taken : (f.body ++ pBuffer.take n).length = f.body.length + n := by
    rw [List.length_append,List.length_take_of_le (by omega)]
  have remained : int ((f.head.nFileSize.toNat : Int) - f.body.length) =
      (f.head.nFileSize.toNat - f.body.length : Nat) := intSub (by omega) (by omega)
  have advanced : int ((f.body.length : Int) + n) = (f.body ++ pBuffer.take n).length := by
    rw [taken]
    exact intAdd (by omega)
  have left : (f.body.length : Int) < f.head.nFileSize.toNat := Int.ofNat_lt.mpr running
  simp only [saveRest,rx,Rx.filledSize,Rx.filledSaved]
  rw [if_pos left,remained,intMin,← count,allSucceedTrue]
  have written := writeLeaves (c := c) (o := 0) (n := n) (by omega) small (by rw [rx]; rfl)
  rw [List.drop_zero] at written
  refine written.bind (m := 0) ?_
  intro c₁ rx₁
  have session : c₁.session = (r.filled env f).session := by rw [rx₁,rx,Rx.appendSession]
  simp only [noteRx,session,Rx.filledSaved,advanced]
  have item : ((c₁.note (.offset 0 n pBuffer.length)).on
      (Rx.setSaved (f.body ++ pBuffer.take n).length)).session.pFileItem = some r.dialog.items.length := by
    rw [onRx,noteRx,Rx.setSaved,session,Rx.filledItem]
  refine (withItemLeaves item _).noted (a := .offset 0 n pBuffer.length) rfl |>.bind (m := 0) ?_
  intro c₂ rx₂
  have after : c₂.toRx = r.filled env {f with body := f.body ++ pBuffer.take n} := by
    rw [rx₂,onRx,noteRx,rx₁,rx]
    exact filledMore env r f (pBuffer.take n)
  rw [← after]
  exact Leaves.done _ _

theorem restShort {r : Rx} {f : Frame fileFormat} {c : Ctx} (rx : c.toRx = r.filled env f)
    (size : f.head.nFileSize.toNat < 2147483648) (short : f.body.length + pBuffer.length < f.head.nFileSize.toNat)
    (small : pBuffer.length ≤ 1073741824) :
    Leaves (saveRest allSucceed pBuffer c) pBuffer.length c (r.filled env {f with body := f.body ++ pBuffer})
        pBuffer.length ∧ ((f.body ++ pBuffer).length : Int) ≠ f.head.nFileSize.toNat := by
  have rest := restLeaves env pBuffer.length rx (by omega) size small (by omega)
  rw [List.take_length] at rest
  refine ⟨rest,?_⟩
  rw [List.length_append]
  omega

theorem bodyWhole {f : Frame fileFormat} {need : Nat} (enough : need ≤ pBuffer.length)
    (whole : f.body.length + need = f.head.nFileSize.toNat) :
    ((f.body ++ pBuffer.take need).length : Int) = f.head.nFileSize.toNat := by
  rw [List.length_append,List.length_take_of_le enough]
  omega

theorem usedBehind {need : Nat} (enough : need ≤ pBuffer.length) :
    pBuffer.length - (decode fileFormat (pBuffer.drop need)).pending.length =
      need + (0 + ((pBuffer.drop need).length - (decode fileFormat (pBuffer.drop need)).pending.length)) := by
  have kept := List.IsSuffix.length_le (decodePending (F := fileFormat) (pBuffer.drop need))
  have count := List.length_drop (i := need) (l := pBuffer)
  omega

section Running
variable {r : Rx} {f : Frame fileFormat} {c : Ctx}

theorem bodyRunning (rx : c.toRx = r.filled env f) (size : f.head.nFileSize.toNat < 2147483648)
    (short : f.body.length + pBuffer.length < f.head.nFileSize.toNat) (small : pBuffer.length ≤ 1073741824) :
    Leaves (parserBody env allSucceed pBuffer c) pBuffer.length c (r.filled env {f with body := f.body ++ pBuffer})
      pBuffer.length := by
  have more : (f.head.nFileSize.toNat : Int) ≠ 0 := by omega
  obtain ⟨rest,left⟩ := restShort env rx size short small
  simp only [parserBody,rx,Rx.filledSize]
  rw [if_pos more]
  refine rest.bind (m := 0) ?_
  intro c₁ rx₁
  simp only [rx₁,Rx.filledSize,Rx.filledSaved]
  rw [if_neg left,← rx₁]
  exact Leaves.done _ _

theorem bodyCompletes (need : Nat) (rx : c.toRx = r.filled env f) (size : f.head.nFileSize.toNat < 2147483648)
    (running : f.body.length < f.head.nFileSize.toNat) (small : pBuffer.length ≤ 1073741824)
    (whole : f.body.length + need = f.head.nFileSize.toNat) (enough : need ≤ pBuffer.length)
    (admissible : ∀ g ∈ (decode fileFormat (pBuffer.drop need)).all, Admissible g) :
    Leaves (parserBody env allSucceed pBuffer c)
      (pBuffer.length - (decode fileFormat (pBuffer.drop need)).pending.length : Nat) c
      ((r.delivered env {f with body := f.body ++ pBuffer.take need}).image env
        (decode fileFormat (pBuffer.drop need)))
      (pBuffer.length - (decode fileFormat (pBuffer.drop need)).pending.length) := by
  have more : (f.head.nFileSize.toNat : Int) ≠ 0 := by omega
  have all := bodyWhole enough whole
  have used := usedBehind enough
  simp only [parserBody,rx,Rx.filledSize]
  rw [if_pos more,used]
  refine (restLeaves env need rx running size small (by omega)).bind ?_
  intro c₁ rx₁
  simp only [rx₁,Rx.filledSize,Rx.filledSaved]
  rw [if_pos all]
  refine (closeLeaves rx₁).bind ?_
  intro c₂ rx₂
  have behind := roundsLeave env (getFileRounds env pBuffer) small (pBuffer.drop need) need (pBuffer.length + 1) 0 c₂
    rfl enough (by rw [List.length_drop]; omega) (by rw [rx₂]; exact Rx.deliveredIdle _ _ _) admissible
  rw [rx₂,used] at behind
  exact behind

end Running

structure Feeds {α : Type} (env : Env) (pBuffer : Bytes) (body : Ctx → Outcome Ctx α) (value : Nat → α) : Prop where
  idle : ∀ {c : Ctx}, c.toRx.Idle → (∀ f ∈ (decode fileFormat pBuffer).all, Admissible f) →
    Leaves (body c) (value (pBuffer.length - (decode fileFormat pBuffer).pending.length)) c
      (c.toRx.image env (decode fileFormat pBuffer)) (pBuffer.length - (decode fileFormat pBuffer).pending.length)
  running : ∀ {c : Ctx} {r : Rx} {f : Frame fileFormat}, c.toRx = r.filled env f →
    f.head.nFileSize.toNat < 2147483648 → f.body.length + pBuffer.length < f.head.nFileSize.toNat →
    Leaves (body c) (value pBuffer.length) c (r.filled env {f with body := f.body ++ pBuffer}) pBuffer.length
  completes : ∀ {c : Ctx} {r : Rx} {f : Frame fileFormat} (need : Nat), c.toRx = r.filled env f →
    f.head.nFileSize.toNat < 2147483648 → f.body.length < f.head.nFileSize.toNat →
    f.body.length + need = f.head.nFileSize.toNat → need ≤ pBuffer.length →
    (∀ g ∈ (decode fileFormat (pBuffer.drop need)).all, Admissible g) →
    Leaves (body c) (value (pBuffer.length - (decode fileFormat (pBuffer.drop need)).pending.length)) c
      ((r.delivered env {f with body := f.body ++ pBuffer.take need}).image env (decode fileFormat (pBuffer.drop need)))
      (pBuffer.length - (decode fileFormat (pBuffer.drop need)).pending.length)

theorem parserFeeds (small : pBuffer.length ≤ 1073741824) :
    Feeds env pBuffer (parserBody env allSucceed pBuffer) Int.ofNat where
  idle := by
    intro c still admissible
    simp only [parserBody]
    rw [if_neg (by simpa using still.nFileSize)]
    exact roundsLeave env (getFileRounds env pBuffer) small pBuffer 0 (pBuffer.length + 1) 0 c rfl (by omega) (by omega)
      still admissible
  running := fun rx size short => bodyRunning env rx size short small
  completes := fun need rx size running whole enough admissible =>
    bodyCompletes env need rx size running small whole enough admissible

theorem bodyFeeds {α : Type} {body : Ctx → Outcome Ctx α} {value : Nat → α} {r : Rx} {p q : Bytes} {c : Ctx}
    (feeds : Feeds env pBuffer body value) (idle : r.Idle) (rx : c.toRx = r.image env (decode fileFormat p))
    (buffer : pBuffer = (decode fileFormat p).pending ++ q)
    (admissible : ∀ f ∈ (decode fileFormat (p ++ q)).all, Admissible f) :
    Leaves (body c) (value (pBuffer.length - (decode fileFormat (p ++ q)).pending.length)) c
      (r.image env (decode fileFormat (p ++ q)))
      (pBuffer.length - (decode fileFormat (p ++ q)).pending.length) := by
  have sound := decodeSound (F := fileFormat) p
  rw [← feedDecode] at admissible ⊢
  generalize decode fileFormat p = past at *
  cases current : past.current with
  | none =>
    have before : c.toRx = past.frames.foldl (Rx.delivered env) r := by
      rw [rx,Rx.imageIdle current]
    have still : c.toRx.Idle := by
      rw [before]
      exact Rx.foldlIdle env idle _
    simp only [feed,current] at admissible ⊢
    rw [← buffer,Reception.afterAll] at admissible
    rw [← buffer,Rx.imageAfter,← before]
    exact feeds.idle still fun f member => admissible f (List.mem_append_right _ member)
  | some f =>
    obtain ⟨_,running,none⟩ := sound.running f current
    have running' : f.body.length < f.head.nFileSize.toNat := running
    have before : c.toRx = (past.frames.foldl (Rx.delivered env) r).filled env f := by
      rw [rx,Rx.imageFilled current]
    rw [none,List.nil_append] at buffer
    subst buffer
    simp only [feed,current] at admissible ⊢
    by_cases few : pBuffer.length < f.head.nFileSize.toNat - f.body.length
    · rw [if_pos few] at admissible ⊢
      have size := (admissible {f with body := f.body ++ pBuffer} (by simp [Reception.all])).size
      exact feeds.running before size (by omega)
    · rw [if_neg few] at admissible ⊢
      rw [Reception.afterAll] at admissible
      have size := (admissible {f with body := f.body ++ pBuffer.take (f.head.nFileSize.toNat - f.body.length)}
        (by simp)).size
      have rest := feeds.completes (f.head.nFileSize.toNat - f.body.length) before size running'
        (by omega) (by omega) fun g member => admissible g (List.mem_append_right _ member)
      rw [Rx.imageAfter,List.foldl_append]
      exact rest

end Frames

end JokeDse
