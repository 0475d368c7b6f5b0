import JokeDse.Checksum
import JokeDse.Lib.Slots

/-! The header of one frame of a file (FileHeader.h). Its constructor and its check of the checksum go by the size of
the other header, so both work on the memory from the object on; an access outside of it is undefined (`none`). -/
namespace JokeDse
open Slots (put putHere)

def sizeofFileFrame : Nat := 21

namespace FileFrame
open FilebufHeader (field)

def crc32Of (memory : Bytes) (size : Nat) : Option Uint :=
  if size ≤ memory.length then some (crc32 memory size) else none

def new (nSize nFrameID nOffset : Int) (memory : Bytes) : Option Bytes := do
  let memory ← put 0 (List.replicate sizeofFilebufHeader 0) memory
  let memory ← put 0 [0xFF,0xFF,0xFF,0xFF] memory
  let memory ← put 4 [BitVec.ofInt 8 nSize] memory
  let memory ← put 5 (LittleEndian.encode 4 (toUint nFrameID).toNat) memory
  let memory ← put 9 (LittleEndian.encode 8 (BitVec.ofInt 64 nOffset).toNat) memory
  let nCRC32 ← crc32Of memory (sizeofFilebufHeader - 4)
  put 17 (LittleEndian.encode 4 nCRC32.toNat) memory

def checkPreFix (memory : Bytes) : Option Bool :=
  match memory with
  | a :: b :: c :: d :: _ => some (a == 0xFF && b == 0xFF && c == 0xFF && d == 0xFF)
  | _ => none

def checkCRC (memory : Bytes) : Option Bool := do
  let crc ← crc32Of memory (sizeofFilebufHeader - 4)
  return BitVec.ofNat 32 (field memory 17 4) == crc

section Object
variable (nSize nFrameID nOffset : Int)

def front : Bytes :=
  [0xFF,0xFF,0xFF,0xFF,BitVec.ofInt 8 nSize] ++ (LittleEndian.encode 4 (toUint nFrameID).toNat ++
    LittleEndian.encode 8 (BitVec.ofInt 64 nOffset).toNat)

def summed (nCRC32 : Uint) (behind : Byte) : Bytes :=
  front nSize nFrameID nOffset ++ (LittleEndian.encode 4 nCRC32.toNat ++ [behind])

def digest : Uint := crc32 (summed nSize nFrameID nOffset 0 0) 22

def PassesInPlace : Prop := ∀ memory : Bytes, sizeofFilebufHeader ≤ memory.length →
  ∃ built, new nSize nFrameID nOffset memory = some built ∧ checkPreFix built = some true ∧ checkCRC built = some true

def PassesCopied : Prop := ∀ memory built behind : Bytes, sizeofFilebufHeader ≤ memory.length →
  new nSize nFrameID nOffset memory = some built → behind ≠ [] →
    checkPreFix (built.take sizeofFileFrame ++ behind) = some true ∧
      checkCRC (built.take sizeofFileFrame ++ behind) = some true

def Confined : Prop :=
  (∀ object after : Bytes, object.length = sizeofFileFrame → ∃ built,
    built.length = sizeofFileFrame ∧ new nSize nFrameID nOffset (object ++ after) = some (built ++ after)) ∧
  ∀ object : Bytes, object.length = sizeofFileFrame → (checkPreFix object).isSome ∧ (checkCRC object).isSome

def Sound : Prop :=
  PassesInPlace nSize nFrameID nOffset ∧ PassesCopied nSize nFrameID nOffset ∧ Confined nSize nFrameID nOffset

theorem frontLength : (front nSize nFrameID nOffset).length = 17 := by
  simp [front]

theorem summedLength (nCRC32 : Uint) (behind : Byte) : (summed nSize nFrameID nOffset nCRC32 behind).length = 22 := by
  simp [summed,frontLength]

end Object

variable {nSize nFrameID nOffset : Int}

theorem crc32Front {summed : Bytes} {size : Nat} (length : summed.length = size) (behind : Bytes) :
    crc32Of (summed ++ behind) size = some (crc32 summed size) := by
  subst length
  rw [crc32Of,if_pos (by simp),crc32,crc32,List.take_left' rfl,List.take_length]

theorem newBuilds (object behind : Bytes) (size : object.length = sizeofFilebufHeader) :
    new nSize nFrameID nOffset (object ++ behind) =
      some (summed nSize nFrameID nOffset (digest nSize nFrameID nOffset) 0 ++ ([0,0,0,0] ++ behind)) := by
  have zeros : put 0 (List.replicate sizeofFilebufHeader 0) (object ++ behind) = some (List.replicate 26 0 ++ behind) :=
    @putHere _ [] object _ behind 0 rfl (by rw [size,List.length_replicate])
  have marks : put 0 [0xFF,0xFF,0xFF,0xFF] (List.replicate 26 0 ++ behind) =
      some ([0xFF,0xFF,0xFF,0xFF] ++ (List.replicate 22 0 ++ behind)) := @putHere _ [] [0,0,0,0] _ _ 0 rfl rfl
  have buffer : put 4 [BitVec.ofInt 8 nSize] ([0xFF,0xFF,0xFF,0xFF] ++ (List.replicate 22 0 ++ behind)) =
      some ([0xFF,0xFF,0xFF,0xFF] ++ ([BitVec.ofInt 8 nSize] ++ (List.replicate 21 0 ++ behind))) :=
    @putHere _ [0xFF,0xFF,0xFF,0xFF] [0] _ _ 4 rfl rfl
  have frame : put 5 (LittleEndian.encode 4 (toUint nFrameID).toNat)
      ([0xFF,0xFF,0xFF,0xFF] ++ ([BitVec.ofInt 8 nSize] ++ (List.replicate 21 0 ++ behind))) =
      some ([0xFF,0xFF,0xFF,0xFF,BitVec.ofInt 8 nSize] ++ (LittleEndian.encode 4 (toUint nFrameID).toNat ++
        (List.replicate 17 0 ++ behind))) :=
    @putHere _ [0xFF,0xFF,0xFF,0xFF,BitVec.ofInt 8 nSize] [0,0,0,0] _ _ 5 rfl (by simp)
  have offset : put 9 (LittleEndian.encode 8 (BitVec.ofInt 64 nOffset).toNat)
      ([0xFF,0xFF,0xFF,0xFF,BitVec.ofInt 8 nSize] ++ (LittleEndian.encode 4 (toUint nFrameID).toNat ++
        (List.replicate 17 0 ++ behind))) = some (front nSize nFrameID nOffset ++ (List.replicate 9 0 ++ behind)) := by
    have stores := @putHere _
      ([0xFF,0xFF,0xFF,0xFF,BitVec.ofInt 8 nSize] ++ LittleEndian.encode 4 (toUint nFrameID).toNat)
      [0,0,0,0,0,0,0,0] (LittleEndian.encode 8 (BitVec.ofInt 64 nOffset).toNat) (List.replicate 9 0 ++ behind) 9
      (by simp) (by simp)
    rw [front]
    simp only [List.append_assoc] at stores ⊢
    exact stores
  have taken : crc32Of (front nSize nFrameID nOffset ++ (List.replicate 9 0 ++ behind)) (sizeofFilebufHeader - 4) =
      some (digest nSize nFrameID nOffset) := by
    have sum := crc32Front (summedLength nSize nFrameID nOffset 0 0) ([0,0,0,0] ++ behind)
    rwa [summed,List.append_assoc] at sum
  have checksum : put 17 (LittleEndian.encode 4 (digest nSize nFrameID nOffset).toNat)
      (front nSize nFrameID nOffset ++ (List.replicate 9 0 ++ behind)) =
      some (summed nSize nFrameID nOffset (digest nSize nFrameID nOffset) 0 ++ ([0,0,0,0] ++ behind)) := by
    rw [summed,List.append_assoc,List.append_assoc]
    exact @putHere _ _ [0,0,0,0] _ _ 17 (frontLength ..) (by simp)
  simp only [new,zeros,marks,buffer,frame,offset,taken,checksum,Option.bind_eq_bind,Option.bind_some]

theorem newOutside {memory : Bytes} (short : memory.length < sizeofFilebufHeader) :
    new nSize nFrameID nOffset memory = none := by
  have zeros : put 0 (List.replicate sizeofFilebufHeader 0) memory = none := by
    rw [put,if_neg (by rw [List.length_replicate]; omega)]
  rw [new,zeros]
  rfl

theorem marksPass (nCRC32 : Uint) (x : Byte) (behind : Bytes) :
    checkPreFix (summed nSize nFrameID nOffset nCRC32 x ++ behind) = some true := rfl

theorem summedCRC (nCRC32 : Uint) (x : Byte) (behind : Bytes) :
    checkCRC (summed nSize nFrameID nOffset nCRC32 x ++ behind) =
      some (nCRC32 == crc32 (summed nSize nFrameID nOffset nCRC32 x) 22) := by
  have taken : crc32Of _ (sizeofFilebufHeader - 4) = _ :=
    crc32Front (summedLength nSize nFrameID nOffset nCRC32 x) behind
  have stored : field (summed nSize nFrameID nOffset nCRC32 x ++ behind) 17 4 = nCRC32.toNat := by
    rw [summed,List.append_assoc,List.append_assoc,FilebufHeader.fieldBehind (Nat.le_of_eq (frontLength ..)),
      frontLength]
    exact FilebufHeader.fieldHere nCRC32.isLt _
  rw [checkCRC,taken,stored,BitVec.ofNat_toNat,BitVec.setWidth_eq]
  rfl

theorem summedDetects {c c' : Uint} {x x' : Byte} {start : Nat}
    (outside : Crc.SameOutside start 4 (summed nSize nFrameID nOffset c x) (summed nSize nFrameID nOffset c' x'))
    (differ : summed nSize nFrameID nOffset c x ≠ summed nSize nFrameID nOffset c' x') :
    crc32 (summed nSize nFrameID nOffset c x) 22 ≠ crc32 (summed nSize nFrameID nOffset c' x') 22 := by
  have length := summedLength nSize nFrameID nOffset
  have sums := crc32Detects ((length c x).trans (length c' x').symm) outside differ
  rwa [length,length] at sums

theorem summedSame {c c' : Uint} {x x' : Byte} :
    summed nSize nFrameID nOffset c x = summed nSize nFrameID nOffset c' x' ↔ c = c' ∧ x = x' := by
  refine ⟨fun same => ?_,fun both => by rw [both.1,both.2]⟩
  obtain ⟨fields,last⟩ := List.append_inj' (List.append_cancel_left same) rfl
  refine ⟨BitVec.eq_of_toNat_eq ?_,List.cons.inj last |>.1⟩
  rw [← @LittleEndian.decodeEncode 4 _ c.isLt,fields,@LittleEndian.decodeEncode 4 _ c'.isLt]

/-- The checksum is part of what it is compared with, so it comes out again only if it leaves that as it was. -/
theorem digestAgain : crc32 (summed nSize nFrameID nOffset (digest nSize nFrameID nOffset) 0) 22 =
    digest nSize nFrameID nOffset ↔ digest nSize nFrameID nOffset = 0 := by
  constructor
  · intro again
    by_contra some
    refine summedDetects (Crc.sameAround _ [0] ?_ ?_) (fun same => some (summedSame.mp same).1) again <;> simp
  · intro zero
    calc crc32 (summed nSize nFrameID nOffset (digest nSize nFrameID nOffset) 0) 22
        = crc32 (summed nSize nFrameID nOffset 0 0) 22 := by rw [zero]
      _ = digest nSize nFrameID nOffset := rfl

theorem lastDetects (c : Uint) {x x' : Byte} (differ : x ≠ x') :
    crc32 (summed nSize nFrameID nOffset c x) 22 ≠ crc32 (summed nSize nFrameID nOffset c x') 22 := by
  have window := @Crc.sameAround 4 [x] [x'] (front nSize nFrameID nOffset ++ LittleEndian.encode 4 c.toNat) [] rfl
    (by simp)
  rw [List.append_nil,List.append_nil,List.append_assoc,List.append_assoc] at window
  exact summedDetects window fun same => differ (summedSame.mp same).2

theorem objectMoved (c : Uint) (x y : Byte) (rest behind : Bytes) :
    (summed nSize nFrameID nOffset c x ++ rest).take sizeofFileFrame ++ y :: behind =
      summed nSize nFrameID nOffset c y ++ behind := by
  have size : (front nSize nFrameID nOffset ++ LittleEndian.encode 4 c.toNat).length = sizeofFileFrame := by
    rw [List.length_append,frontLength,LittleEndian.encodeLength]
    rfl
  rw [summed,summed,← List.append_assoc,List.append_assoc,List.take_left' size,← List.append_assoc _ _ [y],
    List.append_assoc]
  rfl

theorem builtFrom {memory : Bytes} (room : sizeofFilebufHeader ≤ memory.length) :
    new nSize nFrameID nOffset memory = some (summed nSize nFrameID nOffset (digest nSize nFrameID nOffset) 0 ++
      ([0,0,0,0] ++ memory.drop sizeofFilebufHeader)) := by
  have built := @newBuilds nSize nFrameID nOffset (memory.take sizeofFilebufHeader) (memory.drop sizeofFilebufHeader)
    (List.length_take_of_le room)
  rwa [List.take_append_drop] at built

theorem inPlace : PassesInPlace nSize nFrameID nOffset ↔ digest nSize nFrameID nOffset = 0 := by
  rw [← digestAgain]
  constructor
  · intro passes
    have room : sizeofFilebufHeader ≤ (List.replicate 26 (0 : Byte)).length := Nat.le_of_eq List.length_replicate.symm
    obtain ⟨built,builds,-,crc⟩ := passes (List.replicate 26 0) room
    cases (builtFrom room).symm.trans builds
    rw [summedCRC] at crc
    exact (beq_iff_eq.mp (Option.some.inj crc)).symm
  · intro again memory room
    refine ⟨_,builtFrom room,marksPass _ _ _,?_⟩
    rw [summedCRC,beq_iff_eq.mpr again.symm]

theorem notCopied : ¬ PassesCopied nSize nFrameID nOffset := by
  intro passes
  have crc : ∀ x : Byte, digest nSize nFrameID nOffset =
      crc32 (summed nSize nFrameID nOffset (digest nSize nFrameID nOffset) x) 22 := by
    intro x
    have room : sizeofFilebufHeader ≤ (List.replicate 26 (0 : Byte)).length := Nat.le_of_eq List.length_replicate.symm
    have checks := (passes _ _ [x] room (builtFrom room) (List.cons_ne_nil _ _)).2
    rw [objectMoved,summedCRC] at checks
    exact beq_iff_eq.mp (Option.some.inj checks)
  exact lastDetects _ (show (0 : Byte) ≠ 1 by decide) ((crc 0).symm.trans (crc 1))

theorem notConfined : ¬ Confined nSize nFrameID nOffset := by
  rintro ⟨builds,-⟩
  obtain ⟨built,-,result⟩ := builds (List.replicate 21 0) [] List.length_replicate
  rw [newOutside (by simp [sizeofFilebufHeader])] at result
  cases result

end FileFrame

theorem fileFrameNever (nSize nFrameID nOffset : Int) :
    ¬ FileFrame.Sound nSize nFrameID nOffset ∧
      (FileFrame.PassesInPlace nSize nFrameID nOffset ↔ FileFrame.digest nSize nFrameID nOffset = 0) ∧
      ¬ FileFrame.PassesCopied nSize nFrameID nOffset ∧ ¬ FileFrame.Confined nSize nFrameID nOffset :=
  ⟨fun sound => FileFrame.notConfined sound.2.2,FileFrame.inPlace,FileFrame.notCopied,FileFrame.notConfined⟩

example : FileFrame.digest 16 1 942931010 = 0 := by decide +kernel

theorem fileFrameRejected : ¬ ∀ nSize nFrameID nOffset : Int, FileFrame.Sound nSize nFrameID nOffset := by
  intro always
  obtain ⟨built,builds,-,crc⟩ := (always 16 1 0).1 (List.replicate 26 0) (by decide)
  have rejected : (FileFrame.new 16 1 0 (List.replicate 26 0)).bind FileFrame.checkCRC = some false := by decide +kernel
  rw [builds] at rejected
  cases crc.symm.trans rejected

end JokeDse
