import JokeDse.Crc32
import JokeDse.Lib.LittleEndian

/-! The packed header in front of every file (FileHeader.h). In memory and on the wire it is the same 26
octets; a pointer cast reads the fields out of them. -/
namespace JokeDse

structure FilebufHeader where
  szHeader : Vector Byte 4
  nNameSize : Word
  nFileSize : Uint
  nFoundFiles : Uint
  nFilterFiles : Uint
  nDecryptFiles : Uint
  nCRC32 : Uint
  deriving DecidableEq, Repr

def sizeofFilebufHeader : Nat := 26

namespace FilebufHeader

def covered (h : FilebufHeader) : Bytes :=
  h.szHeader.toList ++ LittleEndian.encode 2 h.nNameSize.toNat ++ LittleEndian.encode 4 h.nFileSize.toNat ++
  LittleEndian.encode 4 h.nFoundFiles.toNat ++ LittleEndian.encode 4 h.nFilterFiles.toNat ++
  LittleEndian.encode 4 h.nDecryptFiles.toNat

def bytes (h : FilebufHeader) : Bytes := h.covered ++ LittleEndian.encode 4 h.nCRC32.toNat

def field (memory : Bytes) (offset size : Nat) : Nat := LittleEndian.decode ((memory.drop offset).take size)

/-- `(FilebufHeader *)p` for a `p` that points at `memory`. -/
def ofMemory (memory : Bytes) : FilebufHeader where
  szHeader := #v[memory.getD 0 0,memory.getD 1 0,memory.getD 2 0,memory.getD 3 0]
  nNameSize := BitVec.ofNat 16 (field memory 4 2)
  nFileSize := BitVec.ofNat 32 (field memory 6 4)
  nFoundFiles := BitVec.ofNat 32 (field memory 10 4)
  nFilterFiles := BitVec.ofNat 32 (field memory 14 4)
  nDecryptFiles := BitVec.ofNat 32 (field memory 18 4)
  nCRC32 := BitVec.ofNat 32 (field memory 22 4)

def new (szFilename : Bytes) (nFileSize nFoundFiles nSendFiles nFilteredFils : Int) : FilebufHeader :=
  let h : FilebufHeader := {
    szHeader := #v[0xFF,0xFF,0xFF,0xFF]
    nNameSize := BitVec.ofNat 16 (strlen szFilename)
    nFileSize := toUint nFileSize
    nFoundFiles := toUint nFoundFiles
    nFilterFiles := toUint nFilteredFils
    nDecryptFiles := toUint nSendFiles
    nCRC32 := 0 }
  {h with nCRC32 := crc32 h.bytes (sizeofFilebufHeader - 4)}

def checkPreFix (h : FilebufHeader) : Bool :=
  h.szHeader[0] == 0xFF && h.szHeader[1] == 0xFF && h.szHeader[2] == 0xFF && h.szHeader[3] == 0xFF

def checkCRC (h : FilebufHeader) : Bool := h.nCRC32 == crc32 h.bytes (sizeofFilebufHeader - 4)

def headerSize (h : FilebufHeader) : Nat := sizeofFilebufHeader + h.nNameSize.toNat

@[simp] theorem coveredLength (h : FilebufHeader) : h.covered.length = 22 := by
  simp [covered]

@[simp] theorem bytesLength (h : FilebufHeader) : h.bytes.length = sizeofFilebufHeader := by
  simp [bytes,sizeofFilebufHeader]

theorem bytesCovered (h : FilebufHeader) : h.bytes.take 22 = h.covered := by
  rw [bytes,← h.coveredLength,List.take_left]

theorem headerSizeLow (h : FilebufHeader) : sizeofFilebufHeader ≤ h.headerSize := by
  simp only [headerSize,sizeofFilebufHeader]
  omega

theorem headerSizeHigh (h : FilebufHeader) : h.headerSize ≤ 26 + 65535 := by
  have word := h.nNameSize.isLt
  simp only [headerSize,sizeofFilebufHeader]
  omega

theorem fieldHere {size n : Nat} (bound : n < 256 ^ size) (after : Bytes) :
    field (LittleEndian.encode size n ++ after) 0 size = n := by
  have here : (LittleEndian.encode size n ++ after).take size = LittleEndian.encode size n := by
    rw [List.take_append_of_le_length (by simp)]
    exact List.take_of_length_le (by simp)
  rw [field,List.drop_zero,here,LittleEndian.decodeEncode bound]

theorem fieldBehind {before : Bytes} {offset : Nat} (skip : before.length ≤ offset) (memory : Bytes)
    (size : Nat) : field (before ++ memory) offset size = field memory (offset - before.length) size := by
  rw [field,field,List.drop_append,List.drop_of_length_le skip,List.nil_append]

theorem fieldWithin {memory : Bytes} {offset size : Nat} (inside : offset + size ≤ memory.length) :
    LittleEndian.encode size (field memory offset size) = (memory.drop offset).take size := by
  have length : ((memory.drop offset).take size).length = size := by
    rw [List.length_take,List.length_drop]
    omega
  have back := LittleEndian.encodeDecode ((memory.drop offset).take size)
  rwa [length] at back

theorem fieldBound {memory : Bytes} {offset size : Nat} (inside : offset + size ≤ memory.length) :
    field memory offset size < 256 ^ size := by
  have length : ((memory.drop offset).take size).length = size := by
    rw [List.length_take,List.length_drop]
    omega
  have bound := LittleEndian.decodeBound ((memory.drop offset).take size)
  rwa [length] at bound

theorem markBack (marks : Vector Byte 4) (after : Bytes) :
    #v[(marks.toList ++ after).getD 0 0,(marks.toList ++ after).getD 1 0,
      (marks.toList ++ after).getD 2 0,(marks.toList ++ after).getD 3 0] = marks := by
  apply Vector.ext
  intro i inside
  match i, inside with
  | 0, _ => simp [List.getElem?_append_left]
  | 1, _ => simp [List.getElem?_append_left]
  | 2, _ => simp [List.getElem?_append_left]
  | 3, _ => simp [List.getElem?_append_left]

theorem ofMemoryBytes (h : FilebufHeader) (after : Bytes) : ofMemory (h.bytes ++ after) = h := by
  have name : field (h.bytes ++ after) 4 2 = h.nNameSize.toNat := by
    simp only [bytes,covered,List.append_assoc]
    rw [fieldBehind (by simp)]
    simpa using fieldHere h.nNameSize.isLt _
  have file : field (h.bytes ++ after) 6 4 = h.nFileSize.toNat := by
    simp only [bytes,covered,List.append_assoc]
    rw [fieldBehind (by simp),fieldBehind (by simp)]
    simpa using fieldHere h.nFileSize.isLt _
  have found : field (h.bytes ++ after) 10 4 = h.nFoundFiles.toNat := by
    simp only [bytes,covered,List.append_assoc]
    rw [fieldBehind (by simp),fieldBehind (by simp),fieldBehind (by simp)]
    simpa using fieldHere h.nFoundFiles.isLt _
  have filter : field (h.bytes ++ after) 14 4 = h.nFilterFiles.toNat := by
    simp only [bytes,covered,List.append_assoc]
    rw [fieldBehind (by simp),fieldBehind (by simp),fieldBehind (by simp),fieldBehind (by simp)]
    simpa using fieldHere h.nFilterFiles.isLt _
  have decrypt : field (h.bytes ++ after) 18 4 = h.nDecryptFiles.toNat := by
    simp only [bytes,covered,List.append_assoc]
    rw [fieldBehind (by simp),fieldBehind (by simp),fieldBehind (by simp),fieldBehind (by simp),
      fieldBehind (by simp)]
    simpa using fieldHere h.nDecryptFiles.isLt _
  have crc : field (h.bytes ++ after) 22 4 = h.nCRC32.toNat := by
    rw [bytes,List.append_assoc,fieldBehind (by simp)]
    simpa using fieldHere h.nCRC32.isLt _
  have marks := markBack h.szHeader
    (LittleEndian.encode 2 h.nNameSize.toNat ++ (LittleEndian.encode 4 h.nFileSize.toNat ++
      (LittleEndian.encode 4 h.nFoundFiles.toNat ++ (LittleEndian.encode 4 h.nFilterFiles.toNat ++
        (LittleEndian.encode 4 h.nDecryptFiles.toNat ++ (LittleEndian.encode 4 h.nCRC32.toNat ++ after))))))
  have memory : h.bytes ++ after = h.szHeader.toList ++
      (LittleEndian.encode 2 h.nNameSize.toNat ++ (LittleEndian.encode 4 h.nFileSize.toNat ++
      (LittleEndian.encode 4 h.nFoundFiles.toNat ++ (LittleEndian.encode 4 h.nFilterFiles.toNat ++
        (LittleEndian.encode 4 h.nDecryptFiles.toNat ++ (LittleEndian.encode 4 h.nCRC32.toNat ++ after)))))) := by
    simp only [bytes,covered,List.append_assoc]
  simp only [ofMemory,name,file,found,filter,decrypt,crc]
  rw [memory,marks]
  simp

theorem bytesOfMemory {memory : Bytes} (size : memory.length = sizeofFilebufHeader) :
    (ofMemory memory).bytes = memory := by
  simp only [sizeofFilebufHeader] at size
  have width : ∀ {offset k n : Nat}, offset + k ≤ 26 → 256 ^ k = 2 ^ n →
      LittleEndian.encode k (BitVec.ofNat n (field memory offset k)).toNat = (memory.drop offset).take k := by
    intro offset k n inside same
    have within : offset + k ≤ memory.length := by omega
    have bound := fieldBound within
    rw [BitVec.toNat_ofNat,Nat.mod_eq_of_lt (by omega),fieldWithin (by omega)]
  have marks : (ofMemory memory).szHeader.toList = memory.take 4 := by
    match memory, size with
    | a :: b :: c :: d :: rest, _ => simp [ofMemory]
  simp only [bytes,covered,marks]
  simp only [ofMemory]
  rw [width (by decide) rfl,width (by decide) rfl,width (by decide) rfl,width (by decide) rfl,
    width (by decide) rfl,width (by decide) rfl]
  have join : ∀ a b, memory.take a ++ (memory.drop a).take b = memory.take (a + b) := by
    intro a b
    rw [List.take_add]
  rw [join,join,join,join,join,join]
  exact List.take_of_length_le (by omega)

theorem crc32Covered (h : FilebufHeader) :
    crc32 h.bytes (sizeofFilebufHeader - 4) = crc32 h.covered sizeofFilebufHeader := by
  have front : h.bytes.take (sizeofFilebufHeader - 4) = h.covered := h.bytesCovered
  have whole : h.covered.take sizeofFilebufHeader = h.covered :=
    List.take_of_length_le (by rw [coveredLength]; decide)
  rw [crc32,crc32,front,whole]

theorem newChecks (szFilename : Bytes) (nFileSize nFoundFiles nSendFiles nFilteredFils : Int) :
    (new szFilename nFileSize nFoundFiles nSendFiles nFilteredFils).checkPreFix = true ∧
    (new szFilename nFileSize nFoundFiles nSendFiles nFilteredFils).checkCRC = true := by
  refine ⟨rfl,?_⟩
  rw [checkCRC,crc32Covered,beq_iff_eq]
  exact crc32Covered _

end FilebufHeader
end JokeDse
