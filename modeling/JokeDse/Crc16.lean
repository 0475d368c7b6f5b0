import JokeDse.Basic
import JokeDse.Lib.CrcUp

/-! The two 16-bit checksums of Utility.cpp: cal_crc goes bit by bit, CALC_CRC16 looks every octet up. Buffers are
their cells. -/
namespace JokeDse

def calBit (octet i : Byte) (crc : Word) : Word :=
  let crc := if crc &&& 0x8000 ≠ 0 then crc * 2 ^^^ 0x1021 else crc * 2
  if octet &&& i ≠ 0 then crc ^^^ 0x1021 else crc

def calBits (octet i : Byte) (crc : Word) : Word :=
  if i = 0 then crc else calBits octet (i / 2) (calBit octet i crc)
termination_by i.toNat
decreasing_by
  have some : 0 < i.toNat := Nat.pos_of_ne_zero fun zero => ‹¬ i = 0› (BitVec.eq_of_toNat_eq zero)
  rw [BitVec.toNat_udiv]
  exact Nat.div_lt_self some (by decide)

def calLoop : Nat → Bytes → Word → Except Stop Word
  | 0, _, crc => .ok crc
  | _ + 1, [], _ => .error .accessViolation
  | len + 1, octet :: ptr, crc => calLoop len ptr (calBits octet 0x80 crc)

def calCrc (ptr : Bytes) (len : Word) : Except Stop Word := calLoop len.toNat ptr 0

set_option maxRecDepth 4096 in
def crcTable : Vector Uint 256 := Array.toVector #[
  0x0000#32,0x1021#32,0x2042#32,0x3063#32,0x4084#32,0x50a5#32,0x60c6#32,0x70e7#32,
  0x8108#32,0x9129#32,0xa14a#32,0xb16b#32,0xc18c#32,0xd1ad#32,0xe1ce#32,0xf1ef#32,
  0x1231#32,0x0210#32,0x3273#32,0x2252#32,0x52b5#32,0x4294#32,0x72f7#32,0x62d6#32,
  0x9339#32,0x8318#32,0xb37b#32,0xa35a#32,0xd3bd#32,0xc39c#32,0xf3ff#32,0xe3de#32,
  0x2462#32,0x3443#32,0x0420#32,0x1401#32,0x64e6#32,0x74c7#32,0x44a4#32,0x5485#32,
  0xa56a#32,0xb54b#32,0x8528#32,0x9509#32,0xe5ee#32,0xf5cf#32,0xc5ac#32,0xd58d#32,
  0x3653#32,0x2672#32,0x1611#32,0x0630#32,0x76d7#32,0x66f6#32,0x5695#32,0x46b4#32,
  0xb75b#32,0xa77a#32,0x9719#32,0x8738#32,0xf7df#32,0xe7fe#32,0xd79d#32,0xc7bc#32,
  0x48c4#32,0x58e5#32,0x6886#32,0x78a7#32,0x0840#32,0x1861#32,0x2802#32,0x3823#32,
  0xc9cc#32,0xd9ed#32,0xe98e#32,0xf9af#32,0x8948#32,0x9969#32,0xa90a#32,0xb92b#32,
  0x5af5#32,0x4ad4#32,0x7ab7#32,0x6a96#32,0x1a71#32,0x0a50#32,0x3a33#32,0x2a12#32,
  0xdbfd#32,0xcbdc#32,0xfbbf#32,0xeb9e#32,0x9b79#32,0x8b58#32,0xbb3b#32,0xab1a#32,
  0x6ca6#32,0x7c87#32,0x4ce4#32,0x5cc5#32,0x2c22#32,0x3c03#32,0x0c60#32,0x1c41#32,
  0xedae#32,0xfd8f#32,0xcdec#32,0xddcd#32,0xad2a#32,0xbd0b#32,0x8d68#32,0x9d49#32,
  0x7e97#32,0x6eb6#32,0x5ed5#32,0x4ef4#32,0x3e13#32,0x2e32#32,0x1e51#32,0x0e70#32,
  0xff9f#32,0xefbe#32,0xdfdd#32,0xcffc#32,0xbf1b#32,0xaf3a#32,0x9f59#32,0x8f78#32,
  0x9188#32,0x81a9#32,0xb1ca#32,0xa1eb#32,0xd10c#32,0xc12d#32,0xf14e#32,0xe16f#32,
  0x1080#32,0x00a1#32,0x30c2#32,0x20e3#32,0x5004#32,0x4025#32,0x7046#32,0x6067#32,
  0x83b9#32,0x9398#32,0xa3fb#32,0xb3da#32,0xc33d#32,0xd31c#32,0xe37f#32,0xf35e#32,
  0x02b1#32,0x1290#32,0x22f3#32,0x32d2#32,0x4235#32,0x5214#32,0x6277#32,0x7256#32,
  0xb5ea#32,0xa5cb#32,0x95a8#32,0x8589#32,0xf56e#32,0xe54f#32,0xd52c#32,0xc50d#32,
  0x34e2#32,0x24c3#32,0x14a0#32,0x0481#32,0x7466#32,0x6447#32,0x5424#32,0x4405#32,
  0xa7db#32,0xb7fa#32,0x8799#32,0x97b8#32,0xe75f#32,0xf77e#32,0xc71d#32,0xd73c#32,
  0x26d3#32,0x36f2#32,0x0691#32,0x16b0#32,0x6657#32,0x7676#32,0x4615#32,0x5634#32,
  0xd94c#32,0xc96d#32,0xf90e#32,0xe92f#32,0x99c8#32,0x89e9#32,0xb98a#32,0xa9ab#32,
  0x5844#32,0x4865#32,0x7806#32,0x6827#32,0x18c0#32,0x08e1#32,0x3882#32,0x28a3#32,
  0xcb7d#32,0xdb5c#32,0xeb3f#32,0xfb1e#32,0x8bf9#32,0x9bd8#32,0xabbb#32,0xbb9a#32,
  0x4a75#32,0x5a54#32,0x6a37#32,0x7a16#32,0x0af1#32,0x1ad0#32,0x2ab3#32,0x3a92#32,
  0xfd2e#32,0xed0f#32,0xdd6c#32,0xcd4d#32,0xbdaa#32,0xad8b#32,0x9de8#32,0x8dc9#32,
  0x7c26#32,0x6c07#32,0x5c64#32,0x4c45#32,0x3ca2#32,0x2c83#32,0x1ce0#32,0x0cc1#32,
  0xef1f#32,0xff3e#32,0xcf5d#32,0xdf7c#32,0xaf9b#32,0xbfba#32,0x8fd9#32,0x9ff8#32,
  0x6e17#32,0x7e36#32,0x4e55#32,0x5e74#32,0x2e93#32,0x3eb2#32,0x0ed1#32,0x1ef0#32]

/-- One round of CALC_CRC16; the table's entry and the register are added as UINTs. -/
def calcStep (crchl : Word) (octet : Byte) : Word :=
  let da : Byte := (crchl / 256).setWidth 8
  ((crchl <<< 8).setWidth 32 ^^^ crcTable.get (da ^^^ octet).toFin).setWidth 16

def calcLoop (lpszBuff : Bytes) : Nat → Nat → Word → Except Stop Word
  | 0, _, crchl => .ok crchl
  | left + 1, ii, crchl =>
    match lpszBuff[ii]? with
    | some octet => calcLoop lpszBuff left (ii + 1) (calcStep crchl octet)
    | none => .error .accessViolation

def calcCrc16 (lpszBuff : Bytes) (len nInitValue : Word) : Except Stop Word := calcLoop lpszBuff len.toNat 0 nInitValue

def ccitt : Word := 0x1021

theorem crcTableEntries : ∀ i : Fin 256,
    (crcTable.get i).setWidth 16 = (CrcUp.shift ccitt)^[8] ((BitVec.ofFin (w := 8) i).setWidth 16 <<< (16 - 8)) := by
  decide +kernel

theorem maskMeets {w : Nat} (x : BitVec w) {i : Nat} (inside : i < w) :
    x &&& BitVec.twoPow w i ≠ 0 ↔ x.getLsbD i = true := by
  rw [BitVec.and_twoPow]
  split
  · rename_i one
    refine iff_of_true (fun zero => ?_) one
    have bit := congrArg (BitVec.getLsbD · i) zero
    simp [inside] at bit
  · rename_i zero
    exact iff_of_false (fun meets => meets rfl) zero

theorem calBitFeeds (octet : Byte) (k : Fin 8) (crc : Word) :
    calBit octet (0x80#8 >>> k.val) crc = CrcUp.feed ccitt crc (octet.getMsbD k) := by
  have doubled : crc * (2 : Word) = crc <<< 1 := BitVec.mul_twoPow_eq_shiftLeft crc 1
  have out : crc &&& 0x8000 ≠ 0 ↔ crc.msb = true := by
    rw [BitVec.msb_eq_getLsbD_last]
    exact maskMeets (i := 15) crc (by decide)
  have bit : octet &&& (0x80#8 >>> k.val) ≠ 0 ↔ octet.getMsbD k = true := by
    have mask : 0x80#8 >>> k.val = BitVec.twoPow 8 (7 - k) := by
      revert k
      decide
    rw [mask,maskMeets octet (by omega),BitVec.getMsbD_eq_getLsbD,decide_eq_true k.isLt,Bool.true_and]
  unfold calBit CrcUp.feed CrcUp.shift
  simp only [out,bit,doubled,ccitt]

theorem calBitsRound (octet : Byte) (k : Fin 8) (crc : Word) : calBits octet (0x80#8 >>> k.val) crc =
    calBits octet (0x80#8 >>> (k.val + 1)) (CrcUp.feed ccitt crc (octet.getMsbD k)) := by
  have mask : ∀ k : Fin 8, 0x80#8 >>> k.val ≠ 0 ∧ 0x80#8 >>> k.val / 2 = 0x80#8 >>> (k.val + 1) := by decide
  rw [calBits,if_neg (mask k).1,(mask k).2,calBitFeeds]

theorem calBitsFeed (octet : Byte) (crc : Word) {left : Nat} (most : left ≤ 8) :
    calBits octet (0x80#8 >>> (8 - left)) crc =
      ((CrcUp.octetBits octet).drop (8 - left)).foldl (CrcUp.feed ccitt) crc := by
  induction left generalizing crc with
  | zero => rw [calBits,if_pos (by decide),List.drop_of_length_le (Nat.le_refl 8),List.foldl_nil]
  | succ left ih =>
    have next : 8 - (left + 1) + 1 = 8 - left := by omega
    have inside : 8 - (left + 1) < (CrcUp.octetBits octet).length := Nat.sub_lt (by decide) (Nat.succ_pos left)
    have bit : (CrcUp.octetBits octet)[8 - (left + 1)] = octet.getMsbD (8 - (left + 1)) := by
      simp [CrcUp.octetBits]
    rw [calBitsRound octet ⟨8 - (left + 1),inside⟩,next,ih _ (by omega),List.drop_eq_getElem_cons inside,bit,next,
      List.foldl_cons]

theorem calLoopUpdates (ptr : Bytes) (crc : Word) : calLoop ptr.length ptr crc = .ok (CrcUp.update ccitt crc ptr) := by
  induction ptr generalizing crc with
  | nil => rfl
  | cons octet ptr ih =>
    have whole : calBits octet 0x80 crc = CrcUp.octet ccitt crc octet := calBitsFeed octet crc (Nat.le_refl 8)
    rw [List.length_cons,calLoop,whole,ih]
    rfl

theorem calcStepUpdates (crchl : Word) (octet : Byte) : calcStep crchl octet = CrcUp.octet ccitt crchl octet := by
  have entries (i : BitVec 8) : (crcTable.get i.toFin).setWidth 16 =
      (CrcUp.shift ccitt)^[8] (i.setWidth 16 <<< (16 - 8)) := crcTableEntries i.toFin
  have da : crchl / (256 : Word) = crchl >>> (16 - 8) := by
    apply BitVec.eq_of_toNat_eq
    rw [BitVec.toNat_udiv,BitVec.toNat_ushiftRight,Nat.shiftRight_eq_div_pow]
    rfl
  rw [CrcUp.octetLooksUp entries crchl octet (by decide),calcStep,da,BitVec.setWidth_xor,
    BitVec.setWidth_setWidth_of_le _ (by decide),BitVec.setWidth_eq]

theorem calcLoopUpdates (front buff rest : Bytes) (crchl : Word) :
    calcLoop (front ++ (buff ++ rest)) buff.length front.length crchl = .ok (CrcUp.update ccitt crchl buff) := by
  induction buff generalizing front crchl with
  | nil => rfl
  | cons octet buff ih =>
    have read : (front ++ (octet :: buff ++ rest))[front.length]? = some octet := by simp
    have next := ih (front ++ [octet]) (CrcUp.octet ccitt crchl octet)
    rw [List.append_assoc,List.singleton_append,List.length_append,List.length_singleton] at next
    rw [List.length_cons,calcLoop,read]
    simp only [calcStepUpdates]
    exact next

theorem calCrcUpdates {b : Bytes} (short : b.length ≤ 65535) :
    calCrc b (BitVec.ofNat 16 b.length) = .ok (CrcUp.update ccitt 0 b) := by
  rw [calCrc,BitVec.toNat_ofNat,Nat.mod_eq_of_lt (by omega),calLoopUpdates]

theorem calcCrc16Updates {b : Bytes} (short : b.length ≤ 65535) (init : Word) :
    calcCrc16 b (BitVec.ofNat 16 b.length) init = .ok (CrcUp.update ccitt init b) := by
  have loop := calcLoopUpdates [] b [] init
  rw [List.append_nil,List.nil_append,List.length_nil] at loop
  rw [calcCrc16,BitVec.toNat_ofNat,Nat.mod_eq_of_lt (by omega),loop]

theorem crc16Agree :
    (∀ b : Bytes, b.length ≤ 65535 → ∃ r, calCrc b (BitVec.ofNat 16 b.length) = .ok r ∧
      calcCrc16 b (BitVec.ofNat 16 b.length) 0 = .ok r) ∧
    ∀ (a b : Bytes) (init : Word), a.length + b.length ≤ 65535 →
      ∃ first r, calcCrc16 a (BitVec.ofNat 16 a.length) init = .ok first ∧
        calcCrc16 b (BitVec.ofNat 16 b.length) first = .ok r ∧
        calcCrc16 (a ++ b) (BitVec.ofNat 16 (a ++ b).length) init = .ok r := by
  refine ⟨fun b short => ⟨_,calCrcUpdates short,calcCrc16Updates short 0⟩,fun a b init short => ?_⟩
  have whole := @calcCrc16Updates (a ++ b) (by rwa [List.length_append]) init
  rw [CrcUp.updateAppend] at whole
  exact ⟨_,_,calcCrc16Updates (by omega) init,calcCrc16Updates (by omega) _,whole⟩

theorem crc16AgreeShort :
    (∃ r, calCrc [0x31,0x32,0x33] 3 = .ok r ∧ calcCrc16 [0x31,0x32,0x33] 3 0 = .ok r) ∧
      ∃ first r, calcCrc16 [0x31] 1 0xFFFF = .ok first ∧ calcCrc16 [0x32,0x33] 2 first = .ok r ∧
        calcCrc16 [0x31,0x32,0x33] 3 0xFFFF = .ok r :=
  ⟨crc16Agree.1 [0x31,0x32,0x33] (by decide),crc16Agree.2 [0x31] [0x32,0x33] 0xFFFF (by decide)⟩

end JokeDse
