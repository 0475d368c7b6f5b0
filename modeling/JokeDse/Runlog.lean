import JokeDse.HexText
import JokeDse.Lib.LittleEndian
import JokeDse.Lib.Terminated
import JokeDse.SystemTime

/-! CRunlog: RunlogBin, which puts a line together in the buffer all calls of an object share and writes it at the end
of the log file. An access outside the buffer is undefined (`none`). -/
namespace JokeDse
open Slots (store put)

variable {kind : CharWidth}

def logBuffLength : Nat := 1024 * 4

def zeroPadded (width : Nat) (n : Word) : List (Cell kind) :=
  ((Nat.toDigits 10 n.toNat).map fun digit => BitVec.ofNat kind.bits digit.toNat).leftpad width 0x30

def systemTimeText (sysTime : SystemTime) (bMillionSecond : Bool) : List (Cell kind) :=
  zeroPadded 4 sysTime.wYear ++ 0x2D :: (zeroPadded 2 sysTime.wMonth ++ 0x2D :: (zeroPadded 2 sysTime.wDay ++
    0x20 :: (zeroPadded 2 sysTime.wHour ++ 0x3A :: (zeroPadded 2 sysTime.wMinute ++
      0x3A :: (zeroPadded 2 sysTime.wSecond ++
        if bMillionSecond then 0x2E :: zeroPadded 3 sysTime.wMilliseconds else [])))))

def stringFromSystemTime (sysTime : SystemTime) (szTimeString : List (Cell kind)) (nSize : Nat)
    (bMillionSecond : Bool) : Option (List (Cell kind)) :=
  let text := systemTimeText sysTime bMillionSecond
  if text.length < nSize then put 0 (text ++ [0]) szTimeString else none

def stampInto (sysTime : SystemTime) (szBuffer : List (Cell kind)) : Option (List (Cell kind)) := do
  let szBuffer ← stringFromSystemTime sysTime szBuffer logBuffLength true
  let nDatetimeLen ← Terminated.length 0 szBuffer
  store nDatetimeLen 0x20 szBuffer

def hexInto (pBinBuff : Bytes) (nLen : Int) (chSeperator : Cell kind) (szBuffer : List (Cell kind)) :
    Option (List (Cell kind)) := do
  let nBuffLen ← Terminated.length 0 szBuffer
  let (_,hex) ← hex2AscString kind (some pBinBuff) nLen (some (szBuffer.drop nBuffLen)) (logBuffLength - nBuffLen)
    chSeperator
  return szBuffer.take nBuffLen ++ hex.getD []

def binLine (sysTime : SystemTime) (szTitle : List (Cell kind)) (pBinBuff : Bytes) (nLen : Int)
    (chSeperator : Cell kind) (szBuffer : List (Cell kind)) : Option (List (Cell kind)) := do
  let szBuffer ← stampInto sysTime szBuffer
  let szBuffer ← Terminated.append 0 szBuffer szTitle
  hexInto pBinBuff nLen chSeperator szBuffer

structure CRunlog (kind : CharWidth) where
  m_bCanlog : Bool
  m_pLogBuffer : List (Cell kind)
  m_hLogFile : Bytes

def fileOctets (text : List (Cell .narrow)) : Bytes := text

def runlogBinA (g_bEnableRunlog : Bool) (sysTime : SystemTime) (szTitle : Option (List (Cell .narrow)))
    (pBinBuff : Option Bytes) (nLen : Int) (chSeperator : Cell .narrow) (log : CRunlog .narrow) :
    Option (CRunlog .narrow) :=
  if !g_bEnableRunlog then some log
  else match szTitle,pBinBuff with
  | some szTitle,some pBinBuff =>
    if nLen = 0 ∨ !log.m_bCanlog then some log
    else do
      let szBuffer ← binLine sysTime szTitle pBinBuff nLen chSeperator log.m_pLogBuffer
      let text ← Terminated.text 0 szBuffer
      let szBuffer ← store 0 0x0D szBuffer
      let szBuffer ← store 1 0x0A szBuffer
      let szBuffer ← store 2 0x00 szBuffer
      return {log with
        m_pLogBuffer := szBuffer
        m_hLogFile := log.m_hLogFile ++ (fileOctets text ++ fileOctets (szBuffer.take 2))}
  | _,_ => some log

/-- w2aString is the conversion to the machine's ANSI code page. -/
def runlogBinW (w2aString : List (Cell .wide) → Bytes) (g_bEnableRunlog : Bool) (sysTime : SystemTime)
    (szTitle : Option (List (Cell .wide))) (pBinBuff : Option Bytes) (nLen : Int) (chSeperator : Cell .wide)
    (log : CRunlog .wide) : Option (CRunlog .wide) :=
  if !g_bEnableRunlog then some log
  else match szTitle,pBinBuff with
  | some _,some pBinBuff =>
    if nLen = 0 ∨ !log.m_bCanlog then some log
    else do
      -- a local array of the same name hides the parameter here
      let szTitle := List.replicate 256 0
      let szBuffer ← binLine sysTime szTitle pBinBuff nLen chSeperator log.m_pLogBuffer
      let text ← Terminated.text 0 szBuffer
      return {log with
        m_pLogBuffer := szBuffer
        m_hLogFile := log.m_hLogFile ++ (w2aString text ++ [0x0D,0x0A])}
  | _,_ => some log

def hexText (sep : Cell kind) (data : Bytes) : List (Cell kind) := data.flatMap (hexBlock sep)

def logLine (sysTime : SystemTime) (title : List (Cell kind)) (data : Bytes) (sep : Cell kind) : List (Cell kind) :=
  systemTimeText sysTime true ++ 0x20 :: (title ++ hexText sep data)

theorem digitClean (kind : CharWidth) {digit : Char} (isDigit : digit.isDigit) :
    BitVec.ofNat kind.bits digit.toNat ≠ 0 := by
  have range : ∀ n < 58, 48 ≤ n → BitVec.ofNat kind.bits n ≠ 0 := by cases kind <;> decide
  have bounds : 48 ≤ digit.toNat ∧ digit.toNat ≤ 57 := by
    simpa [Char.isDigit,UInt32.le_iff_toNat_le] using isDigit
  exact range _ (by omega) bounds.1

theorem zeroPaddedClean (width : Nat) (n : Word) : (0 : Cell kind) ∉ zeroPadded width n := by
  unfold zeroPadded List.leftpad
  rw [List.mem_append,List.mem_replicate,List.mem_map]
  rintro (⟨-,zero⟩ | ⟨digit,member,zero⟩)
  · cases kind <;> exact absurd zero (by decide)
  · exact digitClean kind (Nat.isDigit_of_mem_toDigits (by decide) (by decide) member) zero

theorem stampClean (sysTime : SystemTime) (bMillionSecond : Bool) :
    (0 : Cell kind) ∉ systemTimeText sysTime bMillionSecond := by
  have marks : (0 : Cell kind) ≠ 0x2D ∧ (0 : Cell kind) ≠ 0x20 ∧ (0 : Cell kind) ≠ 0x3A ∧
      (0 : Cell kind) ≠ 0x2E := by
    cases kind <;> decide
  cases bMillionSecond <;> simp only [systemTimeText,List.mem_append,List.mem_cons,List.not_mem_nil,zeroPaddedClean,
    marks,if_true,Bool.false_eq_true,if_false,or_self,not_false_eq_true]

theorem hexBlockClean (sep : Cell kind) (octet : Byte) : 0 ∉ hexBlock sep octet := by
  have digits : ∀ octet : Byte, hexChar kind (octet >>> 4).toNat ≠ 0 ∧ hexChar kind (octet &&& 0xF).toNat ≠ 0 := by
    cases kind <;> decide +kernel
  unfold hexBlock nMult
  split
  · simp only [if_true,List.mem_cons,List.not_mem_nil,(digits octet).1.symm,(digits octet).2.symm,or_self,
      not_false_eq_true]
  · rename_i some
    simp only [show ¬ 3 = 2 by decide,if_false,List.mem_cons,List.not_mem_nil,(digits octet).1.symm,
      (digits octet).2.symm,Ne.symm some,or_self,not_false_eq_true]

theorem hexTextClean (sep : Cell kind) (data : Bytes) : 0 ∉ hexText sep data := by
  intro member
  obtain ⟨octet,-,member⟩ := List.mem_flatMap.mp member
  exact hexBlockClean sep octet member

theorem hexTextSome {sep : Cell kind} {data : Bytes} (some : data ≠ []) : 0 < (hexText sep data).length := by
  have two := twoCells sep
  rw [hexText,blocksLength]
  exact Nat.mul_pos (List.length_pos_iff.mpr some) (by omega)

section Line
variable {sysTime : SystemTime} {title szBuffer : List (Cell kind)} {data : Bytes} {sep : Cell kind}

def afterStamp (sysTime : SystemTime) (szBuffer : List (Cell kind)) : List (Cell kind) :=
  szBuffer.drop ((systemTimeText sysTime true : List (Cell kind)).length + 1)

theorem stampStored (size : szBuffer.length = logBuffLength)
    (fits : (systemTimeText sysTime true : List (Cell kind)).length < logBuffLength) :
    stampInto sysTime szBuffer = some (systemTimeText sysTime true ++ 0x20 :: afterStamp sysTime szBuffer) := by
  have whole : szBuffer = [] ++ (szBuffer.take ((systemTimeText sysTime true : List (Cell kind)).length + 1) ++
      afterStamp sysTime szBuffer) := (List.take_append_drop _ _).symm
  have stamped := @Slots.putHere _ [] (szBuffer.take ((systemTimeText sysTime true : List (Cell kind)).length + 1))
    (systemTimeText sysTime true ++ [0]) (afterStamp sysTime szBuffer) 0 rfl (by simp; omega)
  rw [← whole,List.nil_append,List.append_assoc,List.singleton_append] at stamped
  have counted : Terminated.length 0 (systemTimeText sysTime true ++ 0 :: afterStamp sysTime szBuffer) =
      some (systemTimeText sysTime true : List (Cell kind)).length := Terminated.lengthHere (stampClean sysTime true)
  simp only [stampInto,stringFromSystemTime,if_pos fits,stamped,counted,Option.bind_eq_bind,Option.bind_some]
  exact storePlace _ rfl _ _ _

theorem stampedClean {s : List (Cell kind)} (clean : 0 ∉ s) : 0 ∉ systemTimeText sysTime true ++ 0x20 :: s := by
  have space : (0 : Cell kind) ≠ 0x20 := by cases kind <;> decide
  simp only [List.mem_append,List.mem_cons,stampClean,space,clean,or_self,not_false_eq_true]

section Hex
variable {s more : List (Cell kind)}

theorem hexStored (clean : 0 ∉ s) (size : (s ++ 0 :: more).length = logBuffLength)
    (short : data.length < 536870912) : hexInto data data.length sep (s ++ 0 :: more) =
      some (s ++ if (0 :: more).length < (hexText sep data).length then 0 :: more
        else hexText sep data ++ (0 :: more).drop (hexText sep data).length) := by
  have counted := @Terminated.lengthHere _ _ 0 _ more clean
  have left : ((logBuffLength : Nat) : Int) - s.length = ((0 :: more).length : Nat) := by
    rw [List.length_append] at size
    omega
  simp only [hexInto,counted,Option.bind_eq_bind,Option.bind_some,List.drop_left,List.take_left,hexText,blocksLength,
    hex2AscString,left,hexSize kind sep short,Int.toNat_natCast]
  rw [if_neg (by rw [List.length_cons]; omega)]
  split
  · rw [if_pos (by omega)]
    rfl
  · have written := @writeHexText kind sep data [] [] (0 :: more) (by omega)
    simp only [List.nil_append,List.length_nil] at written
    rw [if_neg (by omega),written]
    rfl

theorem hexReads (clean : 0 ∉ s) (size : (s ++ 0 :: more).length = logBuffLength) (short : data.length < 536870912) :
    (hexInto data data.length sep (s ++ 0 :: more)).bind (Terminated.text 0) =
      if (0 :: more).length < (hexText sep data).length then some s
      else (Terminated.text 0 ((0 :: more).drop (hexText sep data).length)).map fun tail =>
        s ++ (hexText sep data ++ tail) := by
  rw [hexStored clean size short,Option.bind_some]
  split
  · exact Terminated.textHere clean
  · have clean' : 0 ∉ s ++ hexText sep data := fun member =>
      (List.mem_append.mp member).elim clean (hexTextClean sep data)
    rw [← List.append_assoc,Terminated.textBehind clean']
    simp only [List.append_assoc]

end Hex

theorem appendedBehind (left title more : List (Cell kind)) {hex : List (Cell kind)} (some : 0 < hex.length) :
    (0 :: more.drop title.length).drop hex.length = (left ++ 0 :: more).drop (left ++ (title ++ hex)).length := by
  obtain ⟨n,count⟩ := Nat.exists_eq_add_one_of_ne_zero (Nat.pos_iff_ne_zero.mp some)
  have place : (left ++ (title ++ hex)).length = left.length + (title.length + n + 1) := by
    rw [List.length_append,List.length_append,count]
    rfl
  rw [place,List.drop_length_add_append,count,List.drop_succ_cons,List.drop_succ_cons,List.drop_drop]

def behindStamp (title hex rest : List (Cell kind)) : Option (List (Cell kind)) :=
  (Terminated.text 0 rest).bind fun left =>
    if rest.length ≤ left.length + title.length then none
    else if rest.length < (left ++ (title ++ hex)).length then some (left ++ title)
    else (Terminated.text 0 (rest.drop (left ++ (title ++ hex)).length)).map fun tail =>
      left ++ (title ++ (hex ++ tail))

theorem behindStampReads {hex rest wanted : List (Cell kind)} : behindStamp title hex rest = some wanted ↔
    ∃ left, Terminated.text 0 rest = some left ∧ left.length + title.length < rest.length ∧
      (rest.length < (left ++ (title ++ hex)).length ∧ wanted = left ++ title ∨
        ∃ tail, Terminated.text 0 (rest.drop (left ++ (title ++ hex)).length) = some tail ∧
          wanted = left ++ (title ++ (hex ++ tail))) := by
  rw [behindStamp,Option.bind_eq_some_iff]
  refine exists_congr fun left => and_congr_right fun _ => ?_
  split
  · rename_i full
    exact iff_of_false (fun read => by cases read) fun both => absurd both.1 (Nat.not_lt.mpr full)
  · rename_i room
    rw [and_iff_right (Nat.lt_of_not_le room)]
    split
    · rename_i outside
      rw [List.drop_of_length_le (Nat.le_of_lt outside)]
      refine ⟨fun read => .inl ⟨outside,(Option.some.inj read).symm⟩,?_⟩
      rintro (⟨-,rfl⟩ | ⟨tail,absent,-⟩)
      · rfl
      · cases absent
    · rename_i inside
      rw [Option.map_eq_some_iff]
      constructor
      · rintro ⟨tail,ends,rfl⟩
        exact .inr ⟨tail,ends,rfl⟩
      · rintro (⟨outside,-⟩ | ⟨tail,ends,rfl⟩)
        · exact absurd outside inside
        · exact ⟨tail,ends,rfl⟩

theorem binLineWrites (clean : 0 ∉ title) (size : szBuffer.length = logBuffLength)
    (fits : (systemTimeText sysTime true : List (Cell kind)).length < logBuffLength) (some : data ≠ [])
    (short : data.length < 536870912) (after : List (Cell kind)) :
    (binLine sysTime (title ++ 0 :: after) data data.length sep szBuffer).bind (Terminated.text 0) =
      (behindStamp title (hexText sep data) (afterStamp sysTime szBuffer)).map
        (systemTimeText sysTime true ++ 0x20 :: ·) := by
  rw [binLine,stampStored size fits,Option.bind_eq_bind,Option.bind_some,behindStamp]
  cases found : Terminated.text 0 (afterStamp sysTime szBuffer) with
  | none =>
    have stamped := @Terminated.textBehind _ _ 0 _ (afterStamp sysTime szBuffer)
      (@stampedClean _ sysTime _ List.not_mem_nil)
    rw [found,List.append_assoc,List.singleton_append] at stamped
    rw [Terminated.appendStops stamped]
    rfl
  | some left =>
    obtain ⟨cleanLeft,more,old⟩ := Terminated.textSome.mp found
    have appended := @Terminated.appendHere _ _ 0 _ title more (@stampedClean _ sysTime _ cleanLeft) clean after
    rw [List.append_assoc,List.cons_append] at appended
    have full : (left ++ 0 :: more).length ≤ left.length + title.length ↔ more.length < title.length := by
      rw [List.length_append,List.length_cons]
      omega
    rw [old,appended,Option.bind_some]
    simp only [full]
    rcases Nat.lt_or_ge more.length title.length with beyond | room
    · rw [if_neg (Nat.not_le.mpr beyond),if_pos beyond]
      rfl
    · have cleanFront := @stampedClean _ sysTime (left ++ title)
        fun member => (List.mem_append.mp member).elim cleanLeft clean
      have shape : systemTimeText sysTime true ++ 0x20 :: left ++ (title ++ 0 :: more.drop title.length) =
          systemTimeText sysTime true ++ 0x20 :: (left ++ title) ++ 0 :: more.drop title.length := by
        simp only [List.append_assoc,List.cons_append]
      have total : (systemTimeText sysTime true ++ 0x20 :: (left ++ title) ++ 0 :: more.drop title.length).length =
          logBuffLength := by
        have rest := congrArg List.length old
        rw [afterStamp,List.length_drop] at rest
        simp only [List.length_append,List.length_cons,List.length_drop] at rest ⊢
        omega
      have outside : (0 :: more.drop title.length).length < (hexText sep data).length ↔
          (left ++ 0 :: more).length < (left ++ (title ++ hexText sep data)).length := by
        simp only [List.length_append,List.length_cons,List.length_drop]
        omega
      have behind := appendedBehind left title more (@hexTextSome _ sep _ some)
      rw [if_pos room,if_neg (Nat.not_lt.mpr room),shape,Option.bind_some,hexReads cleanFront total short,behind]
      simp only [outside]
      split
      · simp only [Option.map_some]
      · simp only [Option.map_map,Function.comp_def,List.append_assoc,List.cons_append]

end Line

/-- What a call of RunlogBin is given and finds: the title is a string, there is data, the buffer holds what earlier
calls left in it, and the line fits. -/
structure BinCall (kind : CharWidth) where
  sysTime : SystemTime
  title : List (Cell kind)
  clean : 0 ∉ title
  data : Bytes
  nonempty : data ≠ []
  sep : Cell kind
  szBuffer : List (Cell kind)
  size : szBuffer.length = logBuffLength
  fits : (logLine sysTime title data sep).length ≤ logBuffLength

namespace BinCall

def line (c : BinCall kind) : List (Cell kind) := logLine c.sysTime c.title c.data c.sep

def hex (c : BinCall kind) : List (Cell kind) := hexText c.sep c.data

def rest (c : BinCall kind) : List (Cell kind) := afterStamp c.sysTime c.szBuffer

def WritesLineA (c : BinCall .narrow) : Prop := ∀ file : Bytes, ∃ log,
  runlogBinA true c.sysTime (some (c.title ++ [0])) (some c.data) c.data.length c.sep
      ⟨true,c.szBuffer,file⟩ = some log ∧
    log.m_hLogFile = file ++ (fileOctets c.line ++ [0x0D,0x0A])

def WritesLineW (c : BinCall .wide) : Prop := ∀ (w2aString : List (Cell .wide) → Bytes) (file : Bytes), ∃ log,
  runlogBinW w2aString true c.sysTime (some (c.title ++ [0])) (some c.data) c.data.length c.sep
      ⟨true,c.szBuffer,file⟩ = some log ∧
    log.m_hLogFile = file ++ (w2aString c.line ++ [0x0D,0x0A])

/-- No old text is left behind the timestamp and none behind the line; or there is one that is as long as the hex text
and reads as the line together with the title, and the hex text does not fit any more. -/
def SpellsA (c : BinCall .narrow) : Prop :=
  c.rest[0]? = some 0 ∧ c.rest[(c.title ++ c.hex).length]? = some 0 ∨
    ∃ left, Terminated.text 0 c.rest = some left ∧ left ++ c.title = c.title ++ c.hex ∧
      (left ++ c.title).length < c.rest.length ∧ c.rest.length < (left ++ (c.title ++ c.hex)).length

/-- The old text behind the timestamp is the title itself, and none is left behind the line; or it is the beginning of
the title, and the hex text with the old text behind it reads as the rest of the title and the hex text; or it is the
title with the hex text, and there is no room for another one. -/
def SpellsW (c : BinCall .wide) : Prop :=
  Terminated.text 0 c.rest = some c.title ∧ c.rest[(c.title ++ c.hex).length]? = some 0 ∨
    (∃ left more tail, more ≠ [] ∧ c.title = left ++ more ∧ more ++ c.hex = c.hex ++ tail ∧
      Terminated.text 0 c.rest = some left ∧
      Terminated.text 0 (c.rest.drop (left ++ c.hex).length) = some tail) ∨
    Terminated.text 0 c.rest = some (c.title ++ c.hex) ∧ c.rest.length < (c.title ++ (c.hex ++ c.hex)).length

theorem stampFits (c : BinCall kind) : (systemTimeText c.sysTime true : List (Cell kind)).length < logBuffLength := by
  have fits := c.fits
  rw [logLine,List.length_append,List.length_cons] at fits
  omega

theorem dataShort (c : BinCall kind) : c.data.length < 536870912 := by
  have fits := c.fits
  have blocks : c.data.length ≤ (hexText c.sep c.data).length := by
    rw [hexText,blocksLength]
    exact Nat.le_mul_of_pos_right _ (Nat.lt_of_lt_of_le Nat.zero_lt_two (twoCells c.sep))
  rw [logLine,List.length_append,List.length_cons,List.length_append] at fits
  simp only [logBuffLength] at fits
  omega

theorem readsWanted (c : BinCall kind) {title : List (Cell kind)} (clean : 0 ∉ title) (after : List (Cell kind)) :
    (binLine c.sysTime (title ++ 0 :: after) c.data c.data.length c.sep c.szBuffer).bind (Terminated.text 0) =
        some c.line ↔
      ∃ left, Terminated.text 0 c.rest = some left ∧ left.length + title.length < c.rest.length ∧
        (c.rest.length < (left ++ (title ++ c.hex)).length ∧ c.title ++ c.hex = left ++ title ∨
          ∃ tail, Terminated.text 0 (c.rest.drop (left ++ (title ++ c.hex)).length) = some tail ∧
            c.title ++ c.hex = left ++ (title ++ (c.hex ++ tail))) := by
  have injective : Function.Injective ((systemTimeText c.sysTime true : List (Cell kind)) ++ 0x20 :: ·) :=
    fun _ _ same => (List.cons.inj (List.append_cancel_left same)).2
  rw [binLineWrites clean c.size c.stampFits c.nonempty c.dataShort after]
  exact ((Option.map_injective injective).eq_iff' rfl).trans behindStampReads

theorem spellsA (c : BinCall .narrow) :
    (binLine c.sysTime (c.title ++ [0]) c.data c.data.length c.sep c.szBuffer).bind (Terminated.text 0) = some c.line ↔
      c.SpellsA := by
  rw [readsWanted c c.clean []]
  constructor
  · rintro ⟨left,found,room,(⟨outside,same⟩ | ⟨tail,behind,same⟩)⟩
    · exact .inr ⟨left,found,same.symm,by rwa [List.length_append],outside⟩
    · have length := congrArg List.length same
      simp only [List.length_append] at length
      obtain rfl : left = [] := List.length_eq_zero_iff.mp (by omega)
      obtain rfl : tail = [] := List.length_eq_zero_iff.mp (by omega)
      refine .inl ⟨Terminated.textEmpty.mp found,?_⟩
      have last := Terminated.textEmpty.mp behind
      rwa [List.getElem?_drop] at last
  · rintro (⟨first,last⟩ | ⟨left,found,same,room,outside⟩)
    · have inside := (List.getElem?_eq_some_iff.mp last).1
      rw [List.length_append] at inside
      refine ⟨[],Terminated.textEmpty.mpr first,by rw [List.length_nil]; omega,.inr ⟨[],?_,by simp⟩⟩
      rw [Terminated.textEmpty,List.getElem?_drop]
      exact last
    · exact ⟨left,found,by rwa [List.length_append] at room,.inl ⟨outside,same.symm⟩⟩

theorem spellsW (c : BinCall .wide) :
    (binLine c.sysTime (List.replicate 256 0) c.data c.data.length c.sep c.szBuffer).bind (Terminated.text 0) =
      some c.line ↔ c.SpellsW := by
  rw [show List.replicate 256 (0 : Cell .wide) = [] ++ 0 :: List.replicate 255 0 from rfl,
    readsWanted c List.not_mem_nil]
  simp only [List.nil_append,List.append_nil,List.length_nil,Nat.add_zero]
  constructor
  · rintro ⟨left,found,-,(⟨outside,rfl⟩ | ⟨tail,behind,same⟩)⟩
    · exact .inr (.inr ⟨found,by rwa [List.append_assoc] at outside⟩)
    · have length := congrArg List.length same
      simp only [List.length_append] at length
      obtain ⟨more,whole⟩ : left <+: c.title :=
        List.prefix_of_prefix_length_le ⟨_,same.symm⟩ (List.prefix_append _ _) (by omega)
      have turned : more ++ c.hex = c.hex ++ tail := by
        rw [← whole,List.append_assoc] at same
        exact List.append_cancel_left same
      by_cases all : more = []
      · rw [all,List.append_nil] at whole
        obtain rfl : tail = [] := List.length_eq_zero_iff.mp (by rw [whole] at length; omega)
        refine .inl ⟨whole ▸ found,?_⟩
        rw [Terminated.textEmpty,List.getElem?_drop,whole] at behind
        exact behind
      · exact .inr (.inl ⟨left,more,tail,all,whole.symm,turned,found,behind⟩)
  · rintro (⟨found,last⟩ | ⟨left,more,tail,-,whole,turned,found,behind⟩ | ⟨found,outside⟩)
    · refine ⟨c.title,found,Terminated.textShorter found,.inr ⟨[],?_,by rw [List.append_nil]⟩⟩
      rw [Terminated.textEmpty,List.getElem?_drop]
      exact last
    · exact ⟨left,found,Terminated.textShorter found,.inr ⟨tail,behind,by rw [whole,List.append_assoc,turned]⟩⟩
    · exact ⟨_,found,Terminated.textShorter found,.inl ⟨by rwa [List.append_assoc],rfl⟩⟩

theorem crlfStored (cells : List (Cell kind)) : (do
      let cells ← store 0 0x0D cells
      let cells ← store 1 0x0A cells
      store 2 0x00 cells) = if 3 ≤ cells.length then some (0x0D :: 0x0A :: 0x00 :: cells.drop 3) else none := by
  match cells with
  | [] => rfl
  | [_] => rfl
  | [_,_] => rfl
  | _ :: _ :: _ :: rest => simp [store]

theorem logsEnabled : ¬ (!true) = true := by decide

theorem bufferAccepted {data : Bytes} (nonempty : data ≠ []) : ¬ ((data.length : Int) = 0 ∨ (!true) = true) := by
  have positive := List.length_pos_iff.mpr nonempty
  rintro (zero | off)
  · omega
  · cases off

theorem runlogBinAWrites (c : BinCall .narrow) (file : Bytes) :
    (runlogBinA true c.sysTime (some (c.title ++ [0])) (some c.data) c.data.length c.sep ⟨true,c.szBuffer,file⟩).map
      CRunlog.m_hLogFile = (do
        let cells ← binLine c.sysTime (c.title ++ [0]) c.data c.data.length c.sep c.szBuffer
        let text ← Terminated.text 0 cells
        if 3 ≤ cells.length then some (file ++ (fileOctets text ++ [0x0D,0x0A])) else none) := by
  simp only [runlogBinA,if_neg logsEnabled,if_neg (bufferAccepted c.nonempty)]
  cases binLine c.sysTime (c.title ++ [0]) c.data c.data.length c.sep c.szBuffer with
  | none => rfl
  | some cells =>
    have stored := crlfStored cells
    simp only [Option.bind_eq_bind] at stored
    simp only [Option.bind_eq_bind,Option.bind_some]
    cases Terminated.text 0 cells with
    | none => rfl
    | some text =>
      simp only [Option.bind_some,← Option.bind_assoc,stored]
      split <;> rfl

theorem writesA (c : BinCall .narrow) : c.WritesLineA ↔ c.SpellsA := by
  rw [← spellsA]
  constructor
  · intro writes
    obtain ⟨log,result,file⟩ := writes []
    have written := runlogBinAWrites c []
    rw [result,Option.map_some,file] at written
    obtain ⟨cells,line,written⟩ := Option.bind_eq_some_iff.mp written.symm
    obtain ⟨text,found,written⟩ := Option.bind_eq_some_iff.mp written
    rw [line,Option.bind_some,found]
    split at written
    · have same := List.append_cancel_right (List.append_cancel_left (Option.some.inj written))
      exact congrArg some same
    · cases written
  · intro reads file
    obtain ⟨cells,line,text⟩ := Option.bind_eq_some_iff.mp reads
    have room : 3 ≤ cells.length := by
      have longer := Terminated.textShorter text
      have hex := @hexTextSome _ c.sep _ c.nonempty
      rw [BinCall.line,logLine,List.length_append,List.length_cons,List.length_append] at longer
      omega
    have written := runlogBinAWrites c file
    simp only [line,text,Option.bind_eq_bind,Option.bind_some,if_pos room] at written
    exact Option.map_eq_some_iff.mp written

theorem runlogBinWWrites (c : BinCall .wide) (w2aString : List (Cell .wide) → Bytes) (file : Bytes) :
    (runlogBinW w2aString true c.sysTime (some (c.title ++ [0])) (some c.data) c.data.length c.sep
      ⟨true,c.szBuffer,file⟩).map CRunlog.m_hLogFile =
        ((binLine c.sysTime (List.replicate 256 0) c.data c.data.length c.sep c.szBuffer).bind
          (Terminated.text 0)).map fun text => file ++ (w2aString text ++ [0x0D,0x0A]) := by
  simp only [runlogBinW,if_neg logsEnabled,if_neg (bufferAccepted c.nonempty)]
  cases binLine c.sysTime (List.replicate 256 0) c.data c.data.length c.sep c.szBuffer with
  | none => rfl
  | some cells =>
    simp only [Option.bind_eq_bind,Option.bind_some]
    cases Terminated.text 0 cells with
    | none => rfl
    | some text => rfl

def bothOctets (text : List (Cell .wide)) : Bytes := text.flatMap fun ch => LittleEndian.encode 2 ch.toNat

theorem bothOctetsInjective : Function.Injective bothOctets := by
  intro s
  induction s with
  | nil =>
    intro t same
    cases t with
    | nil => rfl
    | cons ch t => cases same
  | cons ch s ih =>
    intro t same
    cases t with
    | nil => cases same
    | cons ch' t =>
      obtain ⟨here,later⟩ := List.append_inj (show LittleEndian.encode 2 ch.toNat ++ bothOctets s =
        LittleEndian.encode 2 ch'.toNat ++ bothOctets t from same) rfl
      have chars : ch = ch' := by
        apply BitVec.eq_of_toNat_eq
        rw [← @LittleEndian.decodeEncode 2 _ ch.isLt,here,@LittleEndian.decodeEncode 2 _ ch'.isLt]
      rw [chars,ih later]

theorem writesW (c : BinCall .wide) : c.WritesLineW ↔ c.SpellsW := by
  rw [← spellsW]
  constructor
  · intro writes
    obtain ⟨log,result,file⟩ := writes bothOctets []
    have written := runlogBinWWrites c bothOctets []
    rw [result,Option.map_some,file] at written
    obtain ⟨text,read,written⟩ := Option.map_eq_some_iff.mp written.symm
    rw [read,bothOctetsInjective (List.append_cancel_right (List.append_cancel_left written))]
  · intro reads w2aString file
    have written := runlogBinWWrites c w2aString file
    rw [reads] at written
    exact Option.map_eq_some_iff.mp written

end BinCall

theorem runlogBinLine (a : BinCall .narrow) (w : BinCall .wide) :
    (a.WritesLineA ↔ a.SpellsA) ∧ (w.WritesLineW ↔ w.SpellsW) := ⟨a.writesA,w.writesW⟩

def emptyBuffer (kind : CharWidth) : List (Cell kind) := List.replicate logBuffLength 0

example : BinCall.SpellsA ⟨⟨2026,2,0,3,4,5,6,7⟩,[0x41],by decide,[0x1F],by decide,0x20,emptyBuffer .narrow,
    by decide +kernel,by decide⟩ :=
  .inl ⟨by decide +kernel,by decide +kernel⟩

def firstBuffer : List (Cell .narrow) :=
  (runlogBinA true ⟨2026,2,0,3,4,5,6,7⟩ (some [0x41,0]) (some [0x1F]) 1 0x20 ⟨true,emptyBuffer .narrow,[]⟩).elim []
    CRunlog.m_pLogBuffer

def secondCall : BinCall .narrow :=
  ⟨⟨2026,2,0,3,4,5,6,7⟩,[0x41],by decide,[0x1F],by decide,0x20,firstBuffer,by decide +kernel,by decide⟩

def wideCall : BinCall .wide :=
  ⟨⟨2026,2,0,3,4,5,6,7⟩,[0x41],by decide,[0x1F],by decide,0x20,emptyBuffer .wide,by decide +kernel,by decide⟩

theorem runlogBinWrong : (¬ ∀ c : BinCall .narrow, c.WritesLineA) ∧ ¬ ∀ c : BinCall .wide, c.WritesLineW := by
  refine ⟨fun always => ?_,fun always => ?_⟩
  · obtain ⟨log,result,file⟩ := always secondCall []
    have wrong : (runlogBinA true secondCall.sysTime (some (secondCall.title ++ [0])) (some secondCall.data) 1
        secondCall.sep ⟨true,secondCall.szBuffer,[]⟩).map CRunlog.m_hLogFile ≠
          some (fileOctets secondCall.line ++ [0x0D,0x0A]) := by
      decide +kernel
    exact wrong ((congrArg (Option.map CRunlog.m_hLogFile) result).trans (congrArg some file))
  · obtain ⟨log,result,file⟩ := always wideCall BinCall.bothOctets []
    have wrong : (runlogBinW BinCall.bothOctets true wideCall.sysTime (some (wideCall.title ++ [0]))
        (some wideCall.data) 1 wideCall.sep ⟨true,wideCall.szBuffer,[]⟩).map CRunlog.m_hLogFile ≠
          some (BinCall.bothOctets wideCall.line ++ [0x0D,0x0A]) := by
      decide +kernel
    exact wrong ((congrArg (Option.map CRunlog.m_hLogFile) result).trans (congrArg some file))

end JokeDse
