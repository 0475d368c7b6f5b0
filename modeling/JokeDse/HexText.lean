import JokeDse.CharWidth
import JokeDse.Lib.Slots
import Mathlib.Data.List.Forall2

/-! Utility: octets as hexadecimal text and back. Buffers are their cells; an access outside of them is
undefined (`none`). -/
namespace JokeDse
open Slots (store)

variable {kind : CharWidth}

def chHexTable : List Nat :=
  [0x30,0x31,0x32,0x33,0x34,0x35,0x36,0x37,0x38,0x39,0x41,0x42,0x43,0x44,0x45,0x46]

def hexChar (kind : CharWidth) (n : Nat) : Cell kind := BitVec.ofNat kind.bits (chHexTable.getD n 0)

def nMult (chSeperator : Cell kind) : Nat := if chSeperator = 0 then 2 else 3

def writeHex (pHex : Bytes) (chSeperator : Cell kind) : Nat → Nat → Nat → List (Cell kind) → Option (List (Cell kind))
  | 0, _, _, szAscString => some szAscString
  | left + 1, n, p, szAscString => do
    let octet ← pHex[n]?
    let szAscString ← store p (hexChar kind (octet >>> 4).toNat) szAscString
    let szAscString ← store (p + 1) (hexChar kind (octet &&& 0xF).toNat) szAscString
    if nMult chSeperator = 2 then writeHex pHex chSeperator left (n + 1) (p + 2) szAscString
    else
      let szAscString ← store (p + 2) chSeperator szAscString
      writeHex pHex chSeperator left (n + 1) (p + 3) szAscString

def hex2AscString (kind : CharWidth) (pHex : Option Bytes) (nHexLen : Int) (szAscString : Option (List (Cell kind)))
    (nBuffLen : Int) (chSeperator : Cell kind) : Option (Int × Option (List (Cell kind))) :=
  match pHex,szAscString with
  | some octets,some text =>
    if nBuffLen = 0 then some (-1,szAscString)
    else if int (nHexLen * nMult chSeperator) > nBuffLen then some (-1,szAscString)
    else (writeHex octets chSeperator nHexLen.toNat 0 0 text).map fun text =>
      (int (nHexLen.toNat * nMult chSeperator),some text)
  | _,_ => some (-1,szAscString)

def hex2AscStringA := hex2AscString .narrow
def hex2AscStringW := hex2AscString .wide

def upcasechar (ch : Cell kind) : Cell kind :=
  BitVec.ofInt kind.bits (if kind.value ch ≥ 0x41 then kind.value ch else kind.value ch - 0x61 + 0x41)

def char2Digit (ch : Cell kind) : Byte :=
  BitVec.ofInt 8 (if kind.value ch > 0x39 then kind.value ch - 0x41 + 10 else kind.value ch - 0x30)

def hexOctet (hi lo : Cell kind) : Byte :=
  (char2Digit (upcasechar hi) &&& 0x0F) <<< 4 ||| char2Digit (upcasechar lo) &&& 0x0F

/-- The loop of AscString2Hex. The index leaves the ints only behind a read outside the text. -/
def readHex (szAscString : List (Cell kind)) (nAscStringLen step : Nat) : Nat → Nat → Nat → Bytes → Option (Nat × Bytes)
  | 0, _, nCount, pHex => some (nCount,pHex)
  | fuel + 1, i, nCount, pHex =>
    if i < nAscStringLen then do
      let hi ← szAscString[i]?
      let lo ← szAscString[i + 1]?
      let pHex ← store nCount (hexOctet hi lo) pHex
      readHex szAscString nAscStringLen step fuel (i + step) (nCount + 1) pHex
    else some (nCount,pHex)

def ascString2Hex (kind : CharWidth) (szAscString : Option (List (Cell kind))) (nAscStringLen : Int)
    (pHex : Option Bytes) (nBuffLen : Int) (chSeperator : Cell kind) : Option (Int × Option Bytes) :=
  match szAscString,pHex with
  | some text,some octets =>
    if nBuffLen = 0 then some (-1,pHex)
    else if nAscStringLen.tdiv (nMult chSeperator) > nBuffLen then some (-1,pHex)
    else (readHex text nAscStringLen.toNat (nMult chSeperator) nAscStringLen.toNat 0 0 octets).map fun read =>
      ((read.1 : Int),some read.2)
  | _,_ => some (-1,pHex)

def ascString2HexA := ascString2Hex .narrow
def ascString2HexW := ascString2Hex .wide

theorem storePlace {α : Type} {i : Nat} (front : List α) (here : i = front.length) (x y : α) (back : List α) :
    store i x (front ++ y :: back) = some (front ++ x :: back) := by
  subst here
  rw [store,if_pos (by simp),List.set_append_right _ _ (Nat.le_refl _),Nat.sub_self,List.set_cons_zero]

theorem twoCells (sep : Cell kind) : 2 ≤ nMult sep := by
  unfold nMult
  split <;> decide

section Writing
variable {sep : Cell kind}

def hexBlock (sep : Cell kind) (octet : Byte) : List (Cell kind) :=
  hexChar kind (octet >>> 4).toNat :: hexChar kind (octet &&& 0xF).toNat :: if nMult sep = 2 then [] else [sep]

theorem hexBlockLength (octet : Byte) : (hexBlock sep octet).length = nMult sep := by
  unfold hexBlock nMult
  split <;> rfl

theorem writeBlock {octet : Byte} {done rest : Bytes} {left : Nat} {front back : List (Cell kind)}
    (room : nMult sep ≤ back.length) :
    writeHex (done ++ octet :: rest) sep (left + 1) done.length front.length (front ++ back) =
      writeHex (done ++ octet :: rest) sep left (done.length + 1) (front.length + nMult sep)
        (front ++ hexBlock sep octet ++ back.drop (nMult sep)) := by
  have read : (done ++ octet :: rest)[done.length]? = some octet := by simp
  have two := twoCells sep
  obtain ⟨a,b,back,rfl⟩ : ∃ a b tail, back = a :: b :: tail := by
    match back,Nat.le_trans two room with
    | a :: b :: tail,_ => exact ⟨a,b,tail,rfl⟩
  have first := storePlace front rfl (hexChar kind (octet >>> 4).toNat) a (b :: back)
  have second := storePlace (i := front.length + 1) (front ++ [hexChar kind (octet >>> 4).toNat]) (by simp)
    (hexChar kind (octet &&& 0xF).toNat) b back
  rw [List.append_assoc,List.singleton_append] at second
  simp only [writeHex,read,first,second,Option.bind_eq_bind,Option.bind_some]
  by_cases plain : nMult sep = 2
  · simp [plain,hexBlock]
  · have three : nMult sep = 3 := by
      unfold nMult at plain ⊢
      split at plain
      · exact absurd rfl plain
      · rename_i some
        rw [if_neg some]
    rw [three] at room
    obtain ⟨c,back,rfl⟩ : ∃ c tail, back = c :: tail := by
      match back,room with
      | c :: tail,_ => exact ⟨c,tail,rfl⟩
    have third := storePlace (i := front.length + 2)
      (front ++ [hexChar kind (octet >>> 4).toNat,hexChar kind (octet &&& 0xF).toNat]) (by simp) sep c back
    simp only [List.append_assoc,List.cons_append,List.nil_append] at third ⊢
    simp only [third,Option.bind_some,three,hexBlock,show ¬ 3 = 2 by decide,if_false,List.cons_append,
      List.nil_append,List.drop_succ_cons,List.drop_zero]

theorem writeHexText (rest done : Bytes) (front back : List (Cell kind))
    (room : rest.length * nMult sep ≤ back.length) :
    writeHex (done ++ rest) sep rest.length done.length front.length (front ++ back) =
      some (front ++ (rest.flatMap (hexBlock sep) ++ back.drop (rest.length * nMult sep))) := by
  induction rest generalizing done front back with
  | nil => simp [writeHex]
  | cons octet rest ih =>
    rw [List.length_cons,Nat.succ_mul] at room
    have next := ih (done ++ [octet]) (front ++ hexBlock sep octet) (back.drop (nMult sep))
      (by rw [List.length_drop]; omega)
    rw [List.append_assoc,List.singleton_append,List.length_append,List.length_append,hexBlockLength] at next
    rw [List.length_cons,writeBlock (by omega)]
    rw [show done.length + 1 = done.length + [octet].length from rfl,next,List.flatMap_cons,List.drop_drop,
      List.append_assoc,List.append_assoc,Nat.succ_mul,Nat.add_comm (nMult sep)]

end Writing

def sameLetter (a b : Cell kind) : Prop :=
  b = a ∨ (0x41 ≤ kind.value a ∧ kind.value a ≤ 0x46) ∧ b = a + 0x20 ∨
    (0x61 ≤ kind.value a ∧ kind.value a ≤ 0x66) ∧ b = a - 0x20

instance (a b : Cell kind) : Decidable (sameLetter a b) := inferInstanceAs (Decidable (_ ∨ _))

section Reading
variable {len : Nat}

theorem readHexSafe (text : List (Cell kind)) (step : Nat) (some : 0 < step) (fuel i n : Nat)
    (enough : len ≤ i + fuel) (pHex : Bytes) :
    (readHex text len step fuel i n pHex).isSome ↔
      ∀ j, i + step * j < len → i + step * j + 1 < text.length ∧ n + j < pHex.length := by
  induction fuel generalizing i n pHex with
  | zero =>
    rw [readHex]
    exact iff_of_true rfl fun j inside => absurd inside (by omega)
  | succ fuel ih =>
    rw [readHex]
    split
    · rename_i inside
      by_cases here : i + 1 < text.length ∧ n < pHex.length
      · have hi : text[i]? = Option.some text[i] := List.getElem?_eq_getElem (by omega)
        have lo : text[i + 1]? = Option.some text[i + 1] := List.getElem?_eq_getElem here.1
        simp only [hi,lo,store,if_pos here.2,Option.bind_eq_bind,Option.bind_some]
        rw [ih (i + step) (n + 1) (by omega),List.length_set]
        constructor
        · intro later j below
          cases j with
          | zero => exact here
          | succ j =>
            have there := later j
            rw [Nat.mul_succ] at below ⊢
            omega
        · intro all j below
          have there := all (j + 1)
          rw [Nat.mul_succ] at there
          omega
      · refine iff_of_false ?_ fun all => here (all 0 inside)
        rcases not_and_or.mp here with outside | full
        · have lo : text[i + 1]? = none := List.getElem?_eq_none (Nat.not_lt.mp outside)
          cases hi : text[i]? <;> simp [lo]
        · cases hi : text[i]? <;> cases lo : text[i + 1]? <;> simp [store,full]
    · rename_i beyond
      exact iff_of_true rfl fun j inside => absurd inside (by omega)

theorem hexCharRange (n : Fin 16) : ¬ (0x61 ≤ kind.value (hexChar kind n) ∧ kind.value (hexChar kind n) ≤ 0x66) := by
  cases kind <;> revert n <;> decide

theorem hexCharDigit (n : Fin 16) : char2Digit (upcasechar (hexChar kind n)) &&& 0x0F = BitVec.ofNat 8 n := by
  cases kind <;> revert n <;> decide

theorem hexCharLower (n : Fin 16) (letter : 0x41 ≤ kind.value (hexChar kind n)) :
    char2Digit (upcasechar (hexChar kind n + 0x20)) &&& 0x0F = BitVec.ofNat 8 n := by
  cases kind <;> revert n <;> decide

theorem digitBack (n : Fin 16) {ch : Cell kind} (same : sameLetter (hexChar kind n) ch) :
    char2Digit (upcasechar ch) &&& 0x0F = BitVec.ofNat 8 n := by
  rcases same with rfl | ⟨upper,rfl⟩ | ⟨lower,-⟩
  · exact hexCharDigit n
  · exact hexCharLower n upper.1
  · exact absurd lower (hexCharRange n)

theorem octetBack (octet : Byte) {hi lo : Cell kind} (high : sameLetter (hexChar kind (octet >>> 4).toNat) hi)
    (low : sameLetter (hexChar kind (octet &&& 0xF).toNat) lo) : hexOctet hi lo = octet := by
  have halves : ∀ octet : Byte, (octet >>> 4).toNat < 16 ∧ (octet &&& 0xF).toNat < 16 ∧
      (octet >>> 4) <<< 4 ||| octet &&& 0xF = octet := by decide
  obtain ⟨upper,lower,whole⟩ := halves octet
  rw [hexOctet,digitBack ⟨_,upper⟩ high,digitBack ⟨_,lower⟩ low,BitVec.ofNat_toNat,BitVec.ofNat_toNat]
  simpa using whole

variable {sep : Cell kind}

theorem readHexText (rest done : Bytes) (front tail : List (Cell kind)) (back : Bytes) (fuel : Nat)
    (here : front.length = nMult sep * done.length) (room : rest.length ≤ back.length) (enough : rest.length ≤ fuel)
    (spelled : List.Forall₂ sameLetter (rest.flatMap (hexBlock sep)) (tail.take (nMult sep * rest.length))) :
    readHex (front ++ tail) (nMult sep * (done.length + rest.length)) (nMult sep) fuel (nMult sep * done.length)
      done.length (done ++ back) = some (done.length + rest.length,done ++ rest ++ back.drop rest.length) := by
  have two := twoCells sep
  induction rest generalizing done front tail back fuel with
  | nil =>
    cases fuel <;> simp [readHex]
  | cons octet rest ih =>
    obtain ⟨fuel,rfl⟩ := Nat.exists_eq_add_of_le' (Nat.le_trans (Nat.succ_le_succ (Nat.zero_le _)) enough)
    obtain ⟨old,back,rfl⟩ : ∃ old tail, back = old :: tail := by
      match back,room with
      | old :: back,_ => exact ⟨old,back,rfl⟩
    rw [List.flatMap_cons,List.length_cons,Nat.mul_succ] at spelled
    have block := List.forall₂_take (nMult sep) spelled
    have later := List.forall₂_drop (nMult sep) spelled
    rw [List.take_left' (hexBlockLength octet),List.take_take,Nat.min_eq_left (Nat.le_add_left _ _)] at block
    rw [List.drop_left' (hexBlockLength octet),List.drop_take,Nat.add_sub_cancel] at later
    have taken : (tail.take (nMult sep)).length = nMult sep := block.length_eq.symm.trans (hexBlockLength octet)
    obtain ⟨hi,rest₁,high,block,shape⟩ := List.forall₂_cons_left_iff.mp block
    obtain ⟨lo,rest₂,low,-,rfl⟩ := List.forall₂_cons_left_iff.mp block
    have whole : tail = hi :: lo :: rest₂ ++ tail.drop (nMult sep) := by
      rw [← shape,List.take_append_drop]
    have readHi : (front ++ tail)[nMult sep * done.length]? = some hi := by
      rw [whole,← here,List.getElem?_append_right (Nat.le_refl _),Nat.sub_self]
      rfl
    have readLo : (front ++ tail)[nMult sep * done.length + 1]? = some lo := by
      rw [whole,← here,List.getElem?_append_right (Nat.le_add_right _ _),Nat.add_sub_cancel_left]
      rfl
    have inside : nMult sep * done.length < nMult sep * (done.length + (octet :: rest).length) :=
      Nat.mul_lt_mul_of_pos_left (by simp) (by omega)
    have next := ih (done ++ [octet]) (front ++ tail.take (nMult sep)) (tail.drop (nMult sep)) back fuel
      (by rw [List.length_append,List.length_append,List.length_singleton,here,taken,Nat.mul_succ])
      (by simpa using room) (by simpa using enough) later
    rw [List.append_assoc front,List.take_append_drop,List.length_append,List.length_singleton,List.append_assoc done,
      List.singleton_append,List.append_assoc done,List.singleton_append,Nat.mul_succ,Nat.add_right_comm] at next
    rw [readHex,if_pos inside,readHi,readLo,Option.bind_eq_bind,Option.bind_some,Option.bind_eq_bind,Option.bind_some,
      storePlace done rfl,octetBack octet high low,Option.bind_some]
    exact next

end Reading

section Claims
variable (kind : CharWidth) (sep : Cell kind)

theorem blocksLength (octets : Bytes) : (octets.flatMap (hexBlock sep)).length = octets.length * nMult sep := by
  induction octets with
  | nil => simp
  | cons octet octets ih =>
    rw [List.flatMap_cons,List.length_append,ih,hexBlockLength,List.length_cons,Nat.succ_mul,Nat.add_comm]

theorem hexSize {octets : Bytes} (short : octets.length < 536870912) :
    int (octets.length * nMult sep) = (octets.length * nMult sep : Nat) := by
  have three : nMult sep ≤ 3 := by
    unfold nMult
    split <;> decide
  have size : octets.length * nMult sep < 2147483648 := by
    calc octets.length * nMult sep ≤ octets.length * 3 := Nat.mul_le_mul_left _ three
      _ < 2147483648 := by omega
  rw [← Int.natCast_mul,intFits (by omega) (by exact_mod_cast size)]

theorem hexRoundTrip (octets : Bytes) (text : List (Cell kind)) (dest : Bytes) (nTextLen nBuffLen : Int)
    (short : octets.length < 536870912) (nonempty : nTextLen ≠ 0 ∧ nBuffLen ≠ 0)
    (textLarge : (octets.length : Int) * nMult sep ≤ nTextLen ∧ nTextLen ≤ text.length)
    (destLarge : (octets.length : Int) ≤ nBuffLen ∧ nBuffLen ≤ dest.length) :
    ∃ written, hex2AscString kind (some octets) octets.length (some text) nTextLen sep =
        some (((octets.length * nMult sep : Nat) : Int),some written) ∧
      ∀ other : List (Cell kind), List.Forall₂ sameLetter (written.take (octets.length * nMult sep)) other →
        ∃ back, ascString2Hex kind (some other) (octets.length * nMult sep : Nat) (some dest) nBuffLen sep =
            some ((octets.length : Int),some back) ∧ back.take octets.length = octets := by
  have two := twoCells sep
  have size := hexSize kind sep short
  have room : octets.length * nMult sep ≤ text.length := by
    exact_mod_cast Int.le_trans textLarge.1 textLarge.2
  have written := @writeHexText kind sep octets [] [] text room
  refine ⟨octets.flatMap (hexBlock sep) ++ text.drop (octets.length * nMult sep),?_,fun other same => ?_⟩
  · have fits : ¬ ((octets.length * nMult sep : Nat) : Int) > nTextLen :=
      Int.not_lt.mpr (by exact_mod_cast textLarge.1)
    simp only [List.nil_append,List.length_nil] at written
    rw [hex2AscString]
    simp only [if_neg nonempty.1,size,if_neg fits,Int.toNat_natCast,written,Option.map_some]
  · rw [List.take_left' (blocksLength kind sep octets)] at same
    have fits : ¬ ((octets.length * nMult sep : Nat) : Int).tdiv (nMult sep) > nBuffLen := by
      rw [Int.natCast_mul,Int.mul_tdiv_cancel _ (by omega)]
      exact Int.not_lt.mpr destLarge.1
    have all : other.take (nMult sep * octets.length) = other :=
      List.take_of_length_le (by rw [← same.length_eq,blocksLength,Nat.mul_comm])
    have read := @readHexText kind sep octets [] [] other dest (octets.length * nMult sep) rfl (by omega)
      (Nat.le_mul_of_pos_right _ (by omega)) (all.symm ▸ same)
    simp only [List.nil_append,List.length_nil,Nat.zero_add,Nat.mul_zero] at read
    refine ⟨octets ++ dest.drop octets.length,?_,List.take_left' rfl⟩
    rw [ascString2Hex]
    simp only [if_neg nonempty.2,if_neg fits,Int.toNat_natCast]
    rw [Nat.mul_comm octets.length] at read ⊢
    rw [read]
    rfl

theorem hexRoundTripShort : ∃ written,
    hex2AscStringA (some [0x1A,0xFF]) (2 : Nat) (some [0,0,0,0,0,0]) 6 0x20 = some (((6 : Nat) : Int),some written) ∧
      ∀ other : List (Cell .narrow), List.Forall₂ sameLetter (written.take 6) other →
        ∃ back, ascString2HexA (some other) (6 : Nat) (some [0,0]) 2 0x20 = some (((2 : Nat) : Int),some back) ∧
          back.take 2 = [0x1A,0xFF] :=
  hexRoundTrip .narrow 0x20 [0x1A,0xFF] [0,0,0,0,0,0] [0,0] 6 2 (by decide) (by decide) (by decide) (by decide)

def wholeBlocks (nAscStringLen nBuffLen : Nat) : Prop :=
  nAscStringLen % nMult sep ≠ 1 ∧ (nAscStringLen % nMult sep = 0 ∨ nAscStringLen / nMult sep < nBuffLen)

instance (nAscStringLen nBuffLen : Nat) : Decidable (wholeBlocks kind sep nAscStringLen nBuffLen) :=
  inferInstanceAs (Decidable (_ ∧ _))

theorem ascString2HexInside (text : List (Cell kind)) (dest : Bytes) (some : dest ≠ [])
    (passes : (text.length : Int).tdiv (nMult sep) ≤ dest.length) :
    (ascString2Hex kind (.some text) text.length (.some dest) dest.length sep).isSome ↔
      wholeBlocks kind sep text.length dest.length := by
  have two := twoCells sep
  have nonempty : ¬ (dest.length : Int) = 0 := by
    rwa [Int.natCast_eq_zero,List.length_eq_zero_iff]
  have loop := readHexSafe text (nMult sep) (by omega) text.length 0 0 (Nat.le_add_left _ _) dest
  rw [ascString2Hex]
  simp only [if_neg nonempty,if_neg (Int.not_lt.mpr passes),Int.toNat_natCast,Option.isSome_map,loop,Nat.zero_add,
    wholeBlocks]
  have split := Nat.div_add_mod text.length (nMult sep)
  have remainder := Nat.mod_lt text.length (Nat.lt_of_lt_of_le Nat.zero_lt_two two)
  rw [Int.tdiv_eq_ediv_of_nonneg (Int.natCast_nonneg _)] at passes
  have fits : text.length / nMult sep ≤ dest.length := by exact_mod_cast passes
  generalize text.length / nMult sep = blocks at *
  generalize text.length % nMult sep = left at *
  constructor
  · intro all
    have last := all blocks
    omega
  · rintro ⟨notOne,room⟩ j inside
    have before : j ≤ blocks := by
      refine Nat.le_of_not_lt fun beyond => ?_
      have more := Nat.mul_le_mul_left (nMult sep) (Nat.succ_le_of_lt beyond)
      rw [Nat.mul_succ] at more
      omega
    rcases Nat.eq_or_lt_of_le before with rfl | earlier
    · omega
    · have more := Nat.mul_le_mul_left (nMult sep) (Nat.succ_le_of_lt earlier)
      rw [Nat.mul_succ] at more
      omega

theorem ascString2HexInsidePair : (ascString2HexW (some [0x31,0x61]) (2 : Nat) (some [0]) (1 : Nat) 0).isSome ↔
    wholeBlocks .wide 0 2 1 :=
  ascString2HexInside .wide 0 [0x31,0x61] [0] (by decide) (by decide)

theorem ascString2HexOdd : ¬ ∀ (kind : CharWidth) (sep : Cell kind) (text : List (Cell kind)) (dest : Bytes),
    dest ≠ [] → (text.length : Int).tdiv (nMult sep) ≤ dest.length →
      (ascString2Hex kind (some text) text.length (some dest) dest.length sep).isSome := by
  intro always
  have odd := always .narrow 0 [0x31] [0] (by decide) (by decide)
  revert odd
  decide

end Claims

end JokeDse
