import JokeDse.Lib.Crc

/-! Cyclic redundancy checks of any width, not reflected: the register moves up one bit at a time, and the
polynomial is added for every one that falls out. -/
namespace CrcUp
open Crc (Linear)

variable {w : Nat} (poly : BitVec w)

def shift (x : BitVec w) : BitVec w := if x.msb then x <<< 1 ^^^ poly else x <<< 1

def feed (x : BitVec w) (bit : Bool) : BitVec w := if bit then shift poly x ^^^ poly else shift poly x

def octetBits (b : BitVec 8) : List Bool := (List.range 8).map b.getMsbD

def octet (x : BitVec w) (b : BitVec 8) : BitVec w := (octetBits b).foldl (feed poly) x

def update (x : BitVec w) (raw : List (BitVec 8)) : BitVec w := raw.foldl (octet poly) x

theorem updateAppend (x : BitVec w) (raw more : List (BitVec 8)) :
    update poly x (raw ++ more) = update poly (update poly x raw) more := List.foldl_append

theorem shiftXor : Linear (shift poly) :=
  Linear.reduce (fun x y => BitVec.shiftLeft_xor_distrib x y 1) (fun _ _ => BitVec.msb_xor) poly

theorem shiftsXor (n : Nat) : Linear (shift poly)^[n] := (shiftXor poly).iterate n

theorem shiftsClear {x : BitVec w} {n : Nat} (clear : ∀ i < n, x.getMsbD i = false) :
    (shift poly)^[n] x = x <<< n := by
  induction n with
  | zero => exact (BitVec.shiftLeft_zero x).symm
  | succ n ih =>
    have leading : (x <<< n).msb = false := by
      rw [BitVec.msb,BitVec.getMsbD_shiftLeft,Nat.zero_add]
      exact clear n (Nat.lt_succ_self n)
    rw [Function.iterate_succ_apply',ih fun i inside => clear i (Nat.lt_succ_of_lt inside),shift,leading,
      if_neg Bool.false_ne_true,BitVec.shiftLeft_add]

section Message
variable {poly}

def top (bit : Bool) : BitVec w := if bit then BitVec.twoPow w (w - 1) else 0

def leading : List Bool → BitVec w
  | [] => 0
  | bit :: bits => top bit ^^^ leading bits >>> 1

theorem topBit (bit : Bool) (i : Nat) : (top bit : BitVec w).getMsbD i = (decide (i = 0 ∧ 0 < w) && bit) := by
  cases bit with
  | false => simp [top]
  | true =>
    rw [top,if_pos rfl,BitVec.getMsbD_twoPow,Bool.eq_iff_iff,Bool.and_true,Bool.and_eq_true,decide_eq_true_iff,
      decide_eq_true_iff,decide_eq_true_iff]
    omega

theorem leadingBit (bits : List Bool) (i : Nat) :
    (leading bits : BitVec w).getMsbD i = (decide (i < w) && bits.getD i false) := by
  induction bits generalizing i with
  | nil => simp [leading]
  | cons bit bits ih =>
    rw [leading,BitVec.getMsbD_xor,BitVec.getMsbD_ushiftRight,topBit,ih]
    cases i with
    | zero => simp
    | succ i =>
      by_cases inside : i + 1 < w
      · simp [inside,Nat.lt_of_succ_lt inside]
      · simp [inside]

theorem shiftLeading {bits : List Bool} (fits : bits.length < w) :
    shift poly ((leading bits : BitVec w) >>> 1) = leading bits := by
  have down : ((leading bits : BitVec w) >>> 1).msb = false := BitVec.msb_ushiftRight
  rw [shift,down,if_neg Bool.false_ne_true]
  apply BitVec.eq_of_getMsbD_eq
  intro i inside
  rw [BitVec.getMsbD_shiftLeft,BitVec.getMsbD_ushiftRight,leadingBit]
  by_cases last : i + 1 < w
  · simp [last,inside,leadingBit]
  · have beyond : bits.length ≤ i := by omega
    simp [last,inside,leadingBit,beyond]

theorem feedShifts (positive : 0 < w) (x : BitVec w) (bit : Bool) : feed poly x bit = shift poly (x ^^^ top bit) := by
  cases bit with
  | false => exact congrArg (shift poly) (BitVec.xor_zero (x := x)).symm
  | true =>
    have out : (top true : BitVec w).msb = true := by
      rw [BitVec.msb,topBit]
      simpa using positive
    have gone : (top true : BitVec w) <<< 1 = 0 := by
      apply BitVec.eq_of_getMsbD_eq
      intro i inside
      rw [BitVec.getMsbD_shiftLeft,topBit]
      simp
    rw [feed,if_pos rfl,shiftXor]
    refine congrArg (shift poly x ^^^ ·) ?_
    rw [shift,if_pos out,gone]
    exact BitVec.zero_xor.symm

theorem feedsShift {bits : List Bool} (fits : bits.length ≤ w) (x : BitVec w) :
    bits.foldl (feed poly) x = (shift poly)^[bits.length] (x ^^^ leading bits) := by
  induction bits generalizing x with
  | nil => exact (BitVec.xor_zero (x := x)).symm
  | cons bit bits ih =>
    rw [List.length_cons] at fits
    rw [List.foldl_cons,ih (Nat.le_of_succ_le fits),feedShifts (by omega),List.length_cons,
      Function.iterate_succ_apply,leading,← BitVec.xor_assoc,shiftXor poly _ (leading bits >>> 1),shiftLeading fits]

theorem leadingOctet (wide : 8 ≤ w) (b : BitVec 8) :
    (leading (octetBits b) : BitVec w) = b.setWidth w <<< (w - 8) := by
  apply BitVec.eq_of_getMsbD_eq
  intro i inside
  rw [leadingBit,BitVec.getMsbD_shiftLeft,BitVec.getMsbD_setWidth,show i + (w - 8) + 8 - w = i by omega]
  by_cases within : i < 8
  · simp [octetBits,within,inside]
  · simp [octetBits,within,BitVec.getMsbD_of_ge b i (Nat.not_lt.mp within)]

theorem octetShifts (wide : 8 ≤ w) (x : BitVec w) (b : BitVec 8) :
    octet poly x b = (shift poly)^[8] (x ^^^ b.setWidth w <<< (w - 8)) := by
  rw [octet,feedsShift wide,leadingOctet wide]
  rfl

theorem highestOctet (wide : 8 ≤ w) (x : BitVec w) :
    x = ((x >>> (w - 8)).setWidth 8).setWidth w <<< (w - 8) ^^^ x <<< 8 >>> 8 := by
  apply BitVec.eq_of_getMsbD_eq
  intro i inside
  simp only [BitVec.getMsbD_xor,BitVec.getMsbD_shiftLeft,BitVec.getMsbD_setWidth,BitVec.getMsbD_ushiftRight]
  rw [show i + (w - 8) + 8 - w = i by omega]
  by_cases high : i < 8
  · simp [high,inside,show 8 ≤ i + w by omega,show i + w - 8 < w by omega,show ¬ i + w - 8 < w - 8 by omega,
      show i + w - 8 - (w - 8) = i by omega]
  · simp [high,inside,show ¬ i + w - 8 < w by omega,show i - 8 + 8 = i by omega]

theorem lowerOctets (x : BitVec w) : x <<< 8 >>> 8 <<< 8 = x <<< 8 := by
  apply BitVec.eq_of_getMsbD_eq
  intro i inside
  rw [BitVec.getMsbD_shiftLeft,BitVec.getMsbD_ushiftRight,Nat.add_sub_cancel]
  by_cases within : i + 8 < w
  · simp [within]
  · simp [within,BitVec.getMsbD_of_ge x (i + 8) (Nat.not_lt.mp within)]

theorem shiftsOctet (wide : 8 ≤ w) (x : BitVec w) :
    (shift poly)^[8] x = (shift poly)^[8] (((x >>> (w - 8)).setWidth 8).setWidth w <<< (w - 8)) ^^^ x <<< 8 := by
  have rest : ∀ i < 8, (x <<< 8 >>> 8).getMsbD i = false := fun i inside => by
    rw [BitVec.getMsbD_ushiftRight,decide_eq_true inside,Bool.not_true,Bool.false_and,Bool.and_false]
  calc (shift poly)^[8] x
      = (shift poly)^[8] (((x >>> (w - 8)).setWidth 8).setWidth w <<< (w - 8) ^^^ x <<< 8 >>> 8) := by
        rw [← highestOctet wide]
    _ = _ := by rw [shiftsXor,shiftsClear poly rest,lowerOctets]

theorem octetLooksUp {table : BitVec 8 → BitVec w}
    (entries : ∀ i, table i = (shift poly)^[8] (i.setWidth w <<< (w - 8))) (x : BitVec w) (b : BitVec 8) (wide : 8 ≤ w) :
    octet poly x b = x <<< 8 ^^^ table ((x >>> (w - 8)).setWidth 8 ^^^ b) := by
  rw [octetShifts wide,shiftsXor,shiftsOctet wide,entries,BitVec.setWidth_xor,BitVec.shiftLeft_xor_distrib,shiftsXor,
    BitVec.xor_comm (x <<< 8),BitVec.xor_assoc,BitVec.xor_assoc,BitVec.xor_comm (x <<< 8)]

end Message

end CrcUp
