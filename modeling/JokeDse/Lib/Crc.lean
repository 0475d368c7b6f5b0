import JokeDse.Lib.LittleEndian
import Mathlib.Logic.Function.Iterate

/-! Reflected cyclic redundancy checks of any width: the register moves down one bit at a time, and the
polynomial is added for every one that falls out. -/
namespace Crc

variable {w : Nat} (poly : BitVec w)

def shift (x : BitVec w) : BitVec w := if x.getLsbD 0 then x >>> 1 ^^^ poly else x >>> 1

def octet (x : BitVec w) (b : BitVec 8) : BitVec w := (shift poly)^[8] (x ^^^ b.setWidth w)

def update (x : BitVec w) (raw : List (BitVec 8)) : BitVec w := raw.foldl (octet poly) x

theorem updateAppend (x : BitVec w) (raw more : List (BitVec 8)) :
    update poly x (raw ++ more) = update poly (update poly x raw) more := List.foldl_append

theorem xorSwap (a b c d : BitVec w) : a ^^^ b ^^^ (c ^^^ d) = a ^^^ c ^^^ (b ^^^ d) := by
  rw [BitVec.xor_assoc,BitVec.xor_assoc,← BitVec.xor_assoc b c d,BitVec.xor_comm b c,BitVec.xor_assoc c b d]

theorem xorInjective (x : BitVec w) : Function.Injective (x ^^^ ·) := fun _ _ same =>
  BitVec.xor_right_inj x |>.mp same

def Linear (f : BitVec w → BitVec w) : Prop := ∀ x y, f (x ^^^ y) = f x ^^^ f y

theorem Linear.iterate {f : BitVec w → BitVec w} (linear : Linear f) (n : Nat) : Linear f^[n] := by
  induction n with
  | zero => exact fun _ _ => rfl
  | succ n ih =>
    intro x y
    rw [Function.iterate_succ_apply,Function.iterate_succ_apply,Function.iterate_succ_apply,linear,ih]

theorem Linear.reduce {f : BitVec w → BitVec w} (linear : Linear f) {out : BitVec w → Bool}
    (outs : ∀ x y, out (x ^^^ y) = (out x ^^ out y)) (poly : BitVec w) :
    Linear fun x => if out x then f x ^^^ poly else f x := by
  intro x y
  simp only [outs,linear x y]
  cases out x with
  | false =>
    cases out y with
    | false => rfl
    | true => exact BitVec.xor_assoc _ _ _
  | true =>
    cases out y with
    | false =>
      simp only [Bool.true_xor,Bool.not_false,Bool.false_eq_true,if_true,if_false]
      rw [BitVec.xor_assoc,BitVec.xor_comm (f y),BitVec.xor_assoc]
    | true =>
      simp only [Bool.true_xor,Bool.not_true,Bool.false_eq_true,if_true,if_false]
      rw [xorSwap,BitVec.xor_self,BitVec.xor_zero]

theorem shiftXor : Linear (shift poly) :=
  Linear.reduce (fun x y => BitVec.ushiftRight_xor_distrib x y 1) (fun _ _ => BitVec.getLsbD_xor) poly

theorem shiftsXor (n : Nat) : Linear (shift poly)^[n] := (shiftXor poly).iterate n

theorem shiftsClear {x : BitVec w} {n : Nat} (clear : ∀ i < n, x.getLsbD i = false) :
    (shift poly)^[n] x = x >>> n := by
  induction n with
  | zero => exact (BitVec.ushiftRight_zero x).symm
  | succ n ih =>
    have low : (x >>> n).getLsbD 0 = false := by
      rw [BitVec.getLsbD_ushiftRight]
      exact clear n (Nat.lt_succ_self n)
    rw [Function.iterate_succ_apply',ih fun i inside => clear i (Nat.lt_succ_of_lt inside),shift,low,
      if_neg Bool.false_ne_true,BitVec.shiftRight_add]

theorem shiftsAbove (x : BitVec w) : (shift poly)^[8] (x <<< 8) = x <<< 8 >>> 8 := by
  refine shiftsClear poly fun i inside => ?_
  rw [BitVec.getLsbD_shiftLeft,decide_eq_true inside,Bool.not_true,Bool.and_false,Bool.false_and]

theorem lowestOctet (x : BitVec w) : x = (x.setWidth 8).setWidth w ^^^ x >>> 8 <<< 8 := by
  apply BitVec.eq_of_getLsbD_eq
  intro i inside
  rw [BitVec.getLsbD_xor,BitVec.getLsbD_setWidth,BitVec.getLsbD_setWidth,BitVec.getLsbD_shiftLeft,
    BitVec.getLsbD_ushiftRight]
  by_cases low : i < 8
  · simp [low,inside]
  · simp [low,inside,show 8 + (i - 8) = i by omega]

theorem upperOctets (x : BitVec w) : x >>> 8 <<< 8 >>> 8 = x >>> 8 := by
  apply BitVec.eq_of_getLsbD_eq
  intro i inside
  rw [BitVec.getLsbD_ushiftRight,BitVec.getLsbD_shiftLeft,BitVec.getLsbD_ushiftRight,Nat.add_sub_cancel_left]
  by_cases within : 8 + i < w
  · simp [within]
  · simp [within,BitVec.getLsbD_of_ge x (8 + i) (by omega)]

theorem shiftsOctet (x : BitVec w) :
    (shift poly)^[8] x = (shift poly)^[8] ((x.setWidth 8).setWidth w) ^^^ x >>> 8 := by
  calc (shift poly)^[8] x
      = (shift poly)^[8] ((x.setWidth 8).setWidth w ^^^ x >>> 8 <<< 8) := by rw [← lowestOctet]
    _ = (shift poly)^[8] ((x.setWidth 8).setWidth w) ^^^ x >>> 8 := by rw [shiftsXor,shiftsAbove,upperOctets]

theorem octetLooksUp {table : BitVec 8 → BitVec w} (entries : ∀ i, table i = (shift poly)^[8] (i.setWidth w))
    (x : BitVec w) (b : BitVec 8) (wide : 8 ≤ w) :
    octet poly x b = table (x.setWidth 8 ^^^ b) ^^^ x >>> 8 := by
  have lowest : (x ^^^ b.setWidth w).setWidth 8 = x.setWidth 8 ^^^ b := by
    rw [BitVec.setWidth_xor,BitVec.setWidth_setWidth_of_le _ wide,BitVec.setWidth_eq]
  have above : (x ^^^ b.setWidth w) >>> 8 = x >>> 8 := by
    have gone : b.setWidth w >>> 8 = 0 := by
      apply BitVec.eq_of_toNat_eq
      have bound := b.isLt
      rw [BitVec.toNat_ushiftRight,BitVec.toNat_setWidth,Nat.shiftRight_eq_div_pow]
      exact Nat.div_eq_of_lt (Nat.lt_of_le_of_lt (Nat.mod_le _ _) bound)
    rw [BitVec.ushiftRight_xor_distrib,gone]
    exact BitVec.xor_zero
  rw [octet,shiftsOctet,lowest,above,entries]

section Detects
variable {poly}

theorem shiftTop (top : poly.msb = true) (x : BitVec w) : (shift poly x).msb = x.getLsbD 0 := by
  have down : (x >>> 1).msb = false := BitVec.msb_ushiftRight
  unfold shift
  split
  · rename_i one
    rw [BitVec.msb_xor,down,top,one]
    rfl
  · rename_i zero
    rw [down,Bool.eq_false_iff.mpr zero]

theorem shiftInjective (top : poly.msb = true) : Function.Injective (shift poly) := by
  intro x y same
  have lowest : x.getLsbD 0 = y.getLsbD 0 := by rw [← shiftTop top,← shiftTop top,same]
  have above : x >>> 1 = y >>> 1 := by
    unfold shift at same
    rw [← lowest] at same
    split at same
    · exact BitVec.xor_left_inj poly |>.mp same
    · exact same
  apply BitVec.eq_of_getLsbD_eq
  intro i inside
  match i with
  | 0 => exact lowest
  | i + 1 =>
    have next : (x >>> 1).getLsbD i = (y >>> 1).getLsbD i := by rw [above]
    rwa [BitVec.getLsbD_ushiftRight,BitVec.getLsbD_ushiftRight,Nat.add_comm] at next

theorem updateInjective (top : poly.msb = true) (raw : List (BitVec 8)) :
    Function.Injective fun x => update poly x raw := by
  induction raw with
  | nil => exact fun _ _ same => same
  | cons b raw ih =>
    intro x y same
    have first : octet poly x b = octet poly y b := ih same
    exact BitVec.xor_left_inj (b.setWidth w) |>.mp ((shiftInjective top).iterate 8 first)

theorem updateNumber {raw : List (BitVec 8)} (fits : 8 * raw.length ≤ w) (x : BitVec w) :
    update poly x raw = (shift poly)^[8 * raw.length] (x ^^^ BitVec.ofNat w (LittleEndian.decode raw)) := by
  induction raw generalizing x with
  | nil => exact (BitVec.xor_zero (x := x)).symm
  | cons b raw ih =>
    have bound : LittleEndian.decode raw * 256 < 2 ^ w := by
      have rest := LittleEndian.decodeBound raw
      have room : 256 ^ (raw.length + 1) ≤ 2 ^ w := by
        rw [show 256 = 2 ^ 8 by rfl,← Nat.pow_mul]
        exact Nat.pow_le_pow_right (by decide) fits
      rw [Nat.pow_succ] at room
      exact Nat.lt_of_lt_of_le (Nat.mul_lt_mul_of_pos_right rest (by decide)) room
    have moved : BitVec.ofNat w (LittleEndian.decode raw) <<< 8 >>> 8 = BitVec.ofNat w (LittleEndian.decode raw) := by
      have small : LittleEndian.decode raw < 2 ^ w := by omega
      apply BitVec.eq_of_toNat_eq
      rw [BitVec.toNat_ushiftRight,BitVec.toNat_shiftLeft,BitVec.toNat_ofNat,Nat.mod_eq_of_lt small,
        Nat.shiftLeft_eq,Nat.mod_eq_of_lt bound,Nat.shiftRight_eq_div_pow,Nat.mul_div_cancel _ (by decide)]
    have number : BitVec.ofNat w (LittleEndian.decode (b :: raw)) =
        b.setWidth w ^^^ BitVec.ofNat w (LittleEndian.decode raw) <<< 8 := by
      apply BitVec.eq_of_getLsbD_eq
      intro i inside
      have digits : LittleEndian.decode (b :: raw) = 2 ^ 8 * LittleEndian.decode raw + b.toNat := Nat.add_comm _ _
      rw [BitVec.getLsbD_ofNat,digits,Nat.testBit_two_pow_mul_add _ b.isLt,BitVec.getLsbD_xor,BitVec.getLsbD_setWidth,
        BitVec.getLsbD_shiftLeft,BitVec.getLsbD_ofNat]
      by_cases low : i < 8
      · simp [low,inside,BitVec.getLsbD]
      · simp [low,inside,BitVec.getLsbD_of_ge b i (by omega),show i - 8 < w by omega]
    rw [List.length_cons,Nat.mul_succ,Function.iterate_add_apply,number,← BitVec.xor_assoc,shiftsXor,shiftsAbove,
      moved,← ih (by simp only [List.length_cons] at fits; omega)]
    rfl

theorem updateNumbers (top : poly.msb = true) (x : BitVec w) {s t : List (BitVec 8)} (length : s.length = t.length)
    (fits : 8 * s.length ≤ w) (same : update poly x s = update poly x t) : s = t := by
  rw [updateNumber fits,updateNumber (length ▸ fits),← length] at same
  have numbers := xorInjective x ((shiftInjective top).iterate _ same)
  have bound : ∀ {raw : List (BitVec 8)}, raw.length = s.length → LittleEndian.decode raw < 2 ^ w := by
    intro raw equal
    have below := LittleEndian.decodeBound raw
    rw [equal,show 256 = 2 ^ 8 by rfl,← Nat.pow_mul] at below
    exact Nat.lt_of_lt_of_le below (Nat.pow_le_pow_right (by decide) fits)
  have decoded : LittleEndian.decode s = LittleEndian.decode t := by
    have nats := congrArg BitVec.toNat numbers
    rwa [BitVec.toNat_ofNat,BitVec.toNat_ofNat,Nat.mod_eq_of_lt (bound rfl),Nat.mod_eq_of_lt (bound length.symm)] at nats
  rw [← LittleEndian.encodeDecode s,← LittleEndian.encodeDecode t,length,decoded]

def SameOutside (start n : Nat) (s t : List (BitVec 8)) : Prop :=
  ∀ i, i < start ∨ start + n ≤ i → s[i]? = t[i]?

theorem sameAround {n : Nat} {middle middle' : List (BitVec 8)} (front behind : List (BitVec 8))
    (length : middle.length = middle'.length) (within : middle.length ≤ n) :
    SameOutside front.length n (front ++ (middle ++ behind)) (front ++ (middle' ++ behind)) := by
  rintro i (before | beyond)
  · rw [List.getElem?_append_left before,List.getElem?_append_left before]
  · rw [List.getElem?_append_right (by omega),List.getElem?_append_right (by omega),List.getElem?_append_right (by omega),
      List.getElem?_append_right (by omega),length]

theorem windowParts (start n : Nat) (s : List (BitVec 8)) :
    s = s.take start ++ ((s.drop start).take n ++ s.drop (start + n)) := by
  rw [← List.drop_drop,List.take_append_drop,List.take_append_drop]

theorem updateDetects (top : poly.msb = true) {start n : Nat} (fits : 8 * n ≤ w) {s t : List (BitVec 8)}
    (length : s.length = t.length) (outside : SameOutside start n s t) (differ : s ≠ t) (x : BitVec w) :
    update poly x s ≠ update poly x t := by
  have front : s.take start = t.take start := by
    apply List.ext_getElem?
    intro i
    rw [List.getElem?_take,List.getElem?_take]
    split
    · rename_i inside
      exact outside i (.inl inside)
    · rfl
  have behind : s.drop (start + n) = t.drop (start + n) := by
    apply List.ext_getElem?
    intro i
    rw [List.getElem?_drop,List.getElem?_drop]
    exact outside _ (.inr (Nat.le_add_right _ _))
  intro same
  rw [windowParts start n s,windowParts start n t,front,behind,updateAppend,updateAppend,updateAppend,updateAppend] at same
  have window := updateNumbers top _ (by simp only [List.length_take,List.length_drop,length])
    (Nat.le_trans (Nat.mul_le_mul_left 8 (List.length_take_le _ _)) fits) (updateInjective top _ same)
  rw [windowParts start n s,windowParts start n t,front,behind,window] at differ
  exact differ rfl

end Detects

end Crc
