import Mathlib.Algebra.Order.Ring.Int
import Mathlib.Data.List.Basic

/-! Numbers as little-endian octets of a given width. -/
namespace LittleEndian

def encode : (width n : Nat) → List (BitVec 8)
  | 0, _ => []
  | width + 1, n => BitVec.ofNat 8 n :: encode width (n / 256)

def decode : List (BitVec 8) → Nat
  | [] => 0
  | b :: rest => b.toNat + 256 * decode rest

@[simp] theorem encodeLength (width n : Nat) : (encode width n).length = width := by
  induction width generalizing n with
  | zero => rfl
  | succ width ih => simp [encode,ih]

theorem decodeBound (raw : List (BitVec 8)) : decode raw < 256 ^ raw.length := by
  induction raw with
  | nil => simp [decode]
  | cons b rest ih =>
    have octet := b.isLt
    rw [decode,List.length_cons,Nat.pow_succ]
    omega

theorem decodeEncode {width n : Nat} (bound : n < 256 ^ width) : decode (encode width n) = n := by
  induction width generalizing n with
  | zero => simp only [Nat.pow_zero] at bound; simp only [encode,decode]; omega
  | succ width ih =>
    rw [Nat.pow_succ] at bound
    have rest : decode (encode width (n / 256)) = n / 256 := ih (by omega)
    simp only [encode,decode,rest,BitVec.toNat_ofNat]
    omega

theorem encodeDecode (raw : List (BitVec 8)) : encode raw.length (decode raw) = raw := by
  induction raw with
  | nil => rfl
  | cons b rest ih =>
    have octet := b.isLt
    have low : BitVec.ofNat 8 (b.toNat + 256 * decode rest) = b := by
      apply BitVec.eq_of_toNat_eq
      rw [BitVec.toNat_ofNat]
      omega
    have high : (b.toNat + 256 * decode rest) / 256 = decode rest := by omega
    simp only [List.length_cons,decode,encode,low,high,ih]

end LittleEndian
