import Mathlib.Algebra.Order.Ring.Int
import Mathlib.Data.List.Basic

/-! Fixed-width machine integers over mathematical ones. A variable holds an integer of its range;
storing a result keeps the residue that the width represents. -/
namespace MachineInt

def signed (width : Nat) (x : Int) : Int := x.bmod (2 ^ width)

def unsigned (width : Nat) (x : Int) : Nat := (x % 2 ^ width).toNat

theorem signedFits {width : Nat} {x : Int} (low : -(2 ^ width : Nat) ≤ 2 * x)
    (high : 2 * x < (2 ^ width : Nat)) : signed width x = x := by
  unfold signed
  rw [Int.bmod_def]
  have nonneg : (0 : Int) < (2 ^ width : Nat) := by exact_mod_cast Nat.two_pow_pos width
  generalize ((2 ^ width : Nat) : Int) = m at *
  by_cases sign : 0 ≤ x
  · have same : x % m = x := Int.emod_eq_of_lt sign (by omega)
    rw [same,if_pos (by omega)]
  · have same : x % m = x + m := by
      have shifted := Int.emod_eq_of_lt (by omega : 0 ≤ x + m) (by omega : x + m < m)
      simpa using shifted
    rw [same,if_neg (by omega)]
    omega

theorem signedLow (width n : Nat) : signed width (n : Int) ≤ n := by
  have residue : (n : Int) % (2 ^ width : Nat) ≤ n := by exact_mod_cast Nat.mod_le n (2 ^ width)
  have nonneg : (0 : Int) ≤ (2 ^ width : Nat) := Int.natCast_nonneg _
  unfold signed
  rw [Int.bmod_def]
  split <;> omega

theorem signedHigh {width : Nat} (wide : 0 < width) (x : Int) : 2 * signed width x < (2 ^ width : Nat) := by
  have upper : x.bmod (2 ^ width) < ((2 ^ width : Nat) + 1) / 2 := Int.bmod_lt (Nat.two_pow_pos width)
  have even : 2 ∣ 2 ^ width := dvd_pow_self 2 (Nat.ne_of_gt wide)
  unfold signed
  omega

theorem unsignedFits {width : Nat} {x : Int} (low : 0 ≤ x) (high : x < (2 ^ width : Nat)) :
    (unsigned width x : Int) = x := by
  have high' : x < 2 ^ width := by simpa using high
  rw [unsigned,Int.emod_eq_of_lt low high']
  exact Int.toNat_of_nonneg low

theorem unsignedNat {width n : Nat} (high : n < 2 ^ width) : unsigned width (n : Int) = n := by
  have same := @unsignedFits width n (by omega) (by exact_mod_cast high)
  exact_mod_cast same

theorem unsignedNegative {width : Nat} {x : Int} (low : -(2 ^ width : Nat) ≤ x) (negative : x < 0) :
    (unsigned width x : Int) = x + (2 ^ width : Nat) := by
  have low' : -(2 ^ width : Int) ≤ x := by simpa using low
  have same : x % 2 ^ width = x + 2 ^ width := by
    have shifted := Int.emod_eq_of_lt (by omega : 0 ≤ x + 2 ^ width) (by omega : x + 2 ^ width < 2 ^ width)
    simpa using shifted
  rw [unsigned,same,Int.toNat_of_nonneg (by omega)]
  simp

end MachineInt
