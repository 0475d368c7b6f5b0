import JokeDse.Basic

/-! The two character types of the functions that come in a narrow and a wide version. -/
namespace JokeDse

inductive CharWidth where
  | narrow
  | wide
  deriving DecidableEq, Repr

def CharWidth.bits : CharWidth → Nat
  | narrow => 8
  | wide => 16

abbrev Cell (kind : CharWidth) := BitVec kind.bits

def CharWidth.value : (kind : CharWidth) → Cell kind → Int
  | narrow, ch => ch.toInt
  | wide, ch => ch.toNat

end JokeDse
