import JokeDse.Lib.MachineInt
import Mathlib.Data.List.TakeWhile

/-! The machine types of a Win32 Unicode build and the C and CString operations the modelled functions
call. An `int` is held as the integer it denotes; `int` is what remains of a result that is stored in
one. A CString is its characters without the terminator. -/
namespace JokeDse

abbrev Byte := BitVec 8
abbrev Word := BitVec 16
abbrev Uint := BitVec 32
abbrev WChar := BitVec 16
abbrev Bytes := List Byte
abbrev CString := List WChar

def int (x : Int) : Int := MachineInt.signed 32 x
def uint (x : Int) : Nat := MachineInt.unsigned 32 x

theorem intFits {x : Int} (low : -2147483648 ≤ x) (high : x < 2147483648) : int x = x :=
  MachineInt.signedFits (by omega) (by omega)

theorem intAdd {a b : Nat} (small : a + b < 2147483648) : int ((a : Int) + b) = (a + b : Nat) := by
  rw [intFits (by omega) (by omega)]
  simp

theorem intSub {a b : Nat} (below : b ≤ a) (small : a < 2147483648) : int ((a : Int) - b) = (a - b : Nat) := by
  rw [intFits (by omega) (by omega)]
  omega

theorem intMin (a b : Nat) : (if (a : Int) ≤ b then (a : Int) else b) = (min b a : Nat) := by
  split <;> omega

theorem uintFits {x : Int} (low : 0 ≤ x) (high : x < 4294967296) : (uint x : Int) = x :=
  MachineInt.unsignedFits low (by omega)

theorem uintNegative {x : Int} (low : -2147483648 ≤ x) (negative : x < 0) :
    (uint x : Int) = x + 4294967296 := MachineInt.unsignedNegative (by omega) negative

theorem uintPositive {u : Uint} : 0 < u.toNat ↔ u ≠ 0 := by
  constructor
  · rintro positive rfl
    contradiction
  · exact fun nonzero => Nat.pos_of_ne_zero fun zero => nonzero (BitVec.eq_of_toNat_eq zero)

def toUint (x : Int) : Uint := BitVec.ofInt 32 x

theorem toUintNat (n : Nat) : toUint (n : Int) = BitVec.ofNat 32 n := by
  simp [toUint]

theorem toUintInt (x : Int) : toUint (int x) = toUint x := by
  apply BitVec.eq_of_toInt_eq
  simp only [toUint,int,MachineInt.signed,BitVec.toInt_ofInt]
  exact Int.bmod_bmod

theorem toUintBack (u : Uint) : toUint (int u.toNat) = u := by
  apply BitVec.eq_of_toNat_eq
  have bound := u.isLt
  simp only [toUint,int,MachineInt.signed,BitVec.toNat_ofInt,Int.bmod_emod]
  omega

def cstr (memory : Bytes) : Bytes := memory.takeWhile (· != 0)

def strlen (memory : Bytes) : Nat := (cstr memory).length

theorem cstrClean {s : Bytes} (clean : (0 : Byte) ∉ s) : cstr s = s := by
  apply List.takeWhile_eq_self_iff.mpr
  intro b member
  simpa using fun zero : b = 0 => clean (zero ▸ member)

theorem cstrFree (memory : Bytes) : (0 : Byte) ∉ cstr memory := by
  intro member
  simpa using List.mem_takeWhile_imp member

theorem cstrLength (s : Bytes) : (cstr s).length ≤ s.length :=
  (List.takeWhile_sublist _).length_le

/-- `strncpy_s`: copies at most `count` characters and a terminator. What does not fit is not truncated;
the invalid-parameter handler ends the process (`none`). -/
def strncpy_s (size : Nat) (source : Bytes) (count : Nat) : Option Bytes :=
  let copied := cstr (source.take count)
  if copied.length < size then some copied else none

def strcpy_s (size : Nat) (source : Bytes) : Option Bytes :=
  if strlen source < size then some (cstr source) else none

def backslash : WChar := 0x5C#16

def reverseFind (s : CString) (ch : WChar) : Int :=
  (s.length : Int) - 1 - (s.reverse.takeWhile (· != ch)).length

def left (s : CString) (count : Int) : CString := s.take count.toNat

def chars (s : List Char) : CString := s.map fun ch => BitVec.ofNat 16 ch.toNat

inductive Stop where
  | accessViolation
  | invalidParameter
  | endless
  deriving DecidableEq, Repr

/-- A function returns, throws a CFileException, or the process goes no further. -/
inductive Outcome (σ α : Type) where
  | done (value : α) (state : σ)
  | thrown (state : σ)
  | stopped (why : Stop) (state : σ)
  deriving DecidableEq, Repr

namespace Outcome
variable {σ α β : Type}

def bind : Outcome σ α → (α → σ → Outcome σ β) → Outcome σ β
  | done value state, next => next value state
  | thrown state, _ => thrown state
  | stopped why state, _ => stopped why state

def state : Outcome σ α → σ
  | done _ state => state
  | thrown state => state
  | stopped _ state => state

@[simp] theorem bindDone (value : α) (state : σ) (next : α → σ → Outcome σ β) :
    (done value state).bind next = next value state := rfl
@[simp] theorem bindThrown (state : σ) (next : α → σ → Outcome σ β) :
    (thrown state).bind next = thrown state := rfl
@[simp] theorem bindStopped (why : Stop) (state : σ) (next : α → σ → Outcome σ β) :
    (stopped why state).bind next = stopped why state := rfl

theorem bindAssoc {γ : Type} (outcome : Outcome σ α) (next : α → σ → Outcome σ β)
    (last : β → σ → Outcome σ γ) :
    (outcome.bind next).bind last = outcome.bind fun value state => (next value state).bind last := by
  cases outcome <;> rfl

theorem bindKeeps {I : σ → Prop} {outcome : Outcome σ α} {next : α → σ → Outcome σ β} (first : I outcome.state)
    (rest : ∀ value state, I state → I (next value state).state) : I (outcome.bind next).state := by
  cases outcome with
  | done value state => exact rest value state first
  | thrown state => exact first
  | stopped why state => exact first

end Outcome

end JokeDse
