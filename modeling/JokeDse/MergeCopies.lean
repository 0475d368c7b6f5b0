import JokeDse.MemMerge

/-! MemMerge down to its blocks of memory: the block that the buffer owns, the one that `new` gives, and the
copies between them. -/
namespace JokeDse

def memcpy (destination : Bytes) (offset : Int) (source : Bytes) (count : Int) : Option Bytes :=
  if 0 ≤ offset ∧ 0 ≤ count ∧ offset + count ≤ destination.length ∧ count ≤ source.length then
    some (destination.take offset.toNat ++ (source.take count.toNat ++ destination.drop (offset + count).toNat))
  else none

structure DestBuff where
  pDestBuff : Bytes
  nDestBuffLength : Int
  nDestBuffSize : Int
  deriving DecidableEq, Repr

inductive Copied where
  | returned (result : Bool) (d : DestBuff)
  | endless
  | overrun
  deriving DecidableEq, Repr

/-- `newChar` is the block that `new char[n]` gives, with whatever it holds, or NULL. The callers pass the
addresses of their own members, so neither pointer is NULL. -/
def memMergeCopies (newChar : Int → Option Bytes) (d : DestBuff) (szTempBuff : Bytes) (nTempLen : Int) : Copied :=
  if d.nDestBuffSize = 0 ∨ nTempLen = 0 then .returned false d
  else
    let nNewBufferLength := int (nTempLen + d.nDestBuffLength)
    if nNewBufferLength ≤ d.nDestBuffSize then
      match memcpy d.pDestBuff d.nDestBuffLength szTempBuff nTempLen with
      | none => .overrun
      | some pDestBuff => .returned true ⟨pDestBuff,nNewBufferLength,d.nDestBuffSize⟩
    else
      match growLoop 33 d.nDestBuffSize nNewBufferLength with
      | none => .endless
      | some nNewBufferSize =>
        match newChar nNewBufferSize with
        | none => .returned false d
        | some pTemp =>
          match (memcpy pTemp 0 d.pDestBuff d.nDestBuffLength).bind fun pTemp =>
            memcpy pTemp d.nDestBuffLength szTempBuff nTempLen with
          | none => .overrun
          | some pTemp => .returned true ⟨pTemp,nNewBufferLength,nNewBufferSize⟩

structure DestBuff.Valid (d : DestBuff) : Prop where
  block : d.pDestBuff.length = d.nDestBuffSize
  isInt : d.nDestBuffSize < 2147483648
  stored : 0 ≤ d.nDestBuffLength
  within : d.nDestBuffLength ≤ d.nDestBuffSize

namespace DestBuff.Valid
variable {d : DestBuff}

def buffer (valid : d.Valid) : Buffer where
  bytes := d.pDestBuff.take d.nDestBuffLength.toNat
  size := d.nDestBuffSize.toNat
  fits := by
    have block := valid.block
    have within := valid.within
    have taken := List.length_take_le d.nDestBuffLength.toNat d.pDestBuff
    omega
  isInt := by
    have isInt := valid.isInt
    omega

theorem storedLength (valid : d.Valid) : (valid.buffer.bytes.length : Int) = d.nDestBuffLength := by
  have block := valid.block
  have stored := valid.stored
  have within := valid.within
  have taken : valid.buffer.bytes.length = d.nDestBuffLength.toNat := List.length_take_of_le (by omega)
  omega

end DestBuff.Valid

section Copies
variable {destination source : Bytes} {offset count : Int}

theorem memcpyTakes (destination source : Bytes) (inside : 0 ≤ offset) (some : 0 ≤ count)
    (room : offset + count ≤ destination.length) (there : count ≤ source.length) :
    ∃ p, memcpy destination offset source count = .some p ∧ p.length = destination.length ∧
      p.take (offset + count).toNat = destination.take offset.toNat ++ source.take count.toNat := by
  refine ⟨_,if_pos ⟨inside,some,room,there⟩,?_,?_⟩
  · simp only [List.length_append,List.length_take,List.length_drop]
    omega
  · have front : (destination.take offset.toNat ++ source.take count.toNat).length = (offset + count).toNat := by
      simp only [List.length_append,List.length_take]
      omega
    rw [← List.append_assoc,← front,List.take_left]

theorem memcpyBeyond (beyond : destination.length < offset + count) : memcpy destination offset source count = none :=
  if_neg fun inside => absurd inside.2.2.1 (Int.not_le.mpr beyond)

end Copies

theorem sameBuffer {b b' : Buffer} (bytes : b.bytes = b'.bytes) (size : b.size = b'.size) : b = b' := by
  cases b
  cases b'
  cases bytes
  cases size
  rfl

inductive Refines (d : DestBuff) : Merge → Copied → Prop where
  | returned {result : Bool} {b : Buffer} {d' : DestBuff} (valid : d'.Valid) (same : b = valid.buffer)
    (untouched : result = false → d' = d) : Refines d (.returned result b) (.returned result d')
  | endless : Refines d .endless .endless
  | overrun : Refines d .overrun .overrun

section Refine
variable {newChar : Int → Option Bytes} {d : DestBuff} {chunk : Bytes}

theorem DestBuff.Valid.appended (valid : d.Valid) (room : chunk.length + d.nDestBuffLength ≤ d.nDestBuffSize) :
    ∃ p, memcpy d.pDestBuff d.nDestBuffLength chunk chunk.length = some p ∧
      ∃ valid' : DestBuff.Valid ⟨p,chunk.length + d.nDestBuffLength,d.nDestBuffSize⟩,
        valid'.buffer.bytes = valid.buffer.bytes ++ chunk := by
  have block := valid.block
  have stored := valid.stored
  obtain ⟨p,copied,same,front⟩ := memcpyTakes d.pDestBuff chunk stored (Int.natCast_nonneg chunk.length) (by omega)
    (Int.le_refl _)
  rw [Int.toNat_natCast,List.take_length,Int.add_comm] at front
  exact ⟨p,copied,⟨by rw [same,block],valid.isInt,Int.add_nonneg (Int.natCast_nonneg _) stored,room⟩,front⟩

theorem DestBuff.Valid.moved (valid : d.Valid) {pTemp : Bytes} {n : Int} (length : (pTemp.length : Int) = n)
    (isInt : n < 2147483648) (room : chunk.length + d.nDestBuffLength ≤ n) :
    ∃ q, ((memcpy pTemp 0 d.pDestBuff d.nDestBuffLength).bind fun pTemp =>
        memcpy pTemp d.nDestBuffLength chunk chunk.length) = some q ∧
      ∃ valid' : DestBuff.Valid ⟨q,chunk.length + d.nDestBuffLength,n⟩,
        valid'.buffer.bytes = valid.buffer.bytes ++ chunk := by
  have block := valid.block
  have stored := valid.stored
  have within := valid.within
  obtain ⟨p,copied,same,front⟩ := memcpyTakes pTemp d.pDestBuff (Int.le_refl 0) stored (by omega) (by omega)
  rw [Int.zero_add,Int.toNat_zero,List.take_zero,List.nil_append] at front
  have held : d.nDestBuffLength ≤ n := by omega
  have between : DestBuff.Valid ⟨p,d.nDestBuffLength,n⟩ := ⟨by rw [same,length],isInt,stored,held⟩
  obtain ⟨q,appended,valid',bytes⟩ := between.appended room
  refine ⟨q,by rw [copied,Option.bind_some,appended],valid',bytes.trans ?_⟩
  exact congrArg (· ++ chunk) front

theorem copiesRefine (allocated : ∀ n p, newChar n = some p → (p.length : Int) = n) (valid : d.Valid)
    (isInt : chunk.length < 2147483648) : Refines d (memMerge (fun n => (newChar n).isSome) valid.buffer chunk)
      (memMergeCopies newChar d chunk chunk.length) := by
  have block := valid.block
  have small := valid.isInt
  have stored := valid.stored
  have within := valid.within
  have bytes := valid.storedLength
  have size : (valid.buffer.size : Int) = d.nDestBuffSize := Int.toNat_of_nonneg (by omega)
  have len : int (chunk.length : Int) = chunk.length := intFits (by omega) (by omega)
  have total : (valid.buffer.bytes ++ chunk).length = valid.buffer.bytes.length + chunk.length := List.length_append
  have asked : (valid.buffer.size = 0 ∨ (chunk.length : Int) = 0) ↔ (d.nDestBuffSize = 0 ∨ (chunk.length : Int) = 0) := by
    omega
  simp only [memMerge,memMergeCopies,len,bytes,size]
  by_cases none : d.nDestBuffSize = 0 ∨ (chunk.length : Int) = 0
  · rw [if_pos (asked.mpr none),if_pos none]
    exact .returned valid rfl fun _ => rfl
  · rw [if_neg fun some => none (asked.mp some),if_neg none]
    by_cases holds : int (chunk.length + d.nDestBuffLength) ≤ d.nDestBuffSize
    · rw [if_pos holds,if_pos holds]
      by_cases room : (chunk.length : Int) + d.nDestBuffLength ≤ d.nDestBuffSize
      · have sum : int (chunk.length + d.nDestBuffLength) = chunk.length + d.nDestBuffLength :=
          intFits (by omega) (by omega)
        obtain ⟨p,copied,valid',front⟩ := valid.appended room
        rw [dif_pos (by omega),copied,sum]
        exact .returned valid' (sameBuffer front.symm rfl) fun no => by cases no
      · rw [dif_neg (by omega),memcpyBeyond (by omega)]
        exact .overrun
    · have sum : int (chunk.length + d.nDestBuffLength) = chunk.length + d.nDestBuffLength := by
        refine intFits (by omega) (Int.not_le.mp fun beyond => holds ?_)
        unfold int MachineInt.signed
        rw [Int.bmod_def]
        split <;> omega
      rw [if_neg holds,if_neg holds,sum]
      cases ends : growLoop 33 d.nDestBuffSize (chunk.length + d.nDestBuffLength) with
      | none => exact .endless
      | some nNewBufferSize =>
        obtain ⟨k,-,power,enough,-⟩ := (growLoopFrom (intFits (by omega) small)).mp ends
        have top : nNewBufferSize < 2147483648 := by
          rw [power]
          have high : 2 * int (d.nDestBuffSize * 2 ^ k) < (2 ^ 32 : Nat) := MachineInt.signedHigh (by decide) _
          omega
        cases memory : newChar nNewBufferSize with
        | none =>
          simp only [memory]
          exact .returned valid rfl fun _ => rfl
        | some pTemp =>
          obtain ⟨q,copied,valid',front⟩ := valid.moved (allocated _ _ memory) top enough
          simp only [memory,Option.isSome_some,if_true,copied]
          rw [dif_pos (by omega)]
          exact .returned valid' (sameBuffer front.symm rfl) fun no => by cases no

structure Merged (d : DestBuff) (chunk : Bytes) (d' : DestBuff) : Prop where
  content : d'.pDestBuff.take (d.nDestBuffLength + chunk.length).toNat = d.pDestBuff.take d.nDestBuffLength.toNat ++ chunk
  nDestBuffLength : d'.nDestBuffLength = d.nDestBuffLength + chunk.length
  kept : d.nDestBuffLength + chunk.length ≤ d.nDestBuffSize → d'.nDestBuffSize = d.nDestBuffSize
  grown : d.nDestBuffSize < d.nDestBuffLength + chunk.length → ∃ k, d'.nDestBuffSize = d.nDestBuffSize * 2 ^ k ∧
    d.nDestBuffLength + chunk.length ≤ d.nDestBuffSize * 2 ^ k ∧
    ∀ j < k, d.nDestBuffSize * 2 ^ j < d.nDestBuffLength + chunk.length

theorem memMergeCopied (allocated : ∀ n p, newChar n = some p → (p.length : Int) = n) (valid : d.Valid)
    (positive : 0 < d.nDestBuffSize) (some : chunk ≠ []) (room : d.nDestBuffLength + chunk.length ≤ 1073741824) :
    ∃ result d', memMergeCopies newChar d chunk chunk.length = .returned result d' ∧ d'.Valid ∧
      (result = true → Merged d chunk d') ∧ (result = false → d' = d) := by
  have stored := valid.stored
  have bytes := valid.storedLength
  have size : (valid.buffer.size : Int) = d.nDestBuffSize := Int.toNat_of_nonneg (by omega)
  have refined : Refines d _ (memMergeCopies newChar d chunk chunk.length) := copiesRefine allocated valid (by omega)
  obtain ⟨k,enough,first,merged⟩ := memMergeMerges (fun n => (newChar n).isSome) (b := valid.buffer) (by omega) some
    (by omega)
  have doubled (j : Nat) : ((valid.buffer.size * 2 ^ j : Nat) : Int) = d.nDestBuffSize * 2 ^ j := by
    rw [Int.natCast_mul,size,Int.natCast_pow]
    rfl
  generalize memMergeCopies newChar d chunk chunk.length = outcome at refined ⊢
  split at merged
  · obtain ⟨b',returned,size',bytes'⟩ := merged
    rw [returned] at refined
    cases refined with
    | @returned _ _ d' valid' same untouched =>
      subst same
      have size'' : (valid'.buffer.size : Int) = d'.nDestBuffSize := by
        have stored' := valid'.stored
        have within' := valid'.within
        exact Int.toNat_of_nonneg (by omega)
      have least : d'.nDestBuffSize = d.nDestBuffSize * 2 ^ k := by rw [← size'',size',doubled]
      have length : d'.nDestBuffLength = d.nDestBuffLength + chunk.length := by
        rw [← valid'.storedLength,bytes',List.length_append,← bytes]
        rfl
      refine ⟨true,d',rfl,valid',fun _ => ⟨?_,length,fun fits => ?_,fun beyond => ⟨k,least,?_,fun j below => ?_⟩⟩,untouched⟩
      · rw [← length]
        exact bytes'
      · match k with
        | 0 => rw [least,Int.pow_zero,Int.mul_one]
        | k + 1 =>
          have short := first 0 (Nat.succ_pos k)
          rw [Nat.pow_zero,Nat.mul_one] at short
          omega
      · have enough := doubled k
        omega
      · have short := first j below
        have same := doubled j
        omega
  · rw [merged] at refined
    cases refined with
    | returned valid' same untouched => exact ⟨false,_,rfl,valid',(fun no => by cases no),untouched⟩

end Refine

-- A debug build fills a new block with 0xCD.
def debugNew (n : Int) : Option Bytes := if 0 ≤ n then some (List.replicate n.toNat 0xCD) else none

theorem debugNewSize (n : Int) (p : Bytes) (new : debugNew n = some p) : (p.length : Int) = n := by
  unfold debugNew at new
  split at new
  · cases new
    rw [List.length_replicate]
    exact Int.toNat_of_nonneg ‹_›
  · cases new

def fourOctets : DestBuff := ⟨[1,2,0,0],2,4⟩

example : memMergeCopies debugNew fourOctets [3,4,5] 3 = .returned true ⟨[1,2,3,4,5,0xCD,0xCD,0xCD],5,8⟩ := by decide

theorem memMergeCopiedShort : ∃ result d',
    memMergeCopies debugNew fourOctets [3,4,5] ([3,4,5] : Bytes).length = .returned result d' ∧ d'.Valid ∧
      (result = true → Merged fourOctets [3,4,5] d') ∧ (result = false → d' = fourOctets) :=
  memMergeCopied debugNewSize ⟨rfl,by decide,by decide,by decide⟩ (by decide) (by decide) (by decide)

end JokeDse
