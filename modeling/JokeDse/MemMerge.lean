import JokeDse.Basic
import Mathlib.Data.Nat.Find

/-! The receive buffer and the function that appends to it (MemMerge of Utility.cpp). Its growth loop
doubles an `int`, so it may never end; `growLoop` then runs out of any fuel. -/
namespace JokeDse

structure Buffer where
  bytes : Bytes
  size : Nat
  fits : bytes.length ≤ size
  isInt : size < 2147483648

inductive Merge where
  | returned (result : Bool) (buffer : Buffer)
  | endless
  | overrun

def growLoop : (fuel : Nat) → (nNewBufferSize nNewBufferLength : Int) → Option Int
  | 0, _, _ => none
  | fuel + 1, nNewBufferSize, nNewBufferLength =>
    if nNewBufferSize < nNewBufferLength then growLoop fuel (int (nNewBufferSize * 2)) nNewBufferLength
    else some nNewBufferSize

/-- `allocates` says whether `new char[n]` yields memory. A copy that would leave the block is an
overrun; otherwise the new block holds the old octets and then the added ones. -/
def memMerge (allocates : Int → Bool) (b : Buffer) (szTempBuff : Bytes) : Merge :=
  let nTempLen := int szTempBuff.length
  if b.size = 0 ∨ nTempLen = 0 then .returned false b
  else
    let nNewBufferLength := int (nTempLen + b.bytes.length)
    if nNewBufferLength ≤ b.size then
      if fits : (b.bytes ++ szTempBuff).length ≤ b.size then
        .returned true ⟨b.bytes ++ szTempBuff,b.size,fits,b.isInt⟩
      else .overrun
    else
      -- after 32 doublings the size is zero and stays zero, so more fuel changes nothing
      match growLoop 33 b.size nNewBufferLength with
      | none => .endless
      | some nNewBufferSize =>
        if allocates nNewBufferSize then
          if fits : (b.bytes ++ szTempBuff).length ≤ nNewBufferSize.toNat ∧
              nNewBufferSize.toNat < 2147483648 then
            .returned true ⟨b.bytes ++ szTempBuff,nNewBufferSize.toNat,fits.1,fits.2⟩
          else .overrun
        else .returned false b

theorem intTwice (x : Int) : int (int x * 2) = int (x * 2) := by
  unfold int MachineInt.signed
  exact Int.bmod_mul_bmod

theorem growLoopFinds {x n c : Int} {fuel : Nat} : growLoop fuel (int x) n = some c ↔
    ∃ k < fuel, c = int (x * 2 ^ k) ∧ n ≤ c ∧ ∀ j < k, int (x * 2 ^ j) < n := by
  induction fuel generalizing x with
  | zero => simp [growLoop]
  | succ fuel ih =>
    have later (j : Nat) : x * 2 * 2 ^ j = x * 2 ^ (j + 1) := by rw [Int.pow_succ,Int.mul_assoc,Int.mul_comm 2]
    rw [growLoop]
    split
    · rename_i short
      rw [intTwice,ih]
      constructor
      · rintro ⟨k,within,rfl,enough,first⟩
        refine ⟨k + 1,Nat.succ_lt_succ within,by rw [later],enough,fun j below => ?_⟩
        match j with
        | 0 => simpa using short
        | j + 1 => simpa only [later] using first j (Nat.lt_of_succ_lt_succ below)
      · rintro ⟨k,within,rfl,enough,first⟩
        match k with
        | 0 => exact absurd enough (by simpa using short)
        | k + 1 =>
          refine ⟨k,Nat.lt_of_succ_lt_succ within,by rw [later],enough,fun j below => ?_⟩
          rw [later]
          exact first (j + 1) (Nat.succ_lt_succ below)
    · rename_i enough
      constructor
      · rintro ⟨⟩
        exact ⟨0,Nat.succ_pos fuel,by simp,Int.not_lt.mp enough,fun j below => absurd below (Nat.not_lt_zero j)⟩
      · rintro ⟨k,-,rfl,-,first⟩
        match k with
        | 0 => simp
        | k + 1 => exact absurd (by simpa using first 0 (Nat.succ_pos k)) enough

theorem growLoopFrom {x n c : Int} {fuel : Nat} (isInt : int x = x) : growLoop fuel x n = some c ↔
    ∃ k < fuel, c = int (x * 2 ^ k) ∧ n ≤ c ∧ ∀ j < k, int (x * 2 ^ j) < n := by
  rw [← growLoopFinds,isInt]

theorem doubledOut {x : Int} {k : Nat} (beyond : 32 ≤ k) : int (x * 2 ^ k) = 0 := by
  obtain ⟨more,rfl⟩ := Nat.exists_eq_add_of_le beyond
  rw [Int.pow_add,Int.mul_left_comm,int,MachineInt.signed]
  exact Int.bmod_eq_zero_of_dvd ⟨_,rfl⟩

theorem powerBound (k : Nat) : int (2 ^ k) ≤ 1073741824 := by
  rcases Nat.lt_or_ge k 31 with low | high
  · have bound : (2 : Int) ^ k ≤ 2 ^ 30 := pow_le_pow_right₀ (by decide) (by omega)
    have positive : (0 : Int) < 2 ^ k := Int.pow_pos (by decide)
    rw [intFits (by omega) (by omega)]
    exact bound
  · rcases Nat.eq_or_lt_of_le high with rfl | beyond
    · decide
    · have zero := doubledOut (x := 1) beyond
      rw [Int.one_mul] at zero
      rw [zero]
      decide

theorem growLoopLeast {x n : Int} (positive : 0 < x) (isInt : x < 2147483648) (enough : n ≤ 1073741824) {fuel : Nat}
    (fuelled : 30 < fuel) :
    ∃ k, growLoop fuel x n = some (x * 2 ^ k) ∧ n ≤ x * 2 ^ k ∧ x * 2 ^ k < 2147483648 ∧ ∀ j < k, x * 2 ^ j < n := by
  have reached : ∃ k, n ≤ x * 2 ^ k := ⟨30,by omega⟩
  have least : ∀ {j}, j < Nat.find reached → x * 2 ^ j < n := fun below => Int.not_le.mp (Nat.find_min reached below)
  have few : Nat.find reached ≤ 30 := Nat.find_min' reached (by omega)
  have fits : ∀ j ≤ Nat.find reached, 0 < x * 2 ^ j ∧ x * 2 ^ j < 2147483648 := by
    intro j within
    have power : (0 : Int) < 2 ^ j := Int.pow_pos (by decide)
    refine ⟨Int.mul_pos positive power,?_⟩
    match j with
    | 0 => simpa using isInt
    | j + 1 =>
      have before := least (Nat.lt_of_succ_le within)
      rw [Int.pow_succ,← Int.mul_assoc]
      omega
  have same : ∀ j ≤ Nat.find reached, int (x * 2 ^ j) = x * 2 ^ j := fun j within =>
    intFits (by have := (fits j within).1; omega) (fits j within).2
  refine ⟨Nat.find reached,?_,Nat.find_spec reached,(fits _ (Nat.le_refl _)).2,fun j => least⟩
  refine (growLoopFrom (intFits (by omega) isInt)).mpr
    ⟨Nat.find reached,by omega,(same _ (Nat.le_refl _)).symm,Nat.find_spec reached,fun j below => ?_⟩
  rw [same j (Nat.le_of_lt below)]
  exact least below

theorem growthEnds {nDestBuffSize nDestBuffLength nTempLen : Int} (positive : 0 < nDestBuffSize)
    (isInt : nDestBuffSize < 2147483648) (stored : 0 ≤ nDestBuffLength) (within : nDestBuffLength ≤ nDestBuffSize)
    (chunk : 0 < nTempLen) (room : nTempLen + nDestBuffLength < 2147483648) :
    (∃ fuel nNewBufferSize, growLoop fuel nDestBuffSize (int (nTempLen + nDestBuffLength)) = some nNewBufferSize ∧
      nTempLen + nDestBuffLength ≤ nNewBufferSize) ↔
    ∃ k < 32, nTempLen + nDestBuffLength ≤ int (nDestBuffSize * 2 ^ k) := by
  have sum : int (nTempLen + nDestBuffLength) = nTempLen + nDestBuffLength := intFits (by omega) room
  have start : int nDestBuffSize = nDestBuffSize := intFits (by omega) isInt
  rw [sum]
  constructor
  · rintro ⟨fuel,nNewBufferSize,ends,enough⟩
    obtain ⟨k,-,rfl,-,-⟩ := (growLoopFrom start).mp ends
    refine ⟨k,Nat.lt_of_not_le fun beyond => ?_,enough⟩
    rw [doubledOut beyond] at enough
    omega
  · rintro ⟨k,-,enough⟩
    have reached : ∃ k, nTempLen + nDestBuffLength ≤ int (nDestBuffSize * 2 ^ k) := ⟨k,enough⟩
    refine ⟨Nat.find reached + 1,int (nDestBuffSize * 2 ^ Nat.find reached),?_,Nat.find_spec reached⟩
    exact (growLoopFrom start).mpr
      ⟨_,Nat.lt_succ_self _,rfl,Nat.find_spec reached,fun j below => Int.not_le.mp (Nat.find_min reached below)⟩

theorem growthEndsShort :
    (∃ fuel nNewBufferSize, growLoop fuel 131072 (int (8192 + 131000)) = some nNewBufferSize ∧
      8192 + 131000 ≤ nNewBufferSize) ↔
    ∃ k < 32, 8192 + 131000 ≤ int (131072 * 2 ^ k) :=
  growthEnds (by decide) (by decide) (by decide) (by decide) (by decide) (by decide)

theorem growthStalls : ¬ ∃ fuel nNewBufferSize,
    growLoop fuel 1073741824 (int (1 + 1073741824)) = some nNewBufferSize ∧ 1 + 1073741824 ≤ nNewBufferSize := by
  rintro ⟨fuel,nNewBufferSize,ends,enough⟩
  obtain ⟨k,-,size,-,-⟩ := (growLoopFrom (by decide)).mp ends
  have power : (1073741824 : Int) * 2 ^ k = 2 ^ (30 + k) := (Int.pow_add 2 30 k).symm
  have bounded := powerBound (30 + k)
  rw [← power,← size] at bounded
  omega

def Buffer.Doubled (b : Buffer) : Prop := ∃ k, 17 ≤ k ∧ k ≤ 30 ∧ b.size = 2 ^ k

theorem Buffer.Doubled.bound {b : Buffer} (doubled : b.Doubled) : b.bytes.length ≤ 1073741824 := by
  obtain ⟨k,_,high,size⟩ := doubled
  have bound : 2 ^ k ≤ 2 ^ 30 := Nat.pow_le_pow_right (by omega) high
  have fits := b.fits
  omega

theorem memMergeMerges (allocates : Int → Bool) {b : Buffer} (positive : 0 < b.size) {chunk : Bytes} (some : chunk ≠ [])
    (room : b.bytes.length + chunk.length ≤ 1073741824) :
    ∃ k, b.bytes.length + chunk.length ≤ b.size * 2 ^ k ∧ (∀ j < k, b.size * 2 ^ j < b.bytes.length + chunk.length) ∧
      if k = 0 ∨ allocates (b.size * 2 ^ k : Nat) = true then
        ∃ b', memMerge allocates b chunk = .returned true b' ∧ b'.size = b.size * 2 ^ k ∧ b'.bytes = b.bytes ++ chunk
      else memMerge allocates b chunk = .returned false b := by
  have isInt := b.isInt
  have few : 0 < chunk.length := List.length_pos_iff.mpr some
  have len : int (chunk.length : Int) = chunk.length := intFits (by omega) (by omega)
  have sum : int ((chunk.length : Int) + b.bytes.length) = chunk.length + b.bytes.length :=
    intFits (by omega) (by omega)
  have total : (b.bytes ++ chunk).length = b.bytes.length + chunk.length := List.length_append
  have asked : ¬ (b.size = 0 ∨ int (chunk.length : Int) = 0) := by rw [len]; omega
  by_cases within : b.bytes.length + chunk.length ≤ b.size
  · refine ⟨0,by simpa using within,fun j below => absurd below (Nat.not_lt_zero j),?_⟩
    rw [if_pos (.inl rfl)]
    refine ⟨⟨b.bytes ++ chunk,b.size,by omega,b.isInt⟩,?_,by simp,rfl⟩
    simp only [memMerge]
    rw [if_neg asked,len,sum,if_pos (by omega),dif_pos (by omega)]
  · have fuelled : 30 < 33 := by decide
    obtain ⟨k,reached,enough,small,first⟩ := growLoopLeast (x := b.size) (n := chunk.length + b.bytes.length)
      (by omega) (by omega) (by omega) fuelled
    have size : (b.size : Int) * 2 ^ k = (b.size * 2 ^ k : Nat) := by push_cast; rfl
    rw [size] at reached enough small
    have grown : 0 < k := by
      refine Nat.pos_of_ne_zero fun zero => ?_
      rw [zero,Nat.pow_zero,Nat.mul_one] at enough
      omega
    refine ⟨k,by omega,fun j below => ?_,?_⟩
    · have short := first j below
      have same : (b.size : Int) * 2 ^ j = (b.size * 2 ^ j : Nat) := by push_cast; rfl
      omega
    · have merged : memMerge allocates b chunk = if allocates (b.size * 2 ^ k : Nat) then
          .returned true ⟨b.bytes ++ chunk,b.size * 2 ^ k,by omega,by omega⟩ else .returned false b := by
        simp only [memMerge]
        rw [if_neg asked,len,sum,if_neg (by omega),reached]
        simp only [Int.toNat_natCast]
        split
        · rw [dif_pos ⟨by omega,by omega⟩]
        · rfl
      cases memory : allocates (b.size * 2 ^ k : Nat) with
      | true =>
        rw [merged,memory,if_pos (.inr rfl)]
        exact ⟨_,rfl,rfl,rfl⟩
      | false =>
        rw [merged,memory,if_neg (by simpa using Nat.ne_of_gt grown)]
        rfl

theorem memMergeGrows {b : Buffer} {k : Nat} (high : k ≤ 30) (size : b.size = 2 ^ k) {chunk : Bytes}
    (room : b.bytes.length + chunk.length ≤ 1073741824) :
    ∃ result b' j, memMerge (fun _ => true) b chunk = .returned result b' ∧ k ≤ j ∧ j ≤ 30 ∧ b'.size = 2 ^ j ∧
      b'.bytes = b.bytes ++ chunk := by
  have positive : 0 < b.size := size ▸ Nat.two_pow_pos k
  by_cases empty : chunk = []
  · refine ⟨false,b,k,?_,Nat.le_refl k,high,size,by rw [empty,List.append_nil]⟩
    have none : int (chunk.length : Int) = 0 := by rw [empty]; rfl
    simp only [memMerge]
    rw [if_pos (Or.inr none)]
  · obtain ⟨j,-,first,merged⟩ := memMergeMerges (fun _ => true) positive empty room
    rw [if_pos (.inr rfl)] at merged
    obtain ⟨b',merged,size',bytes⟩ := merged
    have top : k + j ≤ 30 := by
      refine Nat.le_of_not_lt fun beyond => ?_
      have short := first (30 - k) (by omega)
      rw [size,← Nat.pow_add,Nat.add_sub_cancel' high] at short
      omega
    exact ⟨true,b',k + j,merged,Nat.le_add_right k j,top,by rw [size',size,Nat.pow_add],bytes⟩

theorem memMergeAppends {b : Buffer} (doubled : b.Doubled) {chunk : Bytes}
    (room : b.bytes.length + chunk.length ≤ 1073741824) :
    ∃ result b', memMerge (fun _ => true) b chunk = .returned result b' ∧ b'.Doubled ∧
      b'.bytes = b.bytes ++ chunk := by
  obtain ⟨k,low,high,size⟩ := doubled
  obtain ⟨result,b',j,merged,above,top,size',bytes⟩ := memMergeGrows high size room
  exact ⟨result,b',merged,⟨j,by omega,top,size'⟩,bytes⟩

theorem memMergeHangs {b : Buffer} {k : Nat} (high : k ≤ 30) (size : b.size = 2 ^ k) {chunk : Bytes}
    (short : chunk.length ≤ 8192) (full : 1073741824 < b.bytes.length + chunk.length) :
    memMerge (fun _ => true) b chunk = .endless ∧
    ∀ fuel, growLoop fuel b.size (chunk.length + b.bytes.length) = none := by
  have fits := b.fits
  have bound : 2 ^ k ≤ 2 ^ 30 := Nat.pow_le_pow_right (by omega) high
  have positive : 0 < 2 ^ k := Nat.two_pow_pos k
  have never : ∀ fuel, growLoop fuel b.size (chunk.length + b.bytes.length) = none := by
    intro fuel
    refine Option.eq_none_iff_forall_ne_some.mpr fun c ends => ?_
    obtain ⟨j,-,size',enough,-⟩ := (growLoopFrom (intFits (by omega) (by omega))).mp ends
    have power : (b.size : Int) * 2 ^ j = 2 ^ (k + j) := by
      rw [size,Int.pow_add,Int.natCast_pow]
      rfl
    have bounded := powerBound (k + j)
    rw [← power,← size'] at bounded
    omega
  refine ⟨?_,never⟩
  have len : int (chunk.length : Int) = chunk.length := intFits (by omega) (by omega)
  have sum : int ((chunk.length : Int) + b.bytes.length) = chunk.length + b.bytes.length :=
    intFits (by omega) (by omega)
  simp only [memMerge]
  rw [len,if_neg (by omega),sum,if_neg (by omega),never]

theorem memMergeEndless {b : Buffer} (doubled : b.Doubled) {chunk : Bytes} (short : chunk.length ≤ 8192)
    (full : 1073741824 < b.bytes.length + chunk.length) :
    memMerge (fun _ => true) b chunk = .endless ∧
    ∀ fuel, growLoop fuel b.size (chunk.length + b.bytes.length) = none := by
  obtain ⟨k,_,high,size⟩ := doubled
  exact memMergeHangs high size short full

end JokeDse
