import JokeDse.Basic
import JokeDse.Lib.Kmp
import JokeDse.Lib.Slots

/-! Utility: KMP_StrFind and its table GetNext. Buffers are their readable cells. -/
namespace JokeDse
open Slots (store)
open Kmp (fail fallbacks)

def cell {α : Type} (memory : List α) (i : Int) : Except Stop α :=
  if i < 0 then .error .accessViolation
  else match memory[i.toNat]? with
    | some x => .ok x
    | none => .error .accessViolation

def setCell {α : Type} (i : Nat) (x : α) (memory : List α) : Except Stop (List α) :=
  match store i x memory with
  | some memory => .ok memory
  | none => .error .accessViolation

def lengthOf (memory : Bytes) (nLength : Int) : Except Stop Int :=
  if nLength ≤ 0 then
    if 0 ∈ memory then .ok (strlen memory) else .error .accessViolation
  else .ok nLength

/-- The condition both loops go on with: `j == -1 || a[i] == b[j]`. -/
def goesOn (a : Bytes) (i : Nat) (b : Bytes) (j : Int) : Except Stop Bool :=
  if j = -1 then .ok true else do return (← cell a i) == (← cell b j)

def getNextLoop (szKey : Bytes) (nKeyLength nNextLength : Int) :
    Nat → Nat → Int → List Int → Except Stop (Bool × List Int)
  | 0, _, _, _ => .error .endless
  | fuel + 1, i, j, pNext =>
    if i < nKeyLength then do
      if ← goesOn szKey i szKey j then
        if (← cell szKey (i + 1 : Nat)) ≠ (← cell szKey (j + 1)) then
          if (i + 1 : Nat) < nNextLength then
            let pNext ← setCell (i + 1) (j + 1) pNext
            getNextLoop szKey nKeyLength nNextLength fuel (i + 1) (j + 1) pNext
          else return (false,pNext)
        else
          if (i + 1 : Nat) < nNextLength then
            let pNext ← setCell (i + 1) (← cell pNext (j + 1)) pNext
            getNextLoop szKey nKeyLength nNextLength fuel (i + 1) (j + 1) pNext
          else return (false,pNext)
      else getNextLoop szKey nKeyLength nNextLength fuel i (← cell pNext j) pNext
    else return (true,pNext)

def getNext (szKey : Bytes) (nKeyLength : Int) (pNext : List Int) (nNextLength : Int) :
    Except Stop (Bool × List Int) := do
  let pNext ← setCell 0 (-1) pNext
  let nKeyLength ← lengthOf szKey nKeyLength
  getNextLoop szKey nKeyLength nNextLength (2 * nKeyLength.toNat + 1) 0 (-1) pNext

def kmpLoop (szSource : Bytes) (nSourceLength : Int) (szKey : Bytes) (nKeyLength : Int) (next : List Int) :
    Nat → Nat → Int → Except Stop (Nat × Int)
  | 0, _, _ => .error .endless
  | fuel + 1, i, j =>
    if i < nSourceLength ∧ j < nKeyLength then do
      if ← goesOn szSource i szKey j then kmpLoop szSource nSourceLength szKey nKeyLength next fuel (i + 1) (j + 1)
      else kmpLoop szSource nSourceLength szKey nKeyLength next fuel i (← cell next j)
    else return (i,j)

def kmpStrFind (szSource : Bytes) (nSourceLength : Int) (szKey : Bytes) (nKeyLength : Int) : Except Stop Int := do
  let nSourceLength ← lengthOf szSource nSourceLength
  let nKeyLength ← lengthOf szKey nKeyLength
  let (filled,next) ← getNext szSource nKeyLength (List.replicate 1024 0) 1024
  if filled then
    let (i,j) ← kmpLoop szSource nSourceLength szKey nKeyLength next (2 * nSourceLength.toNat + 2) 0 0
    if j = nKeyLength then return i - nKeyLength else return -1
  else return -1

theorem cellNat {α : Type} (memory : List α) (i : Nat) : cell memory (i : Int) =
    match memory[i]? with
    | some x => .ok x
    | none => .error .accessViolation := by
  rw [cell,if_neg (by omega),Int.toNat_natCast]

theorem cellRead {α : Type} {memory : List α} {i : Nat} {x : α} (here : memory[i]? = some x) :
    cell memory (i : Int) = .ok x := by
  rw [cellNat,here]

theorem cellOutside {α : Type} {memory : List α} {i : Nat} (outside : memory.length ≤ i) :
    cell memory (i : Int) = .error .accessViolation := by
  rw [cellNat,List.getElem?_eq_none outside]

theorem goesOnRead {a b : Bytes} {i : Nat} {j : Int} (low : -1 ≤ j) (inA : i < a.length) (inB : j < b.length) :
    goesOn a i b j = .ok (decide (j = -1 ∨ a[i]? = b[j.toNat]?)) := by
  unfold goesOn
  split
  · rename_i front
    simp [front]
  · rename_i notFront
    obtain ⟨n,rfl⟩ := Int.eq_ofNat_of_zero_le (show 0 ≤ j by omega)
    have inB' : n < b.length := by omega
    rw [cellRead (List.getElem?_eq_getElem inA),cellRead (List.getElem?_eq_getElem inB'),Int.toNat_natCast,
      List.getElem?_eq_getElem inA,List.getElem?_eq_getElem inB']
    simp only [bind,Except.bind,pure,Except.pure,Option.some_inj,notFront,false_or]
    exact congrArg Except.ok rfl

section Table
variable {szKey : Bytes} {pNext : List Int} {i m : Nat} {j : Int}

def Failures (szKey : Bytes) (pNext : List Int) (i : Nat) : Prop := ∀ k ≤ i, pNext[k]? = some (fail szKey k)

theorem failuresNext (filled : Failures szKey pNext i) (room : i + 1 < pNext.length) :
    Failures szKey (pNext.set (i + 1) (fail szKey (i + 1))) (i + 1) := by
  intro k below
  rcases Nat.eq_or_lt_of_le below with rfl | earlier
  · rw [List.getElem?_set_self room]
  · rw [List.getElem?_set_ne (by omega)]
    exact filled k (by omega)

theorem getNextLoopGoes {fuel : Nat} {nNextLength : Int} (built : Kmp.Building szKey i j) (inside : i < m)
    (short : m < nNextLength) (room : m < pNext.length) (filled : Failures szKey pNext i) (readable : i + 1 < szKey.length)
    (goes : j = -1 ∨ szKey[i]? = szKey[j.toNat]?) :
    getNextLoop szKey m nNextLength (fuel + 1) i j pNext =
      getNextLoop szKey m nNextLength fuel (i + 1) (j + 1) (pNext.set (i + 1) (fail szKey (i + 1))) := by
  have bounds := built.bounds
  obtain ⟨n,next⟩ := Int.eq_ofNat_of_zero_le (show 0 ≤ j + 1 by omega)
  have entry := Kmp.buildingEntry (n := n) (next ▸ Kmp.buildingGoes built readable goes)
    (fun k below border => by have := Kmp.buildingLongest built below border; omega)
  have before : n < szKey.length := by omega
  have readN : szKey[n]? = some szKey[n] := List.getElem?_eq_getElem before
  have readI : szKey[i + 1]? = some szKey[i + 1] := List.getElem?_eq_getElem readable
  have stores : ∀ x, setCell (i + 1) x pNext = .ok (pNext.set (i + 1) x) := fun x => by
    rw [setCell,store,if_pos (by omega)]
  rw [readI,readN] at entry
  rw [getNextLoop,if_pos (by omega),goesOnRead bounds.1 (by omega) (by omega),decide_eq_true goes,next]
  simp only [bind,Except.bind,if_true,cellRead readI,cellRead readN,stores,cellRead (filled n (by omega))]
  have fits : ((i + 1 : Nat) : Int) < nNextLength := by omega
  rw [if_pos fits,if_pos fits]
  split
  · rename_i differ
    rw [if_pos (fun same => differ (Option.some.inj same))] at entry
    rw [← entry]
  · rename_i same
    rw [if_neg (fun differ => same fun equal => differ (congrArg some equal))] at entry
    rw [← entry]

theorem getNextLoopFalls {fuel : Nat} {nNextLength : Int} (built : Kmp.Building szKey i j) (inside : i < m)
    (filled : Failures szKey pNext i) (readable : i < szKey.length) (stops : ¬ (j = -1 ∨ szKey[i]? = szKey[j.toNat]?)) :
    getNextLoop szKey m nNextLength (fuel + 1) i j pNext =
      getNextLoop szKey m nNextLength fuel i (fail szKey j.toNat) pNext := by
  have bounds := built.bounds
  obtain ⟨n,rfl⟩ := Int.eq_ofNat_of_zero_le (show 0 ≤ j by omega)
  rw [getNextLoop,if_pos (by omega),goesOnRead bounds.1 readable (by omega),decide_eq_false stops,Int.toNat_natCast]
  simp only [bind,Except.bind,Bool.false_eq_true,if_false,cellRead (filled n (by omega))]

theorem getNextLoopLeaves {fuel : Nat} {nNextLength : Int} (built : Kmp.Building szKey i j) (inside : i < m)
    (last : i + 1 = szKey.length) (goes : j = -1 ∨ szKey[i]? = szKey[j.toNat]?) :
    getNextLoop szKey m nNextLength (fuel + 1) i j pNext = .error .accessViolation := by
  have bounds := built.bounds
  rw [getNextLoop,if_pos (by omega),goesOnRead bounds.1 (by omega) (by omega),decide_eq_true goes]
  simp only [bind,Except.bind,if_true,cellOutside (Nat.le_of_eq last.symm)]

theorem getNextLoopFills {fuel : Nat} {nNextLength : Int} (built : Kmp.Building szKey i j) (inside : i ≤ m)
    (short : m < nNextLength) (room : m < pNext.length) (filled : Failures szKey pNext i) (readable : i < szKey.length)
    (enough : 2 * ((m : Int) - i) + j + 1 < fuel) :
    (m < szKey.length → ∃ next, getNextLoop szKey m nNextLength fuel i j pNext = .ok (true,next) ∧
      next.length = pNext.length ∧ Failures szKey next m) ∧
      (szKey.length ≤ m → getNextLoop szKey m nNextLength fuel i j pNext = .error .accessViolation) := by
  have bounds := built.bounds
  induction fuel generalizing i j pNext with
  | zero => omega
  | succ fuel ih =>
    rcases Nat.eq_or_lt_of_le inside with rfl | more
    · rw [getNextLoop,if_neg (Int.lt_irrefl _)]
      exact ⟨fun _ => ⟨pNext,rfl,rfl,filled⟩,fun beyond => absurd readable (by omega)⟩
    · by_cases goes : j = -1 ∨ szKey[i]? = szKey[j.toNat]?
      · rcases Nat.eq_or_lt_of_le (Nat.succ_le_of_lt readable) with last | next
        · rw [getNextLoopLeaves built more last goes]
          exact ⟨fun room => absurd room (by omega),fun _ => rfl⟩
        · rw [getNextLoopGoes built more short room filled next goes]
          have grown := Kmp.buildingGoes built next goes
          have later := ih grown more (by rwa [List.length_set]) (failuresNext filled (by omega)) next (by omega) grown.bounds
          rwa [List.length_set] at later
      · rw [getNextLoopFalls built more filled readable goes]
        have fallen := Kmp.buildingFalls built readable goes
        have shorter := Kmp.failShortens szKey szKey.length j.toNat (by omega)
        exact ih fallen inside room filled readable (by omega) fallen.bounds

theorem getNextTable {nNextLength : Int} (some : 0 < m) (readable : szKey ≠ []) (short : m < nNextLength)
    (room : m < pNext.length) :
    (m < szKey.length → ∃ next, getNext szKey m pNext nNextLength = .ok (true,next) ∧
      next.length = pNext.length ∧ Failures szKey next m) ∧
      (szKey.length ≤ m → getNext szKey m pNext nNextLength = .error .accessViolation) := by
  have first : setCell 0 (-1) pNext = .ok (pNext.set 0 (-1)) := by
    rw [setCell,store,if_pos (by omega)]
  have given : lengthOf szKey m = .ok (m : Int) := by
    rw [lengthOf,if_neg (by omega)]
  have filled : Failures szKey (pNext.set 0 (-1)) 0 := by
    intro k below
    rw [Nat.le_zero.mp below,List.getElem?_set_self (by omega)]
    rfl
  have loop := @getNextLoopFills _ _ 0 m (-1) (2 * m + 1) _ (Kmp.buildingStart szKey) (Nat.zero_le m) short
    (by rwa [List.length_set]) filled (List.length_pos_iff.mpr readable) (by omega)
  simp only [getNext,first,given,bind,Except.bind,Int.toNat_natCast]
  rwa [List.length_set] at loop

theorem bindOk {α β : Type} {x : Except Stop α} {f : α → Except Stop β} {r : β} :
    (x >>= f) = .ok r ↔ ∃ a, x = .ok a ∧ f a = .ok r := by
  cases x <;> simp [bind,Except.bind]

theorem cellInside {α : Type} {memory : List α} {k : Int} {x : α} :
    cell memory k = .ok x ↔ 0 ≤ k ∧ memory[k.toNat]? = some x := by
  unfold cell
  split
  · simp; omega
  · rename_i notBelow
    cases memory[k.toNat]? with
    | none => simp
    | some y => simp [Int.not_lt.mp notBelow]

theorem setCellInside {α : Type} {memory stored : List α} {k : Nat} {x : α} :
    setCell k x memory = .ok stored ↔ k < memory.length ∧ memory.set k x = stored := by
  unfold setCell store
  split <;> simp_all

theorem cellMore {α : Type} {memory : List α} {k : Int} {x : α} (more : List α) (read : cell memory k = .ok x) :
    cell (memory ++ more) k = .ok x := by
  obtain ⟨low,here⟩ := cellInside.mp read
  have within := (List.getElem?_eq_some_iff.mp here).1
  exact cellInside.mpr ⟨low,(List.getElem?_append_left within).trans here⟩

theorem setCellMore {α : Type} {memory stored : List α} {k : Nat} {x : α} (more : List α)
    (stores : setCell k x memory = .ok stored) : setCell k x (memory ++ more) = .ok (stored ++ more) := by
  obtain ⟨within,rfl⟩ := setCellInside.mp stores
  refine setCellInside.mpr ⟨?_,List.set_append_left _ _ within⟩
  rw [List.length_append]
  omega

theorem goesOnMore {a b : Bytes} {goes : Bool} (more more' : Bytes) (compared : goesOn a i b j = .ok goes) :
    goesOn (a ++ more) i (b ++ more') j = .ok goes := by
  unfold goesOn at compared ⊢
  split at compared
  · rename_i front
    rwa [if_pos front]
  · rename_i notFront
    obtain ⟨x,readA,compared⟩ := bindOk.mp compared
    obtain ⟨y,readB,compared⟩ := bindOk.mp compared
    rw [if_neg notFront,cellMore more readA,cellMore more' readB]
    exact compared

theorem getNextLoopMore {fuel : Nat} {nKeyLength nNextLength : Int} {filled : Bool} {next : List Int} (rest : Bytes)
    (more : List Int) (result : getNextLoop szKey nKeyLength nNextLength fuel i j pNext = .ok (filled,next)) :
    getNextLoop (szKey ++ rest) nKeyLength nNextLength fuel i j (pNext ++ more) = .ok (filled,next ++ more) := by
  induction fuel generalizing i j pNext with
  | zero => cases result
  | succ fuel ih =>
    rw [getNextLoop] at result ⊢
    split at result
    · rename_i inside
      obtain ⟨goes,compared,result⟩ := bindOk.mp result
      rw [if_pos inside,goesOnMore rest rest compared]
      cases goes with
      | true =>
        obtain ⟨a,readA,result⟩ := bindOk.mp result
        obtain ⟨b,readB,result⟩ := bindOk.mp result
        simp only [cellMore rest readA,cellMore rest readB,bind,Except.bind,if_true]
        split at result
        · rename_i differ
          rw [if_pos differ]
          split at result
          · obtain ⟨stored,stores,result⟩ := bindOk.mp result
            rw [if_pos ‹_›,setCellMore more stores]
            exact ih result
          · rw [if_neg ‹_›]
            cases result
            rfl
        · rename_i same
          rw [if_neg same]
          split at result
          · obtain ⟨entry,read,result⟩ := bindOk.mp result
            obtain ⟨stored,stores,result⟩ := bindOk.mp result
            rw [if_pos ‹_›,cellMore more read]
            simp only [setCellMore more stores]
            exact ih result
          · rw [if_neg ‹_›]
            cases result
            rfl
      | false =>
        obtain ⟨entry,read,result⟩ := bindOk.mp result
        simp only [cellMore more read,bind,Except.bind,Bool.false_eq_true,if_false]
        exact ih result
    · rename_i ended
      rw [if_neg ended]
      cases result
      rfl

theorem getNextMore {nKeyLength nNextLength : Int} {filled : Bool} {next : List Int} (rest : Bytes) (more : List Int)
    (some : 0 < nKeyLength) (result : getNext szKey nKeyLength pNext nNextLength = .ok (filled,next)) :
    getNext (szKey ++ rest) nKeyLength (pNext ++ more) nNextLength = .ok (filled,next ++ more) := by
  unfold getNext lengthOf at result ⊢
  rw [if_neg (Int.not_le.mpr some)] at result ⊢
  obtain ⟨stored,stores,result⟩ := bindOk.mp result
  rw [setCellMore more stores]
  exact getNextLoopMore rest more result

theorem getNextFills (key : Bytes) (past : Byte) (pNext : List Int) (nNextLength : Int) (some : key ≠ [])
    (short : key.length < nNextLength) (cells : pNext.length = key.length + 1) :
    ∃ next, (∀ rest more, getNext (key ++ past :: rest) key.length (pNext ++ more) nNextLength =
        .ok (true,next ++ more)) ∧
      next.length = key.length + 1 ∧ next[0]? = Option.some (-1) ∧
      ∀ i, 1 ≤ i → i < key.length → ∃ r, next[i]? = Option.some r ∧ Kmp.Largest key i r := by
  have readable : key.length < (key ++ [past]).length := by
    rw [List.length_append,List.length_singleton]
    exact Nat.lt_succ_self _
  obtain ⟨next,filled,length,entries⟩ := (@getNextTable (key ++ [past]) pNext key.length nNextLength
    (List.length_pos_iff.mpr some) (by simp) short (by omega)).1 readable
  refine ⟨next,fun rest more => ?_,length.trans cells,entries 0 (Nat.zero_le _),fun i _ inside => ?_⟩
  · have framed := getNextMore rest more (by exact_mod_cast List.length_pos_iff.mpr some) filled
    rwa [List.append_assoc,List.singleton_append] at framed
  · refine ⟨fail key i,?_,Kmp.failLargest key i⟩
    rw [entries i (Nat.le_of_lt inside),Kmp.failAppend [past] inside]

theorem getNextFillsWord : ∃ next : List Int, (∀ rest more, getNext ([0x61,0x61,0x62] ++ 0 :: rest) (3 : Nat)
      ([0,0,0,0] ++ more) 1024 = .ok (true,next ++ more)) ∧
    next.length = 4 ∧ next[0]? = some (-1) ∧
    ∀ i, 1 ≤ i → i < 3 → ∃ r, next[i]? = some r ∧ Kmp.Largest ([0x61,0x61,0x62] : Bytes) i r :=
  getNextFills [0x61,0x61,0x62] 0 [0,0,0,0] 1024 (by decide) (by decide) (by decide)

end Table

section Search
variable {source key : Bytes} {past past' : Byte} {table : Nat → Int} {next : List Int}

theorem kmpLoopSearches {fuel i : Nat} {j : Int} (entries : ∀ k < key.length, next[k]? = some (table k))
    (nonempty : 0 < key.length) (shortens : Kmp.Shortens table key.length) (low : -1 ≤ j) {ended : Nat × Int}
    (result : Kmp.search table source key fuel i j = some ended) :
    kmpLoop (source ++ [past]) source.length (key ++ [past']) key.length next fuel i j = .ok ended := by
  induction fuel generalizing i j with
  | zero => cases result
  | succ fuel ih =>
    rw [Kmp.search] at result
    rw [kmpLoop]
    split at result
    · rename_i inside
      have inSource : i < (source ++ [past]).length := by
        rw [List.length_append]
        omega
      have inKey : j < (key ++ [past']).length := by
        rw [List.length_append]
        omega
      rw [if_pos (by omega),goesOnRead low inSource inKey,List.getElem?_append_left inside.1,
        List.getElem?_append_left (by omega)]
      split at result
      · rename_i goes
        rw [decide_eq_true goes]
        exact ih (by omega) result
      · rename_i stops
        obtain ⟨n,rfl⟩ := Int.eq_ofNat_of_zero_le (show 0 ≤ j by omega)
        have shorter := shortens n (by omega)
        rw [decide_eq_false stops]
        simp only [bind,Except.bind,Bool.false_eq_true,if_false,cellRead (entries n (by omega))]
        exact ih shorter.1 result
    · rename_i ends
      cases result
      rw [if_neg (by omega)]
      rfl

theorem kmpLoopOwn (nonempty : 0 < key.length) (entries : ∀ k < key.length, next[k]? = some (fail key k)) :
    ∃ ended, kmpLoop (source ++ [past]) source.length (key ++ [past']) key.length next (2 * source.length + 2) 0 0 =
      .ok ended ∧ Kmp.Located source key (Kmp.located key ended) := by
  have shortens := Kmp.failShortens key key.length
  obtain ⟨ended,result⟩ : ∃ ended, Kmp.search (fail key) source key (2 * source.length + 2) 0 0 = some ended :=
    Kmp.searchEnds shortens ⟨by decide,Nat.zero_le _⟩ (by omega)
  refine ⟨ended,kmpLoopSearches entries nonempty shortens (by decide) result,?_⟩
  exact Kmp.searchRight Kmp.searchedStart shortens (Kmp.ownFallbacks (by decide) fun _ => by simp) result

def steady (source key : Bytes) : Prop :=
  key.length ≤ source.length ∧ ∀ at_ ∈ fallbacks (fail source) source key (2 * source.length + 2) 0 0,
    Kmp.Harmless source key at_.1 at_.2 (fail source at_.2)

instance (source key : Bytes) : Decidable (steady source key) := inferInstanceAs (Decidable (_ ∧ _))

theorem kmpStrFindSteady (source key : Bytes) (past past' : Byte) (some : source ≠ []) (some' : key ≠ [])
    (short : key.length < 1024) :
    (∃ r, kmpStrFind (source ++ [past]) source.length (key ++ [past']) key.length = .ok r ∧
      Kmp.Located source key r) ↔ steady source key := by
  have sourceLength := List.length_pos_iff.mpr some
  have keyLength := List.length_pos_iff.mpr some'
  have given : lengthOf (source ++ [past]) source.length = .ok (source.length : Int) := by
    rw [lengthOf,if_neg (by omega)]
  have given' : lengthOf (key ++ [past']) key.length = .ok (key.length : Int) := by
    rw [lengthOf,if_neg (by omega)]
  have cells : (source ++ [past]).length = source.length + 1 := List.length_append
  obtain ⟨fills,leaves⟩ := @getNextTable (source ++ [past]) (List.replicate 1024 0) key.length 1024
    keyLength (by simp) (by omega) (by rwa [List.length_replicate])
  unfold steady
  rcases Nat.lt_or_ge source.length key.length with long | fits
  · refine iff_of_false ?_ fun both => Nat.not_lt.mpr both.1 long
    rintro ⟨r,result,-⟩
    have stopped : getNext (source ++ [past]) key.length (List.replicate 1024 0) 1024 = .error .accessViolation :=
      leaves (by omega)
    simp only [kmpStrFind,given,given',stopped,bind,Except.bind] at result
    cases result
  · obtain ⟨next,filled,-,entries⟩ := fills (by omega)
    have shortens := Kmp.failShortens source key.length
    have own : ∀ k < key.length, next[k]? = Option.some (fail source k) := fun k below => by
      rw [entries k (Nat.le_of_lt below),Kmp.failAppend [past] (by omega)]
    obtain ⟨ended,result⟩ : ∃ ended, Kmp.search (fail source) source key (2 * source.length + 2) 0 0 = .some ended :=
      Kmp.searchEnds shortens ⟨by decide,Nat.zero_le _⟩ (by omega)
    have loop : kmpLoop (source ++ [past]) source.length (key ++ [past']) key.length next _ 0 0 = .ok ended :=
      kmpLoopSearches own keyLength shortens (by decide) result
    have returned : kmpStrFind (source ++ [past]) source.length (key ++ [past']) key.length =
        .ok (Kmp.located key ended) := by
      have table : getNext (source ++ [past]) key.length (List.replicate 1024 0) 1024 = .ok (true,next) := filled
      simp only [kmpStrFind,given,given',table,loop,bind,Except.bind,if_true,Int.toNat_natCast,Kmp.located]
      split <;> rfl
    rw [and_iff_right fits]
    constructor
    · rintro ⟨r,result',right⟩
      cases returned.symm.trans result'
      exact Kmp.searchWrong shortens ⟨by decide,by decide⟩ result right
    · exact fun harmless => ⟨_,returned,Kmp.searchRight Kmp.searchedStart shortens harmless result⟩

/-- The failures of the source's beginning, with which the code searches, are those of the key at every place where
the search by the key's own failures falls back. -/
def FailsAlike (source key : Bytes) : Prop :=
  key.length ≤ source.length ∧
    ∀ i < source.length, ∀ j < key.length, Kmp.Breaks source key i j → fail source j = fail key j

theorem kmpStrFindLocates (source key : Bytes) (past past' : Byte) (some : source ≠ []) (some' : key ≠ [])
    (short : key.length < 1024) :
    (FailsAlike source key → ∃ r, kmpStrFind (source ++ [past]) source.length (key ++ [past']) key.length = .ok r ∧
      Kmp.Located source key r) ∧
    ((∃ r, kmpStrFind (source ++ [past]) source.length (key ++ [past']) key.length = .ok r ∧
      Kmp.Located source key r) → key.length ≤ source.length) := by
  have steadily := kmpStrFindSteady source key past past' some some' short
  refine ⟨fun alike => steadily.mpr ⟨alike.1,?_⟩,fun right => (steadily.mp right).1⟩
  exact Kmp.agreesHarmless Kmp.triedStart alike.2

-- "abac" in "abaabac": the failure of three letters is looked up, and is one for both.
theorem kmpStrFindLocatesWord : ∃ r,
    kmpStrFind [0x61,0x62,0x61,0x61,0x62,0x61,0x63,0] 7 [0x61,0x62,0x61,0x63,0] 4 = .ok r ∧
    Kmp.Located ([0x61,0x62,0x61,0x61,0x62,0x61,0x63] : Bytes) [0x61,0x62,0x61,0x63] r :=
  (kmpStrFindLocates [0x61,0x62,0x61,0x61,0x62,0x61,0x63] [0x61,0x62,0x61,0x63] 0 0 (by decide) (by decide)
    (by decide)).1 ⟨by decide,(@Kmp.agreesLooked _ _ _ _ _ 16 (by decide)).mp (by decide)⟩

theorem kmpStrFindMisses : ¬ ∀ (source key : Bytes) (past past' : Byte), source ≠ [] → key ≠ [] → key.length < 1024 →
    ∃ r, kmpStrFind (source ++ [past]) source.length (key ++ [past']) key.length = .ok r ∧
      Kmp.Located source key r := by
  intro always
  obtain ⟨r,result,right⟩ := always [0x61,0x61,0x62] [0x61,0x62] 0 0 (by decide) (by decide) (by decide)
  have missed : kmpStrFind [0x61,0x61,0x62,0] 3 [0x61,0x62,0] 2 = .ok (-1) := by decide +kernel
  cases missed.symm.trans result
  exact Kmp.locatedNone right (p := 1) (by decide) (.inl rfl)

end Search

end JokeDse
