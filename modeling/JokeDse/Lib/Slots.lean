import Mathlib.Data.List.Basic

/-! A table with a fixed number of slots behind a counter: the entries stand in front without a gap, and
every slot behind them is empty. -/
namespace JokeDse.Slots

variable {α : Type}

/-- `memmove` inside one array, counted in elements. Beyond the array it is undefined (`none`). -/
def memmove (destination source count : Nat) (a : List α) : Option (List α) :=
  if destination + count ≤ a.length ∧ source + count ≤ a.length then
    some (a.take destination ++ ((a.drop source).take count ++ a.drop (destination + count)))
  else none

def store (i : Nat) (x : α) (a : List α) : Option (List α) :=
  if i < a.length then some (a.set i x) else none

def fill (i count : Nat) (x : α) (a : List α) : Option (List α) :=
  if i + count ≤ a.length then some (a.take i ++ (List.replicate count x ++ a.drop (i + count))) else none

def put (i : Nat) (xs a : List α) : Option (List α) :=
  if i + xs.length ≤ a.length then some (a.take i ++ (xs ++ a.drop (i + xs.length))) else none

theorem putHere {front old xs back : List α} {i : Nat} (here : front.length = i) (size : old.length = xs.length) :
    put i xs (front ++ (old ++ back)) = some (front ++ (xs ++ back)) := by
  subst here
  rw [put,if_pos (by simp only [List.length_append]; omega),List.take_left' rfl,← List.drop_drop,List.drop_left' rfl,
    List.drop_left' size]

def table (empty : α) (slots : Nat) (entries : List α) : List α :=
  entries ++ List.replicate (slots - entries.length) empty

variable {empty x : α} {slots : Nat} {entries : List α}

theorem tableLength (fits : entries.length ≤ slots) : (table empty slots entries).length = slots := by
  rw [table,List.length_append,List.length_replicate]
  omega

theorem tableEntry {i : Nat} (inside : i < entries.length) : (table empty slots entries)[i]? = some entries[i] := by
  rw [table,List.getElem?_append_left inside,List.getElem?_eq_getElem inside]

theorem tableStore (room : entries.length < slots) :
    store entries.length x (table empty slots entries) = some (table empty slots (entries ++ [x])) := by
  have inside : entries.length < (table empty slots entries).length := by rwa [tableLength (Nat.le_of_lt room)]
  have left : slots - entries.length = slots - (entries ++ [x]).length + 1 := by
    rw [List.length_append,List.length_singleton]
    omega
  rw [store,if_pos inside,table,left,List.replicate_succ,List.set_append_right _ _ (Nat.le_refl _),Nat.sub_self,
    List.set_cons_zero,table,List.append_assoc]
  rfl

theorem tableErase (empty : α) {i : Nat} (inside : i < entries.length) (fits : entries.length ≤ slots) :
    (memmove i (i + 1) (entries.length - i - 1) (table empty slots entries)).bind
      (store (entries.length - 1) empty) = some (table empty slots (entries.eraseIdx i)) := by
  have moved : memmove i (i + 1) (entries.length - i - 1) (table empty slots entries) =
      some (entries.eraseIdx i ++ (table empty slots entries).drop (entries.length - 1)) := by
    have all : (table empty slots entries).length = slots := tableLength fits
    have tail : (entries.drop (i + 1)).length = entries.length - i - 1 := by
      rw [List.length_drop]
      omega
    have behind : i + (entries.length - i - 1) = entries.length - 1 := by omega
    have front : (table empty slots entries).take i = entries.take i := List.take_append_of_le_length (by omega)
    have middle : ((table empty slots entries).drop (i + 1)).take (entries.length - i - 1) = entries.drop (i + 1) := by
      rw [table,List.drop_append_of_le_length inside,List.take_append_of_le_length (Nat.le_of_eq tail.symm),← tail,
        List.take_length]
    rw [memmove,if_pos (by omega),front,middle,behind,List.eraseIdx_eq_take_drop_succ,List.append_assoc]
  have shorter : (entries.eraseIdx i).length = entries.length - 1 := List.length_eraseIdx_of_lt inside
  have last : (table empty slots entries).drop (entries.length - 1) =
      entries[entries.length - 1] :: List.replicate (slots - entries.length) empty := by
    rw [table,List.drop_append_of_le_length (Nat.sub_le _ _),List.drop_eq_getElem_cons (by omega),
      List.drop_of_length_le (by omega)]
    rfl
  have left : slots - (entries.length - 1) = slots - entries.length + 1 := by omega
  rw [moved,Option.bind_some,store,if_pos (by rw [last,List.length_append,shorter,List.length_cons]; omega),last,
    List.set_append_right _ _ (Nat.le_of_eq shorter),shorter,Nat.sub_self,List.set_cons_zero,table,shorter,left,
    List.replicate_succ]

theorem tableClear (fits : entries.length ≤ slots) :
    fill 0 entries.length empty (table empty slots entries) = some (table empty slots []) := by
  have all : (table empty slots entries).length = slots := tableLength fits
  rw [fill,if_pos (by omega),List.take_zero,List.nil_append,Nat.zero_add,table,List.drop_left,
    List.replicate_append_replicate,Nat.add_sub_cancel' fits]
  rfl

theorem tableDrop {k : Nat} (inside : k ≤ entries.length) (fits : entries.length ≤ slots) :
    (memmove 0 k (entries.length - k) (table empty slots entries)).bind (fill (entries.length - k) k empty) =
      some (table empty slots (entries.drop k)) := by
  have all : (table empty slots entries).length = slots := tableLength fits
  have rest : (entries.drop k).length = entries.length - k := List.length_drop
  have moved : memmove 0 k (entries.length - k) (table empty slots entries) =
      some (entries.drop k ++ (table empty slots entries).drop (entries.length - k)) := by
    rw [memmove,if_pos (by omega),List.take_zero,List.nil_append,Nat.zero_add,table,
      List.drop_append_of_le_length inside,List.take_left' rest]
  have behind : ((table empty slots entries).drop (entries.length - k)).drop k =
      List.replicate (slots - entries.length) empty := by
    rw [List.drop_drop,Nat.sub_add_cancel inside,table,List.drop_left]
  have length : (entries.drop k ++ (table empty slots entries).drop (entries.length - k)).length = slots := by
    rw [List.length_append,rest,List.length_drop,all]
    omega
  rw [moved,Option.bind_some,fill,if_pos (by omega),List.take_left' rest,← List.drop_drop,List.drop_left' rest,behind,
    List.replicate_append_replicate,table,rest]
  congr 3
  omega

theorem tableEntries (slots : Nat) (entries : List α) :
    (table none slots (entries.map some)).filterMap id = entries := by
  rw [table,List.filterMap_append,List.filterMap_replicate_of_none rfl,List.append_nil,List.filterMap_map]
  exact List.filterMap_some

theorem tableHolds {slots i : Nat} {entries : List α} {x : α} :
    (table none slots (entries.map some))[i]? = some (some x) ↔ entries[i]? = some x := by
  rw [table,List.getElem?_append,List.length_map]
  split
  · rw [List.getElem?_map,Option.map_eq_some_iff]
    simp
  · rename_i beyond
    rw [List.getElem?_eq_none (Nat.not_lt.mp beyond)]
    simp [List.getElem?_replicate]

theorem gapDefined (empty : α) {a : List α} {i n : Nat} (inside : i < n) (fits : n ≤ a.length) :
    ∃ b, (memmove i (i + 1) (n - i - 1) a).bind (store (n - 1) empty) = some b ∧ b.length = a.length := by
  have moved : (a.take i ++ ((a.drop (i + 1)).take (n - i - 1) ++ a.drop (i + (n - i - 1)))).length = a.length := by
    simp only [List.length_append,List.length_take,List.length_drop]
    omega
  rw [memmove,if_pos (by omega),Option.bind_some,store,if_pos (by omega)]
  exact ⟨_,rfl,by rw [List.length_set,moved]⟩

theorem frontStore {a : List α} (front : entries <+: a) (room : entries.length < a.length) :
    ∃ b, store entries.length x a = some b ∧ entries ++ [x] <+: b ∧ b.length = a.length := by
  obtain ⟨rest,rfl⟩ := front
  rw [List.length_append] at room
  obtain ⟨y,rest,rfl⟩ := List.exists_cons_of_ne_nil (List.ne_nil_of_length_pos (by omega : 0 < rest.length))
  refine ⟨entries ++ x :: rest,?_,⟨rest,by simp⟩,by simp⟩
  rw [store,if_pos (by simp),List.set_append_right _ _ (Nat.le_refl _),Nat.sub_self,List.set_cons_zero]

theorem frontErase (empty : α) {a : List α} {i : Nat} (front : entries <+: a) (inside : i < entries.length) :
    ∃ b, (memmove i (i + 1) (entries.length - i - 1) a).bind (store (entries.length - 1) empty) = some b ∧
      entries.eraseIdx i <+: b ∧ b.length = a.length := by
  obtain ⟨b,moved,length⟩ := gapDefined empty inside front.length_le
  refine ⟨b,moved,?_,length⟩
  obtain ⟨rest,rfl⟩ := front
  obtain ⟨gap,moved,stored⟩ := Option.bind_eq_some_iff.mp moved
  have shorter : (entries.eraseIdx i).length = entries.length - 1 := List.length_eraseIdx_of_lt inside
  have tail : ((entries ++ rest).drop (i + 1)).take (entries.length - i - 1) = entries.drop (i + 1) := by
    have size : (entries.drop (i + 1)).length = entries.length - i - 1 := by
      rw [List.length_drop]
      omega
    rw [List.drop_append_of_le_length inside,← size,List.take_left]
  unfold memmove at moved
  split at moved <;> cases moved
  unfold store at stored
  split at stored <;> cases stored
  rw [tail,List.take_append_of_le_length (Nat.le_of_lt inside),← List.append_assoc,← List.eraseIdx_eq_take_drop_succ,
    List.set_append_right _ _ (Nat.le_of_eq shorter)]
  exact List.prefix_append _ _

def sweep (picked : α → Bool) : Nat → List α → List α
  | 0, entries => entries
  | n + 1, entries => sweep picked n (if entries[n]?.any picked then entries.eraseIdx n else entries)

theorem sweepFilters (picked : α → Bool) {n : Nat} {entries : List α} (inside : n ≤ entries.length) :
    sweep picked n entries = (entries.take n).filter (fun x => !picked x) ++ entries.drop n := by
  induction n generalizing entries with
  | zero => rfl
  | succ n ih =>
    have split : entries.take (n + 1) = entries.take n ++ [entries[n]] := by
      rw [List.take_succ_eq_append_getElem inside]
    rw [sweep,List.getElem?_eq_getElem inside,Option.any_some,split,List.filter_append]
    cases here : picked entries[n] with
    | true =>
      have shorter : (entries.eraseIdx n).length = entries.length - 1 := List.length_eraseIdx_of_lt inside
      have front : (entries.eraseIdx n).take n = entries.take n := by
        rw [List.eraseIdx_eq_take_drop_succ,List.take_left' (List.length_take_of_le (by omega))]
      have behind : (entries.eraseIdx n).drop n = entries.drop (n + 1) := by
        rw [List.eraseIdx_eq_take_drop_succ,List.drop_left' (List.length_take_of_le (by omega))]
      rw [if_pos rfl,ih (by omega),front,behind]
      simp [here]
    | false =>
      rw [if_neg Bool.false_ne_true,ih (by omega),List.drop_eq_getElem_cons inside]
      simp [here]

def taken : List α → List α
  | [] => []
  | [x] => [x]
  | x :: _ :: rest => x :: taken rest

def spared : List α → List α
  | [] => []
  | [_] => []
  | _ :: y :: rest => y :: spared rest

theorem sparedLength (entries : List α) : (spared entries).length = entries.length / 2 := by
  induction entries using spared.induct with
  | case1 => simp [spared]
  | case2 => simp [spared]
  | case3 x y rest ih =>
    simp only [spared,List.length_cons,ih]
    omega

theorem takenShort {entries : List α} (short : entries.length ≤ 1) : taken entries = entries := by
  match entries with
  | [] => rfl
  | [_] => rfl
  | _ :: _ :: _ => simp at short

end JokeDse.Slots
