import Mathlib.Data.List.Basic
import Mathlib.Data.List.Nodup
import Mathlib.Data.List.Range
import Mathlib.Data.List.Induction

/-! A store that several parties fill. A cell is made at its end and has its number for good; a party
changes only cells it has made. Then each party can do as if the store were its own. -/
namespace JokeDse.Shares

variable {α : Type}

def Shows (own : List Nat) (store mine : List α) : Prop := own.map (fun n => store[n]?) = mine.map some

def Held (own : List Nat) (k n : Option Nat) : Prop := k.map (fun k => own[k]?) = n.map some

section Shows
variable {own : List Nat} {store mine : List α}

theorem showsNothing (store : List α) : Shows [] store [] := rfl

theorem Shows.length (shows' : Shows own store mine) : own.length = mine.length := by
  simpa using congrArg List.length shows'

theorem Shows.cell (shows' : Shows own store mine) {k n : Nat} (number : own[k]? = some n) : store[n]? = mine[k]? := by
  have same := congrArg (fun cells => cells[k]?) shows'
  simp only [List.getElem?_map,number,Option.map_some] at same
  cases there : mine[k]? with
  | none => simp [there] at same
  | some c => simpa [there] using same

theorem Shows.inside (shows' : Shows own store mine) : ∀ n ∈ own, n < store.length := by
  intro n member
  have there : store[n]? ∈ mine.map some := by
    rw [← shows']
    exact List.mem_map_of_mem member
  obtain ⟨c,-,same⟩ := List.mem_map.mp there
  exact (List.getElem?_eq_some_iff.mp same.symm).1

theorem Shows.make (shows' : Shows own store mine) (c : α) :
    Shows (own ++ [store.length]) (store ++ [c]) (mine ++ [c]) := by
  have kept : own.map (fun n => (store ++ [c])[n]?) = own.map fun n => store[n]? :=
    List.map_congr_left fun n member => List.getElem?_append_left (shows'.inside n member)
  rw [Shows,List.map_append,List.map_append,kept,shows']
  simp

theorem Shows.keep (shows' : Shows own store mine) {store' : List α} (kept : ∀ n ∈ own, store'[n]? = store[n]?) :
    Shows own store' mine := by
  rw [Shows,← shows']
  exact List.map_congr_left kept

theorem Shows.change (shows' : Shows own store mine) (once : own.Nodup) {k n : Nat} (number : own[k]? = some n)
    (f : α → α) : Shows own (store.modify n f) (mine.modify k f) := by
  apply List.ext_getElem?
  intro j
  have cells := congrArg (fun cells => cells[j]?) shows'
  simp only [List.getElem?_map] at cells
  simp only [List.getElem?_map,List.getElem?_modify]
  cases there : own[j]? with
  | none =>
    simp only [there,Option.map_none] at cells ⊢
    cases found : mine[j]? with
    | none => simp
    | some c => simp [found] at cells
  | some m =>
    have same : n = m ↔ k = j := by
      constructor
      · rintro rfl
        exact (List.getElem?_inj (List.getElem?_eq_some_iff.mp number).1 once).mp (number.trans there.symm)
      · rintro rfl
        exact Option.some.inj (number.symm.trans there)
    have cell := shows'.cell there
    simp only [Option.map_some,same,cell]
    cases found : mine[j]? with
    | none => simp [there,cell,found] at cells
    | some c => simp

end Shows

section Held
variable {own : List Nat}

theorem heldNone : Held own none none := rfl

theorem Held.some (k : Nat) {n : Nat} (number : own[k]? = Option.some n) : Held own (Option.some k) (Option.some n) :=
  congrArg Option.some number

theorem Held.isSome {k n : Option Nat} (held : Held own k n) : k.isSome = n.isSome := by
  simpa using congrArg Option.isSome held

theorem Held.number {k : Option Nat} {n : Nat} (held : Held own k (Option.some n)) :
    ∃ k', k = Option.some k' ∧ own[k']? = Option.some n := by
  cases k with
  | none => cases held
  | some k' => exact ⟨k',rfl,Option.some.inj held⟩

theorem Held.more {k n : Option Nat} (held : Held own k n) (more : List Nat) : Held (own ++ more) k n := by
  cases n with
  | none =>
    cases k with
    | none => rfl
    | some k => cases held
  | some n =>
    obtain ⟨k,rfl,number⟩ := held.number
    have inside := (List.getElem?_eq_some_iff.mp number).1
    exact Held.some k ((List.getElem?_append_left inside).trans number)

end Held

structure Parted (own : Nat → List Nat) (first size : Nat) : Prop where
  once : ∀ i, (own i).Nodup
  inside : ∀ i, ∀ n ∈ own i, first ≤ n ∧ n < size
  apart : ∀ {i j n}, n ∈ own i → n ∈ own j → i = j
  every : ∀ n, first ≤ n → n < size → ∃ i, n ∈ own i

section Parted
variable {own : Nat → List Nat} {first size : Nat}

theorem partedNothing (first : Nat) : Parted (fun _ => []) first first where
  once _ := List.nodup_nil
  inside _ _ member := by cases member
  apart member := by cases member
  every n low high := by omega

theorem Parted.make (parted : Parted own first size) (low : first ≤ size) (i : Nat) :
    Parted (Function.update own i (own i ++ [size])) first (size + 1) := by
  have fresh : ∀ j, size ∉ own j := fun j member => Nat.lt_irrefl _ (parted.inside j size member).2
  have cells : ∀ {j n}, n ∈ Function.update own i (own i ++ [size]) j → n ∈ own j ∨ j = i ∧ n = size := by
    intro j n member
    by_cases same : j = i
    · subst same
      rw [Function.update_self] at member
      rcases List.mem_append.mp member with old | new
      · exact .inl old
      · exact .inr ⟨rfl,List.mem_singleton.mp new⟩
    · rw [Function.update_of_ne same] at member
      exact .inl member
  refine ⟨fun j => ?_,fun j n member => ?_,fun here there => ?_,fun n from_ below => ?_⟩
  · by_cases same : j = i
    · subst same
      rw [Function.update_self]
      exact List.Nodup.append (parted.once j) (List.nodup_singleton _) (by simpa using fresh j)
    · rw [Function.update_of_ne same]
      exact parted.once j
  · rcases cells member with old | ⟨-,rfl⟩
    · have inside := parted.inside j n old
      omega
    · omega
  · rcases cells here with old | ⟨rfl,rfl⟩
    · rcases cells there with old' | ⟨rfl,rfl⟩
      · exact parted.apart old old'
      · exact absurd old (fresh _)
    · rcases cells there with old' | ⟨rfl,-⟩
      · exact absurd old' (fresh _)
      · rfl
  · by_cases new : n = size
    · exact ⟨i,by simp [new]⟩
    · obtain ⟨j,member⟩ := parted.every n from_ (by omega)
      refine ⟨j,?_⟩
      by_cases same : j = i
      · subst same
        rw [Function.update_self]
        exact List.mem_append_left _ member
      · rwa [Function.update_of_ne same]

theorem Parted.grow (parted : Parted own first size) (low : first ≤ size) (i more : Nat) :
    Parted (Function.update own i (own i ++ List.range' size more)) first (size + more) := by
  induction more with
  | zero => simpa using parted
  | succ more ih =>
    have next := ih.make (by omega) i
    rw [Function.update_self,Function.update_idem,List.append_assoc] at next
    rwa [List.range'_1_concat]

theorem Parted.all (parted : Parted own first size) (low : first ≤ size) {parties : List Nat} (once : parties.Nodup)
    (everybody : ∀ i, own i ≠ [] → i ∈ parties) : (parties.flatMap own).Perm (List.range' first (size - first)) := by
  have apart : parties.Pairwise fun i j => (own i).Disjoint (own j) :=
    once.imp fun other _ here there => other (parted.apart here there)
  rw [List.perm_ext_iff_of_nodup (List.nodup_flatMap.mpr ⟨fun i _ => parted.once i,apart⟩) List.nodup_range']
  intro n
  rw [List.mem_flatMap,List.mem_range'_1,Nat.add_sub_cancel' low]
  constructor
  · rintro ⟨i,-,member⟩
    exact parted.inside i n member
  · rintro ⟨from_,below⟩
    obtain ⟨i,member⟩ := parted.every n from_ below
    exact ⟨i,everybody i (List.ne_nil_of_mem member),member⟩

theorem Parted.cells {α : Type} {store : List α} (parted : Parted own first store.length) (low : first ≤ store.length)
    {parties : List Nat} (once : parties.Nodup) (everybody : ∀ i, own i ≠ [] → i ∈ parties) :
    (parties.flatMap fun i => (own i).map fun n => store[n]?).Perm ((store.drop first).map some) := by
  have shown : (List.range' first (store.length - first)).map (fun n => store[n]?) = (store.drop first).map some := by
    apply List.ext_getElem?
    intro k
    by_cases inside : k < store.length - first
    · simp [inside,List.getElem?_eq_getElem (show first + k < store.length by omega)]
    · simp [inside]
  rw [← shown,← List.map_flatMap]
  exact (parted.all low once everybody).map _

end Parted

end JokeDse.Shares
