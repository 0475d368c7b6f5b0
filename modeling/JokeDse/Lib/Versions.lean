import Mathlib.Data.List.Basic
import Mathlib.Logic.Function.Basic

/-! A record of versions. Each has a key and a new one stands for its key from then on; where nobody
changes an older one, the record tells what a store by keys holds. -/
namespace JokeDse.Versions

variable {α κ β : Type} {key : α → κ} {value : α → β} {store : List α} {n : Nat} {a : α}

structure Newest (key : α → κ) (store : List α) (n : Nat) (a : α) : Prop where
  there : store[n]? = some a
  later : ∀ m b, n < m → store[m]? = some b → key b ≠ key a

/-- `now` is `before` with the newest version of every key that has one from the number `first` on. -/
def Holds (key : α → κ) (value : α → β) (first : Nat) (before : κ → Option β) (store : List α) (now : κ → Option β) :
    Prop :=
  ∀ k, (∃ n a, first ≤ n ∧ Newest key store n a ∧ key a = k ∧ now k = some (value a)) ∨
    now k = before k ∧ ∀ n a, first ≤ n → store[n]? = some a → key a ≠ k

theorem appendCell {b : α} {m : Nat} (cell : (store ++ [b])[m]? = some a) :
    store[m]? = some a ∨ m = store.length ∧ a = b := by
  rcases Nat.lt_or_ge m store.length with old | new
  · rw [List.getElem?_append_left old] at cell
    exact .inl cell
  · rw [List.getElem?_append_right new] at cell
    rw [List.getElem?_singleton] at cell
    split at cell <;> cases cell
    exact .inr ⟨by omega,rfl⟩

theorem newestMade (key : α → κ) (store : List α) (a : α) : Newest key (store ++ [a]) store.length a where
  there := List.getElem?_concat_length
  later m b later cell := by
    rw [List.getElem?_eq_none (by simp; omega)] at cell
    cases cell

theorem Newest.make (newest : Newest key store n a) {b : α} (other : key b ≠ key a) : Newest key (store ++ [b]) n a where
  there := by rw [List.getElem?_append_left (List.getElem?_eq_some_iff.mp newest.there).1,newest.there]
  later m c later cell := by
    rcases appendCell cell with old | ⟨-,rfl⟩
    · exact newest.later m c later old
    · exact other

theorem modifyCell {change : α → α} {m : Nat} {b : α} (cell : (store.modify n change)[m]? = some b) :
    ∃ a, store[m]? = some a ∧ b = if n = m then change a else a := by
  rw [List.getElem?_modify] at cell
  obtain ⟨a,there,rfl⟩ := Option.map_eq_some_iff.mp cell
  exact ⟨a,there,by split <;> rfl⟩

theorem modifyKey {change : α → α} (same : ∀ a, key (change a) = key a) {m : Nat} {b : α}
    (cell : (store.modify n change)[m]? = some b) : ∃ a, store[m]? = some a ∧ key b = key a := by
  obtain ⟨a,there,rfl⟩ := modifyCell cell
  refine ⟨a,there,?_⟩
  split
  · exact same a
  · rfl

theorem Newest.change (newest : Newest key store n a) {change : α → α} (same : ∀ a, key (change a) = key a) (m : Nat) :
    Newest key (store.modify m change) n (if m = n then change a else a) where
  there := by
    rw [List.getElem?_modify,newest.there]
    rfl
  later k b later cell := by
    obtain ⟨c,there,keys⟩ := modifyKey same cell
    rw [keys]
    split
    · rw [same]
      exact newest.later k c later there
    · exact newest.later k c later there

section Holds
variable {first : Nat} {before now : κ → Option β}

theorem holdsNothing (key : α → κ) (value : α → β) (store : List α) (before : κ → Option β) :
    Holds key value store.length before store before := by
  refine fun k => .inr ⟨rfl,fun n a from_ there => ?_⟩
  rw [List.getElem?_eq_none from_] at there
  cases there

theorem Holds.newest (holds : Holds key value first before store now) (low : first ≤ n) (newest : Newest key store n a) :
    now (key a) = some (value a) := by
  rcases holds (key a) with ⟨m,b,from_,newest',same,now'⟩ | ⟨-,none⟩
  · rcases Nat.lt_trichotomy n m with after | rfl | earlier
    · exact absurd same (newest.later m b after newest'.there)
    · cases newest.there.symm.trans newest'.there
      exact now'
    · exact absurd same.symm (newest'.later n a earlier newest.there)
  · exact absurd rfl (none n a low newest.there)

variable [DecidableEq κ]

theorem Holds.make (holds : Holds key value first before store now) (low : first ≤ store.length) (a : α) :
    Holds key value first before (store ++ [a]) (Function.update now (key a) (some (value a))) := by
  intro k
  by_cases here : key a = k
  · subst here
    exact .inl ⟨store.length,a,low,newestMade key store a,rfl,Function.update_self _ _ _⟩
  · rw [Function.update_of_ne (Ne.symm here)]
    rcases holds k with ⟨n,b,from_,newest,rfl,now'⟩ | ⟨still,none⟩
    · exact .inl ⟨n,b,from_,newest.make here,rfl,now'⟩
    · refine .inr ⟨still,fun n b from_ cell => ?_⟩
      rcases appendCell cell with old | ⟨-,rfl⟩
      · exact none n b from_ old
      · exact here

theorem Holds.change (holds : Holds key value first before store now) (low : first ≤ n) (newest : Newest key store n a)
    {change : α → α} (same : ∀ a, key (change a) = key a) :
    Holds key value first before (store.modify n change) (Function.update now (key a) (some (value (change a)))) := by
  intro k
  by_cases here : key a = k
  · subst here
    have changed := newest.change same n
    rw [if_pos rfl] at changed
    exact .inl ⟨n,change a,low,changed,same a,Function.update_self _ _ _⟩
  · rw [Function.update_of_ne (Ne.symm here)]
    rcases holds k with ⟨m,b,from_,newest',rfl,now'⟩ | ⟨still,none⟩
    · have apart : n ≠ m := by
        rintro rfl
        exact here (congrArg key (Option.some.inj (newest.there.symm.trans newest'.there)))
      have kept := newest'.change same n
      rw [if_neg apart] at kept
      exact .inl ⟨m,b,from_,kept,rfl,now'⟩
    · refine .inr ⟨still,fun m b from_ cell => ?_⟩
      obtain ⟨c,there,keys⟩ := modifyKey same cell
      rw [keys]
      exact none m c from_ there

end Holds

end JokeDse.Versions
