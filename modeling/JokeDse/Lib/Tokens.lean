import Mathlib.Data.List.Infix
import Mathlib.Data.List.TakeWhile
import Mathlib.Data.Nat.Find

/-! Words in a text that separators split into tokens, and what the first place of a word tells of them. -/
namespace Tokens

variable {α : Type}

structure First (text word before after : List α) : Prop where
  whole : text = before ++ (word ++ after)
  first : ∀ i < before.length, ¬ word <+: text.drop i

section Places
variable {text word before after b a : List α}

theorem dropPlace (whole : text = b ++ (word ++ a)) : word <+: text.drop b.length := by
  rw [whole,List.drop_left]
  exact List.prefix_append word a

theorem First.below (first : First text word before after) (whole : text = b ++ (word ++ a)) :
    before.length ≤ b.length :=
  Nat.le_of_not_lt fun earlier => first.first _ earlier (dropPlace whole)

theorem First.same (first : First text word before after) (whole : text = b ++ (word ++ a))
    (here : b.length = before.length) : b = before ∧ a = after := by
  obtain ⟨front,rest⟩ := List.append_inj (whole.symm.trans first.whole) here
  exact ⟨front,List.append_cancel_left rest⟩

theorem First.unique (first : First text word before after) (other : First text word b a) : b = before ∧ a = after :=
  first.same other.whole (Nat.le_antisymm (other.below first.whole) (first.below other.whole))

theorem First.append (first : First text word before after) (more : List α) :
    First (text ++ more) word before (after ++ more) where
  whole := by rw [first.whole,List.append_assoc,List.append_assoc]
  first := by
    intro i earlier here
    have length := congrArg List.length first.whole
    rw [List.length_append,List.length_append] at length
    rw [List.drop_append_of_le_length (by omega)] at here
    refine first.first i earlier (List.prefix_of_prefix_length_le here (List.prefix_append _ _) ?_)
    rw [List.length_drop]
    omega

def Unbordered (word : List α) : Prop := ∀ k < word.length, 0 < k → word.drop (word.length - k) ≠ word.take k

instance [DecidableEq α] (word : List α) : Decidable (Unbordered word) :=
  inferInstanceAs (Decidable (∀ k < word.length, 0 < k → word.drop (word.length - k) ≠ word.take k))

theorem Unbordered.first (plain : Unbordered word) (free : ¬ word <:+: before) (after : List α) :
    First (before ++ (word ++ after)) word before after where
  whole := rfl
  first := by
    intro i earlier here
    rw [List.drop_append_of_le_length (Nat.le_of_lt earlier)] at here
    have left : (before.drop i).length = before.length - i := List.length_drop
    by_cases inside : word.length ≤ (before.drop i).length
    · have occurs := List.prefix_of_prefix_length_le here (List.prefix_append _ _) inside
      exact free (occurs.isInfix.trans (List.drop_suffix i before).isInfix)
    · obtain ⟨tail,split⟩ := List.prefix_of_prefix_length_le (List.prefix_append _ _) here (Nat.le_of_not_le inside)
      have length := congrArg List.length split
      rw [List.length_append] at length
      obtain ⟨rest,overlaps⟩ := here
      rw [← split,List.append_assoc,List.append_cancel_left_eq,split] at overlaps
      have begins : tail <+: word :=
        List.prefix_of_prefix_length_le ⟨rest,overlaps⟩ (List.prefix_append word after) (by omega)
      refine plain tail.length (by omega) (by omega) ?_
      rw [← List.prefix_iff_eq_take.mp begins]
      have place : word.length - tail.length = (before.drop i).length := by omega
      rw [place,← split,List.drop_left]

end Places

section Separators
variable (sep : α → Bool)

def Bounded (after : List α) : Prop := after.head?.all sep = true

instance (after : List α) : Decidable (Bounded sep after) := inferInstanceAs (Decidable (_ = true))

structure Stands (text word before after : List α) : Prop where
  whole : text = before ++ (word ++ after)
  begins : before.getLast?.all sep = true
  clean : ∀ c ∈ word, sep c = false
  ends : Bounded sep after

variable {sep} {text word before after : List α}

theorem splitEnds (clean : ∀ c ∈ word, sep c = false) (ends : Bounded sep after) :
    word ∈ (word ++ after).splitOnP sep := by
  cases after with
  | nil =>
    rw [List.append_nil,List.splitOnP_eq_singleton clean]
    exact List.mem_singleton_self word
  | cons c after =>
    rw [List.splitOnP_append_cons_of_forall_mem clean c ends]
    exact List.mem_cons_self

theorem Stands.token (stands : Stands sep text word before after) : word ∈ text.splitOnP sep := by
  rw [stands.whole]
  have here := splitEnds stands.clean stands.ends
  rcases List.eq_nil_or_concat before with rfl | ⟨front,c,rfl⟩
  · exact here
  · have mark : sep c = true := by simpa using stands.begins
    rw [List.concat_eq_append,List.append_assoc,List.singleton_append,List.splitOnP_append_cons front _ mark]
    exact List.mem_append_right _ here

theorem tokenStands (member : word ∈ text.splitOnP sep) : ∃ before after, Stands sep text word before after := by
  induction size : text.length using Nat.strongRecOn generalizing text with
  | _ n ih =>
    have clean : ∀ c ∈ text.takeWhile (!sep ·), sep c = false := fun c inside => by
      simpa using List.mem_takeWhile_imp inside
    have parts : text = text.takeWhile (!sep ·) ++ text.dropWhile (!sep ·) := List.takeWhile_append_dropWhile.symm
    cases rest : text.dropWhile (!sep ·) with
    | nil =>
      rw [rest,List.append_nil] at parts
      rw [← parts] at clean
      rw [List.splitOnP_eq_singleton clean,List.mem_singleton] at member
      subst member
      exact ⟨[],[],by simp,rfl,clean,rfl⟩
    | cons c tail =>
      have mark : sep c = true := by
        have head := List.head?_dropWhile_not (!sep ·) text
        rw [rest] at head
        simpa using head
      rw [rest] at parts
      rw [parts,List.splitOnP_append_cons_of_forall_mem clean c mark,List.mem_cons] at member
      rcases member with rfl | member
      · exact ⟨[],c :: tail,parts,rfl,clean,mark⟩
      · have shorter : tail.length < n := by
          rw [← size,parts,List.length_append,List.length_cons]
          omega
        obtain ⟨before,after,stands⟩ := ih tail.length shorter member rfl
        refine ⟨text.takeWhile (!sep ·) ++ c :: before,after,?_,?_,stands.clean,stands.ends⟩
        · rw [List.append_assoc,List.cons_append,← stands.whole]
          exact parts
        · rcases List.eq_nil_or_concat before with rfl | ⟨front,d,rfl⟩
          · simpa using mark
          · have begins := stands.begins
            simp only [List.concat_eq_append,List.getLast?_concat] at begins ⊢
            rwa [← List.cons_append,← List.append_assoc,List.getLast?_concat]

variable (sep text word)

def EndsFirst : Prop := word ≠ [] ∧ ∃ before after, First text word before after ∧ Bounded sep after

def FirstTells : Prop :=
  ∀ before after, First text word before after → Stands sep text word before after ∨
    (Bounded sep after ↔ ∃ b a, Stands sep text word b a ∧ before.length < b.length)

variable {sep text word}

theorem First.tokens (first : First text word before after) : word ∈ text.splitOnP sep ↔
    Stands sep text word before after ∨ ∃ b a, Stands sep text word b a ∧ before.length < b.length := by
  constructor
  · intro member
    obtain ⟨b,a,stands⟩ := tokenStands member
    rcases Nat.eq_or_lt_of_le (first.below stands.whole) with here | later
    · obtain ⟨rfl,rfl⟩ := first.same stands.whole here.symm
      exact .inl stands
    · exact .inr ⟨b,a,stands,later⟩
  · rintro (stands | ⟨b,a,stands,-⟩)
    · exact stands.token
    · exact stands.token

theorem firstExists (occurs : word <:+: text) : ∃ before after, First text word before after := by
  classical
  have somewhere : ∃ i, word <+: text.drop i := by
    obtain ⟨b,a,whole⟩ := occurs
    exact ⟨b.length,dropPlace (by rw [← List.append_assoc,whole])⟩
  have least : ∀ {i}, i < Nat.find somewhere → ¬ word <+: text.drop i := Nat.find_min somewhere
  have inside : Nat.find somewhere ≤ text.length := by
    refine Nat.le_of_not_lt fun beyond => least beyond ?_
    have there := Nat.find_spec somewhere
    rwa [List.drop_of_length_le (Nat.le_of_lt beyond),← List.drop_length (l := text)] at there
  obtain ⟨after,rest⟩ := Nat.find_spec somewhere
  have here : (text.take (Nat.find somewhere)).length = Nat.find somewhere := List.length_take_of_le inside
  refine ⟨text.take (Nat.find somewhere),after,?_,fun i earlier => least (here ▸ earlier)⟩
  rw [rest,List.take_append_drop]

theorem firstTells (some : word ≠ []) :
    (EndsFirst sep text word ↔ word ∈ text.splitOnP sep) ↔ FirstTells sep text word := by
  constructor
  · intro agrees before after first
    by_cases stands : Stands sep text word before after
    · exact .inl stands
    · refine .inr ?_
      have tokens : word ∈ text.splitOnP sep ↔ _ := first.tokens
      rw [or_iff_right stands] at tokens
      rw [← tokens,← agrees]
      constructor
      · exact fun ends => ⟨some,before,after,first,ends⟩
      · rintro ⟨-,b,a,other,ends⟩
        obtain ⟨rfl,rfl⟩ := first.unique other
        exact ends
  · intro tells
    constructor
    · rintro ⟨-,before,after,first,ends⟩
      rw [first.tokens]
      rcases tells before after first with stands | later
      · exact .inl stands
      · exact .inr (later.mp ends)
    · intro member
      obtain ⟨b,a,stands⟩ := tokenStands member
      obtain ⟨before,after,first⟩ := firstExists ⟨b,a,(List.append_assoc _ _ _).trans stands.whole.symm⟩
      refine ⟨some,before,after,first,?_⟩
      rcases tells before after first with stands | later
      · exact stands.ends
      · rcases first.tokens.mp member with stands | further
        · exact stands.ends
        · exact later.mpr further

end Separators

end Tokens
