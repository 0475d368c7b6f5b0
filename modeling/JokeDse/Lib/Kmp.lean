import JokeDse.Lib.Tokens

/-! The search of a word in a text that falls back through a table of the word's own borders. -/
namespace Kmp

variable {α : Type} [DecidableEq α]

def Back (key : List α) (j k : Nat) : Prop := key.take k <:+ key.take j ∧ key[k]? ≠ key[j]?

instance (key : List α) (j k : Nat) : Decidable (Back key j k) := inferInstanceAs (Decidable (_ ∧ _))

def fallFrom (key : List α) (j : Nat) : Nat → Int
  | 0 => -1
  | k + 1 => if Back key j k then k else fallFrom key j k

def fail (key : List α) (j : Nat) : Int := fallFrom key j j

section Failure
variable {key : List α} {j k : Nat}

theorem fallFromGreatest {n : Nat} (below : k < n) (back : Back key j k) : (k : Int) ≤ fallFrom key j n := by
  induction n with
  | zero => contradiction
  | succ n ih =>
    rw [fallFrom]
    split
    · omega
    · rename_i none
      rcases Nat.eq_or_lt_of_le (Nat.le_of_lt_succ below) with rfl | earlier
      · contradiction
      · exact ih earlier

theorem fallFromBack (key : List α) (j n : Nat) :
    fallFrom key j n = -1 ∨ ∃ k < n, fallFrom key j n = k ∧ Back key j k := by
  induction n with
  | zero => exact .inl rfl
  | succ n ih =>
    rw [fallFrom]
    split
    · rename_i back
      exact .inr ⟨n,Nat.lt_succ_self n,rfl,back⟩
    · rcases ih with none | ⟨k,below,same,back⟩
      · exact .inl none
      · exact .inr ⟨k,Nat.lt_succ_of_lt below,same,back⟩

theorem failGreatest (below : k < j) (back : Back key j k) : (k : Int) ≤ fail key j := fallFromGreatest below back

theorem failBack (key : List α) (j : Nat) : fail key j = -1 ∨ ∃ k < j, fail key j = k ∧ Back key j k :=
  fallFromBack key j j

theorem failUnique {r : Int} (greatest : ∀ k < j, Back key j k → (k : Int) ≤ r)
    (back : r = -1 ∨ ∃ k < j, r = k ∧ Back key j k) : r = fail key j := by
  rcases back with rfl | ⟨k,below,rfl,back⟩
  · rcases failBack key j with none | ⟨k,below,same,back⟩
    · exact none.symm
    · have := greatest k below back
      omega
  · have upper := failGreatest below back
    rcases failBack key j with none | ⟨k',below',same,back'⟩
    · omega
    · have := greatest k' below' back'
      omega

def Largest (key : List α) (j : Nat) (r : Int) : Prop :=
  (∃ k < j, r = k ∧ Back key j k ∧ ∀ k' < j, Back key j k' → k' ≤ k) ∨ r = -1 ∧ ∀ k < j, ¬ Back key j k

theorem failLargest (key : List α) (j : Nat) : Largest key j (fail key j) := by
  rcases failBack key j with none | ⟨k,below,same,back⟩
  · refine .inr ⟨none,fun k below back => ?_⟩
    have upper := failGreatest below back
    omega
  · refine .inl ⟨k,below,same,back,fun k' below' back' => ?_⟩
    have upper := failGreatest below' back'
    omega

theorem fallFromAppend (more : List α) (inside : j < key.length) {n : Nat} (below : n ≤ j) :
    fallFrom (key ++ more) j n = fallFrom key j n := by
  induction n with
  | zero => rfl
  | succ n ih =>
    have same : Back (key ++ more) j n ↔ Back key j n := by
      unfold Back
      rw [List.take_append_of_le_length (by omega),List.take_append_of_le_length (by omega),
        List.getElem?_append_left (by omega),List.getElem?_append_left inside]
    rw [fallFrom,fallFrom,ih (by omega)]
    simp only [same]

theorem failAppend (more : List α) (inside : j < key.length) : fail (key ++ more) j = fail key j :=
  fallFromAppend more inside (Nat.le_refl j)

end Failure

section Borders
omit [DecidableEq α]
variable {key text : List α} {i j k : Nat}

theorem shorterBorder (long : key.take j <:+ text.take i) (short : key.take k <:+ text.take i) (below : k ≤ j) :
    key.take k <:+ key.take j :=
  List.suffix_of_suffix_length_le short long (by rw [List.length_take,List.length_take]; omega)

theorem borderNext (inText : i < text.length) (inKey : k < key.length) :
    key.take (k + 1) <:+ text.take (i + 1) ↔ key.take k <:+ text.take i ∧ text[i]? = key[k]? := by
  rw [List.take_succ_eq_append_getElem inText,List.take_succ_eq_append_getElem inKey,List.getElem?_eq_getElem inText,
    List.getElem?_eq_getElem inKey,List.suffix_concat_iff,Option.some_inj]
  constructor
  · rintro (empty | ⟨front,same,suffix⟩)
    · simp only [List.append_eq_nil_iff,List.cons_ne_self,and_false] at empty
    · obtain ⟨rfl,last⟩ := List.append_inj' same rfl
      exact ⟨suffix,(List.cons.inj last).1.symm⟩
  · rintro ⟨suffix,same⟩
    exact .inr ⟨key.take k,by rw [same],suffix⟩

theorem occurrenceBorder {p : Nat} (occurs : key <+: text.drop p) (inKey : k < key.length) :
    key.take k <:+ text.take (p + k) ∧ text[p + k]? = key[k]? := by
  obtain ⟨rest,same⟩ := occurs
  constructor
  · rw [List.take_add,← same,List.take_append_of_le_length (Nat.le_of_lt inKey)]
    exact List.suffix_append _ _
  · rw [← List.getElem?_drop,← same,List.getElem?_append_left inKey]

theorem matchGoes {j : Int} (low : -1 ≤ j) (inText : i < text.length) (inKey : j < key.length)
    (long : 0 ≤ j → key.take j.toNat <:+ text.take i) (goes : j = -1 ∨ text[i]? = key[j.toNat]?) :
    key.take (j + 1).toNat <:+ text.take (i + 1) := by
  rcases Int.lt_or_le j 0 with none | some
  · have front : j = -1 := by omega
    subst front
    exact List.nil_suffix
  · rw [show (j + 1).toNat = j.toNat + 1 by omega,borderNext inText (by omega)]
    exact ⟨long some,goes.resolve_left (by omega)⟩

end Borders

theorem matchFalls {key text : List α} {i j : Nat} (long : key.take j <:+ text.take i) (some : 0 ≤ fail key j) :
    key.take (fail key j).toNat <:+ text.take i := by
  rcases failBack key j with none | ⟨k,-,same,back⟩
  · omega
  · rw [same,Int.toNat_natCast]
    exact back.1.trans long

section Search
variable (table : Nat → Int) (text key : List α)

def search : Nat → Nat → Int → Option (Nat × Int)
  | 0, _, _ => none
  | fuel + 1, i, j =>
    if i < text.length ∧ j < key.length then
      if j = -1 ∨ text[i]? = key[j.toNat]? then search fuel (i + 1) (j + 1)
      else search fuel i (table j.toNat)
    else some (i,j)

def fallbacks : Nat → Nat → Int → List (Nat × Nat)
  | 0, _, _ => []
  | fuel + 1, i, j =>
    if i < text.length ∧ j < key.length then
      if j = -1 ∨ text[i]? = key[j.toNat]? then fallbacks fuel (i + 1) (j + 1)
      else (i,j.toNat) :: fallbacks fuel i (table j.toNat)
    else []

variable {table text key}
variable {fuel i : Nat} {j : Int}

structure Harmless (text key : List α) (i j : Nat) (b : Int) : Prop where
  gives : ∀ p < ((i : Int) - b).toNat, i - j ≤ p → ¬ key <+: text.drop p
  counts : 0 ≤ b → key.drop b.toNat <+: text.drop i → key.take b.toNat <:+ text.take i

instance (text key : List α) (i j : Nat) (b : Int) : Decidable (Harmless text key i j b) :=
  decidable_of_iff ((∀ p < ((i : Int) - b).toNat, i - j ≤ p → ¬ key <+: text.drop p) ∧
      (0 ≤ b → key.drop b.toNat <+: text.drop i → key.take b.toNat <:+ text.take i))
    ⟨fun both => ⟨both.1,both.2⟩,fun both => ⟨both.1,both.2⟩⟩

def Located (text key : List α) (r : Int) : Prop :=
  (∃ before after, Tokens.First text key before after ∧ r = before.length) ∨ ¬ key <:+: text ∧ r = -1

def located (key : List α) (ended : Nat × Int) : Int := if ended.2 = key.length then ended.1 - key.length else -1

omit [DecidableEq α] in
theorem locatedNone {r : Int} {p : Nat} (right : Located text key r) (occurs : key <+: text.drop p)
    (beyond : r = -1 ∨ (p : Int) < r) : False := by
  rcases right with ⟨before,after,first,rfl⟩ | ⟨absent,rfl⟩
  · exact first.first p (by omega) occurs
  · obtain ⟨after,same⟩ := occurs
    exact absent ⟨text.take p,after,by rw [List.append_assoc,same,List.take_append_drop]⟩

omit [DecidableEq α] in
theorem locatedHere {p : Nat} (right : Located text key (p : Int)) : key <+: text.drop p := by
  rcases right with ⟨before,after,first,same⟩ | ⟨-,same⟩
  · have here : p = before.length := by omega
    rw [here]
    exact Tokens.dropPlace first.whole
  · omega

structure Searched (text key : List α) (i : Nat) (j : Int) : Prop where
  inText : i ≤ text.length
  bounds : -1 ≤ j ∧ j ≤ i ∧ j ≤ key.length
  counts : 0 ≤ j → key.drop j.toNat <+: text.drop i → key.take j.toNat <:+ text.take i
  passed : ∀ p : Nat, (p : Int) < i - j → ¬ key <+: text.drop p

omit [DecidableEq α] in
theorem searchedStart : Searched text key 0 0 where
  inText := Nat.zero_le _
  bounds := ⟨by decide,Int.le_refl _,by omega⟩
  counts := fun _ _ => by simp
  passed := fun p before => by omega

omit [DecidableEq α] in
theorem restFollows {n : Nat} (inText : i < text.length) (inKey : n < key.length) (same : text[i]? = key[n]?) :
    key.drop (n + 1) <+: text.drop (i + 1) ↔ key.drop n <+: text.drop i := by
  rw [List.getElem?_eq_getElem inText,List.getElem?_eq_getElem inKey,Option.some_inj] at same
  rw [List.drop_eq_getElem_cons inText,List.drop_eq_getElem_cons inKey,same,List.cons_prefix_cons]
  exact (and_iff_right rfl).symm

omit [DecidableEq α] in
theorem searchedGoes (reached : Searched text key i j) (inside : i < text.length ∧ j < key.length)
    (goes : j = -1 ∨ text[i]? = key[j.toNat]?) : Searched text key (i + 1) (j + 1) := by
  obtain ⟨inText,bounds,counts,passed⟩ := reached
  refine ⟨inside.1,by omega,fun _ rest => ?_,fun p before => passed p (by omega)⟩
  refine matchGoes bounds.1 inside.1 inside.2 (fun some => ?_) goes
  rw [show (j + 1).toNat = j.toNat + 1 by omega,
    restFollows inside.1 (by omega) (goes.resolve_left (by omega))] at rest
  exact counts some rest

omit [DecidableEq α] in
theorem searchedFalls {n : Nat} {b : Int} (reached : Searched text key i n) (shorter : -1 ≤ b ∧ b < n)
    (harmless : Harmless text key i n b) : Searched text key i b := by
  obtain ⟨inText,bounds,counts,passed⟩ := reached
  refine ⟨inText,by omega,harmless.counts,fun p before => ?_⟩
  by_cases earlier : (p : Int) < i - n
  · exact passed p earlier
  · exact harmless.gives p (by omega) (by omega)

omit [DecidableEq α] in
theorem searchedEnds (reached : Searched text key i j) (ended : ¬ (i < text.length ∧ j < key.length)) :
    Located text key (located key (i,j)) := by
  obtain ⟨inText,bounds,counts,passed⟩ := reached
  unfold located
  split
  · rename_i whole
    simp only at whole
    subst whole
    rw [Int.toNat_natCast,List.drop_length,List.take_length] at counts
    obtain ⟨before,same⟩ := counts (Int.natCast_nonneg _) List.nil_prefix
    have size : before.length + key.length = i := by
      rw [← List.length_append,same,List.length_take_of_le inText]
    refine .inl ⟨before,text.drop i,⟨?_,fun p earlier => passed p (by omega)⟩,by simp only; omega⟩
    rw [← List.append_assoc,same,List.take_append_drop]
  · rename_i part
    simp only at part
    refine .inr ⟨?_,rfl⟩
    rintro ⟨before,after,whole⟩
    have size : before.length + key.length ≤ text.length := by
      rw [← whole,List.length_append,List.length_append]
      omega
    exact passed before.length (by omega) (Tokens.dropPlace (by rw [← List.append_assoc,whole]))

def Shortens (table : Nat → Int) (n : Nat) : Prop := ∀ j < n, -1 ≤ table j ∧ table j < j

theorem searchEnds (shortens : Shortens table key.length) (bounds : -1 ≤ j ∧ i ≤ text.length)
    (enough : 2 * ((text.length : Int) - i) + j + 1 < fuel) : ∃ ended, search table text key fuel i j = some ended := by
  induction fuel generalizing i j with
  | zero => omega
  | succ fuel ih =>
    rw [search]
    split
    · rename_i inside
      split
      · exact ih (by omega) (by omega)
      · rename_i stops
        have shorter := shortens j.toNat (by omega)
        exact ih (by omega) (by omega)
    · exact ⟨_,rfl⟩

theorem searchLater (shortens : Shortens table key.length) (low : -1 ≤ j) {ended : Nat × Int}
    (result : search table text key fuel i j = some ended) :
    located key ended = -1 ∨ (i : Int) - j ≤ located key ended := by
  induction fuel generalizing i j with
  | zero => cases result
  | succ fuel ih =>
    rw [search] at result
    split at result
    · rename_i inside
      split at result
      · have later := ih (by omega) result
        omega
      · rename_i stops
        have shorter := shortens j.toNat (by omega)
        have later := ih shorter.1 result
        omega
    · cases result
      unfold located
      split
      · rename_i whole
        exact .inr (Int.le_of_eq (congrArg (fun n => (i : Int) - n) whole))
      · exact .inl rfl

theorem searchRight (reached : Searched text key i j) (shortens : Shortens table key.length)
    (harmless : ∀ at_ ∈ fallbacks table text key fuel i j, Harmless text key at_.1 at_.2 (table at_.2))
    {ended : Nat × Int} (result : search table text key fuel i j = some ended) :
    Located text key (located key ended) := by
  induction fuel generalizing i j with
  | zero => cases result
  | succ fuel ih =>
    rw [search] at result
    rw [fallbacks] at harmless
    split at result
    · rename_i inside
      rw [if_pos inside] at harmless
      split at result
      · rename_i goes
        rw [if_pos goes] at harmless
        exact ih (searchedGoes reached inside goes) harmless result
      · rename_i stops
        rw [if_neg stops] at harmless
        have bounds := reached.bounds
        obtain ⟨n,rfl⟩ := Int.eq_ofNat_of_zero_le (show 0 ≤ j by omega)
        have falls := searchedFalls reached (shortens n (by omega)) (harmless (i,n) List.mem_cons_self)
        exact ih falls (fun at_ member => harmless at_ (List.mem_cons_of_mem _ member)) result
    · rename_i ends
      cases result
      exact searchedEnds reached ends

theorem searchRest {n : Nat} (inText : i ≤ text.length) (inKey : n ≤ key.length)
    (rest : key.drop n <+: text.drop i) {ended : Nat × Int} (result : search table text key fuel i n = some ended) :
    located key ended = (i : Int) - n := by
  induction fuel generalizing i n with
  | zero => cases result
  | succ fuel ih =>
    rw [search] at result
    rcases Nat.eq_or_lt_of_le inKey with whole | part
    · rw [if_neg (by omega)] at result
      cases result
      unfold located
      rw [if_pos (congrArg Nat.cast whole),whole]
    · have size := rest.length_le
      rw [List.length_drop,List.length_drop] at size
      have inside : i < text.length := by omega
      have same : text[i]? = key[n]? := by
        rw [List.drop_eq_getElem_cons inside,List.drop_eq_getElem_cons part,List.cons_prefix_cons] at rest
        rw [List.getElem?_eq_getElem inside,List.getElem?_eq_getElem part,rest.1]
      rw [if_pos (by omega),if_pos (.inr same)] at result
      have later := ih (n := n + 1) inside part ((restFollows inside part same).mpr rest) result
      omega

theorem searchWrong (shortens : Shortens table key.length) (bounds : -1 ≤ j ∧ j ≤ i) {ended : Nat × Int}
    (result : search table text key fuel i j = some ended) (right : Located text key (located key ended)) :
    ∀ at_ ∈ fallbacks table text key fuel i j, Harmless text key at_.1 at_.2 (table at_.2) := by
  induction fuel generalizing i j with
  | zero => cases result
  | succ fuel ih =>
    rw [search] at result
    rw [fallbacks]
    split
    · rename_i inside
      rw [if_pos inside] at result
      split
      · rename_i goes
        rw [if_pos goes] at result
        exact ih (by omega) result
      · rename_i stops
        rw [if_neg stops] at result
        have shorter := shortens j.toNat (by omega)
        rw [List.forall_mem_cons]
        refine ⟨⟨fun p before _ occurs => ?_,fun some rest => ?_⟩,ih (by omega) result⟩
        · have later := searchLater shortens shorter.1 result
          simp only at before
          exact locatedNone right occurs (by omega)
        · obtain ⟨n,same⟩ := Int.eq_ofNat_of_zero_le some
          rw [same] at result rest shorter ⊢
          rw [Int.toNat_natCast] at rest ⊢
          have found := searchRest (Nat.le_of_lt inside.1) (by omega) rest result
          rw [found,← Int.ofNat_sub (by omega)] at right
          have here := occurrenceBorder (k := n) (locatedHere right) (by omega)
          rw [Nat.sub_add_cancel (by omega)] at here
          exact here.1
    · intro at_ member
      cases member

theorem ownHarmless {n : Nat} (inKey : n < key.length) (long : key.take n <:+ text.take i)
    (differ : text[i]? ≠ key[n]?) : Harmless text key i n (fail key n) := by
  refine ⟨fun p before _ occurs => ?_,fun some _ => matchFalls long some⟩
  · have some : p ≤ i := by
      rcases failBack key n with none | ⟨k,-,same,-⟩ <;> omega
    obtain ⟨short,same⟩ := occurrenceBorder (k := i - p) occurs (by omega)
    rw [Nat.add_sub_cancel' some] at short same
    rcases Nat.eq_or_lt_of_le (show i - p ≤ n by omega) with whole | shorter
    · rw [whole] at same
      exact differ same
    · have greatest := failGreatest shorter ⟨shorterBorder long short (by omega),same ▸ differ⟩
      omega

theorem failShortens (key : List α) (n : Nat) : Shortens (fail key) n := by
  intro j _
  rcases failBack key j with none | ⟨k,below,same,-⟩ <;> omega

theorem ownFallbacks (low : -1 ≤ j) (long : 0 ≤ j → key.take j.toNat <:+ text.take i) :
    ∀ at_ ∈ fallbacks (fail key) text key fuel i j, Harmless text key at_.1 at_.2 (fail key at_.2) := by
  induction fuel generalizing i j with
  | zero =>
    intro at_ member
    cases member
  | succ fuel ih =>
    rw [fallbacks]
    split
    · rename_i inside
      split
      · rename_i goes
        exact ih (by omega) fun _ => matchGoes low inside.1 inside.2 long goes
      · rename_i stops
        obtain ⟨notFront,differ⟩ := not_or.mp stops
        have matched := long (by omega)
        rw [List.forall_mem_cons]
        have shorter := failShortens key key.length j.toNat (by omega)
        exact ⟨ownHarmless (by omega) matched differ,ih shorter.1 (matchFalls matched)⟩
    · intro at_ member
      cases member

/-- Where the search by the word's own failures falls back: j letters stand before place i, no longer beginning of
the word goes on there, the next longer one is followed by another letter than they are, and no place before theirs
is the word's. -/
structure Breaks (text key : List α) (i j : Nat) : Prop where
  stands : key.take j <:+ text.take i
  differs : text[i]? ≠ key[j]?
  longer : ∀ k < key.length, j < k → key.take k <:+ text.take i → text[i]? ≠ key[k]?
  next : ∀ k < key.length, j < k → key.take k <:+ text.take i →
    (∀ l < k, j < l → ¬ key.take l <:+ text.take i) → key[k]? ≠ key[j]?
  before : ∀ p < i - j, ¬ key <+: text.drop p

structure Tried (text key : List α) (i : Nat) (j : Int) : Prop where
  low : -1 ≤ j
  stands : 0 ≤ j → key.take j.toNat <:+ text.take i
  longer : ∀ k < key.length, j < k → key.take k <:+ text.take i → text[i]? ≠ key[k]?
  next : 0 ≤ j → ∀ k < key.length, j < k → key.take k <:+ text.take i →
    (∀ l < k, j < l → ¬ key.take l <:+ text.take i) → key[k]? ≠ key[j.toNat]?
  before : ∀ p : Nat, (p : Int) < i - j → ¬ key <+: text.drop p

omit [DecidableEq α] in
theorem triedStart : Tried text key 0 0 where
  low := by decide
  stands _ := List.nil_suffix
  longer k inside above stands := by
    have none := stands.length_le
    rw [List.length_take,List.take_zero,List.length_nil] at none
    omega
  next _ k inside above stands := by
    have none := stands.length_le
    rw [List.length_take,List.take_zero,List.length_nil] at none
    omega
  before p earlier := by omega

omit [DecidableEq α] in
theorem goesShorter (tried : Tried text key i j) (inText : i < text.length) {k : Nat} (inKey : k < key.length)
    (above : j + 1 < k) : ¬ key.take k <:+ text.take (i + 1) := by
  have low := tried.low
  intro stands
  obtain ⟨n,rfl⟩ : ∃ n, k = n + 1 := ⟨k - 1,by omega⟩
  obtain ⟨short,same⟩ := (borderNext inText (by omega)).mp stands
  exact tried.longer n (by omega) (by omega) short same

omit [DecidableEq α] in
theorem triedGoes (tried : Tried text key i j) (inside : i < text.length ∧ j < key.length)
    (goes : j = -1 ∨ text[i]? = key[j.toNat]?) : Tried text key (i + 1) (j + 1) := by
  have low := tried.low
  have shorter : ∀ k < key.length, j + 1 < k → ¬ key.take k <:+ text.take (i + 1) :=
    fun k inKey above => goesShorter tried inside.1 inKey above
  refine ⟨by omega,fun _ => matchGoes low inside.1 inside.2 tried.stands goes,?_,?_,?_⟩
  · exact fun k inKey above stands => absurd stands (shorter k inKey above)
  · exact fun _ k inKey above stands => absurd stands (shorter k inKey above)
  · exact fun p earlier => tried.before p (by omega)

omit [DecidableEq α] in
theorem triedBreaks {n : Nat} (tried : Tried text key i n) (differs : text[i]? ≠ key[n]?) : Breaks text key i n where
  stands := tried.stands (Int.natCast_nonneg n)
  differs := differs
  longer k inKey above := tried.longer k inKey (by omega)
  next k inKey above stands none := tried.next (Int.natCast_nonneg n) k inKey (by omega) stands
    fun l below above_ => none l below (by omega)
  before p earlier := tried.before p (by omega)

theorem betweenSame {n k : Nat} (breaks : Breaks text key i n) (below : k < n) (above : fail key n < k)
    (stands : key.take k <:+ text.take i) : key[k]? = key[n]? := by
  by_contra differ
  have greatest := failGreatest below ⟨shorterBorder breaks.stands stands (Nat.le_of_lt below),differ⟩
  omega

theorem triedFalls {n : Nat} (tried : Tried text key i n) (inKey : n < key.length) (differs : text[i]? ≠ key[n]?) :
    Tried text key i (fail key n) := by
  have breaks := triedBreaks tried differs
  have harmless := ownHarmless inKey breaks.stands differs
  refine ⟨(failShortens key key.length n inKey).1,fun _ => matchFalls breaks.stands ‹_›,?_,?_,?_⟩
  · intro k inside above stands
    rcases Nat.lt_trichotomy k n with below | rfl | longer
    · rw [betweenSame breaks below above stands]
      exact differs
    · exact differs
    · exact breaks.longer k inside longer stands
  · intro some k inside above stands none
    rcases failBack key n with front | ⟨b,below,same,back⟩
    · omega
    · rw [same,Int.toNat_natCast]
      rw [same] at above none
      rcases Nat.lt_trichotomy k n with shorter | rfl | longer
      · rw [betweenSame breaks shorter (by omega) stands]
        exact back.2.symm
      · exact back.2.symm
      · exact absurd breaks.stands (none n longer (by omega))
  · intro p earlier
    rcases Int.lt_or_le p (i - n) with passed | given
    · exact tried.before p passed
    · exact harmless.gives p (by omega) (by omega)

theorem agreesHarmless (tried : Tried text key i j)
    (agrees : ∀ i < text.length, ∀ j < key.length, Breaks text key i j → table j = fail key j) :
    ∀ at_ ∈ fallbacks table text key fuel i j, Harmless text key at_.1 at_.2 (table at_.2) := by
  induction fuel generalizing i j with
  | zero =>
    intro at_ member
    cases member
  | succ fuel ih =>
    rw [fallbacks]
    split
    · rename_i inside
      split
      · exact ih (triedGoes tried inside ‹_›)
      · rename_i stops
        obtain ⟨notFront,differs⟩ := not_or.mp stops
        have low := tried.low
        obtain ⟨n,rfl⟩ := Int.eq_ofNat_of_zero_le (show 0 ≤ j by omega)
        have inKey : n < key.length := by omega
        rw [Int.toNat_natCast] at differs ⊢
        have breaks := triedBreaks tried differs
        have same := agrees i inside.1 n inKey breaks
        rw [List.forall_mem_cons]
        refine ⟨?_,ih (same ▸ triedFalls tried inKey differs)⟩
        rw [same]
        exact ownHarmless inKey breaks.stands differs
    · intro at_ member
      cases member

omit [DecidableEq α] in
theorem nextStands {a b n : Nat} (below : b < n) (stands : key.take n <:+ text.take a) :
    ∃ k ≤ n, b < k ∧ key.take k <:+ text.take a ∧ ∀ l < k, b < l → ¬ key.take l <:+ text.take a := by
  classical
  have somewhere : ∃ k, b < k ∧ key.take k <:+ text.take a := ⟨n,below,stands⟩
  obtain ⟨above,there⟩ := Nat.find_spec somewhere
  refine ⟨Nat.find somewhere,Nat.find_le ⟨below,stands⟩,above,there,fun l less above_ here => ?_⟩
  exact Nat.find_min somewhere less ⟨above_,here⟩

theorem breaksTried (tried : Tried text key i j) {a b : Nat} (inText : a < text.length) (inKey : b < key.length)
    (breaks : Breaks text key a b) (later : i < a ∨ i = a ∧ b ≤ j) (short : j ≤ key.length)
    (enough : 2 * ((text.length : Int) - i) + j + 1 < fuel) : (a,b) ∈ fallbacks (fail key) text key fuel i j := by
  have low := tried.low
  induction fuel generalizing i j with
  | zero => omega
  | succ fuel ih =>
    have inside : i < text.length ∧ j < key.length := by
      refine ⟨by omega,?_⟩
      rcases Int.lt_or_eq_of_le short with part | rfl
      · exact part
      exfalso
      have stands := tried.stands (by omega)
      rw [Int.toNat_natCast,List.take_length] at stands
      obtain ⟨front,same⟩ := stands
      have size : front.length + key.length = i := by
        rw [← List.length_append,same,List.length_take_of_le (by omega)]
      refine breaks.before front.length (by omega) ?_
      refine Tokens.dropPlace (show text = front ++ (key ++ text.drop i) from ?_)
      rw [← List.append_assoc,same,List.take_append_drop]
    rw [fallbacks,if_pos inside]
    split
    · rename_i goes
      refine ih (triedGoes tried inside goes) ?_ (by omega) (by omega) (by omega)
      rcases later with after | ⟨rfl,most⟩
      · rcases Nat.eq_or_lt_of_le (Nat.succ_le_of_lt after) with rfl | further
        · refine .inr ⟨rfl,Int.not_lt.mp fun above => ?_⟩
          exact goesShorter tried inside.1 inKey above breaks.stands
        · exact .inl further
      · have some : ¬ j = -1 := by omega
        have same := goes.resolve_left some
        rcases Int.lt_or_le b j with less | equal
        · exact absurd same (breaks.longer j.toNat (by omega) (by omega) (tried.stands (by omega)))
        · rw [show j.toNat = b by omega] at same
          exact absurd same breaks.differs
    · rename_i stops
      obtain ⟨notFront,differs⟩ := not_or.mp stops
      obtain ⟨n,rfl⟩ := Int.eq_ofNat_of_zero_le (show 0 ≤ j by omega)
      rw [Int.toNat_natCast] at differs ⊢
      have shorter := failShortens key key.length n (by omega)
      rw [List.mem_cons]
      by_cases here : i = a ∧ b = n
      · exact .inl (by rw [here.1,here.2])
      · refine .inr (ih (triedFalls tried (by omega) differs) ?_ (by omega) (by omega) shorter.1)
        rcases later with after | ⟨rfl,most⟩
        · exact .inl after
        · refine .inr ⟨rfl,?_⟩
          have stands := tried.stands (Int.natCast_nonneg n)
          rw [Int.toNat_natCast] at stands
          obtain ⟨k,atMost,above,there,none⟩ := nextStands (show b < n by omega) stands
          have other := breaks.next k (by omega) above there none
          by_cases last : key[k]? = key[n]?
          · refine failGreatest (by omega) ⟨shorterBorder stands breaks.stands (by omega),fun same => ?_⟩
            exact other (last.trans same.symm)
          · rcases Nat.eq_or_lt_of_le atMost with rfl | less
            · exact absurd rfl last
            · have greatest := failGreatest less ⟨shorterBorder stands there (Nat.le_of_lt less),last⟩
              omega

theorem agreesLooked (enough : 2 * text.length + 1 < fuel) :
    (∀ at_ ∈ fallbacks table text key fuel 0 0, table at_.2 = fail key at_.2) ↔
      ∀ i < text.length, ∀ j < key.length, Breaks text key i j → table j = fail key j := by
  have alike : ∀ {fuel i j}, Tried text key i j →
      ((∀ at_ ∈ fallbacks table text key fuel i j, table at_.2 = fail key at_.2) ∨
        ∀ i < text.length, ∀ j < key.length, Breaks text key i j → table j = fail key j) →
      fallbacks table text key fuel i j = fallbacks (fail key) text key fuel i j ∧
        ∀ at_ ∈ fallbacks table text key fuel i j, table at_.2 = fail key at_.2 := by
    intro fuel i j tried either
    induction fuel generalizing i j with
    | zero => exact ⟨rfl,nofun⟩
    | succ fuel ih =>
      rw [fallbacks,fallbacks]
      rw [fallbacks] at either
      split
      · rename_i inside
        rw [if_pos inside] at either
        split
        · rename_i goes
          rw [if_pos goes] at either
          exact ih (triedGoes tried inside goes) either
        · rename_i stops
          rw [if_neg stops] at either
          obtain ⟨notFront,differs⟩ := not_or.mp stops
          have low := tried.low
          obtain ⟨n,rfl⟩ := Int.eq_ofNat_of_zero_le (show 0 ≤ j by omega)
          have inKey : n < key.length := by omega
          rw [Int.toNat_natCast] at differs either ⊢
          have same : table n = fail key n := by
            rcases either with looked | agrees
            · exact looked _ List.mem_cons_self
            · exact agrees i inside.1 n inKey (triedBreaks tried differs)
          obtain ⟨kept,rest⟩ := ih (same ▸ triedFalls tried inKey differs)
            (either.imp_left fun looked at_ member => looked at_ (List.mem_cons_of_mem _ member))
          rw [List.forall_mem_cons]
          refine ⟨?_,same,rest⟩
          rw [kept,same]
      · exact ⟨rfl,nofun⟩
  constructor
  · intro looked i inText j inKey breaks
    obtain ⟨same,-⟩ := alike triedStart (.inl looked)
    have later : 0 < i ∨ 0 = i ∧ (j : Int) ≤ 0 := by
      rcases Nat.eq_zero_or_pos i with rfl | after
      · have none := breaks.stands.length_le
        rw [List.length_take,List.take_zero,List.length_nil] at none
        omega
      · exact .inl after
    have member := @breaksTried _ _ _ _ fuel _ _ triedStart _ _ inText inKey breaks later (by omega) (by omega)
    exact looked _ (same ▸ member)
  · exact fun agrees => (alike triedStart (.inr agrees)).2

end Search

section Table
variable {key : List α} {i : Nat} {j : Int}

structure Building (key : List α) (i : Nat) (j : Int) : Prop where
  bounds : -1 ≤ j ∧ j < i
  suffix : 0 ≤ j → key.take j.toNat <:+ key.take i
  longest : ∀ k < i, key.take (k + 1) <:+ key.take (i + 1) → (k : Int) ≤ j

omit [DecidableEq α] in
theorem buildingStart (key : List α) : Building key 0 (-1) where
  bounds := by decide
  suffix := fun some => by omega
  longest := fun k below => by omega

omit [DecidableEq α] in
theorem buildingGoes (built : Building key i j) (inside : i + 1 < key.length)
    (goes : j = -1 ∨ key[i]? = key[j.toNat]?) : Building key (i + 1) (j + 1) := by
  obtain ⟨bounds,suffix,longest⟩ := built
  refine ⟨by omega,fun _ => ?_,fun k below longer => ?_⟩
  · exact matchGoes bounds.1 (by omega) (by omega) suffix goes
  · have border := ((borderNext inside (by omega)).mp longer).1
    cases k with
    | zero => omega
    | succ k =>
      have upper := longest k (by omega) border
      omega

theorem buildingFalls (built : Building key i j) (inside : i < key.length)
    (stops : ¬ (j = -1 ∨ key[i]? = key[j.toNat]?)) : Building key i (fail key j.toNat) := by
  obtain ⟨bounds,suffix,longest⟩ := built
  obtain ⟨notFront,differ⟩ := not_or.mp stops
  obtain ⟨n,rfl⟩ := Int.eq_ofNat_of_zero_le (show 0 ≤ j by omega)
  rw [Int.toNat_natCast] at suffix differ ⊢
  have long := suffix (Int.natCast_nonneg n)
  refine ⟨?_,matchFalls long,fun k below longer => ?_⟩
  · rcases failBack key n with none | ⟨k,below,same,-⟩ <;> omega
  · obtain ⟨short,same⟩ := (borderNext inside (by omega)).mp longer
    have upper := longest k below longer
    rcases Nat.eq_or_lt_of_le (show k ≤ n by omega) with rfl | shorter
    · exact absurd same differ
    · exact failGreatest shorter ⟨shorterBorder long short (by omega),same ▸ differ⟩

omit [DecidableEq α] in
theorem buildingLongest (built : Building key i j) {k : Nat} (below : k < i + 1)
    (border : key.take k <:+ key.take (i + 1)) : (k : Int) ≤ j + 1 := by
  have bounds := built.bounds
  cases k with
  | zero => omega
  | succ k =>
    have upper := built.longest k (by omega) border
    omega

theorem buildingEntry {n : Nat} (built : Building key i n)
    (longest : ∀ k < i, key.take k <:+ key.take i → k ≤ n) :
    (if key[i]? ≠ key[n]? then (n : Int) else fail key n) = fail key i := by
  have below : n < i := by exact_mod_cast built.bounds.2
  have border : key.take n <:+ key.take i := built.suffix (Int.natCast_nonneg n)
  apply failUnique
  · intro k shorter back
    have upper := longest k shorter back.1
    split
    · omega
    · rename_i same
      rw [not_not] at same
      rcases Nat.eq_or_lt_of_le upper with rfl | less
      · exact absurd same.symm back.2
      · exact failGreatest less ⟨shorterBorder border back.1 upper,same ▸ back.2⟩
  · split
    · rename_i differ
      exact .inr ⟨n,below,rfl,border,Ne.symm differ⟩
    · rename_i same
      rw [not_not] at same
      rcases failBack key n with none | ⟨k,less,found,back⟩
      · exact .inl none
      · exact .inr ⟨k,by omega,found,back.1.trans border,same ▸ back.2⟩

end Table

end Kmp
