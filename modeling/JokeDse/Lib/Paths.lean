import Mathlib.Data.List.Basic

/-! Paths as characters: what a path comes to when `.`, `..` and separators are resolved, and names that
lead from a directory to something inside it. -/
namespace Paths

variable {α : Type} [DecidableEq α]

def enter (dot : α) (dir : List (List α)) (name : List α) : List (List α) :=
  if name = [] ∨ name = [dot] then dir
  else if name = [dot,dot] then dir.dropLast
  else dir ++ [name]

def walk (dot : α) (dir names : List (List α)) : List (List α) := names.foldl (enter dot) dir

def resolve (sep : α → Bool) (dot : α) (path : List α) : List (List α) :=
  match path.splitOnP sep with
  | [] => []
  | root :: names => root :: walk dot [] names

def Inside (sep : α → Bool) (dot : α) (dir path : List α) : Prop :=
  resolve sep dot dir <+: resolve sep dot path ∧ resolve sep dot dir ≠ resolve sep dot path

instance (sep : α → Bool) (dot : α) (dir path : List α) : Decidable (Inside sep dot dir path) :=
  inferInstanceAs (Decidable (_ ∧ _))

/-- Components that never lead above the directory they start from, and end below it; `depth` of them
have been entered so far. -/
def descends (dot : α) : (names : List (List α)) → (depth : Nat) → Bool
  | [], depth => depth != 0
  | name :: names, depth =>
    if name = [] ∨ name = [dot] then descends dot names depth
    else if name = [dot,dot] then depth != 0 && descends dot names (depth - 1)
    else descends dot names (depth + 1)

def joined (sep : α → Bool) (dir name : List α) : Bool := dir.getLast?.any sep || name.head?.any sep

theorem walkAppend (dot : α) (dir a b : List (List α)) : walk dot dir (a ++ b) = walk dot (walk dot dir a) b :=
  List.foldl_append

theorem walkDescends {dot : α} {names : List (List α)} (dir below : List (List α))
    (down : descends dot names below.length = true) :
    ∃ last, last ≠ [] ∧ walk dot (dir ++ below) names = dir ++ last := by
  induction names generalizing below with
  | nil =>
    refine ⟨below,?_,rfl⟩
    rintro rfl
    contradiction
  | cons name names ih =>
    unfold descends at down
    unfold walk
    rw [List.foldl_cons,enter]
    by_cases stay : name = [] ∨ name = [dot]
    · rw [if_pos stay] at down ⊢
      exact ih _ down
    · rw [if_neg stay] at down ⊢
      by_cases up : name = [dot,dot]
      · rw [if_pos up,Bool.and_eq_true,bne_iff_ne] at down
        have some : below ≠ [] := fun none => down.1 (by rw [none,List.length_nil])
        rw [if_pos up,List.dropLast_append_of_ne_nil some]
        exact ih _ (by rw [List.length_dropLast]; exact down.2)
      · rw [if_neg up] at down ⊢
        rw [List.append_assoc]
        exact ih _ (by rw [List.length_append]; exact down)

section Join
variable {sep : α → Bool} {dot : α} {dir name : List α}

theorem walkEmpty (start names : List (List α)) :
    walk dot start ([] :: names) = walk dot start names := by
  unfold walk
  rw [List.foldl_cons,enter,if_pos (.inl rfl)]

theorem joinedComponents (dot : α) (separated : joined sep dir name = true) :
    ∃ root before behind, dir.splitOnP sep = root :: before ∧ (dir ++ name).splitOnP sep = root :: behind ∧
      ∀ start, walk dot start behind = walk dot (walk dot start before) (name.splitOnP sep) := by
  unfold joined at separated
  rcases Bool.or_eq_true_iff.mp separated with ends | begins
  · obtain ⟨c,last,mark⟩ := (Option.any_eq_true _ _).mp ends
    obtain ⟨front,rfl⟩ := List.getLast?_eq_some_iff.mp last
    obtain ⟨root,before,here⟩ := List.exists_cons_of_ne_nil (List.splitOnP_ne_nil sep front)
    refine ⟨root,before ++ [[]],before ++ name.splitOnP sep,?_,?_,?_⟩
    · rw [List.splitOnP_append_cons front [] mark,here,List.splitOnP_nil,List.cons_append]
    · rw [List.append_assoc,List.singleton_append,List.splitOnP_append_cons front name mark,here,List.cons_append]
    · intro start
      rw [walkAppend,walkAppend,walkEmpty]
      rfl
  · cases name with
    | nil => contradiction
    | cons c name =>
      have splits : (c :: name).splitOnP sep = [] :: name.splitOnP sep := List.splitOnP_append_cons [] name begins
      obtain ⟨root,before,here⟩ := List.exists_cons_of_ne_nil (List.splitOnP_ne_nil sep dir)
      refine ⟨root,before,before ++ name.splitOnP sep,here,?_,?_⟩
      · rw [List.splitOnP_append_cons dir name begins,here,List.cons_append]
      · intro start
        rw [splits,walkEmpty,walkAppend]

theorem joinedInside (separated : joined sep dir name = true) (down : descends dot (name.splitOnP sep) 0 = true) :
    Inside sep dot dir (dir ++ name) := by
  obtain ⟨root,before,behind,dir_,path,walks⟩ := joinedComponents dot separated
  obtain ⟨last,some,there⟩ := walkDescends (walk dot [] before) [] down
  have deeper : resolve sep dot (dir ++ name) = resolve sep dot dir ++ last := by
    rw [List.append_nil] at there
    simp only [resolve,dir_,path]
    rw [walks,there,List.cons_append]
  constructor
  · exact ⟨last,deeper.symm⟩
  · rw [deeper]
    exact fun same => some (List.self_eq_append_right.mp same)

end Join

end Paths
