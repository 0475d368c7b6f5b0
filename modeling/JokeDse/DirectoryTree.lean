import JokeDse.CharWidth
import Mathlib.Data.List.Infix

/-! Utility: CreateDirectoryTree, over a disk where directories exist or not. A string is its characters, the
separator one of them. -/
namespace JokeDse

section Model
variable {α δ : Type} [DecidableEq α] [DecidableEq δ]

/-- `strcpy_s` and `strcat_s` into so many characters: what does not fit ends the process. -/
def copyBounded (size : Nat) (s : List α) : Except Stop (List α) :=
  if s.length < size then .ok s else .error .invalidParameter

def putChar (size : Nat) (s : List α) (ch : α) : Except Stop (List α) :=
  if s.length + 1 < size then .ok (s ++ [ch]) else .error .accessViolation

def closeDir (strDir : List α) (szSeperator : α) : Except Stop (List α) := do
  let szDir ← copyBounded 1024 strDir
  match szDir.getLast? with
  | none => .error .accessViolation
  | some last => if last ≠ szSeperator then putChar 1024 szDir szSeperator else .ok szDir

def collectDirs (szSeperator : α) : List α → List α → List (List α) → Except Stop (Option (List (List α)))
  | [], _, dirArray => .ok (some dirArray)
  | ch :: rest, tempDir, dirArray =>
    if ch ≠ szSeperator then do
      let tempDir ← putChar 260 tempDir ch
      collectDirs szSeperator rest tempDir dirArray
    else if dirArray.length ≥ 256 then .ok none
    else do
      let dir ← copyBounded 256 tempDir
      let tempDir ← copyBounded 256 (tempDir ++ [szSeperator])
      collectDirs szSeperator rest tempDir (dirArray ++ [dir])

def parentDir (szSeperator : α) (path : List α) : List α := ((path.reverse.dropWhile (· != szSeperator)).drop 1).reverse

variable (place : List α → δ) (there : δ → Bool)

def pathFileExists (made : List (List α)) (path : List α) : Bool :=
  there (place path) || (made.map place).contains (place path)

def createDirectory (szSeperator : α) (made : List (List α)) (path : List α) : Bool × List (List α) :=
  if !pathFileExists place there made path && pathFileExists place there made (parentDir szSeperator path) then
    (true,made ++ [path])
  else (false,made)

def createDirs (szSeperator : α) : List (List α) → Bool → List (List α) → Bool × List (List α)
  | [], bRet, made => (bRet,made)
  | dir :: dirs, bRet, made =>
    if !pathFileExists place there made dir then
      let created := createDirectory place there szSeperator made dir
      createDirs szSeperator dirs created.1 created.2
    else createDirs szSeperator dirs bRet made

def createDirectoryTree (strDir : List α) (szSeperator : α) : Except Stop (Bool × List (List α)) := do
  let szDir ← closeDir strDir szSeperator
  match ← collectDirs szSeperator szDir [] [] with
  | none => .ok (false,[])
  | some dirArray => .ok (createDirs place there szSeperator dirArray false [])

end Model

section Versions
variable {δ : Type} [DecidableEq δ]

def createDirectoryTreeA (place : List (Cell .narrow) → δ) := createDirectoryTree place
def createDirectoryTreeW (place : List (Cell .wide) → δ) := createDirectoryTree place

end Versions

section Spec
variable {α δ : Type} [DecidableEq α] [DecidableEq δ] (place : List α → δ) (there : δ → Bool) (sep : α)

def closed (strDir : List α) : List α := if strDir.getLast? = some sep then strDir else strDir ++ [sep]

structure TreeBuilt (dir : List α) (made : List (List α)) : Prop where
  exist : ∀ p, p ++ [sep] <+: dir → pathFileExists place there made p = true
  missing : ∀ p ∈ made, there (place p) = false ∧ p ++ [sep] <+: dir
  once : (made.map place).Nodup
  inside : ∀ before p after, made = before ++ p :: after →
    pathFileExists place there before (parentDir sep p) = true

def prefixes : List α → List α → List (List α)
  | _, [] => []
  | tempDir, ch :: rest =>
    if ch = sep then tempDir :: prefixes (tempDir ++ [ch]) rest else prefixes (tempDir ++ [ch]) rest

variable {place there sep} {rest tempDir : List α} {dirArray made : List (List α)}

theorem collectGoes (short : tempDir.length + rest.length ≤ 255) (few : dirArray.length + rest.count sep ≤ 256) :
    collectDirs sep rest tempDir dirArray = .ok (some (dirArray ++ prefixes sep tempDir rest)) := by
  induction rest generalizing tempDir dirArray with
  | nil => simp [collectDirs,prefixes]
  | cons ch rest ih =>
    rw [List.length_cons] at short
    have next : (tempDir ++ [ch]).length + rest.length ≤ 255 := by
      rw [List.length_append,List.length_singleton]
      omega
    rw [collectDirs,prefixes]
    by_cases ends : ch = sep
    · subst ends
      rw [List.count_cons_self] at few
      have copied : copyBounded 256 tempDir = .ok tempDir := by
        rw [copyBounded,if_pos (by omega)]
      have joined : copyBounded 256 (tempDir ++ [ch]) = .ok (tempDir ++ [ch]) := by
        rw [copyBounded,if_pos (by omega)]
      rw [if_neg (not_not.mpr rfl),if_neg (by omega),if_pos rfl,copied,joined]
      simp only [bind,Except.bind]
      rw [ih next (by rw [List.length_append,List.length_singleton]; omega),List.append_assoc]
      rfl
    · rw [List.count_cons_of_ne ends] at few
      rw [if_pos ends,if_neg ends,putChar,if_pos (by omega)]
      exact ih next few

theorem collectStops (long : 256 ≤ tempDir.length + rest.length) (few : dirArray.length + rest.count sep ≤ 256)
    (ends : rest.getLast? = some sep) : ∃ why, collectDirs sep rest tempDir dirArray = .error why := by
  induction rest generalizing tempDir dirArray with
  | nil => cases ends
  | cons ch rest ih =>
    rw [List.length_cons] at long
    have next : 256 ≤ (tempDir ++ [ch]).length + rest.length := by
      rw [List.length_append,List.length_singleton]
      omega
    rw [collectDirs]
    by_cases here : ch = sep
    · subst here
      rw [List.count_cons_self] at few
      rw [if_neg (not_not.mpr rfl),if_neg (by omega)]
      simp only [copyBounded,List.length_append,List.length_singleton]
      by_cases fits : tempDir.length + 1 < 256
      · have more : rest ≠ [] := by
          rintro rfl
          rw [List.length_nil] at long
          omega
        have later : rest.getLast? = some ch := by
          rwa [List.getLast?_cons_of_ne_nil more] at ends
        rw [if_pos (by omega),if_pos fits]
        exact ih next (by rw [List.length_append,List.length_singleton]; omega) later
      · by_cases copied : tempDir.length < 256
        · rw [if_pos copied,if_neg fits]
          exact ⟨_,rfl⟩
        · rw [if_neg copied]
          exact ⟨_,rfl⟩
    · rw [List.count_cons_of_ne here] at few
      have more : rest ≠ [] := by
        rintro rfl
        exact here (Option.some.inj ends)
      have later : rest.getLast? = some sep := by
        rwa [List.getLast?_cons_of_ne_nil more] at ends
      rw [if_pos here,putChar]
      split
      · exact ih next few later
      · exact ⟨_,rfl⟩

section Built
variable {dir : List α}

omit [DecidableEq α] in
theorem existsMore {p q : List α} (here : pathFileExists place there made p = true) :
    pathFileExists place there (made ++ [q]) p = true := by
  unfold pathFileExists at here ⊢
  rw [Bool.or_eq_true] at here ⊢
  rcases here with before | since
  · exact .inl before
  · rw [List.contains_iff_mem] at since ⊢
    rw [List.map_append]
    exact .inr (List.mem_append_left _ since)

omit [DecidableEq α] in
theorem existsMade (p : List α) : pathFileExists place there (made ++ [p]) p = true := by
  rw [pathFileExists,List.map_append,Bool.or_eq_true,List.contains_iff_mem]
  exact .inr (List.mem_append_right _ (List.mem_singleton_self _))

theorem parentEnds (inside : sep ∈ dir) : parentDir sep dir ++ [sep] <+: dir := by
  have parts : dir.reverse.takeWhile (· != sep) ++ dir.reverse.dropWhile (· != sep) = dir.reverse :=
    List.takeWhile_append_dropWhile
  cases left : dir.reverse.dropWhile (· != sep) with
  | nil =>
    rw [List.dropWhile_eq_nil_iff] at left
    have other := left sep (List.mem_reverse.mpr inside)
    rw [bne_self_eq_false] at other
    cases other
  | cons c w =>
    have first := List.head?_dropWhile_not (· != sep) dir.reverse
    rw [left] at first parts
    have here : c = sep := by simpa using first
    subst here
    rw [parentDir,left,List.drop_one,List.tail_cons,← List.reverse_reverse dir,← parts,List.reverse_append,
      List.reverse_cons]
    exact List.prefix_append _ _

omit [DecidableEq α] in
theorem prefixNext {p : List α} {ch : α} (ends : p ++ [sep] <+: dir ++ [ch]) :
    p ++ [sep] <+: dir ∨ p = dir ∧ ch = sep := by
  rcases List.prefix_concat_iff.mp ends with whole | before
  · obtain ⟨same,last⟩ := List.append_inj' whole rfl
    exact .inr ⟨same,(List.cons.inj last).1.symm⟩
  · exact .inl before

theorem builtStart : TreeBuilt place there sep [] [] where
  exist := fun p ends => by simp at ends
  missing := fun p member => by cases member
  once := List.nodup_nil
  inside := fun before p after whole => by simp at whole

theorem builtPasses {ch : α} (built : TreeBuilt place there sep dir made) (other : ch ≠ sep) :
    TreeBuilt place there sep (dir ++ [ch]) made where
  exist := fun p ends => built.exist p ((prefixNext ends).resolve_right fun here => other here.2)
  missing := fun p member => (built.missing p member).imp_right fun ends => ends.trans (List.prefix_append _ _)
  once := built.once
  inside := built.inside

theorem builtStays (built : TreeBuilt place there sep dir made) (here : pathFileExists place there made dir = true) :
    TreeBuilt place there sep (dir ++ [sep]) made where
  exist := fun p ends => by
    rcases prefixNext ends with before | ⟨rfl,-⟩
    · exact built.exist p before
    · exact here
  missing := fun p member => (built.missing p member).imp_right fun ends => ends.trans (List.prefix_append _ _)
  once := built.once
  inside := built.inside

theorem builtMakes (built : TreeBuilt place there sep dir made) (absent : pathFileExists place there made dir = false)
    (parent : pathFileExists place there made (parentDir sep dir) = true) :
    TreeBuilt place there sep (dir ++ [sep]) (made ++ [dir]) where
  exist := fun p ends => by
    rcases prefixNext ends with before | ⟨rfl,-⟩
    · exact existsMore (built.exist p before)
    · exact existsMade p
  missing := fun p member => by
    rw [pathFileExists,Bool.or_eq_false_iff] at absent
    rcases List.mem_append.mp member with earlier | last
    · exact (built.missing p earlier).imp_right fun ends => ends.trans (List.prefix_append _ _)
    · rw [List.mem_singleton.mp last]
      exact ⟨absent.1,List.prefix_rfl⟩
  once := by
    rw [pathFileExists,Bool.or_eq_false_iff] at absent
    rw [List.map_append,List.map_singleton,List.nodup_append]
    refine ⟨built.once,List.pairwise_singleton _ _,fun a member b last same => ?_⟩
    rw [List.mem_singleton.mp last] at same
    have outside := absent.2
    rw [← same,← Bool.not_eq_true,List.contains_iff_mem] at outside
    exact outside member
  inside := fun before p after whole => by
    rcases List.eq_nil_or_concat after with rfl | ⟨rest,q,rfl⟩
    · obtain ⟨rfl,same⟩ := List.append_inj' whole rfl
      cases same
      exact parent
    · rw [List.concat_eq_append,← List.cons_append,← List.append_assoc] at whole
      exact built.inside before p rest (List.append_inj' whole rfl).1

theorem builtCreates (built : TreeBuilt place there sep dir made) (drive : sep ∉ dir → there (place dir) = true)
    (absent : pathFileExists place there made dir = false) :
    TreeBuilt place there sep (dir ++ [sep]) (createDirectory place there sep made dir).2 := by
  by_cases deep : sep ∈ dir
  · have parent := built.exist _ (parentEnds deep)
    rw [createDirectory,absent,parent]
    exact builtMakes built absent parent
  · rw [pathFileExists,drive deep] at absent
    cases absent

theorem createDirsBuilt {bRet : Bool} (built : TreeBuilt place there sep tempDir made)
    (drive : there (place ((tempDir ++ rest).takeWhile (· != sep))) = true) :
    TreeBuilt place there sep (tempDir ++ rest)
      (createDirs place there sep (prefixes sep tempDir rest) bRet made).2 := by
  induction rest generalizing tempDir made bRet with
  | nil =>
    rw [List.append_nil]
    exact built
  | cons ch rest ih =>
    have whole : tempDir ++ ch :: rest = tempDir ++ [ch] ++ rest := by
      rw [List.append_assoc]
      rfl
    rw [prefixes]
    by_cases here : ch = sep
    · subst here
      rw [if_pos rfl,createDirs]
      cases known : pathFileExists place there made tempDir with
      | true =>
        rw [whole] at drive ⊢
        exact ih (builtStays built known) drive
      | false =>
        have first : ch ∉ tempDir → there (place tempDir) = true := by
          intro shallow
          rw [List.takeWhile_append_of_pos] at drive
          · simpa using drive
          · intro c member
            exact bne_iff_ne.mpr fun same => shallow (same ▸ member)
        have grown := builtCreates built first known
        rw [whole] at drive ⊢
        exact ih grown drive
    · rw [if_neg here]
      rw [whole] at drive ⊢
      exact ih (builtPasses built here) drive

end Built

theorem closeDirCloses {strDir : List α} (nonempty : strDir ≠ []) (short : strDir.length ≤ 1022) :
    closeDir strDir sep = .ok (closed sep strDir) := by
  have copied : copyBounded 1024 strDir = .ok strDir := by
    rw [copyBounded,if_pos (by omega)]
  have last : strDir.getLast? = some (strDir.getLast nonempty) := List.getLast?_eq_some_getLast nonempty
  simp only [closeDir,copied,bind,Except.bind,closed,last,Option.some_inj]
  split
  · rw [putChar,if_pos (by omega)]
  · rename_i ends
    rw [if_pos (not_not.mp ends)]

theorem closedEnds (strDir : List α) : (closed sep strDir).getLast? = some sep := by
  unfold closed
  split
  · assumption
  · exact List.getLast?_concat

theorem closedDrive (strDir : List α) :
    (closed sep strDir).takeWhile (· != sep) = strDir.takeWhile (· != sep) := by
  unfold closed
  split
  · rfl
  · rw [List.takeWhile_append]
    split
    · rename_i all
      have same : strDir.takeWhile (· != sep) = strDir := (List.takeWhile_prefix _).eq_of_length all
      rw [same,List.takeWhile_cons,bne_self_eq_false]
      exact List.append_nil _
    · rfl

variable (place there sep)

theorem createDirectoryTreeBuilds (strDir : List α) (nonempty : strDir ≠ []) (short : strDir.length ≤ 1022)
    (few : (closed sep strDir).count sep ≤ 256) (drive : there (place (strDir.takeWhile (· != sep))) = true) :
    (∃ bRet made, createDirectoryTree place there strDir sep = .ok (bRet,made) ∧
      TreeBuilt place there sep (closed sep strDir) made) ↔ (closed sep strDir).length ≤ 255 := by
  have closes : closeDir strDir sep = .ok (closed sep strDir) := closeDirCloses nonempty short
  have counted : ([] : List (List α)).length + (closed sep strDir).count sep ≤ 256 := by
    rwa [List.length_nil,Nat.zero_add]
  simp only [createDirectoryTree,closes,bind,Except.bind]
  constructor
  · rintro ⟨bRet,made,result,-⟩
    refine Nat.le_of_not_lt fun long => ?_
    obtain ⟨why,stopped⟩ : ∃ why, collectDirs sep (closed sep strDir) [] [] = .error why :=
      collectStops (by rwa [List.length_nil,Nat.zero_add]) counted (closedEnds strDir)
    rw [stopped] at result
    cases result
  · intro fits
    have collected : collectDirs sep (closed sep strDir) [] [] =
        .ok (some ([] ++ prefixes sep [] (closed sep strDir))) :=
      collectGoes (by rwa [List.length_nil,Nat.zero_add]) counted
    rw [collected]
    refine ⟨_,_,rfl,?_⟩
    rw [← closedDrive strDir] at drive
    exact createDirsBuilt builtStart drive

end Spec

section Runs

def onlyDrive {kind : CharWidth} (path : List (Cell kind)) : Bool := path == [0x43,0x3a]

theorem createDirectoryTreeBuildsShort :
    (∃ bRet made, createDirectoryTreeA id onlyDrive [0x43,0x3a,0x5c,0x61] 0x5c = .ok (bRet,made) ∧
      TreeBuilt id onlyDrive 0x5c (closed 0x5c [0x43,0x3a,0x5c,0x61]) made) ∧
    ∃ bRet made, createDirectoryTreeW id onlyDrive [0x43,0x3a,0x5c,0x61,0x5c,0x62,0x5c] 0x5c = .ok (bRet,made) ∧
      TreeBuilt id onlyDrive 0x5c (closed 0x5c [0x43,0x3a,0x5c,0x61,0x5c,0x62,0x5c]) made := by
  constructor
  · exact (createDirectoryTreeBuilds id onlyDrive (0x5c : Cell .narrow) _ (by decide) (by decide) (by decide)
      (by decide)).mpr (by decide)
  · exact (createDirectoryTreeBuilds id onlyDrive (0x5c : Cell .wide) _ (by decide) (by decide) (by decide)
      (by decide)).mpr (by decide)

def longPath : List (Cell .narrow) := [0x43,0x3a,0x5c] ++ List.replicate 300 0x61

theorem createDirectoryTreeLong : ¬ ∀ (there : List (Cell .narrow) → Bool) (strDir : List (Cell .narrow)), strDir ≠ [] →
    strDir.length ≤ 1022 → (closed 0x5c strDir).count 0x5c ≤ 256 → there (strDir.takeWhile (· != 0x5c)) = true →
    ∃ bRet made, createDirectoryTreeA id there strDir 0x5c = .ok (bRet,made) ∧
      TreeBuilt id there 0x5c (closed 0x5c strDir) made := by
  intro always
  obtain ⟨bRet,made,result,-⟩ := always onlyDrive longPath (by decide +kernel) (by decide +kernel) (by decide +kernel)
    (by decide +kernel)
  have stops : (createDirectoryTreeA id onlyDrive longPath 0x5c).toOption = none := by decide +kernel
  rw [result] at stops
  cases stops

end Runs

end JokeDse
