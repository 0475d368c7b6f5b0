import JokeDse.Basic
import Mathlib.Data.Rat.Floor

/-! SocketUtils: the mean traffic of the last section. A time is the rational it denotes, in seconds. -/
namespace JokeDse

structure StreamStat where
  dfTime : Rat
  nNum : Uint
  deriving DecidableEq, Repr

section Model
variable (dfNow : Rat) (m_nStatSection : Uint)

structure SectionWalk where
  itLast : Nat
  bOutofSection : Bool
  nTotalSecion : Int
  deriving DecidableEq, Repr

def walkStat (it : Nat) (stat : StreamStat) (w : SectionWalk) : SectionWalk :=
  if (dfNow - stat.dfTime) * 1000 > m_nStatSection.toNat then { w with itLast := it, bOutofSection := true }
  else { w with nTotalSecion := int (w.nTotalSecion + stat.nNum.toNat) }

def walkList : List StreamStat → Nat → SectionWalk → SectionWalk
  | [], _, w => w
  | stat :: rest, it, w => walkList rest (it + 1) (walkStat dfNow m_nStatSection it stat w)

/-- The result and the list that is left; `none` where the division by zero ends the process. The product is an
int, the quotient is one of UINTs. -/
def checkListSection (statList : List StreamStat) : Option (Rat × List StreamStat) :=
  if statList.length ≠ 0 then
    let w := walkList dfNow m_nStatSection statList 0 ⟨0,false,0⟩
    let left := if w.bOutofSection then statList.drop w.itLast else statList
    if m_nStatSection = 0 then none
    else some ((toUint (int (w.nTotalSecion * 1000)) / m_nStatSection).toNat,left)
  else some (0,[])

end Model

section Spec
variable (dfNow : Rat) (m_nStatSection : Uint)

def inSection (stat : StreamStat) : Bool := (dfNow - stat.dfTime) * 1000 ≤ m_nStatSection.toNat

def within (stats : List StreamStat) : List StreamStat := stats.filter (inSection dfNow m_nStatSection)
def expired (stats : List StreamStat) : List StreamStat := stats.filter (!inSection dfNow m_nStatSection ·)
def sectionSum (stats : List StreamStat) : Nat := ((within dfNow m_nStatSection stats).map (·.nNum.toNat)).sum

variable {dfNow m_nStatSection}
variable {stat : StreamStat} {stats : List StreamStat} {w : SectionWalk} {it : Nat}

theorem walkIn (inside : inSection dfNow m_nStatSection stat = true) :
    walkStat dfNow m_nStatSection it stat w = { w with nTotalSecion := int (w.nTotalSecion + stat.nNum.toNat) } :=
  if_neg (not_lt.mpr (of_decide_eq_true inside))

theorem walkOut (outside : inSection dfNow m_nStatSection stat = false) :
    walkStat dfNow m_nStatSection it stat w = { w with itLast := it, bOutofSection := true } :=
  if_pos (not_le.mp (of_decide_eq_false outside))

structure Walked (dfNow : Rat) (m_nStatSection : Uint) (seen : List StreamStat) (w : SectionWalk) : Prop where
  total : toUint w.nTotalSecion = toUint (sectionSum dfNow m_nStatSection seen)
  fresh : w.bOutofSection = false → ∀ stat ∈ seen, inSection dfNow m_nStatSection stat = true
  last : w.bOutofSection = true → ∃ before stat after, seen = before ++ stat :: after ∧ before.length = w.itLast ∧
    inSection dfNow m_nStatSection stat = false ∧ ∀ s ∈ after, inSection dfNow m_nStatSection s = true

theorem walkedStart : Walked dfNow m_nStatSection [] ⟨0,false,0⟩ where
  total := rfl
  fresh := fun _ stat member => by cases member
  last := fun out => by cases out

theorem walkedIn {seen : List StreamStat} (walked : Walked dfNow m_nStatSection seen w)
    (inside : inSection dfNow m_nStatSection stat = true) :
    Walked dfNow m_nStatSection (seen ++ [stat]) { w with nTotalSecion := int (w.nTotalSecion + stat.nNum.toNat) } where
  total := by
    have more : sectionSum dfNow m_nStatSection (seen ++ [stat]) =
        sectionSum dfNow m_nStatSection seen + stat.nNum.toNat := by
      simp [sectionSum,within,inside]
    have added := walked.total
    simp only [toUint] at added
    rw [toUintInt,more,Int.natCast_add,toUint,toUint,BitVec.ofInt_add,BitVec.ofInt_add,added]
  fresh := fun out => List.forall_mem_append.mpr ⟨walked.fresh out,List.forall_mem_singleton.mpr inside⟩
  last := fun out => by
    obtain ⟨before,old,after,whole,count,outside,rest⟩ := walked.last out
    refine ⟨before,old,after ++ [stat],?_,count,outside,?_⟩
    · rw [whole,List.append_assoc,List.cons_append]
    · exact List.forall_mem_append.mpr ⟨rest,List.forall_mem_singleton.mpr inside⟩

theorem walkedOut {seen : List StreamStat} (walked : Walked dfNow m_nStatSection seen w)
    (outside : inSection dfNow m_nStatSection stat = false) :
    Walked dfNow m_nStatSection (seen ++ [stat]) { w with itLast := seen.length, bOutofSection := true } where
  total := by
    have same : sectionSum dfNow m_nStatSection (seen ++ [stat]) = sectionSum dfNow m_nStatSection seen := by
      simp [sectionSum,within,outside]
    rw [same]
    exact walked.total
  fresh := fun out => by cases out
  last := fun _ => ⟨seen,stat,[],rfl,rfl,outside,fun s member => by cases member⟩

theorem walkedAll {seen : List StreamStat} (walked : Walked dfNow m_nStatSection seen w) :
    Walked dfNow m_nStatSection (seen ++ stats) (walkList dfNow m_nStatSection stats seen.length w) := by
  induction stats generalizing seen w with
  | nil =>
    rw [List.append_nil]
    exact walked
  | cons stat rest ih =>
    have next : Walked dfNow m_nStatSection (seen ++ [stat]) (walkStat dfNow m_nStatSection seen.length stat w) := by
      cases known : inSection dfNow m_nStatSection stat with
      | true =>
        rw [walkIn known]
        exact walkedIn walked known
      | false =>
        rw [walkOut known]
        exact walkedOut walked known
    have goesOn := ih next
    rwa [List.append_assoc,List.length_append,List.length_singleton] at goesOn

inductive Left (dfNow : Rat) (m_nStatSection : Uint) (stats : List StreamStat) : List StreamStat → Prop where
  | all (fresh : ∀ stat ∈ stats, inSection dfNow m_nStatSection stat = true) : Left dfNow m_nStatSection stats stats
  | since {before after : List StreamStat} {stat : StreamStat} (whole : stats = before ++ stat :: after)
      (outside : inSection dfNow m_nStatSection stat = false)
      (fresh : ∀ s ∈ after, inSection dfNow m_nStatSection s = true) : Left dfNow m_nStatSection stats (stat :: after)

theorem checkListSectionResult (positive : m_nStatSection ≠ 0) :
    ∃ left, checkListSection dfNow m_nStatSection stats =
      some (((1000 * sectionSum dfNow m_nStatSection stats % 2 ^ 32 / m_nStatSection.toNat : Nat) : Rat),left) ∧
      Left dfNow m_nStatSection stats left := by
  cases stats with
  | nil => exact ⟨[],by simp [checkListSection,sectionSum,within],.all fun stat member => by cases member⟩
  | cons first rest =>
    have walked : Walked dfNow m_nStatSection (first :: rest)
        (walkList dfNow m_nStatSection (first :: rest) 0 ⟨0,false,0⟩) :=
      walkedAll walkedStart
    rw [checkListSection,if_pos (List.length_pos_iff.mpr (List.cons_ne_nil _ _)).ne']
    generalize walkList dfNow m_nStatSection (first :: rest) 0 ⟨0,false,0⟩ = w at walked
    have product : toUint (int (w.nTotalSecion * 1000)) =
        BitVec.ofNat 32 (1000 * sectionSum dfNow m_nStatSection (first :: rest)) := by
      have summed := walked.total
      simp only [toUint] at summed
      rw [toUintInt,toUint,BitVec.ofInt_mul,summed,← BitVec.ofInt_mul,← toUintNat,toUint]
      congr 1
      rw [Int.natCast_mul,Int.mul_comm]
      rfl
    refine ⟨if w.bOutofSection then (first :: rest).drop w.itLast else first :: rest,?_,?_⟩
    · rw [if_neg positive,product,BitVec.toNat_udiv,BitVec.toNat_ofNat]
    · cases out : w.bOutofSection with
      | false => exact .all (walked.fresh out)
      | true =>
        obtain ⟨before,stat,after,whole,count,outside,fresh⟩ := walked.last out
        rw [if_pos rfl,whole,← count,List.drop_left]
        exact .since rfl outside fresh

theorem checkListSectionLeaves (positive : m_nStatSection ≠ 0)
    (ordered : stats.Pairwise fun a b => a.dfTime ≤ b.dfTime) :
    ∃ value, checkListSection dfNow m_nStatSection stats =
      some (value,(expired dfNow m_nStatSection stats).getLast?.toList ++ within dfNow m_nStatSection stats) := by
  obtain ⟨left,result,leaves⟩ := @checkListSectionResult dfNow m_nStatSection stats positive
  refine ⟨_,result.trans (congrArg (fun l => some (_,l)) ?_)⟩
  cases leaves with
  | all fresh =>
    have none : expired dfNow m_nStatSection stats = [] := by
      rw [expired,List.filter_eq_nil_iff]
      intro stat member
      simp [fresh stat member]
    rw [none,within,List.filter_eq_self.mpr fresh]
    rfl
  | @since before after stat whole outside fresh =>
    rw [whole,List.pairwise_append] at ordered
    have older : ∀ s ∈ before, inSection dfNow m_nStatSection s = false := by
      intro s member
      have earlier := ordered.2.2 s member stat List.mem_cons_self
      rw [inSection,decide_eq_false_iff_not,not_le] at outside ⊢
      refine outside.trans_le ?_
      gcongr
    have gone : before.filter (inSection dfNow m_nStatSection) = [] := by
      rw [List.filter_eq_nil_iff]
      intro s member
      simp [older s member]
    have kept : after.filter (!inSection dfNow m_nStatSection ·) = [] := by
      rw [List.filter_eq_nil_iff]
      intro s member
      simp [fresh s member]
    rw [whole,expired,within,List.filter_append,List.filter_append,gone,List.filter_cons_of_pos (by simp [outside]),
      kept,List.getLast?_append,List.filter_cons_of_neg (by simp [outside]),List.filter_eq_self.mpr fresh]
    rfl

end Spec

section Claim
variable {dfNow : Rat} {m_nStatSection : Uint} {stats : List StreamStat}

theorem leftWithin {left : List StreamStat} (leaves : Left dfNow m_nStatSection stats left) :
    left = within dfNow m_nStatSection stats ↔ ∀ stat ∈ stats, inSection dfNow m_nStatSection stat = true := by
  cases leaves with
  | all fresh => exact iff_of_true (List.filter_eq_self.mpr fresh).symm fresh
  | @since before after stat whole outside fresh =>
    have listed : stat ∈ stats := whole ▸ List.mem_append_right _ List.mem_cons_self
    refine iff_of_false (fun same => ?_) fun all => ?_
    · have kept : stat ∈ within dfNow m_nStatSection stats := same ▸ List.mem_cons_self
      rw [(List.mem_filter.mp kept).2] at outside
      cases outside
    · rw [all stat listed] at outside
      cases outside

theorem quotientWraps {x n : Nat} (positive : 0 < n) (small : n < 2 ^ 32) : x % 2 ^ 32 / n = x / n ↔ x < 2 ^ 32 := by
  constructor
  · intro same
    refine Nat.lt_of_not_le fun large => ?_
    have apart : x % 2 ^ 32 + n ≤ x := by
      have split := Nat.div_add_mod x (2 ^ 32)
      have once : 0 < x / 2 ^ 32 := Nat.div_pos large (by decide)
      omega
    have more : (x % 2 ^ 32 + n) / n ≤ x / n := Nat.div_le_div_right apart
    rw [Nat.add_div_right _ positive,same] at more
    exact absurd more (Nat.not_succ_le_self _)
  · intro fits
    rw [Nat.mod_eq_of_lt fits]

theorem checkListSectionAverages (positive : m_nStatSection ≠ 0) :
    checkListSection dfNow m_nStatSection stats =
      some ((⌊((1000 * sectionSum dfNow m_nStatSection stats : Nat) : Rat) / m_nStatSection.toNat⌋ : Rat),
        within dfNow m_nStatSection stats) ↔
    (∀ stat ∈ stats, inSection dfNow m_nStatSection stat = true) ∧
      1000 * sectionSum dfNow m_nStatSection stats < 2 ^ 32 := by
  obtain ⟨left,result,leaves⟩ := @checkListSectionResult dfNow m_nStatSection stats positive
  have wraps := @quotientWraps (1000 * sectionSum dfNow m_nStatSection stats) _ (uintPositive.mpr positive)
    m_nStatSection.isLt
  rw [result,Option.some_inj,Prod.mk.injEq,leftWithin leaves,Rat.floor_natCast_div_natCast,← Int.natCast_ediv,
    Int.cast_natCast,Nat.cast_inj,wraps,and_comm]

theorem checkListSectionAveragesTwo : checkListSection 10 2000 [⟨8,300⟩,⟨9,500⟩] = some (400,[⟨8,300⟩,⟨9,500⟩]) :=
  ((@checkListSectionAverages 10 2000 [⟨8,300⟩,⟨9,500⟩] (by decide)).mpr (by decide +kernel)).trans (by decide +kernel)

theorem checkListSectionKeepsExpired : ¬ ∀ (dfNow : Rat) (m_nStatSection : Uint) (stats : List StreamStat),
    stats.Pairwise (fun a b => a.dfTime ≤ b.dfTime) → (∀ stat ∈ stats, stat.dfTime ≤ dfNow) → m_nStatSection ≠ 0 →
    checkListSection dfNow m_nStatSection stats =
      some ((⌊((1000 * sectionSum dfNow m_nStatSection stats : Nat) : Rat) / m_nStatSection.toNat⌋ : Rat),
        within dfNow m_nStatSection stats) := by
  intro always
  have result := always 10 2000 [⟨7,300⟩] (List.pairwise_singleton _ _) (by decide) (by decide)
  have left : checkListSection 10 2000 [⟨7,300⟩] = some (0,[⟨7,300⟩]) := by decide +kernel
  rw [left] at result
  have kept : [(⟨7,300⟩ : StreamStat)] = within 10 2000 [⟨7,300⟩] := congrArg Prod.snd (Option.some.inj result)
  revert kept
  decide +kernel

end Claim

end JokeDse
