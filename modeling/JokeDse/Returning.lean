import JokeDse.Lib.Progress
import JokeDse.EndToEnd
import Mathlib.Algebra.BigOperators.Group.Finset.Basic
import Mathlib.Data.Fintype.Card

/-! The workers of FindFiles all return: FindFiles, which waits for them, does not wait for ever. -/
namespace JokeDse
open Runs

section Returning
variable {ι : Type} [DecidableEq ι] {s t : Senders ι} {i : ι} {n : Nat}

def Senders.waits (s : Senders ι) (a : ι × Bool) : Bool :=
  decide ((s.worker a.1).line = .tryLock) && s.m_csFileListtoSend.isSome

def SendWorker.ahead (t : SendWorker) : Nat :=
  match t.line with
  | .connect => 5
  | .tryLock => 4
  | .size => 3
  | .front => 2
  | .popFront => 1
  | .unlock => if t.pFile.isSome then 7 else 2
  | .check => if t.pFile.isSome then 6 else 1
  | .sendFile => 5
  | .returned => 0

theorem stepAhead {a : ι × Bool} (taken : s.step a = some t) (inv : s.Inv n) :
    (s.waits a = true ∧ t = s) ∨ ∃ u, t.worker = Function.update s.worker a.1 u ∧
      u.ahead + 7 * t.m_FileListtoSend.length + 1 ≤ (s.worker a.1).ahead + 7 * s.m_FileListtoSend.length := by
  obtain ⟨i,connects⟩ := a
  have fits := inv.fits i
  unfold SendWorker.Fits at fits
  simp only [SendWorker.ahead]
  cases line : (s.worker i).line with
  | connect =>
    simp only [Senders.step,line,Option.some.injEq] at taken
    subst taken
    cases connects with
    | true => exact .inr ⟨_,rfl,by simp only [Senders.set,if_true]; omega⟩
    | false => exact .inr ⟨_,rfl,by simp only [Senders.set,Bool.false_eq_true,if_false]; omega⟩
  | tryLock =>
    simp only [Senders.step,line] at taken
    cases free : s.m_csFileListtoSend with
    | none =>
      simp only [free,Option.some.injEq] at taken
      subst taken
      exact .inr ⟨_,rfl,by simp only [Senders.set]; omega⟩
    | some holder =>
      simp only [free,Option.some.injEq] at taken
      exact .inl ⟨by simp [Senders.waits,line,free],taken.symm⟩
  | size =>
    rw [line] at fits
    simp only [Senders.step,line,Option.some.injEq] at taken
    subst taken
    cases empty : s.m_FileListtoSend with
    | nil => exact .inr ⟨_,rfl,by simp [Senders.set,empty,fits]⟩
    | cons p rest => exact .inr ⟨_,rfl,by simp only [Senders.set,empty,List.isEmpty_cons,Bool.false_eq_true,if_false]; omega⟩
  | front =>
    simp only [Senders.step,line] at taken
    split at taken <;> cases taken
    exact .inr ⟨_,rfl,by simp only [Senders.set]; omega⟩
  | popFront =>
    simp only [Senders.step,line] at taken
    split at taken <;> cases taken
    rename_i p rest queue
    refine .inr ⟨_,rfl,?_⟩
    simp only [queue,List.length_cons]
    split <;> omega
  | unlock =>
    simp only [Senders.step,line,Option.some.injEq] at taken
    subst taken
    refine .inr ⟨_,rfl,?_⟩
    simp only [Senders.set]
    split <;> omega
  | check =>
    simp only [Senders.step,line] at taken
    split at taken <;> cases taken
    · rename_i none
      exact .inr ⟨_,rfl,by simp only [Senders.set,none,Option.isSome_none,Bool.false_eq_true,if_false]; omega⟩
    · rename_i p some
      exact .inr ⟨_,rfl,by simp only [Senders.set,some,Option.isSome_some,if_true]; omega⟩
  | sendFile =>
    simp only [Senders.step,line,Option.some.injEq] at taken
    subst taken
    exact .inr ⟨_,rfl,by simp only [Senders.set]; omega⟩
  | returned => simp [Senders.step,line] at taken

theorem onward (inv : s.Inv n) (running : (s.worker i).line ≠ .returned) :
    ∃ a t, s.step a = some t ∧ s.waits a = false := by
  cases holder : s.m_csFileListtoSend with
  | none =>
    obtain ⟨t,taken⟩ := stepTaken inv true running
    exact ⟨(i,true),t,taken,by simp [Senders.waits,holder]⟩
  | some j =>
    have critical := (inv.lock j).mpr holder
    have there : (s.worker j).line ≠ .returned ∧ (s.worker j).line ≠ .tryLock := by
      constructor <;> intro line <;> rw [line] at critical <;> exact critical
    obtain ⟨t,taken⟩ := stepTaken inv true there.1
    exact ⟨(j,true),t,taken,by simp [Senders.waits,there.2]⟩

section Counted
variable [Fintype ι]

def Senders.ahead (s : Senders ι) : Nat := ∑ i, (s.worker i).ahead + 7 * s.m_FileListtoSend.length

theorem sumUpdate (worker : ι → SendWorker) (i : ι) (u : SendWorker) :
    ∑ j, (Function.update worker i u j).ahead + (worker i).ahead = ∑ j, (worker j).ahead + u.ahead := by
  have others : ∑ j ∈ Finset.univ.erase i, (Function.update worker i u j).ahead =
      ∑ j ∈ Finset.univ.erase i, (worker j).ahead :=
    Finset.sum_congr rfl fun j other => by rw [Function.update_of_ne (Finset.ne_of_mem_erase other)]
  rw [← Finset.add_sum_erase _ _ (Finset.mem_univ i),← Finset.add_sum_erase _ (fun j => (worker j).ahead) (Finset.mem_univ i),
    others,Function.update_self]
  omega

theorem stepFalls : Falls Senders.step (@Senders.waits ι) (Senders.Inv n) Senders.ahead := by
  intro s a t taken inv
  rcases stepAhead taken inv with ⟨waits,rfl⟩ | ⟨u,worker,falls⟩
  · rw [if_pos waits,Nat.add_zero]
  · have sum := sumUpdate s.worker a.1 u
    rw [Senders.ahead,Senders.ahead,worker]
    split <;> omega

omit [DecidableEq ι] in
theorem startAhead (files : List FileInfo) :
    (Senders.start files : Senders ι).ahead = 5 * Fintype.card ι + 7 * files.length := by
  simp [Senders.ahead,Senders.start,SendWorker.ahead,Nat.mul_comm]

end Counted

end Returning

/-! FindFiles behind its search. -/

-- #define SendThreads (8)
def sendThreads : Nat := 8

inductive FindLine where
  | size
  | beginThread (i : Nat)
  | waitForThreads
  | setEvent
  | returned
  deriving DecidableEq, Repr

def FindLine.ahead : FindLine → Nat
  | .size => 11
  | .beginThread i => 10 - i
  | .waitForThreads => 2
  | .setEvent => 1
  | .returned => 0

-- FindFiles with its workers; hThreadArray[i] is NULL where `begun` is false
structure Finding where
  line : FindLine
  begun : Fin sendThreads → Bool
  senders : Senders (Fin sendThreads)
  hEventFinished : Bool

-- `succeeds`: _beginthreadex has a handle for FindFiles
inductive FindStep where
  | findFiles (succeeds : Bool)
  | sendThread (i : Fin sendThreads) (connects : Bool)
  deriving DecidableEq, Repr

-- `returns` tells for which files SendFile comes back
def SendWorker.leaves (returns : Nat → Bool) (t : SendWorker) : Bool :=
  match t.line,t.pFile with
  | .sendFile,some p => returns p
  | _,_ => true

namespace Finding

def start (files : List FileInfo) : Finding := ⟨.size,fun _ => false,.start files,false⟩

/-- The next statement of FindFiles or of one of the threads. WaitForMultipleObjects returns when every thread has,
and at once when one of the handles is NULL. -/
def step (returns : Nat → Bool) (s : Finding) : FindStep → Option Finding
  | .findFiles succeeds =>
    match s.line with
    | .size => some {s with line := if s.senders.m_FileListtoSend.isEmpty then .setEvent else .beginThread 0}
    | .beginThread i =>
      some {s with
        line := if i + 1 < sendThreads then .beginThread (i + 1) else .waitForThreads
        begun := fun j => if j = i then succeeds else s.begun j}
    | .waitForThreads =>
      if (∃ j, s.begun j = false) ∨ ∀ i, (s.senders.worker i).line = .returned then some {s with line := .setEvent}
      else none
    | .setEvent => some {s with line := .returned, hEventFinished := true}
    | .returned => none
  | .sendThread i connects =>
    if s.begun i = true ∧ (s.senders.worker i).leaves returns = true then
      (s.senders.step (i,connects)).map fun senders => {s with senders}
    else none

def waits (s : Finding) : FindStep → Bool
  | .findFiles _ => false
  | .sendThread i connects => s.senders.waits (i,connects)

def ahead (s : Finding) : Nat := s.line.ahead + s.senders.ahead

def Fits (files : List FileInfo) (s : Finding) : Prop :=
  match s.line with
  | .size => ∀ j, s.begun j = false
  | .beginThread i => files ≠ [] ∧ i < sendThreads
  | .waitForThreads => files ≠ []
  | .setEvent | .returned =>
    files = [] ∧ (∀ j, s.begun j = false) ∨
    files ≠ [] ∧ ((∃ j, s.begun j = false) ∨ ∀ i, (s.senders.worker i).line = .returned)

structure Inv (files : List FileInfo) (s : Finding) : Prop where
  senders : s.senders.Inv files.length
  untouched : s.line = .size ∨ files = [] → s.senders = .start files
  fits : s.Fits files
  hEventFinished : s.hEventFinished = true ↔ s.line = .returned

end Finding

section Finding
variable {returns : Nat → Bool} {files : List FileInfo} {s t : Finding}

theorem startFinding (files : List FileInfo) : (Finding.start files).Inv files where
  senders := startInv files
  untouched _ := rfl
  fits _ := rfl
  hEventFinished := by simp [Finding.start]

theorem returnedStays {i : Fin sendThreads} {connects : Bool} (returned : (s.senders.worker i).line = .returned) :
    s.senders.step (i,connects) = none := by
  simp only [Senders.step,returned]

theorem findFilesKept {succeeds : Bool} (taken : s.step returns (.findFiles succeeds) = some t) (inv : s.Inv files) :
    t.Inv files := by
  have fits := inv.fits
  have finished := inv.hEventFinished
  unfold Finding.Fits at fits
  cases here : s.line with
  | size =>
    rw [here] at fits finished
    simp only [Finding.step,here,Option.some.injEq] at taken
    subst taken
    have untouched := inv.untouched (.inl here)
    have queue : s.senders.m_FileListtoSend = List.range files.length := by
      rw [untouched]
      rfl
    cases files with
    | nil =>
      rw [queue]
      exact ⟨inv.senders,fun _ => untouched,.inl ⟨rfl,fits⟩,by simpa using finished⟩
    | cons file files =>
      have some : (List.range (file :: files).length).isEmpty = false := by simp
      rw [queue,some]
      exact ⟨inv.senders,fun _ => untouched,⟨List.cons_ne_nil _ _,by decide⟩,by simpa using finished⟩
  | beginThread i =>
    rw [here] at fits finished
    simp only [Finding.step,here,Option.some.injEq] at taken
    have untouched {line : FindLine} (later : line ≠ .size) : line = .size ∨ files = [] →
        s.senders = .start files := fun early => absurd early (not_or.mpr ⟨later,fits.1⟩)
    rcases Nat.lt_or_ge (i + 1) sendThreads with more | last
    · rw [if_pos more] at taken
      subst taken
      exact ⟨inv.senders,untouched (by simp),⟨fits.1,more⟩,by simpa using finished⟩
    · rw [if_neg (Nat.not_lt.mpr last)] at taken
      subst taken
      exact ⟨inv.senders,untouched (by simp),fits.1,by simpa using finished⟩
  | waitForThreads =>
    rw [here] at fits finished
    simp only [Finding.step,here] at taken
    split at taken <;> cases taken
    rename_i ended
    exact ⟨inv.senders,by simp [fits],.inr ⟨fits,ended⟩,by simpa using finished⟩
  | setEvent =>
    rw [here] at fits
    simp only [Finding.step,here,Option.some.injEq] at taken
    subst taken
    exact ⟨inv.senders,fun early => inv.untouched (early.imp_left (by simp)),fits,by simp⟩
  | returned => simp [Finding.step,here] at taken

theorem sendThreadKept {i : Fin sendThreads} {connects : Bool} (taken : s.step returns (.sendThread i connects) = some t)
    (inv : s.Inv files) : t.Inv files := by
  simp only [Finding.step] at taken
  split at taken <;> try cases taken
  rename_i going
  obtain ⟨senders,step,rfl⟩ := Option.map_eq_some_iff.mp taken
  have fits := inv.fits
  unfold Finding.Fits at fits
  have none (idle : ∀ j, s.begun j = false) : False := by
    rw [idle i] at going
    exact Bool.false_ne_true going.1
  have later : ¬ (s.line = .size ∨ files = []) := by
    rintro (here | empty)
    · rw [here] at fits
      exact none fits
    · cases here : s.line <;> rw [here] at fits
      · exact none fits
      · exact fits.1 empty
      · exact fits empty
      all_goals exact fits.elim (fun ended => none ended.2) fun ended => ended.1 empty
  refine ⟨stepInv step inv.senders,fun early => absurd early later,?_,inv.hEventFinished⟩
  unfold Finding.Fits
  cases here : s.line with
  | size | beginThread j | waitForThreads =>
    rw [here] at fits
    exact fits
  | setEvent | returned =>
    rw [here] at fits
    rcases fits with ended | ⟨some,failed | returned⟩
    · exact .inl ended
    · exact .inr ⟨some,.inl failed⟩
    · rw [returnedStays (returned i)] at step
      cases step

theorem findingKept {a : FindStep} (taken : s.step returns a = some t) (inv : s.Inv files) : t.Inv files := by
  cases a with
  | findFiles succeeds => exact findFilesKept taken inv
  | sendThread i connects => exact sendThreadKept taken inv

theorem findingFalls : Falls (Finding.step returns) Finding.waits (Finding.Inv files) Finding.ahead := by
  intro s a t taken inv
  have fits := inv.fits
  unfold Finding.Fits at fits
  cases a with
  | findFiles succeeds =>
    simp only [Finding.waits,Bool.false_eq_true,if_false,Finding.ahead]
    cases here : s.line with
    | size =>
      simp only [Finding.step,here,Option.some.injEq] at taken
      subst taken
      split <;> simp only [FindLine.ahead] <;> omega
    | beginThread i =>
      rw [here] at fits
      have below : i < 8 := fits.2
      simp only [Finding.step,here,Option.some.injEq] at taken
      subst taken
      split <;> simp only [FindLine.ahead] <;> omega
    | waitForThreads =>
      simp only [Finding.step,here] at taken
      split at taken <;> cases taken
      simp only [FindLine.ahead]
      omega
    | setEvent =>
      simp only [Finding.step,here,Option.some.injEq] at taken
      subst taken
      simp only [FindLine.ahead]
      omega
    | returned => simp [Finding.step,here] at taken
  | sendThread i connects =>
    simp only [Finding.step] at taken
    split at taken <;> try cases taken
    obtain ⟨senders,step,rfl⟩ := Option.map_eq_some_iff.mp taken
    have falls := stepFalls _ _ _ step inv.senders
    have later := Nat.add_le_add_left falls s.line.ahead
    rw [← Nat.add_assoc] at later
    exact later

theorem everyoneLeaves (returning : ∀ p, returns p = true) (t : SendWorker) : t.leaves returns = true := by
  unfold SendWorker.leaves
  split
  · exact returning _
  · rfl

-- FindFiles waits for a thread that itself waits for nothing but the lock
theorem findingOnward (returning : ∀ p, returns p = true) (inv : s.Inv files) (unfinished : ¬ s.hEventFinished = true) :
    ∃ a t, s.step returns a = some t ∧ s.waits a = false := by
  rw [inv.hEventFinished] at unfinished
  cases here : s.line with
  | size | beginThread i | setEvent => exact ⟨.findFiles true,_,by simp only [Finding.step,here]; rfl,rfl⟩
  | returned => exact absurd here unfinished
  | waitForThreads =>
    by_cases ended : (∃ j, s.begun j = false) ∨ ∀ i, (s.senders.worker i).line = .returned
    · exact ⟨.findFiles true,_,by simp only [Finding.step,here,if_pos ended]; rfl,rfl⟩
    · obtain ⟨all,some⟩ := not_or.mp ended
      obtain ⟨i,running⟩ := not_forall.mp some
      obtain ⟨⟨j,connects⟩,senders,step,moving⟩ := onward inv.senders running
      have begun : s.begun j = true := by
        by_contra failed
        exact all ⟨j,Bool.not_eq_true _ ▸ failed⟩
      have going := And.intro begun (everyoneLeaves returning (s.senders.worker j))
      exact ⟨.sendThread j connects,{s with senders},by simp only [Finding.step,if_pos going,step,Option.map_some],moving⟩

theorem finishedRests (inv : s.Inv files) (finished : s.hEventFinished = true)
    (whole : files = [] ∨ ∀ j, s.begun j = true) :
    (∀ a, s.step returns a = none) ∧ (∀ i, s.begun i = true → (s.senders.worker i).line = .returned) ∧
    ((∃ i, (s.senders.worker i).connected = true) → (s.senders.passed.map Prod.snd).Perm (List.range files.length)) := by
  have fits := inv.fits
  have line := inv.hEventFinished.mp finished
  unfold Finding.Fits at fits
  rw [line] at fits
  have returned (i : Fin sendThreads) (begun : s.begun i = true) : (s.senders.worker i).line = .returned := by
    rcases fits with ⟨-,none⟩ | ⟨some,⟨j,failed⟩ | returned⟩
    · rw [none i] at begun
      cases begun
    · rw [whole.resolve_left some j] at failed
      cases failed
    · exact returned i
  refine ⟨fun a => ?_,returned,fun ⟨i,connected⟩ => ?_⟩
  · cases a with
    | findFiles succeeds => simp only [Finding.step,line]
    | sendThread i connects =>
      simp only [Finding.step]
      split
      · rename_i going
        rw [returnedStays (returned i going.1)]
        rfl
      · rfl
  · rcases whole with rfl | all
    · rw [inv.untouched (.inr rfl)]
      exact List.Perm.refl _
    · exact allPassed inv.senders (fun j => returned j (all j)) connected

/-- FindFiles and its threads never execute more than so many statements, a failed TryLock apart. If every
_beginthreadex succeeds, hEventFinished is set after the last statement of every thread; then every file of the queue
has been passed to SendFile if one of them had a connection. If every SendFile returns, hEventFinished gets set. -/
theorem findFilesFinishes {acts : List FindStep}
    (run : follow (Finding.step returns) acts (Finding.start files) = some s) :
    moves (Finding.step returns) Finding.waits acts (Finding.start files) ≤ 51 + 7 * files.length ∧
    (s.hEventFinished = true → (files = [] ∨ ∀ j, s.begun j = true) →
      (∀ a, s.step returns a = none) ∧ (∀ i, s.begun i = true → (s.senders.worker i).line = .returned) ∧
      ((∃ i, (s.senders.worker i).connected = true) →
        (s.senders.passed.map Prod.snd).Perm (List.range files.length))) ∧
    ((∀ p, returns p = true) →
      (s.hEventFinished = false → ∃ a t, s.step returns a = some t ∧ s.waits a = false) ∧
      ∃ more t, follow (Finding.step returns) more s = some t ∧ t.hEventFinished = true ∧
        more.length ≤ 51 + 7 * files.length) := by
  have inv := followKeeps findingKept run (startFinding files)
  have bounded := movesBounded findingKept findingFalls run (startFinding files)
  have whole : (Finding.start files).ahead = 51 + 7 * files.length := by
    rw [Finding.ahead,Finding.start,startAhead,Fintype.card_fin,FindLine.ahead,sendThreads]
    omega
  rw [whole] at bounded
  refine ⟨by omega,finishedRests inv,fun returning => ⟨fun unfinished => ?_,?_⟩⟩
  · exact findingOnward returning inv (by simp [unfinished])
  · obtain ⟨more,t,onwards,finished,short⟩ := movesEnd findingKept findingFalls (findingOnward returning) inv
    exact ⟨more,t,onwards,finished,by omega⟩

end Finding

-- The first of two threads begins and connects, the second does not begin.
def firstThread : List FindStep := [.findFiles true,.findFiles true,.sendThread ⟨0,by decide⟩ true,.findFiles false]

theorem findFilesFinishesShort : ∃ s, follow (Finding.step fun _ => true) firstThread (Finding.start [shortName]) = some s ∧
    ∃ more t, follow (Finding.step fun _ => true) more s = some t ∧ t.hEventFinished = true ∧
      more.length ≤ 51 + 7 * [shortName].length :=
  ⟨_,rfl,((@findFilesFinishes _ [shortName] _ firstThread rfl).2.2 fun _ => rfl).2⟩

-- A handle that is NULL: FindFiles does not wait for the first thread.
example : ((follow (Finding.step fun _ => true) (firstThread ++ List.replicate 8 (.findFiles true))
    (Finding.start [shortName])).map fun s => (s.hEventFinished,(s.senders.worker ⟨0,by decide⟩).line)) =
      some (true,.tryLock) := rfl

end JokeDse
