import JokeDse.Lib.Runs
import JokeDse.SendFile
import Mathlib.Data.List.Perm.Subperm

/-! The workers of FindFiles (JokeAssist.cpp): every one runs SendThread and takes its files off the one
queue. A FileInfoPtr is the position of its file in the list that the search has built. -/
namespace JokeDse
open Runs

/-- Where a worker is in SendThread. m_bSendThreadRun is set before the workers start, and nothing clears
it. -/
inductive Line where
  | connect
  | tryLock
  | size
  | front
  | popFront
  | unlock
  | check
  | sendFile
  | returned
  deriving DecidableEq, Repr

structure SendWorker where
  line : Line
  connected : Bool
  pFile : Option Nat
  deriving DecidableEq, Repr

/-- `popped` and `passed` keep, for the record, which worker took which file off the queue and which one
called SendFile with it. -/
structure Senders (ι : Type) where
  m_FileListtoSend : List Nat
  m_csFileListtoSend : Option ι
  worker : ι → SendWorker
  popped : List (ι × Nat)
  passed : List (ι × Nat)

section Steps
variable {ι : Type} [DecidableEq ι]

namespace Senders

def start (files : List FileInfo) : Senders ι where
  m_FileListtoSend := List.range files.length
  m_csFileListtoSend := none
  worker _ := ⟨.connect,false,none⟩
  popped := []
  passed := []

def set (i : ι) (t : SendWorker) (s : Senders ι) : Senders ι := {s with worker := Function.update s.worker i t}

def step (s : Senders ι) : ι × Bool → Option (Senders ι)
  | (i,connects) =>
    let t := s.worker i
    match t.line with
    | .connect =>
      some (s.set i (if connects then {t with line := .tryLock, connected := true} else {t with line := .returned}))
    | .tryLock =>
      match s.m_csFileListtoSend with
      | none => some {s.set i {t with line := .size} with m_csFileListtoSend := some i}
      | some _ => some s
    | .size => some (s.set i {t with line := if s.m_FileListtoSend.isEmpty then .unlock else .front})
    | .front =>
      match s.m_FileListtoSend with
      | [] => none
      | p :: _ => some (s.set i {t with line := .popFront, pFile := some p})
    | .popFront =>
      match s.m_FileListtoSend with
      | [] => none
      | p :: rest =>
        some {s.set i {t with line := .unlock} with m_FileListtoSend := rest, popped := s.popped ++ [(i,p)]}
    | .unlock => some {s.set i {t with line := .check} with m_csFileListtoSend := none}
    | .check =>
      match t.pFile with
      | none => some (s.set i {t with line := .returned})
      | some p => some {s.set i {t with line := .sendFile} with passed := s.passed ++ [(i,p)]}
    -- SendFile returns
    | .sendFile => some (s.set i {t with line := .tryLock, pFile := none})
    | .returned => none

end Senders

def Line.Critical : Line → Prop
  | .size | .front | .popFront | .unlock => True
  | _ => False

def SendWorker.Fits (queue : List Nat) (t : SendWorker) : Prop :=
  match t.line with
  | .connect => t.pFile = none ∧ t.connected = false
  | .tryLock | .size => t.pFile = none
  | .front => t.pFile = none ∧ queue ≠ []
  | .popFront => ∃ p rest, t.pFile = some p ∧ queue = p :: rest
  | .unlock | .check => t.pFile = none → queue = []
  | .sendFile => True
  | .returned => t.connected = true → queue = []

def SendWorker.Holds (t : SendWorker) (p : Nat) : Prop := t.pFile = some p ∧ (t.line = .unlock ∨ t.line = .check)

instance (t : SendWorker) (p : Nat) : Decidable (t.Holds p) := inferInstanceAs (Decidable (_ ∧ _))

structure Senders.Inv (n : Nat) (s : Senders ι) : Prop where
  order : s.popped.map Prod.snd ++ s.m_FileListtoSend = List.range n
  counts : ∀ i p, s.popped.count (i,p) = s.passed.count (i,p) + if (s.worker i).Holds p then 1 else 0
  lock : ∀ i, (s.worker i).line.Critical ↔ s.m_csFileListtoSend = some i
  fits : ∀ i, (s.worker i).Fits s.m_FileListtoSend

theorem startInv (files : List FileInfo) : (Senders.start files : Senders ι).Inv files.length where
  order := rfl
  counts i p := by simp [Senders.start,SendWorker.Holds]
  lock i := by simp [Senders.start,Line.Critical]
  fits i := ⟨rfl,rfl⟩

section Kept
variable {n : Nat} {s t : Senders ι} {i : ι}

theorem Senders.Inv.move (inv : s.Inv n) (u : SendWorker) (worker : t.worker = Function.update s.worker i u)
    (order : t.popped.map Prod.snd ++ t.m_FileListtoSend = List.range n)
    (own : ∀ p, t.popped.count (i,p) = t.passed.count (i,p) + if u.Holds p then 1 else 0)
    (counts : ∀ j, j ≠ i → ∀ p, t.popped.count (j,p) = s.popped.count (j,p) ∧ t.passed.count (j,p) = s.passed.count (j,p))
    (lock : u.line.Critical ↔ t.m_csFileListtoSend = some i)
    (locks : ∀ j, j ≠ i → (t.m_csFileListtoSend = some j ↔ s.m_csFileListtoSend = some j))
    (fits : u.Fits t.m_FileListtoSend)
    (others : ∀ j, j ≠ i → (s.worker j).Fits t.m_FileListtoSend) : t.Inv n where
  order := order
  counts := by
    rw [worker]
    refine (Function.forall_update_iff s.worker fun j w =>
      ∀ p, t.popped.count (j,p) = t.passed.count (j,p) + if w.Holds p then 1 else 0).mpr ⟨own,fun j other p => ?_⟩
    rw [(counts j other p).1,(counts j other p).2]
    exact inv.counts j p
  lock := by
    rw [worker]
    refine (Function.forall_update_iff s.worker fun j w => w.line.Critical ↔ t.m_csFileListtoSend = some j).mpr
      ⟨lock,fun j other => ?_⟩
    rw [locks j other]
    exact inv.lock j
  fits := by
    rw [worker]
    exact (Function.forall_update_iff s.worker fun _ w => w.Fits t.m_FileListtoSend).mpr ⟨fits,others⟩

theorem Senders.Inv.set (inv : s.Inv n) {u : SendWorker} (critical : u.line.Critical ↔ (s.worker i).line.Critical)
    (holds : ∀ p, u.Holds p ↔ (s.worker i).Holds p) (fits : u.Fits s.m_FileListtoSend) : (s.set i u).Inv n := by
  refine inv.move u rfl inv.order (fun p => ?_) (fun _ _ _ => ⟨rfl,rfl⟩) (critical.trans (inv.lock i))
    (fun _ _ => Iff.rfl) fits fun j _ => inv.fits j
  simp only [holds]
  exact inv.counts i p

theorem countPair (l : List (ι × Nat)) (i j : ι) (p q : Nat) :
    (l ++ [(i,p)]).count (j,q) = l.count (j,q) + if i = j ∧ p = q then 1 else 0 := by
  rw [List.count_append,List.count_singleton]
  congr 1
  exact if_congr (by simp) rfl rfl

theorem holdsNot {u : SendWorker} (line : u.line ≠ .unlock ∧ u.line ≠ .check) (p : Nat) : ¬ u.Holds p := by
  rintro ⟨-,unlock | check⟩
  · exact line.1 unlock
  · exact line.2 check

theorem holdsNeither {u w : SendWorker} (before : w.line ≠ .unlock ∧ w.line ≠ .check)
    (after : u.line ≠ .unlock ∧ u.line ≠ .check) (p : Nat) : u.Holds p ↔ w.Holds p :=
  iff_of_false (holdsNot after p) (holdsNot before p)

theorem Senders.Inv.passedAll (inv : s.Inv n) (line : (s.worker i).line ≠ .unlock ∧ (s.worker i).line ≠ .check) (p : Nat) :
    s.popped.count (i,p) = s.passed.count (i,p) := by
  have counts := inv.counts i p
  rwa [if_neg (holdsNot line p)] at counts

theorem outsideFits (inv : s.Inv n) (critical : (s.worker i).line.Critical) {j : ι} (other : j ≠ i) {queue : List Nat}
    (shorter : s.m_FileListtoSend = [] → queue = []) : (s.worker j).Fits queue := by
  have outside : ¬ (s.worker j).line.Critical := by
    rw [inv.lock j,(inv.lock i).mp critical]
    exact fun same => other (Option.some.inj same).symm
  have fits := inv.fits j
  unfold SendWorker.Fits at fits ⊢
  cases line : (s.worker j).line with
  | size | front | popFront | unlock => exact absurd (line ▸ trivial) outside
  | connect | tryLock | sendFile =>
    rw [line] at fits
    exact fits
  | check | returned =>
    rw [line] at fits
    exact fun asked => shorter (fits asked)

theorem Senders.Inv.locks (inv : s.Inv n) (line : (s.worker i).line = .tryLock) (free : s.m_csFileListtoSend = none) :
    Senders.Inv n {s.set i {s.worker i with line := .size} with m_csFileListtoSend := some i} := by
  have fits := inv.fits i
  rw [SendWorker.Fits,line] at fits
  refine inv.move _ rfl inv.order (fun p => ?_) (fun _ _ _ => ⟨rfl,rfl⟩) ⟨fun _ => rfl,fun _ => trivial⟩
    (fun j other => ?_) fits fun j _ => inv.fits j
  · rw [if_neg (holdsNot (by simp) p)]
    exact inv.passedAll (by simp [line]) p
  · simp [free,Ne.symm other]

theorem Senders.Inv.pops (inv : s.Inv n) (line : (s.worker i).line = .popFront) {p : Nat} {rest : List Nat}
    (pFile : (s.worker i).pFile = some p) (queue : s.m_FileListtoSend = p :: rest) :
    Senders.Inv n {s.set i {s.worker i with line := .unlock} with
      m_FileListtoSend := rest, popped := s.popped ++ [(i,p)]} := by
  have order := inv.order
  rw [queue] at order
  refine inv.move _ rfl (by simpa using order) (fun q => ?_) (fun j other q => ⟨?_,rfl⟩) ?_ (fun _ _ => Iff.rfl) ?_
    fun j other => ?_
  · have before : s.popped.count (i,q) = s.passed.count (i,q) := inv.passedAll (by simp [line]) q
    simp only [countPair,before,SendWorker.Holds,pFile,true_or,and_true,true_and,Option.some.injEq]
    rfl
  · rw [countPair,if_neg fun same => other same.1.symm,Nat.add_zero]
  · exact iff_of_true trivial ((inv.lock i).mp (by simp [line,Line.Critical]))
  · intro none
    simp [pFile] at none
  · exact outsideFits inv (by simp [line,Line.Critical]) other (by simp [queue])

theorem Senders.Inv.unlocks (inv : s.Inv n) (line : (s.worker i).line = .unlock) :
    Senders.Inv n {s.set i {s.worker i with line := .check} with m_csFileListtoSend := none} := by
  have fits := inv.fits i
  rw [SendWorker.Fits,line] at fits
  have mine := (inv.lock i).mp (by simp [line,Line.Critical])
  refine inv.move _ rfl inv.order (fun p => ?_) (fun _ _ _ => ⟨rfl,rfl⟩) (by simp [Line.Critical])
    (fun j other => ?_) fits fun j _ => inv.fits j
  · have before := inv.counts i p
    simp only [SendWorker.Holds,line,true_or,and_true] at before
    simp only [SendWorker.Holds,or_true,and_true]
    exact before
  · rw [mine]
    simp [Ne.symm other]

theorem Senders.Inv.passes (inv : s.Inv n) (line : (s.worker i).line = .check) {p : Nat}
    (pFile : (s.worker i).pFile = some p) :
    Senders.Inv n {s.set i {s.worker i with line := .sendFile} with passed := s.passed ++ [(i,p)]} := by
  refine inv.move _ rfl inv.order (fun q => ?_) (fun j other q => ⟨rfl,?_⟩) ?_ (fun _ _ => Iff.rfl) trivial
    fun j _ => inv.fits j
  · have before := inv.counts i q
    simp only [SendWorker.Holds,line,pFile,or_true,and_true,Option.some.injEq] at before
    rw [if_neg (holdsNot (by simp) q),countPair]
    simp only [true_and]
    exact before
  · rw [countPair,if_neg fun same => other same.1.symm,Nat.add_zero]
  · refine Iff.trans ?_ (inv.lock i)
    rw [line]
    simp [Line.Critical]

theorem stepInv {a : ι × Bool} (taken : s.step a = some t) (inv : s.Inv n) : t.Inv n := by
  obtain ⟨i,connects⟩ := a
  have fits := inv.fits i
  unfold SendWorker.Fits at fits
  cases line : (s.worker i).line with
  | connect =>
    rw [line] at fits
    simp only [Senders.step,line,Option.some.injEq] at taken
    subst taken
    cases connects with
    | true => exact inv.set (by simp [line,Line.Critical]) (holdsNeither (by simp [line]) (by simp)) fits.1
    | false =>
      refine inv.set (by simp [line,Line.Critical]) (holdsNeither (by simp [line]) (by simp)) fun connected => ?_
      simp [fits.2] at connected
  | tryLock =>
    simp only [Senders.step,line] at taken
    cases free : s.m_csFileListtoSend with
    | none =>
      simp only [free,Option.some.injEq] at taken
      subst taken
      exact inv.locks line free
    | some holder =>
      simp only [free,Option.some.injEq] at taken
      subst taken
      exact inv
  | size =>
    rw [line] at fits
    simp only [Senders.step,line,Option.some.injEq] at taken
    subst taken
    cases empty : s.m_FileListtoSend with
    | nil =>
      refine inv.set (by simp [line,Line.Critical]) (fun p => ?_) fun _ => empty
      refine iff_of_false ?_ (holdsNot (by simp [line]) p)
      simp [SendWorker.Holds,fits]
    | cons p rest =>
      exact inv.set (by simp [line,Line.Critical]) (holdsNeither (by simp [line]) (by simp)) ⟨fits,by simp [empty]⟩
  | front =>
    rw [line] at fits
    simp only [Senders.step,line] at taken
    cases queue : s.m_FileListtoSend with
    | nil => exact absurd queue fits.2
    | cons p rest =>
      simp only [queue,Option.some.injEq] at taken
      subst taken
      exact inv.set (by simp [line,Line.Critical]) (holdsNeither (by simp [line]) (by simp)) ⟨p,rest,rfl,queue⟩
  | popFront =>
    rw [line] at fits
    obtain ⟨p,rest,pFile,queue⟩ := fits
    simp only [Senders.step,line,queue,Option.some.injEq] at taken
    subst taken
    exact inv.pops line pFile queue
  | unlock =>
    simp only [Senders.step,line,Option.some.injEq] at taken
    subst taken
    exact inv.unlocks line
  | check =>
    rw [line] at fits
    simp only [Senders.step,line] at taken
    cases pFile : (s.worker i).pFile with
    | none =>
      simp only [pFile,Option.some.injEq] at taken
      subst taken
      refine inv.set (by simp [line,Line.Critical]) (fun p => ?_) fun _ => fits pFile
      exact iff_of_false (holdsNot (by simp) p) (by simp [SendWorker.Holds,pFile])
    | some p =>
      simp only [pFile,Option.some.injEq] at taken
      subst taken
      simpa only [pFile] using inv.passes line pFile
  | sendFile =>
    simp only [Senders.step,line,Option.some.injEq] at taken
    subst taken
    exact inv.set (by simp [line,Line.Critical]) (holdsNeither (by simp [line]) (by simp)) rfl
  | returned =>
    simp [Senders.step,line] at taken

theorem stepTaken (inv : s.Inv n) (connects : Bool) (running : (s.worker i).line ≠ .returned) :
    ∃ t, s.step (i,connects) = some t := by
  have fits := inv.fits i
  unfold SendWorker.Fits at fits
  cases line : (s.worker i).line with
  | returned => exact absurd line running
  | connect | size | unlock | sendFile => exact ⟨_,by simp only [Senders.step,line]; rfl⟩
  | tryLock => cases free : s.m_csFileListtoSend <;> exact ⟨_,by simp only [Senders.step,line,free]; rfl⟩
  | check => cases pFile : (s.worker i).pFile <;> exact ⟨_,by simp only [Senders.step,line,pFile]; rfl⟩
  | front =>
    rw [line] at fits
    cases queue : s.m_FileListtoSend with
    | nil => exact absurd queue fits.2
    | cons p rest => exact ⟨_,by simp only [Senders.step,line,queue]; rfl⟩
  | popFront =>
    rw [line] at fits
    obtain ⟨p,rest,-,queue⟩ := fits
    exact ⟨_,by simp only [Senders.step,line,queue]; rfl⟩

theorem passedOnce (inv : s.Inv n) : List.Subperm s.passed s.popped := by
  rw [List.subperm_ext_iff]
  rintro ⟨i,p⟩ -
  rw [inv.counts i p]
  exact Nat.le_add_right _ _

theorem poppedOnce (inv : s.Inv n) : (s.popped.map Prod.snd).Nodup := by
  have order := inv.order ▸ List.nodup_range
  exact (List.nodup_append.mp order).1

end Kept

theorem queueSent {files : List FileInfo} {acts : List (ι × Bool)} {s : Senders ι}
    (run : follow Senders.step acts (Senders.start files) = some s) :
    (s.passed.map Prod.snd).Nodup ∧ (∀ call ∈ s.passed, call.2 < files.length) ∧
      ((∀ i, (s.worker i).line = .returned) → (∃ i, (s.worker i).connected = true) →
        s.m_FileListtoSend = [] ∧ (s.passed.map Prod.snd).Perm (List.range files.length)) := by
  have inv : s.Inv files.length := followKeeps stepInv run (startInv files)
  have passed : List.Subperm (s.passed.map Prod.snd) (s.popped.map Prod.snd) := by
    obtain ⟨l,perm,sublist⟩ := passedOnce inv
    exact ⟨l.map Prod.snd,perm.map _,sublist.map _⟩
  refine ⟨?_,?_,fun returned ⟨i,connected⟩ => ?_⟩
  · obtain ⟨l,perm,sublist⟩ := passed
    exact perm.nodup ((poppedOnce inv).sublist sublist)
  · intro call member
    have within : call.2 ∈ List.range files.length := by
      rw [← inv.order]
      exact List.mem_append_left _ (passed.subset (List.mem_map_of_mem member))
    exact List.mem_range.mp within
  · have drained : s.m_FileListtoSend = [] := by
      have fits := inv.fits i
      unfold SendWorker.Fits at fits
      rw [returned i] at fits
      exact fits connected
    have same : s.popped.Perm s.passed := by
      rw [List.perm_iff_count]
      rintro ⟨j,p⟩
      rw [inv.counts j p,if_neg (holdsNot (by simp [returned j]) p),Nat.add_zero]
    have order := inv.order
    rw [drained,List.append_nil] at order
    exact ⟨drained,order ▸ (same.map Prod.snd).symm⟩

end Steps

-- Two workers connect and send a file each, then both find the queue empty.
def bothConnected : List (Bool × Bool) :=
  [(true,true),(false,true)] ++ List.replicate 6 (true,true) ++ List.replicate 7 (false,true) ++
    List.replicate 5 (true,true) ++ List.replicate 4 (false,true)

theorem queueSentShort : ∃ s, follow Senders.step bothConnected (Senders.start [shortName,shortName]) = some s ∧
    s.m_FileListtoSend = [] ∧ (s.passed.map Prod.snd).Perm (List.range 2) := by
  have sent := @queueSent Bool _ [shortName,shortName] bothConnected _ rfl
  exact ⟨_,rfl,sent.2.2 (by decide) ⟨true,rfl⟩⟩

end JokeDse
