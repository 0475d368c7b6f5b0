import Mathlib.Data.List.Nodup
import Mathlib.Logic.Function.Basic

/-! Named auto-reset events that parties share by their handles. Every party keeps books of its own calls; a
local check of each party's program gives that the events agree with all books in every run. -/
namespace JokeDse.Events

/-- The holders of the handles, the parties whose calls have set the event and those whose waits it has ended.
The event is there while somebody has a handle. -/
structure Event (ι : Type) where
  signalled : Bool
  handles : List ι
  sets : List ι
  heard : List ι
  deriving DecidableEq, Repr

inductive Call where
  | opens
  | creates
  | closes
  | sets
  | resets
  | waits
  deriving DecidableEq, Repr

structure Books where
  handles : Nat
  sets : Nat
  heard : Nat
  deriving DecidableEq, Repr

def Books.after (b : Books) (result : Bool) : Call → Books
  | .opens => if result then {b with handles := b.handles + 1} else b
  | .creates => {b with handles := b.handles + 1}
  | .closes => {b with handles := b.handles - 1}
  | .sets => {b with sets := b.sets + 1}
  | .resets => b
  | .waits => if result then {b with heard := b.heard + 1} else b

def Books.Allows (b : Books) : Call → Bool → Prop
  | .opens,false => b.handles = 0
  | .waits,_ => True
  | _,result => result = true

namespace Event
variable {ι : Type} [DecidableEq ι] {e : Event ι} {i : ι} {c : Call} {books : ι → Books}

def absent : Event ι := ⟨false,[],[],[]⟩

/-- An event that is created was not there or is opened; one whose last handle is closed is gone. -/
def call (i : ι) (e : Event ι) : Call → Bool × Event ι
  | .opens => if e.handles.isEmpty then (false,e) else (true,{e with handles := i :: e.handles})
  | .creates => (true,{e with handles := i :: e.handles})
  | .closes => (true,{e with handles := e.handles.erase i, signalled := e.signalled && !(e.handles.erase i).isEmpty})
  | .sets => (true,{e with signalled := true, sets := i :: e.sets})
  | .resets => (true,{e with signalled := false})
  | .waits => if e.signalled then (true,{e with signalled := false, heard := i :: e.heard}) else (false,e)

structure Agrees (books : ι → Books) (e : Event ι) : Prop where
  handles : ∀ i, e.handles.count i = (books i).handles
  sets : ∀ i, e.sets.count i = (books i).sets
  heard : ∀ i, e.heard.count i = (books i).heard
  gone : e.handles = [] → e.signalled = false
  answered : e.heard.length + e.signalled.toNat ≤ e.sets.length

theorem absentAgrees (none : ∀ i, books i = ⟨0,0,0⟩) : (absent : Event ι).Agrees books where
  handles i := by rw [none]; rfl
  sets i := by rw [none]; rfl
  heard i := by rw [none]; rfl
  gone _ := rfl
  answered := Nat.le_refl _

theorem Agrees.here (agrees : e.Agrees books) (held : 0 < (books i).handles) : e.handles ≠ [] := by
  intro none
  have count := agrees.handles i
  rw [none,List.count_nil] at count
  omega

theorem Agrees.allows (agrees : e.Agrees books) (i : ι) (c : Call) : (books i).Allows c (e.call i c).1 := by
  cases c with
  | opens =>
    cases none : e.handles with
    | nil =>
      have count := agrees.handles i
      rw [none,List.count_nil] at count
      simpa only [call,none,List.isEmpty_nil,if_true,Books.Allows] using count.symm
    | cons j rest => simp [call,none,Books.Allows]
  | waits => trivial
  | creates | closes | sets | resets => rfl

section Counted
variable {members : List ι} {n : ι → Nat}

theorem countSame (count : ∀ j, members.count j = n j) (i j : ι) : members.count j = if j = i then n i else n j := by
  rw [count]
  by_cases same : j = i
  · rw [if_pos same,same]
  · rw [if_neg same]

theorem countCons (count : ∀ j, members.count j = n j) (i j : ι) :
    (i :: members).count j = if j = i then n i + 1 else n j := by
  rw [List.count_cons,count]
  by_cases same : j = i
  · subst same
    simp
  · simp [same,Ne.symm same]

theorem countErase (count : ∀ j, members.count j = n j) (i j : ι) :
    (members.erase i).count j = if j = i then n i - 1 else n j := by
  rw [List.count_erase,count]
  by_cases same : j = i
  · subst same
    simp
  · simp [same,Ne.symm same]

end Counted

omit [DecidableEq ι] in
theorem answeredSoFar (answered : e.heard.length + e.signalled.toNat ≤ e.sets.length) : e.heard.length ≤ e.sets.length := by
  omega

theorem agreesAfter {next : Event ι} {b : Books}
    (handles : ∀ j, next.handles.count j = if j = i then b.handles else (books j).handles)
    (sets : ∀ j, next.sets.count j = if j = i then b.sets else (books j).sets)
    (heard : ∀ j, next.heard.count j = if j = i then b.heard else (books j).heard)
    (gone : next.handles = [] → next.signalled = false)
    (answered : next.heard.length + next.signalled.toNat ≤ next.sets.length) :
    next.Agrees (Function.update books i b) where
  handles j := by rw [handles,Function.update_apply,apply_ite Books.handles]
  sets j := by rw [sets,Function.update_apply,apply_ite Books.sets]
  heard j := by rw [heard,Function.update_apply,apply_ite Books.heard]
  gone := gone
  answered := answered

theorem Agrees.call (agrees : e.Agrees books) (held : c = .sets → 0 < (books i).handles) :
    (e.call i c).2.Agrees (Function.update books i ((books i).after (e.call i c).1 c)) := by
  have answered := agrees.answered
  have handles := countSame agrees.handles i
  have sets := countSame agrees.sets i
  have heard := countSame agrees.heard i
  cases c with
  | opens =>
    cases none : e.handles.isEmpty with
    | true =>
      simp only [Event.call,none,if_true,Books.after,Bool.false_eq_true,if_false,Function.update_eq_self]
      exact agrees
    | false =>
      simp only [Event.call,none,Bool.false_eq_true,if_false,Books.after,if_true]
      exact agreesAfter (countCons agrees.handles i) sets heard (fun gone => by cases gone) answered
  | creates => exact agreesAfter (countCons agrees.handles i) sets heard (fun gone => by cases gone) answered
  | closes =>
    refine agreesAfter (countErase agrees.handles i) sets heard (fun gone => ?_) ?_
    · simp only [Event.call] at gone
      simp [Event.call,gone]
    · have fewer : (e.signalled && !(e.handles.erase i).isEmpty).toNat ≤ e.signalled.toNat := by
        cases e.signalled <;> simp [Bool.toNat_le]
      exact Nat.le_trans (Nat.add_le_add_left fewer _) answered
  | sets =>
    exact agreesAfter handles (countCons agrees.sets i) heard (fun gone => absurd gone (agrees.here (held rfl)))
      (Nat.succ_le_succ (answeredSoFar answered))
  | resets =>
    refine agreesAfter handles sets heard (fun _ => rfl) ?_
    exact answeredSoFar (e := e) answered
  | waits =>
    cases set : e.signalled with
    | false =>
      simp only [Event.call,set,Bool.false_eq_true,if_false,Books.after,Function.update_eq_self]
      exact agrees
    | true =>
      rw [set] at answered
      simp only [Event.call,set,if_true,Books.after]
      refine agreesAfter handles sets (countCons agrees.heard i) (fun _ => rfl) ?_
      simpa using answered

theorem staysGone (gone : e.handles = []) (other : c ≠ .creates) : (e.call i c).2.handles = [] := by
  cases c with
  | opens => simp [Event.call,gone]
  | creates => exact absurd rfl other
  | closes => simp [Event.call,gone]
  | sets | resets => exact gone
  | waits =>
    simp only [Event.call]
    split <;> exact gone

theorem staysSilent (silent : e.signalled = false) (other : c ≠ .sets) : (e.call i c).2.signalled = false := by
  cases c with
  | opens =>
    simp only [Event.call]
    split <;> exact silent
  | creates => exact silent
  | closes => simp [Event.call,silent]
  | sets => exact absurd rfl other
  | resets => rfl
  | waits => simp [Event.call,silent]

/-! What the totals are. -/

theorem Agrees.setsOnce (agrees : e.Agrees books) (once : ∀ i, (books i).sets ≤ 1) : e.sets.Nodup :=
  List.nodup_iff_count.mpr fun i => by rw [agrees.sets i]; exact once i

theorem Agrees.heardOnce (agrees : e.Agrees books) (once : ∀ i, (books i).heard ≤ 1) : e.heard.Nodup :=
  List.nodup_iff_count.mpr fun i => by rw [agrees.heard i]; exact once i

theorem Agrees.memSets (agrees : e.Agrees books) : i ∈ e.sets ↔ 0 < (books i).sets := by
  rw [← agrees.sets i,List.count_pos_iff]

theorem Agrees.memHeard (agrees : e.Agrees books) : i ∈ e.heard ↔ 0 < (books i).heard := by
  rw [← agrees.heard i,List.count_pos_iff]

theorem Agrees.setsBy (agrees : e.Agrees books) (only : ∀ j, j ≠ i → (books j).sets = 0) : e.sets.length = (books i).sets := by
  rw [← agrees.sets i,eq_comm,List.count_eq_length]
  intro j member
  by_contra other
  have some := agrees.memSets.mp member
  rw [only j (Ne.symm other)] at some
  cases some

theorem Agrees.heardBy (agrees : e.Agrees books) (i : ι) : (books i).heard ≤ e.heard.length := by
  rw [← agrees.heard i]
  exact List.count_le_length

end Event

/-! Parties with programs over a table of events. -/

abbrev Turn (ν τ : Type) := Option (ν × Call) × (Bool → Option τ)

structure System (ν : Type) {ι : Type} (σ : ι → Type) where
  party : ∀ i, σ i
  event : ν → Event ι

section System
variable {ν ι : Type} [DecidableEq ν] [DecidableEq ι] {σ α : ι → Type}

def System.step (program : ∀ i, σ i → α i → Option (Turn ν (σ i))) (s : System ν σ) (a : Σ i, α i) : Option (System ν σ) :=
  (program a.1 (s.party a.1) a.2).bind fun
    | (none,goes) => (goes true).map fun p => {s with party := Function.update s.party a.1 p}
    | (some (name,c),goes) => (goes ((s.event name).call a.1 c).1).map fun p =>
      ⟨Function.update s.party a.1 p,Function.update s.event name ((s.event name).call a.1 c).2⟩

structure Checked {τ : Type} (turn : Turn ν τ) (fits : τ → Prop) (books : τ → ν → Books) (p : τ) : Prop where
  silent : turn.1 = none → ∀ q, turn.2 true = some q → fits q ∧ books q = books p
  held : ∀ name, turn.1 = some (name,.sets) → 0 < (books p name).handles
  call : ∀ name c, turn.1 = some (name,c) → ∀ result q, (books p name).Allows c result → turn.2 result = some q →
    fits q ∧ books q = Function.update (books p) name ((books p name).after result c)

section Check
variable {τ : Type} {fits : τ → Prop} {books : τ → ν → Books} {p : τ} {name : ν} {c : Call} {goes : Bool → Option τ}

theorem checkedSilent (keeps : ∀ q, goes true = some q → fits q ∧ books q = books p) :
    Checked (none,goes) fits books p where
  silent _ := keeps
  held _ same := by cases same
  call _ _ same := by cases same

theorem checkedCall (held : c = .sets → 0 < (books p name).handles)
    (keeps : ∀ result q, (books p name).Allows c result → goes result = some q →
      fits q ∧ books q = Function.update (books p) name ((books p name).after result c)) :
    Checked (some (name,c),goes) fits books p where
  silent none := by cases none
  held _ same := by
    cases same
    exact held rfl
  call _ _ same := by
    cases same
    exact keeps

end Check

variable {program : ∀ i, σ i → α i → Option (Turn ν (σ i))} {fits : ∀ i, σ i → Prop} {books : ∀ i, σ i → ν → Books}

structure System.Agrees (fits : ∀ i, σ i → Prop) (books : ∀ i, σ i → ν → Books) (s : System ν σ) : Prop where
  party : ∀ i, fits i (s.party i)
  event : ∀ name, (s.event name).Agrees fun i => books i (s.party i) name

inductive Taken (program : ∀ i, σ i → α i → Option (Turn ν (σ i))) (s : System ν σ) (i : ι) (a : α i) : System ν σ → Prop where
  | silent {goes : Bool → Option (σ i)} {q : σ i} (turn : program i (s.party i) a = some (none,goes))
      (goesOn : goes true = some q) : Taken program s i a {s with party := Function.update s.party i q}
  | calls {name : ν} {c : Call} {goes : Bool → Option (σ i)} {q : σ i}
      (turn : program i (s.party i) a = some (some (name,c),goes)) (goesOn : goes ((s.event name).call i c).1 = some q) :
      Taken program s i a ⟨Function.update s.party i q,Function.update s.event name ((s.event name).call i c).2⟩

theorem stepTaken {s t : System ν σ} {i : ι} {a : α i} (taken : s.step program ⟨i,a⟩ = some t) : Taken program s i a t := by
  obtain ⟨⟨call,goes⟩,turn,rest⟩ := Option.bind_eq_some_iff.mp taken
  cases call with
  | none =>
    obtain ⟨q,goesOn,rfl⟩ := Option.map_eq_some_iff.mp rest
    exact .silent turn goesOn
  | some named =>
    obtain ⟨q,goesOn,rfl⟩ := Option.map_eq_some_iff.mp rest
    exact .calls turn goesOn

structure Moved (s t : System ν σ) (i : ι) (name : ν) (turn : Turn ν (σ i)) (result : Bool) (q : σ i) : Prop where
  goesOn : turn.2 result = some q
  party : t.party = Function.update s.party i q
  called : ∀ c, turn.1 = some (name,c) →
    result = ((s.event name).call i c).1 ∧ t.event name = ((s.event name).call i c).2
  kept : (∀ c, turn.1 ≠ some (name,c)) → t.event name = s.event name

omit [DecidableEq ν] in
theorem Moved.keeps {s t : System ν σ} {i : ι} {name : ν} {turn : Turn ν (σ i)} {result : Bool} {q : σ i}
    {P : Event ι → Prop} (moved : Moved s t i name turn result q) (now : P (s.event name))
    (after : ∀ c, turn.1 = some (name,c) → P ((s.event name).call i c).2) : P (t.event name) := by
  by_cases called : ∃ c, turn.1 = some (name,c)
  · obtain ⟨c,called⟩ := called
    rw [(moved.called c called).2]
    exact after c called
  · rw [moved.kept (not_exists.mp called)]
    exact now

theorem stepMoved {s t : System ν σ} {i : ι} {a : α i} (taken : s.step program ⟨i,a⟩ = some t) (name : ν) :
    ∃ turn result q, program i (s.party i) a = some turn ∧ Moved s t i name turn result q := by
  cases stepTaken taken with
  | @silent goes q turn goesOn => exact ⟨(none,goes),true,q,turn,goesOn,rfl,(fun c same => by cases same),fun _ => rfl⟩
  | @calls other c goes q turn goesOn =>
    refine ⟨(some (other,c),goes),_,q,turn,goesOn,rfl,fun c' same => ?_,fun elsewhere => ?_⟩
    · cases same
      exact ⟨rfl,Function.update_self ..⟩
    · refine Function.update_of_ne ?_ ..
      rintro rfl
      exact elsewhere c rfl

omit [DecidableEq ν] in
theorem updateFits {s : System ν σ} {i : ι} {q : σ i} (agrees : s.Agrees fits books) (fit : fits i q) (j : ι) :
    fits j (Function.update s.party i q j) := by
  by_cases here : j = i
  · subst here
    rwa [Function.update_self]
  · rw [Function.update_of_ne here]
    exact agrees.party j

omit [DecidableEq ν] in
theorem updateBooks (s : System ν σ) (i : ι) (q : σ i) (name : ν) :
    (fun j => books j (Function.update s.party i q j) name) =
      Function.update (fun j => books j (s.party j) name) i (books i q name) := by
  funext j
  by_cases here : j = i
  · subst here
    rw [Function.update_self,Function.update_self]
  · rw [Function.update_of_ne here,Function.update_of_ne here]

theorem stepAgrees (checked : ∀ i p a turn, fits i p → program i p a = some turn → Checked turn (fits i) (books i) p)
    {s t : System ν σ} {a : Σ i, α i} (taken : s.step program a = some t) (agrees : s.Agrees fits books) :
    t.Agrees fits books := by
  obtain ⟨i,a⟩ := a
  cases stepTaken taken with
  | silent turn goesOn =>
    obtain ⟨fit,same⟩ := (checked i _ _ _ (agrees.party i) turn).silent rfl _ goesOn
    refine ⟨updateFits agrees fit,fun name => ?_⟩
    simp only [updateBooks,same,Function.update_eq_self]
    exact agrees.event name
  | @calls name c goes q turn goesOn =>
    have check := checked i _ _ _ (agrees.party i) turn
    obtain ⟨fit,booked⟩ := check.call name c rfl _ q ((agrees.event name).allows i c) goesOn
    refine ⟨updateFits agrees fit,fun other => ?_⟩
    simp only [updateBooks,booked]
    by_cases here : other = name
    · subst here
      rw [Function.update_self,Function.update_self]
      refine (agrees.event other).call ?_
      rintro rfl
      exact check.held other rfl
    · rw [Function.update_of_ne here,Function.update_of_ne here,Function.update_eq_self]
      exact agrees.event other

end System
end JokeDse.Events
