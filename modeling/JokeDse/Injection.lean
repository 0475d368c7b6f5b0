import JokeDse.Lib.Events
import JokeDse.Lib.Runs

/-! The three events between the dialog and the injected libraries: OnBnClickedButtonInject, OnTimer and
OnDestroy of the dialog, InitInstance, FindFiles and ExitInstance of a library, cut at their calls. -/
namespace JokeDse
open Runs

inductive EventName where
  | joke
  | stop
  | finished
  deriving DecidableEq, Repr

-- A call with a null handle fails.
def withHandle (handle : Bool) (name : EventName) (c : Events.Call) : Option (EventName × Events.Call) :=
  if handle then some (name,c) else none

/-! The dialog. -/

inductive Caller where
  | inject
  | timer
  | destroy
  deriving DecidableEq, Repr

inductive UnInjectionLine where
  | openStop
  | keepStop
  | setStop
  | openFinished
  | keepFinished
  | waitFinished
  | resetFinished
  | closeFinished
  | closeStop
  deriving DecidableEq, Repr

inductive InjectionLine where
  | rest
  | setFinished
  | openJoke
  | createJoke
  | setJoke
  | unInjection (caller : Caller) (line : UnInjectionLine)
  | createStop
  | createFinished
  | closeJoke
  | destroyed
  deriving DecidableEq, Repr

def Caller.bClearAll : Caller → Bool
  | inject => false
  | timer | destroy => true

def Caller.goesOn : Caller → InjectionLine
  | inject => .createStop
  | timer => .rest
  | destroy => .destroyed

def Caller.clear (caller : Caller) : InjectionLine :=
  if caller.bClearAll then .unInjection caller .closeFinished else caller.goesOn

/-- The handles are true when they are not null. `clicks` counts the calls of OnBnClickedButtonInject that have
both paths, `answers` the waits for hEventFinished in OnTimer that it ended, `waited` those in UnInjection, `stops`
the calls that set m_hEventStop. -/
structure Injection where
  line : InjectionLine
  enabled : Bool
  m_hJokeEvent : Bool
  m_hEventStop : Bool
  m_hEventFinished : Bool
  clicks : Nat
  answers : Nat
  waited : Nat
  stops : Nat
  deriving DecidableEq, Repr

inductive InjectionAct where
  | click
  | timer
  | destroy
  | next (timedOut : Bool)
  deriving DecidableEq, Repr

namespace Injection

def start : Injection := ⟨.rest,true,false,false,false,0,0,0,0⟩

def unInjection (d : Injection) (caller : Caller) (timedOut : Bool) : UnInjectionLine → Events.Turn EventName Injection
  | .openStop => (some (.stop,.opens),fun found =>
      some {d with line := .unInjection caller (if found then .keepStop else .openFinished)})
  | .keepStop => (withHandle d.m_hEventStop .stop .closes,fun _ =>
      some {d with m_hEventStop := true, line := .unInjection caller .setStop})
  | .setStop => (withHandle d.m_hEventStop .stop .sets,fun _ =>
      some {d with stops := d.stops + d.m_hEventStop.toNat, line := .unInjection caller .openFinished})
  | .openFinished => (some (.finished,.opens),fun found =>
      some {d with line := if found then .unInjection caller .keepFinished else caller.clear})
  | .keepFinished => (withHandle d.m_hEventFinished .finished .closes,fun _ =>
      some {d with m_hEventFinished := true, line := .unInjection caller .waitFinished})
  | .waitFinished => (withHandle d.m_hEventFinished .finished .waits,fun signalled =>
      if d.m_hEventFinished && signalled then some {d with waited := d.waited + 1, line := .unInjection caller .resetFinished}
      else if d.m_hEventFinished && !timedOut then none
      else some {d with line := .unInjection caller .resetFinished})
  | .resetFinished => (withHandle d.m_hEventFinished .finished .resets,fun _ => some {d with line := caller.clear})
  | .closeFinished => (withHandle d.m_hEventFinished .finished .closes,fun _ =>
      some {d with m_hEventFinished := false, line := .unInjection caller .closeStop})
  | .closeStop => (withHandle d.m_hEventStop .stop .closes,fun _ => some {d with m_hEventStop := false, line := caller.goesOn})

def turn (d : Injection) : InjectionAct → Option (Events.Turn EventName Injection)
  | .click =>
    if d.line = .rest ∧ d.enabled = true then
      some (none,fun _ => some {d with enabled := false, clicks := d.clicks + 1, line := .setFinished})
    else none
  | .timer =>
    if d.line = .rest then
      some (withHandle (d.m_hEventStop && d.m_hEventFinished) .finished .waits,fun signalled =>
        if d.m_hEventStop && d.m_hEventFinished && signalled then
          some {d with enabled := true, answers := d.answers + 1, line := .unInjection .timer .openStop}
        else some d)
    else none
  | .destroy => if d.line = .rest then some (none,fun _ => some {d with line := .closeJoke}) else none
  | .next timedOut =>
    match d.line with
    | .rest | .destroyed => none
    | .setFinished => some (withHandle d.m_hEventFinished .finished .sets,fun _ => some {d with line := .openJoke})
    -- EnableJoke
    | .openJoke => some (some (.joke,.opens),fun found =>
        if found then some {d with m_hJokeEvent := true, line := .setJoke}
        else some {d with line := if d.m_hJokeEvent then .setJoke else .createJoke})
    | .createJoke => some (some (.joke,.creates),fun _ => some {d with m_hJokeEvent := true, line := .setJoke})
    | .setJoke => some (withHandle d.m_hJokeEvent .joke .sets,fun _ => some {d with line := .unInjection .inject .openStop})
    | .unInjection caller line => some (d.unInjection caller timedOut line)
    -- InitInjection
    | .createStop => some (withHandle (!d.m_hEventStop) .stop .creates,fun _ =>
        some {d with m_hEventStop := true, line := .createFinished})
    | .createFinished => some (withHandle (!d.m_hEventFinished) .finished .creates,fun _ =>
        some {d with m_hEventFinished := true, line := .rest})
    | .closeJoke => some (withHandle d.m_hJokeEvent .joke .closes,fun _ =>
        some {d with m_hJokeEvent := false, line := .unInjection .destroy .openStop})

/-- The handles that the dialog has: EnableJoke opens another one with every click. -/
def handles (d : Injection) : EventName → Nat
  | .joke =>
    match d.line with
    | .setFinished | .openJoke | .createJoke | .unInjection .destroy _ | .destroyed => d.clicks - 1
    | _ => d.clicks
  | .stop => d.m_hEventStop.toNat + (match d.line with | .unInjection _ .keepStop => 1 | _ => 0)
  | .finished => d.m_hEventFinished.toNat + (match d.line with | .unInjection _ .keepFinished => 1 | _ => 0)

def books (d : Injection) (name : EventName) : Events.Books where
  handles := d.handles name
  sets :=
    match name with
    | .joke =>
      match d.line with
      | .setFinished | .openJoke | .createJoke | .setJoke => d.clicks - 1
      | _ => d.clicks
    | .stop => d.stops
    | .finished => 0
  heard :=
    match name with
    | .finished => d.answers + d.waited
    | _ => 0

def had (d : Injection) : Caller → Bool
  | .inject => false
  | .timer => true
  | .destroy => !d.enabled

def UnInjects (d : Injection) (caller : Caller) : UnInjectionLine → Prop
  | .openStop | .keepStop => d.m_hEventStop = d.had caller ∧ d.m_hEventFinished = d.had caller
  | .setStop => d.m_hEventStop = true ∧ d.m_hEventFinished = d.had caller
  | .openFinished | .keepFinished => d.m_hEventFinished = d.had caller
  | .waitFinished | .resetFinished => d.m_hEventFinished = true
  | .closeFinished => caller.bClearAll = true
  | .closeStop => caller.bClearAll = true ∧ d.m_hEventFinished = false

def Calls (d : Injection) : Caller → Prop
  | .inject => d.enabled = false ∧ d.m_hJokeEvent = decide (0 < d.clicks)
  | .timer => d.enabled = true ∧ d.m_hJokeEvent = decide (0 < d.clicks)
  | .destroy => d.m_hJokeEvent = false

def Holds (d : Injection) : InjectionLine → Prop
  | .rest | .closeJoke =>
    d.m_hEventStop = !d.enabled ∧ d.m_hEventFinished = !d.enabled ∧ d.m_hJokeEvent = decide (0 < d.clicks)
  | .setFinished | .openJoke =>
    d.enabled = false ∧ d.m_hEventStop = false ∧ d.m_hEventFinished = false ∧ d.m_hJokeEvent = decide (1 < d.clicks)
  | .createJoke =>
    d.enabled = false ∧ d.m_hEventStop = false ∧ d.m_hEventFinished = false ∧ d.m_hJokeEvent = false ∧ d.clicks = 1
  | .setJoke => d.enabled = false ∧ d.m_hEventStop = false ∧ d.m_hEventFinished = false ∧ d.m_hJokeEvent = true
  | .unInjection caller line => d.Calls caller ∧ d.UnInjects caller line
  | .createStop => d.enabled = false ∧ d.m_hJokeEvent = true
  | .createFinished => d.enabled = false ∧ d.m_hJokeEvent = true ∧ d.m_hEventStop = true
  | .destroyed => d.m_hEventStop = false ∧ d.m_hEventFinished = false ∧ d.m_hJokeEvent = false

structure Fits (d : Injection) : Prop where
  clicks : d.clicks = d.answers + (!d.enabled).toNat
  holds : d.Holds d.line

end Injection

/-! A library: its InitInstance and ExitInstance, and the thread of FindFiles. -/

inductive AssistLine where
  | openJoke
  | waitJoke
  | openStop
  | openFinished
  | closeJoke
  | returned
  | closeFinished
  | closeStop
  | gone
  | terminated
  deriving DecidableEq, Repr

/-- TimerCallBack begins the search some time after timeSetEvent. -/
inductive Search where
  | unset
  | set
  | running
  | ended
  deriving DecidableEq, Repr

/-- The handles are true when they are open. `taken`: WaitForSingleObject has reported hJokeEvent; `told`:
hEventFinished is set; `stopped` counts the reports of hEventStop. -/
structure Assist where
  line : AssistLine
  hJokeEvent : Bool
  hEventStop : Bool
  hEventFinished : Bool
  search : Search
  taken : Bool
  told : Bool
  stopped : Nat
  deriving DecidableEq, Repr

inductive AssistAct where
  | next
  | timerCallBack
  | wait
  | setFinished
  | exitInstance
  | terminate
  | release (name : EventName)
  deriving DecidableEq, Repr

namespace Assist

def start : Assist := ⟨.openJoke,false,false,false,.unset,false,false,0⟩

def handle (p : Assist) : EventName → Bool
  | .joke => p.hJokeEvent
  | .stop => p.hEventStop
  | .finished => p.hEventFinished

def without (p : Assist) : EventName → Assist
  | .joke => {p with hJokeEvent := false}
  | .stop => {p with hEventStop := false}
  | .finished => {p with hEventFinished := false}

/-- A search waits any number of times before it sets hEventFinished. The process can end at any time; its
handles are closed one after the other. -/
def turn (p : Assist) : AssistAct → Option (Events.Turn EventName Assist)
  | .next =>
    match p.line with
    | .openJoke => some (some (.joke,.opens),fun found =>
        some {p with hJokeEvent := found, line := if found then .waitJoke else .returned})
    | .waitJoke => some (some (.joke,.waits),fun signalled =>
        some (if signalled then {p with taken := true, line := .openStop} else {p with line := .closeJoke}))
    | .openStop => some (some (.stop,.opens),fun found => some {p with hEventStop := found, line := .openFinished})
    | .openFinished => some (some (.finished,.opens),fun found =>
        some {p with hEventFinished := found, search := if found then .set else .unset, line := .closeJoke})
    | .closeJoke => some (withHandle p.hJokeEvent .joke .closes,fun _ => some {p with hJokeEvent := false, line := .returned})
    | .closeFinished => some (withHandle p.hEventFinished .finished .closes,fun _ =>
        some {p with hEventFinished := false, line := .closeStop})
    | .closeStop => some (withHandle p.hEventStop .stop .closes,fun _ => some {p with hEventStop := false, line := .gone})
    | .returned | .gone | .terminated => none
  | .timerCallBack =>
    if p.line ≠ .gone ∧ p.line ≠ .terminated ∧ p.search = .set then some (none,fun _ => some {p with search := .running})
    else none
  | .wait =>
    if p.line ≠ .gone ∧ p.line ≠ .terminated ∧ p.search = .running then
      some (withHandle p.hEventStop .stop .waits,fun signalled =>
        some (if p.hEventStop && signalled then {p with stopped := p.stopped + 1} else p))
    else none
  | .setFinished =>
    if p.line ≠ .gone ∧ p.line ≠ .terminated ∧ p.search = .running then
      some (withHandle p.hEventFinished .finished .sets,fun _ => some {p with told := p.hEventFinished, search := .ended})
    else none
  | .exitInstance => if p.line = .returned then some (none,fun _ => some {p with line := .closeFinished}) else none
  | .terminate => if p.line ≠ .gone then some (none,fun _ => some {p with line := .terminated}) else none
  | .release name =>
    if p.line = .terminated then some (withHandle (p.handle name) name .closes,fun _ => some (p.without name)) else none

def books (p : Assist) : EventName → Events.Books
  | .joke => ⟨p.hJokeEvent.toNat,0,p.taken.toNat⟩
  | .stop => ⟨p.hEventStop.toNat,0,p.stopped⟩
  | .finished => ⟨p.hEventFinished.toNat,p.told.toNat,0⟩

def Holds (p : Assist) : AssistLine → Prop
  | .openJoke =>
    p.taken = false ∧ p.search = .unset ∧ p.hJokeEvent = false ∧ p.hEventStop = false ∧ p.hEventFinished = false
  | .waitJoke => p.taken = false ∧ p.search = .unset ∧ p.hJokeEvent = true ∧ p.hEventStop = false ∧ p.hEventFinished = false
  | .openStop => p.taken = true ∧ p.search = .unset ∧ p.hJokeEvent = true ∧ p.hEventStop = false ∧ p.hEventFinished = false
  | .openFinished => p.taken = true ∧ p.search = .unset ∧ p.hJokeEvent = true ∧ p.hEventFinished = false
  | .closeJoke => p.hJokeEvent = true
  | .returned | .closeFinished => p.hJokeEvent = false
  | .closeStop => p.hJokeEvent = false ∧ p.hEventFinished = false
  | .gone => p.hJokeEvent = false ∧ p.hEventStop = false ∧ p.hEventFinished = false
  | .terminated => True

structure Fits (p : Assist) : Prop where
  taken : p.search ≠ .unset → p.taken = true
  told : p.search ≠ .ended → p.told = false
  holds : p.Holds p.line

end Assist

section Check
open Events
variable {d : Injection} {turn : Turn EventName Injection}

theorem checkedHandle {τ : Type} {p : τ} {fits : τ → Prop} {books : τ → EventName → Books} {handle : Bool}
    {name : EventName} {c : Events.Call} {goes : Bool → Option τ}
    (held : c = .sets → handle = true → 0 < (books p name).handles)
    (keeps : ∀ result q, goes result = some q → fits q ∧
      books q = if handle then Function.update (books p) name ((books p name).after result c) else books p) :
    Checked (withHandle handle name c,goes) fits books p := by
  cases handle with
  | false => exact checkedSilent fun q goes => keeps true q goes
  | true => exact checkedCall (fun sets => held sets rfl) fun result q _ goes => keeps result q goes

theorem injected (clicks : d.clicks = d.answers + (!d.enabled).toNat) (disabled : d.enabled = false) : 0 < d.clicks := by
  rw [clicks,disabled]
  exact Nat.succ_pos _

theorem clearHolds {caller : Caller} (clicks : d.clicks = d.answers + (!d.enabled).toNat) (calls : d.Calls caller) :
    {d with line := caller.clear}.Holds caller.clear := by
  cases caller with
  | inject => exact ⟨calls.1,calls.2.trans (decide_eq_true (injected clicks calls.1))⟩
  | timer => exact ⟨calls,rfl⟩
  | destroy => exact ⟨calls,rfl⟩

theorem clearBooks {caller : Caller} {line : UnInjectionLine} (here : d.line = .unInjection caller line)
    (kept : line ≠ .keepStop ∧ line ≠ .keepFinished) : {d with line := caller.clear}.books = d.books := by
  funext name
  cases line <;> simp at kept <;> cases caller <;> cases name <;>
    simp [Injection.books,Injection.handles,here,Caller.clear,Caller.bClearAll,Caller.goesOn]

theorem unInjectionChecked {caller : Caller} {timedOut : Bool} {line : UnInjectionLine} (fits : d.Fits)
    (here : d.line = .unInjection caller line) :
    Checked (d.unInjection caller timedOut line) Injection.Fits Injection.books d := by
  obtain ⟨clicks,holds⟩ := fits
  rw [here] at holds
  obtain ⟨calls,holds⟩ := holds
  cases line with
  | openStop =>
    refine checkedCall (fun set => by cases set) fun result q allowed goes => ?_
    cases goes
    refine ⟨⟨clicks,calls,?_⟩,?_⟩
    · cases result with
      | true => exact holds
      | false => exact holds.2
    · funext name
      cases name <;> cases result <;> cases caller <;> simp [Injection.books,Injection.handles,here,Books.after]
  | keepStop =>
    refine checkedHandle (fun set => by cases set) fun result q goes => ?_
    cases goes
    refine ⟨⟨clicks,calls,rfl,holds.2⟩,?_⟩
    · funext name
      cases caller <;> cases name <;> cases held : d.m_hEventStop <;>
        simp [Injection.books,Injection.handles,here,Books.after,held]
  | setStop =>
    refine checkedHandle (fun _ held => by simp [Injection.books,Injection.handles,here,held]) fun result q goes => ?_
    cases goes
    refine ⟨⟨clicks,calls,holds.2⟩,?_⟩
    funext name
    cases caller <;> cases name <;> simp [Injection.books,Injection.handles,here,Books.after,holds.1]
  | openFinished =>
    refine checkedCall (fun set => by cases set) fun result q allowed goes => ?_
    cases goes
    cases result with
    | true =>
      refine ⟨⟨clicks,calls,holds⟩,?_⟩
      funext name
      cases caller <;> cases name <;> simp [Injection.books,Injection.handles,here,Books.after]
    | false =>
      refine ⟨⟨clicks,clearHolds clicks calls⟩,?_⟩
      simp only [Bool.false_eq_true,if_false,Books.after,Function.update_eq_self]
      exact clearBooks here (by simp)
  | keepFinished =>
    refine checkedHandle (fun set => by cases set) fun result q goes => ?_
    cases goes
    refine ⟨⟨clicks,calls,rfl⟩,?_⟩
    funext name
    cases caller <;> cases name <;> cases held : d.m_hEventFinished <;>
      simp [Injection.books,Injection.handles,here,Books.after,held]
  | waitFinished =>
    refine checkedHandle (fun set => by cases set) fun result q goes => ?_
    have handle : d.m_hEventFinished = true := holds
    simp only [handle,Bool.true_and,if_true] at goes ⊢
    cases result with
    | true =>
      cases goes
      refine ⟨⟨clicks,calls,rfl⟩,?_⟩
      funext name
      cases caller <;> cases name <;> simp [Injection.books,Injection.handles,here,Books.after,handle,Nat.add_assoc]
    | false =>
      cases timedOut <;> cases goes
      refine ⟨⟨clicks,calls,rfl⟩,?_⟩
      funext name
      cases caller <;> cases name <;> simp [Injection.books,Injection.handles,here,Books.after,handle]
  | resetFinished =>
    refine checkedHandle (fun set => by cases set) fun result q goes => ?_
    cases goes
    refine ⟨⟨clicks,clearHolds clicks calls⟩,?_⟩
    simp only [Books.after,Function.update_eq_self,ite_self]
    exact clearBooks here (by simp)
  | closeFinished =>
    refine checkedHandle (fun set => by cases set) fun result q goes => ?_
    cases goes
    refine ⟨⟨clicks,calls,holds,rfl⟩,?_⟩
    funext name
    cases caller <;> cases name <;> cases held : d.m_hEventFinished <;>
      simp [Injection.books,Injection.handles,here,Books.after,held]
  | closeStop =>
    refine checkedHandle (fun set => by cases set) fun result q goes => ?_
    cases goes
    refine ⟨⟨clicks,?_⟩,?_⟩
    · cases caller with
      | inject => cases holds.1
      | timer => 
        simp [Injection.Holds,Caller.goesOn,calls.1,calls.2,holds.2]
      | destroy => exact ⟨rfl,holds.2,calls⟩
    · funext name
      cases caller <;> cases name <;> cases held : d.m_hEventStop <;>
        simp [Injection.books,Injection.handles,here,Books.after,held,Caller.goesOn]

theorem injectionChecked {a : InjectionAct} (fits : d.Fits) (turned : d.turn a = some turn) :
    Checked turn Injection.Fits Injection.books d := by
  have clicks := fits.clicks
  have holds := fits.holds
  cases a with
  | click =>
    simp only [Injection.turn] at turned
    split at turned <;> cases turned
    rename_i here
    rw [here.1] at holds
    refine checkedSilent fun q goes => ?_
    cases goes
    obtain ⟨stop,finished,joke⟩ := holds
    rw [here.2] at stop finished clicks
    refine ⟨⟨congrArg (· + 1) clicks,rfl,stop,finished,?_⟩,?_⟩
    · rw [joke]
      exact decide_eq_decide.mpr Nat.succ_lt_succ_iff.symm
    · funext name
      cases name <;> simp [Injection.books,Injection.handles,here.1]
  | timer =>
    simp only [Injection.turn] at turned
    split at turned <;> cases turned
    rename_i here
    rw [here] at holds
    refine checkedHandle (fun set => by cases set) fun result q goes => ?_
    obtain ⟨stop,finished,joke⟩ := holds
    simp only [stop,finished,Bool.and_self] at goes ⊢
    cases enabled : d.enabled with
    | true =>
      simp only [enabled,Bool.not_true,Bool.false_and,Bool.false_eq_true,if_false] at goes ⊢
      cases goes
      exact ⟨fits,rfl⟩
    | false =>
      rw [enabled] at stop finished clicks
      simp only [enabled,Bool.not_false,Bool.true_and,if_true] at goes ⊢
      cases result with
      | true =>
        cases goes
        refine ⟨⟨clicks,⟨rfl,joke⟩,rfl,rfl⟩,?_⟩
        funext name
        cases name <;> simp [Injection.books,Injection.handles,here,Books.after,stop,finished,Nat.add_right_comm]
      | false =>
        cases goes
        exact ⟨fits,by simp only [Books.after,Bool.false_eq_true,if_false,Function.update_eq_self]⟩
  | destroy =>
    simp only [Injection.turn] at turned
    split at turned <;> cases turned
    rename_i here
    rw [here] at holds
    refine checkedSilent fun q goes => ?_
    cases goes
    refine ⟨⟨clicks,holds⟩,?_⟩
    funext name
    cases name <;> simp [Injection.books,Injection.handles,here]
  | next timedOut =>
    cases here : d.line with
    | rest | destroyed => simp [Injection.turn,here] at turned
    | unInjection caller line =>
      simp only [Injection.turn,here,Option.some.injEq] at turned
      subst turned
      exact unInjectionChecked fits here
    | setFinished =>
      rw [here] at holds
      simp only [Injection.turn,here,Option.some.injEq] at turned
      subst turned
      refine checkedHandle (fun _ held => by simp [Injection.books,Injection.handles,here,held]) fun result q goes => ?_
      cases goes
      refine ⟨⟨clicks,holds⟩,?_⟩
      funext name
      cases name <;> simp [Injection.books,Injection.handles,here,holds.2.2.1]
    | openJoke =>
      rw [here] at holds
      simp only [Injection.turn,here,Option.some.injEq] at turned
      subst turned
      refine checkedCall (fun set => by cases set) fun result q allowed goes => ?_
      have some := injected clicks holds.1
      cases result with
      | true =>
        cases goes
        refine ⟨⟨clicks,holds.1,holds.2.1,holds.2.2.1,rfl⟩,?_⟩
        funext name
        cases name <;> simp [Injection.books,Injection.handles,here,Books.after,Nat.sub_add_cancel some]
      | false =>
        have none : d.clicks - 1 = 0 := by simpa [Books.Allows,Injection.books,Injection.handles,here] using allowed
        have first : d.clicks = 1 := by omega
        have null : d.m_hJokeEvent = false := by rw [holds.2.2.2,first]; rfl
        simp only [null,Bool.false_eq_true,if_false] at goes
        cases goes
        refine ⟨⟨clicks,holds.1,holds.2.1,holds.2.2.1,rfl,first⟩,?_⟩
        funext name
        cases name <;> simp [Injection.books,Injection.handles,here,Books.after]
    | createJoke =>
      rw [here] at holds
      simp only [Injection.turn,here,Option.some.injEq] at turned
      subst turned
      refine checkedCall (fun set => by cases set) fun result q allowed goes => ?_
      cases goes
      refine ⟨⟨clicks,holds.1,holds.2.1,holds.2.2.1,rfl⟩,?_⟩
      funext name
      cases name <;> simp [Injection.books,Injection.handles,here,Books.after,holds.2.2.2.2]
    | setJoke =>
      rw [here] at holds
      simp only [Injection.turn,here,Option.some.injEq] at turned
      subst turned
      have some := injected clicks holds.1
      refine checkedHandle (fun _ _ => by simp [Injection.books,Injection.handles,here,some]) fun result q goes => ?_
      cases goes
      refine ⟨⟨clicks,⟨holds.1,holds.2.2.2.trans (decide_eq_true some).symm⟩,holds.2.1,holds.2.2.1⟩,?_⟩
      funext name
      cases name <;> simp [Injection.books,Injection.handles,here,Books.after,holds.2.2.2,Nat.sub_add_cancel some]
    | createStop =>
      rw [here] at holds
      simp only [Injection.turn,here,Option.some.injEq] at turned
      subst turned
      refine checkedHandle (fun set => by cases set) fun result q goes => ?_
      cases goes
      refine ⟨⟨clicks,holds.1,holds.2,rfl⟩,?_⟩
      funext name
      cases name <;> cases held : d.m_hEventStop <;> simp [Injection.books,Injection.handles,here,Books.after,held]
    | createFinished =>
      rw [here] at holds
      simp only [Injection.turn,here,Option.some.injEq] at turned
      subst turned
      have some := injected clicks holds.1
      refine checkedHandle (fun set => by cases set) fun result q goes => ?_
      cases goes
      refine ⟨⟨clicks,?_,?_,holds.2.1.trans (decide_eq_true some).symm⟩,?_⟩
      · simp [holds.1,holds.2.2]
      · simp [holds.1]
      · funext name
        cases name <;> cases held : d.m_hEventFinished <;> simp [Injection.books,Injection.handles,here,Books.after,held]
    | closeJoke =>
      rw [here] at holds
      simp only [Injection.turn,here,Option.some.injEq] at turned
      subst turned
      refine checkedHandle (fun set => by cases set) fun result q goes => ?_
      cases goes
      refine ⟨⟨clicks,rfl,holds.1,holds.2.1⟩,?_⟩
      cases held : d.m_hJokeEvent with
      | true =>
        funext name
        cases name <;> simp [Injection.books,Injection.handles,here,Books.after]
      | false =>
        have none : d.clicks = 0 := by simpa [held] using holds.2.2
        funext name
        cases name <;> simp [Injection.books,Injection.handles,here,none]

theorem begunHolds {p : Assist} {search : Search} {told : Bool} {stopped : Nat} (holds : p.Holds p.line)
    (begun : p.search ≠ .unset) : {p with search, told, stopped}.Holds p.line := by
  cases here : p.line with
  | openJoke | waitJoke | openStop | openFinished =>
    rw [here] at holds
    exact absurd holds.2.1 begun
  | closeJoke | returned | closeFinished | closeStop | gone | terminated =>
    rw [here] at holds
    exact holds

theorem assistChecked {p : Assist} {a : AssistAct} {turn : Turn EventName Assist} (fits : p.Fits)
    (turned : p.turn a = some turn) : Checked turn Assist.Fits Assist.books p := by
  obtain ⟨taken,told,holds⟩ := fits
  cases a with
  | next =>
    cases here : p.line with
    | returned | gone | terminated => simp [Assist.turn,here] at turned
    | openJoke =>
      rw [here] at holds
      simp only [Assist.turn,here,Option.some.injEq] at turned
      subst turned
      refine checkedCall (fun set => by cases set) fun result q allowed goes => ?_
      cases goes
      refine ⟨⟨taken,told,?_⟩,?_⟩
      · cases result with
        | true => exact ⟨holds.1,holds.2.1,rfl,holds.2.2.2⟩
        | false => exact rfl
      · funext name
        cases name <;> cases result <;> simp [Assist.books,Books.after,holds.2.2.1]
    | waitJoke =>
      rw [here] at holds
      simp only [Assist.turn,here,Option.some.injEq] at turned
      subst turned
      refine checkedCall (fun set => by cases set) fun result q allowed goes => ?_
      cases result with
      | true =>
        cases goes
        refine ⟨⟨fun _ => rfl,told,rfl,holds.2⟩,?_⟩
        funext name
        cases name <;> simp [Assist.books,Books.after,holds.1]
      | false =>
        cases goes
        refine ⟨⟨taken,told,holds.2.2.1⟩,?_⟩
        funext name
        cases name <;> simp [Assist.books,Books.after]
    | openStop =>
      rw [here] at holds
      simp only [Assist.turn,here,Option.some.injEq] at turned
      subst turned
      refine checkedCall (fun set => by cases set) fun result q allowed goes => ?_
      cases goes
      refine ⟨⟨taken,told,holds.1,holds.2.1,holds.2.2.1,holds.2.2.2.2⟩,?_⟩
      funext name
      cases name <;> cases result <;> simp [Assist.books,Books.after,holds.2.2.2.1]
    | openFinished =>
      rw [here] at holds
      simp only [Assist.turn,here,Option.some.injEq] at turned
      subst turned
      refine checkedCall (fun set => by cases set) fun result q allowed goes => ?_
      cases goes
      have untold : p.told = false := told (by rw [holds.2.1]; decide)
      refine ⟨⟨fun _ => holds.1,fun _ => untold,holds.2.2.1⟩,?_⟩
      funext name
      cases name <;> cases result <;> simp [Assist.books,Books.after,holds.2.2.2]
    | closeJoke =>
      rw [here] at holds
      simp only [Assist.turn,here,Option.some.injEq] at turned
      subst turned
      refine checkedHandle (fun set => by cases set) fun result q goes => ?_
      cases goes
      refine ⟨⟨taken,told,rfl⟩,?_⟩
      funext name
      cases name <;> cases held : p.hJokeEvent <;> simp [Assist.books,Books.after,held]
    | closeFinished =>
      rw [here] at holds
      simp only [Assist.turn,here,Option.some.injEq] at turned
      subst turned
      refine checkedHandle (fun set => by cases set) fun result q goes => ?_
      cases goes
      refine ⟨⟨taken,told,holds,rfl⟩,?_⟩
      funext name
      cases name <;> cases held : p.hEventFinished <;> simp [Assist.books,Books.after,held]
    | closeStop =>
      rw [here] at holds
      simp only [Assist.turn,here,Option.some.injEq] at turned
      subst turned
      refine checkedHandle (fun set => by cases set) fun result q goes => ?_
      cases goes
      refine ⟨⟨taken,told,holds.1,rfl,holds.2⟩,?_⟩
      funext name
      cases name <;> cases held : p.hEventStop <;> simp [Assist.books,Books.after,held]
  | timerCallBack =>
    simp only [Assist.turn] at turned
    split at turned <;> cases turned
    rename_i here
    refine checkedSilent fun q goes => ?_
    cases goes
    have begun : p.search ≠ .unset := by simp [here.2.2]
    exact ⟨⟨fun _ => taken begun,fun _ => told (by simp [here.2.2]),begunHolds holds begun⟩,rfl⟩
  | wait =>
    simp only [Assist.turn] at turned
    split at turned <;> cases turned
    rename_i here
    have begun : p.search ≠ .unset := by simp [here.2.2]
    refine checkedHandle (fun set => by cases set) fun result q goes => ?_
    cases goes
    cases held : p.hEventStop && result with
    | true =>
      rw [Bool.and_eq_true] at held
      refine ⟨⟨taken,told,begunHolds holds begun⟩,?_⟩
      funext name
      cases name <;> simp [Assist.books,Books.after,held.1,held.2]
    | false =>
      refine ⟨⟨taken,told,holds⟩,?_⟩
      cases there : p.hEventStop with
      | false => rfl
      | true =>
        have silent : result = false := by simpa [there] using held
        simp [Books.after,silent]
  | setFinished =>
    simp only [Assist.turn] at turned
    split at turned <;> cases turned
    rename_i here
    refine checkedHandle (fun _ held => by simp [Assist.books,held]) fun result q goes => ?_
    cases goes
    have begun : p.search ≠ .unset := by simp [here.2.2]
    have untold : p.told = false := told (by simp [here.2.2])
    refine ⟨⟨fun _ => taken begun,fun running => absurd rfl running,begunHolds holds begun⟩,?_⟩
    funext name
    cases name <;> cases held : p.hEventFinished <;> simp [Assist.books,Books.after,held,untold]
  | exitInstance =>
    simp only [Assist.turn] at turned
    split at turned <;> cases turned
    rename_i here
    refine checkedSilent fun q goes => ?_
    cases goes
    rw [here] at holds
    exact ⟨⟨taken,told,holds⟩,rfl⟩
  | terminate =>
    simp only [Assist.turn] at turned
    split at turned <;> cases turned
    refine checkedSilent fun q goes => ?_
    cases goes
    exact ⟨⟨taken,told,trivial⟩,rfl⟩
  | release name =>
    simp only [Assist.turn] at turned
    split at turned <;> cases turned
    rename_i here
    refine checkedHandle (fun set => by cases set) fun result q goes => ?_
    cases goes
    have anything : ∀ q : Assist, q.Holds p.line := fun q => by
      rw [here]
      trivial
    cases name with
    | joke =>
      refine ⟨⟨taken,told,anything _⟩,?_⟩
      funext name
      cases name <;> cases held : p.hJokeEvent <;> simp [Assist.books,Assist.handle,Assist.without,Books.after,held]
    | stop =>
      refine ⟨⟨taken,told,anything _⟩,?_⟩
      funext name
      cases name <;> cases held : p.hEventStop <;> simp [Assist.books,Assist.handle,Assist.without,Books.after,held]
    | finished =>
      refine ⟨⟨taken,told,anything _⟩,?_⟩
      funext name
      cases name <;> cases held : p.hEventFinished <;> simp [Assist.books,Assist.handle,Assist.without,Books.after,held]

end Check

/-! The dialog with the libraries that are loaded, in any order of their calls. -/

inductive Party (ι : Type) where
  | dialog
  | assist (i : ι)
  deriving DecidableEq

def Local {ι : Type} : Party ι → Type
  | .dialog => Injection
  | .assist _ => Assist

def LocalAct {ι : Type} : Party ι → Type
  | .dialog => InjectionAct
  | .assist _ => AssistAct

def program {ι : Type} : ∀ p : Party ι, Local p → LocalAct p → Option (Events.Turn EventName (Local p))
  | .dialog => Injection.turn
  | .assist _ => Assist.turn

def localFits {ι : Type} : ∀ p : Party ι, Local p → Prop
  | .dialog => Injection.Fits
  | .assist _ => Assist.Fits

def localBooks {ι : Type} : ∀ p : Party ι, Local p → EventName → Events.Books
  | .dialog => Injection.books
  | .assist _ => Assist.books

abbrev Control (ι : Type) := Events.System EventName (@Local ι)
abbrev ControlStep (ι : Type) := Σ p : Party ι, LocalAct p

namespace Control
variable {ι : Type}

def dialog (s : Control ι) : Injection := s.party .dialog
def assist (s : Control ι) (i : ι) : Assist := s.party (.assist i)

def start : Control ι where
  party
    | .dialog => Injection.start
    | .assist _ => Assist.start
  event _ := .absent

variable [DecidableEq ι]

def step : Control ι → ControlStep ι → Option (Control ι) := Events.System.step program

def Inv (s : Control ι) : Prop := Events.System.Agrees localFits localBooks s

end Control

section Control
variable {ι : Type} [DecidableEq ι] {s t : Control ι} {acts : List (ControlStep ι)}

omit [DecidableEq ι] in
theorem partyChecked (p : Party ι) (state : Local p) (a : LocalAct p) (turn : Events.Turn EventName (Local p))
    (fits : localFits p state) (turned : program p state a = some turn) :
    Events.Checked turn (localFits p) (localBooks p) state := by
  cases p with
  | dialog => exact injectionChecked fits turned
  | assist i => exact assistChecked fits turned

theorem stepControl {a : ControlStep ι} (taken : Control.step s a = some t) (inv : s.Inv) : t.Inv :=
  Events.stepAgrees partyChecked taken inv

theorem controlInv (run : follow Control.step acts Control.start = some s) : s.Inv := by
  refine followKeeps stepControl run ⟨?_,?_⟩
  · intro p
    cases p with
    | dialog => exact ⟨rfl,rfl,rfl,rfl⟩
    | assist i => exact ⟨fun set => absurd rfl set,fun _ => rfl,rfl,rfl,rfl,rfl,rfl⟩
  · intro name
    refine Events.Event.absentAgrees fun p => ?_
    cases p <;> cases name <;> rfl

theorem handlesHeld (run : follow Control.step acts Control.start = some s) :
    (s.dialog.line = .rest → ((s.event .stop).handles.count .dialog,(s.event .finished).handles.count .dialog,
      (s.event .joke).handles.count .dialog) = ((!s.dialog.enabled).toNat,(!s.dialog.enabled).toNat,s.dialog.clicks)) ∧
    (s.dialog.line = .destroyed → ((s.event .stop).handles.count .dialog,(s.event .finished).handles.count .dialog,
      (s.event .joke).handles.count .dialog) = (0,0,s.dialog.clicks - 1)) ∧
    ∀ i, ((s.assist i).line = .gone → ∀ name, (s.event name).handles.count (.assist i) = 0) ∧
      ((s.assist i).line = .returned → (s.event .joke).handles.count (.assist i) = 0) := by
  have inv := controlInv run
  have fits : s.dialog.Fits := inv.party .dialog
  have holds := fits.holds
  have counts : ∀ name, (s.event name).handles.count .dialog = s.dialog.handles name := fun name =>
    (inv.event name).handles .dialog
  rw [counts,counts,counts]
  refine ⟨fun rest => ?_,fun destroyed => ?_,fun i => ?_⟩
  · rw [rest] at holds
    simp [Injection.handles,rest,holds.1,holds.2.1]
  · rw [destroyed] at holds
    simp [Injection.handles,destroyed,holds.1,holds.2.1]
  · have fits : (s.assist i).Fits := inv.party (.assist i)
    have holds := fits.holds
    have counts : ∀ name, (s.event name).handles.count (.assist i) = ((s.assist i).books name).handles := fun name =>
      (inv.event name).handles (.assist i)
    refine ⟨fun gone name => ?_,fun returned => ?_⟩
    · rw [gone] at holds
      rw [counts]
      cases name <;> simp [Assist.books,holds.1,holds.2.1,holds.2.2]
    · rw [returned] at holds
      rw [counts]
      exact congrArg Bool.toNat holds

end Control

def ofDialog {ι : Type} (acts : List InjectionAct) : List (ControlStep ι) := acts.map fun a => ⟨.dialog,a⟩
def ofAssist {ι : Type} (i : ι) (acts : List AssistAct) : List (ControlStep ι) := acts.map fun a => ⟨.assist i,a⟩

-- OnBnClickedButtonInject when there is none of the events.
def firstClick : List (ControlStep Nat) := ofDialog (.click :: List.replicate 8 (.next true))

theorem handlesHeldClick : ∃ s : Control Nat, follow Control.step firstClick Control.start = some s ∧
    ((s.event .stop).handles.count .dialog,(s.event .finished).handles.count .dialog,
      (s.event .joke).handles.count .dialog) = ((!s.dialog.enabled).toNat,(!s.dialog.enabled).toNat,s.dialog.clicks) :=
  ⟨_,rfl,(@handlesHeld Nat _ _ firstClick rfl).1 rfl⟩

end JokeDse
