import JokeDse.Injection
import Mathlib.Data.List.Perm.Subperm
import Mathlib.Data.Set.List

/-! The searches that the clicks of the dialog start: one at a time, each answered, and none of them stopped by
the dialog before it has finished when the stop event of the one before is gone. -/
namespace JokeDse
open Runs

def Assist.Searches (p : Assist) : Prop := p.taken = true ∧ p.told = false

section Counts
variable {ι : Type} [DecidableEq ι] {s : Control ι} {i j : ι}

theorem dialogFits (inv : s.Inv) : s.dialog.Fits := inv.party .dialog
theorem assistFits (inv : s.Inv) (i : ι) : (s.assist i).Fits := inv.party (.assist i)

theorem boolPositive {b : Bool} : 0 < b.toNat ↔ b = true := by
  cases b <;> simp

theorem takenHeard (inv : s.Inv) : .assist i ∈ (s.event .joke).heard ↔ (s.assist i).taken = true :=
  (inv.event .joke).memHeard.trans boolPositive

theorem toldSet (inv : s.Inv) : .assist i ∈ (s.event .finished).sets ↔ (s.assist i).told = true :=
  (inv.event .finished).memSets.trans boolPositive

theorem toldTaken (inv : s.Inv) (told : (s.assist i).told = true) : (s.assist i).taken = true := by
  have fits := assistFits inv i
  refine fits.taken fun unset => ?_
  have untold := fits.told (by rw [unset]; decide)
  rw [told] at untold
  cases untold

theorem heardNodup (inv : s.Inv) : (s.event .joke).heard.Nodup := by
  refine (inv.event .joke).heardOnce fun p => ?_
  cases p with
  | dialog => exact Nat.zero_le _
  | assist i => exact Bool.toNat_le _

theorem setsNodup (inv : s.Inv) : (s.event .finished).sets.Nodup := by
  refine (inv.event .finished).setsOnce fun p => ?_
  cases p with
  | dialog => exact Nat.zero_le _
  | assist i => exact Bool.toNat_le _

theorem setsHeard (inv : s.Inv) : (s.event .finished).sets ⊆ (s.event .joke).heard := by
  intro p member
  cases p with
  | dialog => cases (inv.event .finished).memSets.mp member
  | assist i => exact (takenHeard inv).mpr (toldTaken inv ((toldSet inv).mp member))

theorem jokeSets (inv : s.Inv) : (s.event .joke).sets.length ≤ s.dialog.clicks := by
  have only : ∀ p, p ≠ Party.dialog → (localBooks p (s.party p) .joke).sets = 0 := by
    intro p other
    cases p with
    | dialog => exact absurd rfl other
    | assist i => rfl
  rw [(inv.event .joke).setsBy only]
  change (s.dialog.books .joke).sets ≤ _
  simp only [Injection.books]
  split <;> omega

theorem answersHeard (inv : s.Inv) : s.dialog.answers ≤ (s.event .finished).heard.length :=
  (Nat.le_add_right _ s.dialog.waited).trans ((inv.event .finished).heardBy .dialog)

theorem jokeHeard (inv : s.Inv) :
    (s.event .joke).heard.length + (s.event .joke).signalled.toNat ≤ s.dialog.answers + (!s.dialog.enabled).toNat := by
  rw [← (dialogFits inv).clicks]
  exact (inv.event .joke).answered.trans (jokeSets inv)

theorem finishedSets (inv : s.Inv) :
    s.dialog.answers + (s.event .finished).signalled.toNat ≤ (s.event .finished).sets.length :=
  (Nat.add_le_add_right (answersHeard inv) _).trans (inv.event .finished).answered

theorem searchesOne (inv : s.Inv) (first : (s.assist i).Searches) (second : (s.assist j).Searches) : i = j := by
  by_contra other
  have silent : ∀ {k}, (s.assist k).Searches → Party.assist k ∉ (s.event .finished).sets := by
    intro k searches member
    rw [toldSet inv,searches.2] at member
    cases member
  have nodup : (Party.assist i :: .assist j :: (s.event .finished).sets).Nodup := by
    refine List.nodup_cons.mpr ⟨fun member => ?_,List.nodup_cons.mpr ⟨silent second,setsNodup inv⟩⟩
    rcases List.mem_cons.mp member with same | told
    · cases same
      exact other rfl
    · exact silent first told
  have inside : Party.assist i :: .assist j :: (s.event .finished).sets ⊆ (s.event .joke).heard :=
    List.cons_subset.mpr ⟨(takenHeard inv).mpr first.1,List.cons_subset.mpr ⟨(takenHeard inv).mpr second.1,setsHeard inv⟩⟩
  have more : (s.event .finished).sets.length + 1 + 1 ≤ (s.event .joke).heard.length :=
    (nodup.subperm inside).length_le
  have few := jokeHeard inv
  have many := finishedSets inv
  have disabled := Bool.toNat_le (!s.dialog.enabled)
  omega

theorem enabledAnswered (inv : s.Inv) (enabled : s.dialog.enabled = true) :
    (s.event .finished).sets.Perm (s.event .joke).heard ∧ (s.event .joke).heard.length = s.dialog.clicks ∧
      (s.event .joke).signalled = false ∧ (s.event .finished).signalled = false := by
  have clicks := (dialogFits inv).clicks
  have few := jokeHeard inv
  have many := finishedSets inv
  have inside := (setsNodup inv).subperm (setsHeard inv)
  have fewer := inside.length_le
  rw [enabled] at clicks few
  simp only [Bool.not_true,Bool.toNat_false] at clicks few
  refine ⟨inside.perm_of_length_le (by omega),by omega,?_,?_⟩
  · cases signalled : (s.event .joke).signalled with
    | false => rfl
    | true =>
      rw [signalled,Bool.toNat_true] at few
      omega
  · cases signalled : (s.event .finished).signalled with
    | false => rfl
    | true =>
      rw [signalled,Bool.toNat_true] at many
      omega

theorem enabledIdle (inv : s.Inv) (enabled : s.dialog.enabled = true) : ¬ (s.assist i).Searches := by
  intro searches
  have told := (enabledAnswered inv enabled).1.mem_iff.mpr ((takenHeard inv).mpr searches.1)
  rw [toldSet inv,searches.2] at told
  cases told

theorem heardLoaded (inv : s.Inv) : ∃ loaded : List ι, (s.event .joke).heard = loaded.map .assist := by
  have inside : (s.event .joke).heard ∈ Set.range (List.map Party.assist) := by
    rw [Set.range_list_map]
    intro p member
    cases p with
    | dialog => cases (inv.event .joke).memHeard.mp member
    | assist i => exact ⟨i,rfl⟩
  obtain ⟨loaded,same⟩ := inside
  exact ⟨loaded,same.symm⟩

end Counts

section Runs
variable {ι : Type} [DecidableEq ι] {s t : Control ι} {acts : List (ControlStep ι)} {i j : ι}

theorem oneSearch (run : follow Control.step acts Control.start = some s) :
    (∀ i j, (s.assist i).Searches → (s.assist j).Searches → i = j) ∧
    (s.dialog.enabled = true → ∃ answered : List ι, answered.Nodup ∧ answered.length = s.dialog.clicks ∧
      (∀ i, i ∈ answered ↔ (s.assist i).taken = true) ∧ (∀ i, (s.assist i).told = (s.assist i).taken) ∧
      (s.event .joke).signalled = false ∧ (s.event .finished).signalled = false) := by
  have inv := controlInv run
  refine ⟨fun i j => searchesOne inv,fun enabled => ?_⟩
  obtain ⟨all,clicks,joke,finished⟩ := enabledAnswered inv enabled
  obtain ⟨answered,same⟩ := heardLoaded inv
  have nodup := heardNodup inv
  rw [same] at nodup clicks
  rw [List.length_map] at clicks
  have taken : ∀ i, i ∈ answered ↔ (s.assist i).taken = true := by
    intro i
    rw [← takenHeard inv,same,List.mem_map_of_injective fun i j same => Party.assist.inj same]
  refine ⟨answered,nodup.of_map _,clicks,taken,fun i => ?_,joke,finished⟩
  rw [Bool.eq_iff_iff,← toldSet inv,← takenHeard inv]
  exact all.mem_iff

end Runs

-- Two libraries are loaded after the click; one has taken the joke event when the other comes to it.
def oneClick : List (ControlStep Nat) :=
  firstClick ++ ofAssist 0 (List.replicate 5 .next) ++ ofAssist 1 (List.replicate 3 .next) ++
    ofAssist 0 [.timerCallBack,.wait,.setFinished] ++ ofDialog [.timer]

theorem oneSearchAnswered : ∃ s : Control Nat, follow Control.step oneClick Control.start = some s ∧
    s.dialog.enabled = true ∧ ∃ answered : List Nat, answered.Nodup ∧ answered.length = 1 ∧
      (∀ i, i ∈ answered ↔ (s.assist i).taken = true) ∧ (∀ i, (s.assist i).told = (s.assist i).taken) ∧
      (s.event .joke).signalled = false ∧ (s.event .finished).signalled = false := by
  have ends : ∃ s : Control Nat, follow Control.step oneClick Control.start = some s ∧ s.dialog.enabled = true ∧
      s.dialog.clicks = 1 := ⟨_,rfl,rfl,rfl⟩
  obtain ⟨s,run,enabled,clicks⟩ := ends
  have answered := (oneSearch run).2 enabled
  rw [clicks] at answered
  exact ⟨s,run,enabled,answered⟩

/-! Who is stopped. -/

def InjectionLine.destroys : InjectionLine → Bool
  | .closeJoke | .unInjection .destroy _ | .destroyed => true
  | _ => false

def InjectionLine.early : InjectionLine → Bool
  | .unInjection .inject .keepStop | .unInjection .inject .setStop => false
  | .setFinished | .openJoke | .createJoke | .setJoke | .unInjection .inject _ | .createStop => true
  | _ => false

section Turns
variable {d q : Injection} {a : InjectionAct} {call : Option (EventName × Events.Call)} {goes : Bool → Option Injection}
  {result : Bool}

structure Same (d q : Injection) : Prop where
  enabled : q.enabled = d.enabled
  clicks : q.clicks = d.clicks

theorem handleCalls {handle : Bool} {name other : EventName} {c c' : Events.Call}
    (same : withHandle handle name c = some (other,c')) : handle = true ∧ name = other ∧ c = c' := by
  unfold withHandle at same
  split at same
  · rename_i some
    cases same
    exact ⟨some,rfl,rfl⟩
  · cases same

theorem unInjectionSame {caller : Caller} {line : UnInjectionLine} {timedOut : Bool}
    (goesOn : (d.unInjection caller timedOut line).2 result = some q) : Same d q ∧
      (q.line = caller.goesOn ∨ ∃ later, q.line = .unInjection caller later) := by
  have cleared : caller.clear = caller.goesOn ∨ ∃ later, caller.clear = .unInjection caller later := by
    cases caller with
    | inject => exact .inl rfl
    | timer | destroy => exact .inr ⟨_,rfl⟩
  cases line with
  | openStop =>
    cases goesOn
    exact ⟨⟨rfl,rfl⟩,.inr ⟨_,rfl⟩⟩
  | keepStop | setStop | keepFinished | closeFinished =>
    cases goesOn
    exact ⟨⟨rfl,rfl⟩,.inr ⟨_,rfl⟩⟩
  | openFinished =>
    cases goesOn
    cases result with
    | true => exact ⟨⟨rfl,rfl⟩,.inr ⟨_,rfl⟩⟩
    | false => exact ⟨⟨rfl,rfl⟩,cleared⟩
  | waitFinished =>
    simp only [Injection.unInjection] at goesOn
    split at goesOn
    · cases goesOn
      exact ⟨⟨rfl,rfl⟩,.inr ⟨_,rfl⟩⟩
    · split at goesOn <;> cases goesOn
      exact ⟨⟨rfl,rfl⟩,.inr ⟨_,rfl⟩⟩
  | resetFinished =>
    cases goesOn
    exact ⟨⟨rfl,rfl⟩,cleared⟩
  | closeStop =>
    cases goesOn
    exact ⟨⟨rfl,rfl⟩,.inl rfl⟩

theorem nextSame {timedOut : Bool} (turned : d.turn (.next timedOut) = some (call,goes)) (goesOn : goes result = some q) :
    Same d q ∧ q.line.destroys = d.line.destroys := by
  cases here : d.line with
  | rest | destroyed => simp [Injection.turn,here] at turned
  | unInjection caller line =>
    simp only [Injection.turn,here,Option.some.injEq] at turned
    have same := @unInjectionSame d q result caller line timedOut (by rw [turned]; exact goesOn)
    refine ⟨same.1,?_⟩
    rcases same.2 with last | ⟨later,line⟩
    · rw [last]
      cases caller <;> rfl
    · rw [line]
      cases caller <;> rfl
  | openJoke =>
    simp only [Injection.turn,here,Option.some.injEq,Prod.mk.injEq] at turned
    rw [← turned.2] at goesOn
    cases result with
    | true =>
      cases goesOn
      exact ⟨⟨rfl,rfl⟩,rfl⟩
    | false =>
      cases goesOn
      refine ⟨⟨rfl,rfl⟩,?_⟩
      cases d.m_hJokeEvent <;> rfl
  | setFinished | createJoke | setJoke | createStop | createFinished | closeJoke =>
    simp only [Injection.turn,here,Option.some.injEq,Prod.mk.injEq] at turned
    rw [← turned.2] at goesOn
    cases goesOn
    exact ⟨⟨rfl,rfl⟩,rfl⟩

theorem restTurn (rest : d.line = .rest) (turned : d.turn a = some (call,goes)) (goesOn : goes result = some q) :
    (∀ c, call ≠ some (.stop,c)) ∧
      (q = d ∨ d.enabled = true ∧ q.enabled = false ∧ q.clicks = d.clicks + 1 ∧ q.line = .setFinished ∨
        d.m_hEventStop = true ∧ q.enabled = true ∧ q.clicks = d.clicks ∧ q.line.destroys = false ∨
          Same d q ∧ q.line.destroys = true) := by
  cases a with
  | next timedOut => simp [Injection.turn,rest] at turned
  | click =>
    simp only [Injection.turn] at turned
    split at turned <;> cases turned
    rename_i here
    cases goesOn
    exact ⟨(fun c same => by cases same),.inr (.inl ⟨here.2,rfl,rfl,rfl⟩)⟩
  | destroy =>
    simp only [Injection.turn,if_pos rest] at turned
    cases turned
    cases goesOn
    exact ⟨(fun c same => by cases same),.inr (.inr (.inr ⟨⟨rfl,rfl⟩,rfl⟩))⟩
  | timer =>
    simp only [Injection.turn,if_pos rest] at turned
    cases turned
    refine ⟨fun c same => ?_,?_⟩
    · cases (handleCalls same).2.1
    · dsimp only at goesOn
      split at goesOn
      · rename_i heard
        cases goesOn
        rw [Bool.and_eq_true,Bool.and_eq_true] at heard
        exact .inr (.inr (.inl ⟨heard.1.1,rfl,rfl,rfl⟩))
      · cases goesOn
        exact .inl rfl

theorem anyTurn (turned : d.turn a = some (call,goes)) (goesOn : goes result = some q) :
    d.line = .rest ∨ Same d q ∧ q.line.destroys = d.line.destroys := by
  cases a with
  | next timedOut => exact .inr (nextSame turned goesOn)
  | click =>
    simp only [Injection.turn] at turned
    split at turned <;> cases turned
    rename_i here
    exact .inl here.1
  | destroy | timer =>
    simp only [Injection.turn] at turned
    split at turned <;> cases turned
    rename_i here
    exact .inl here

theorem createdTurn (line : d.line = .createFinished) (turned : d.turn a = some (call,goes)) (goesOn : goes result = some q) :
    (∀ c, call ≠ some (.stop,c)) ∧ q.line = .rest := by
  cases a with
  | click | timer | destroy => simp [Injection.turn,line] at turned
  | next timedOut =>
    simp only [Injection.turn,line,Option.some.injEq,Prod.mk.injEq] at turned
    obtain ⟨rfl,rfl⟩ := turned
    cases goesOn
    exact ⟨(fun c same => by cases (handleCalls same).2.1),rfl⟩

theorem earlyTurn (fits : d.Fits) (early : d.line.early = true) (turned : d.turn a = some (call,goes))
    (goesOn : goes result = some q) (gone : call = some (.stop,.opens) → result = false) :
    (q.line.early = true ∧ ∀ c, call = some (.stop,c) → c = .opens) ∨
      (q.line = .createFinished ∧ ∀ c, call = some (.stop,c) → c = .creates) := by
  have elsewhere : ∀ {handle name c}, name ≠ .stop → ∀ other, withHandle handle name c = some (.stop,other) →
      other = .opens := by
    intro handle name c there other same
    exact absurd (handleCalls same).2.1 there
  have holds := fits.holds
  cases a with
  | click | timer | destroy =>
    simp only [Injection.turn] at turned
    split at turned <;> cases turned
    simp_all [InjectionLine.early]
  | next timedOut =>
    cases here : d.line with
    | rest | createFinished | closeJoke | destroyed =>
      rw [here] at early
      cases early
    | setFinished | setJoke =>
      simp only [Injection.turn,here,Option.some.injEq,Prod.mk.injEq] at turned
      obtain ⟨rfl,rfl⟩ := turned
      cases goesOn
      exact .inl ⟨rfl,elsewhere (by decide)⟩
    | createJoke =>
      simp only [Injection.turn,here,Option.some.injEq,Prod.mk.injEq] at turned
      obtain ⟨rfl,rfl⟩ := turned
      cases goesOn
      exact .inl ⟨rfl,fun c same => by cases same⟩
    | openJoke =>
      simp only [Injection.turn,here,Option.some.injEq,Prod.mk.injEq] at turned
      obtain ⟨rfl,rfl⟩ := turned
      refine .inl ⟨?_,fun c same => by cases same⟩
      cases result with
      | true =>
        cases goesOn
        rfl
      | false =>
        cases goesOn
        cases d.m_hJokeEvent <;> rfl
    | createStop =>
      simp only [Injection.turn,here,Option.some.injEq,Prod.mk.injEq] at turned
      obtain ⟨rfl,rfl⟩ := turned
      cases goesOn
      refine .inr ⟨rfl,fun c same => ?_⟩
      exact (handleCalls same).2.2.symm
    | unInjection caller line =>
      rw [here] at early holds
      simp only [Injection.turn,here,Option.some.injEq] at turned
      cases caller with
      | timer | destroy => cases early
      | inject =>
        cases line with
        | keepStop | setStop => cases early
        | closeFinished => cases holds.2
        | closeStop => cases holds.2.1
        | openStop =>
          cases turned
          cases gone rfl
          cases goesOn
          exact .inl ⟨rfl,fun c same => by cases same; rfl⟩
        | openFinished =>
          cases turned
          refine .inl ⟨?_,fun c same => by cases same⟩
          cases result <;> cases goesOn <;> rfl
        | keepFinished | resetFinished =>
          cases turned
          cases goesOn
          exact .inl ⟨rfl,elsewhere (by decide)⟩
        | waitFinished =>
          cases turned
          refine .inl ⟨?_,elsewhere (by decide)⟩
          dsimp only at goesOn
          split at goesOn
          · cases goesOn
            rfl
          · split at goesOn <;> cases goesOn
            rfl

end Turns

theorem assistCalls {p q : Assist} {a : AssistAct} {call : Option (EventName × Events.Call)} {goes : Bool → Option Assist}
    {result : Bool} (fits : p.Fits) (turned : p.turn a = some (call,goes)) (goesOn : goes result = some q) :
    (∀ c, call = some (.stop,c) → c ≠ .creates ∧ c ≠ .sets) ∧
      (q.stopped = p.stopped ∨ p.Searches ∧ call = some (.stop,.waits) ∧ result = true) := by
  have tame : ∀ {handle name c}, c ≠ .creates ∧ c ≠ .sets →
      ∀ c', withHandle handle name c = some (.stop,c') → c' ≠ .creates ∧ c' ≠ .sets := by
    intro handle name c tame c' same
    rwa [← (handleCalls same).2.2]
  cases a with
  | next =>
    cases here : p.line with
    | returned | gone | terminated => simp [Assist.turn,here] at turned
    | openJoke | openStop | openFinished =>
      simp only [Assist.turn,here,Option.some.injEq,Prod.mk.injEq] at turned
      obtain ⟨rfl,rfl⟩ := turned
      cases goesOn
      exact ⟨(fun c same => by cases same <;> decide),.inl rfl⟩
    | waitJoke =>
      simp only [Assist.turn,here,Option.some.injEq,Prod.mk.injEq] at turned
      obtain ⟨rfl,rfl⟩ := turned
      refine ⟨(fun c same => by cases same),.inl ?_⟩
      cases result <;> cases goesOn <;> rfl
    | closeJoke | closeFinished | closeStop =>
      simp only [Assist.turn,here,Option.some.injEq,Prod.mk.injEq] at turned
      obtain ⟨rfl,rfl⟩ := turned
      cases goesOn
      exact ⟨tame (by decide),.inl rfl⟩
  | timerCallBack | exitInstance | terminate =>
    simp only [Assist.turn] at turned
    split at turned <;> cases turned
    cases goesOn
    exact ⟨(fun c same => by cases same),.inl rfl⟩
  | wait =>
    simp only [Assist.turn] at turned
    split at turned <;> cases turned
    rename_i here
    refine ⟨tame (by decide),?_⟩
    cases heard : p.hEventStop && result with
    | false =>
      simp only [heard,Bool.false_eq_true,if_false] at goesOn
      cases goesOn
      exact .inl rfl
    | true =>
      rw [Bool.and_eq_true] at heard
      exact .inr ⟨⟨fits.taken (by simp [here.2.2]),fits.told (by simp [here.2.2])⟩,if_pos heard.1,heard.2⟩
  | setFinished =>
    simp only [Assist.turn] at turned
    split at turned <;> cases turned
    cases goesOn
    refine ⟨fun c same => ?_,.inl rfl⟩
    cases (handleCalls same).2.1
  | release name =>
    simp only [Assist.turn] at turned
    split at turned <;> cases turned
    cases goesOn
    refine ⟨tame (by decide),.inl ?_⟩
    cases name <;> rfl

def Control.left {ι : Type} (k : Nat) (s : Control ι) : Prop := s.dialog.line.destroys = true ∨ k + 1 < s.dialog.clicks

inductive Phase {ι : Type} (k : Nat) (s : Control ι) : Prop where
  | before (rest : s.dialog.line = .rest) (enabled : s.dialog.enabled = true) (clicks : s.dialog.clicks = k)
      (gone : (s.event .stop).handles = [])
  | early (disabled : s.dialog.enabled = false) (clicks : s.dialog.clicks = k + 1) (line : s.dialog.line.early = true)
      (gone : (s.event .stop).handles = [])
  | late (disabled : s.dialog.enabled = false) (clicks : s.dialog.clicks = k + 1)
      (line : s.dialog.line = .rest ∨ s.dialog.line = .createFinished) (silent : (s.event .stop).signalled = false)
  | answered (enabled : s.dialog.enabled = true) (clicks : s.dialog.clicks = k + 1)
  | left (left : s.left k)

section Phases
variable {ι : Type} [DecidableEq ι] {s t : Control ι} {k : Nat}

theorem clicksGrow {d q : Injection} {a : InjectionAct} {call : Option (EventName × Events.Call)}
    {goes : Bool → Option Injection} {result : Bool} (turned : d.turn a = some (call,goes)) (goesOn : goes result = some q) :
    d.clicks ≤ q.clicks := by
  rcases anyTurn turned goesOn with rest | same
  · obtain ⟨-,rfl | click | timer | destroy⟩ := restTurn rest turned goesOn
    · exact Nat.le_refl _
    · exact click.2.2.1 ▸ Nat.le_succ _
    · exact timer.2.2.1.ge
    · exact destroy.1.clicks.ge
  · exact same.1.clicks.ge

theorem leftStays {d q : Injection} {a : InjectionAct} {call : Option (EventName × Events.Call)}
    {goes : Bool → Option Injection} {result : Bool} (turned : d.turn a = some (call,goes)) (goesOn : goes result = some q)
    (left : d.line.destroys = true ∨ k + 1 < d.clicks) : q.line.destroys = true ∨ k + 1 < q.clicks := by
  rcases left with destroys | more
  · rcases anyTurn turned goesOn with rest | ⟨-,same⟩
    · rw [rest] at destroys
      cases destroys
    · exact .inl (same.trans destroys)
  · exact .inr (more.trans_le (clicksGrow turned goesOn))

theorem dialogPhase {a : InjectionAct} (inv : s.Inv) (phase : Phase k s) (taken : Control.step s ⟨.dialog,a⟩ = some t) :
    Phase k t ∧ ∀ i, t.assist i = s.assist i := by
  obtain ⟨⟨call,goes⟩,result,q,turned,moved⟩ := Events.stepMoved taken .stop
  change s.dialog.turn a = some (call,goes) at turned
  have goesOn : goes result = some q := moved.goesOn
  have dialog : t.dialog = q := by rw [Control.dialog,moved.party,Function.update_self]
  have others : ∀ i, t.assist i = s.assist i := by
    intro i
    rw [Control.assist,moved.party,Function.update_of_ne (by simp)]
    rfl
  have fits := dialogFits inv
  refine ⟨?_,others⟩
  cases phase with
  | before rest enabled clicks gone =>
    obtain ⟨silent,after⟩ := restTurn rest turned goesOn
    have still : (t.event .stop).handles = [] := by rw [moved.kept silent,gone]
    rcases after with rfl | ⟨-,disabled,more,line⟩ | ⟨stop,-⟩ | ⟨-,destroys⟩
    · exact .before (by rw [dialog,rest]) (by rw [dialog,enabled]) (by rw [dialog,clicks]) still
    · exact .early (by rw [dialog,disabled]) (by rw [dialog,more,clicks]) (by rw [dialog,line]; rfl) still
    · have holds := fits.holds
      rw [rest] at holds
      rw [holds.1,enabled] at stop
      cases stop
    · exact .left (.inl (by rw [dialog,destroys]))
  | early disabled clicks line gone =>
    have opens : call = some (.stop,.opens) → result = false := by
      intro same
      rw [(moved.called .opens same).1]
      simp [Events.Event.call,gone]
    rcases anyTurn turned goesOn with rest | ⟨same,-⟩
    · rw [rest] at line
      cases line
    have disabled' : t.dialog.enabled = false := by rw [dialog,same.enabled,disabled]
    have clicks' : t.dialog.clicks = k + 1 := by rw [dialog,same.clicks,clicks]
    rcases earlyTurn fits line turned goesOn opens with ⟨later,calls⟩ | ⟨created,calls⟩
    · refine .early disabled' clicks' (by rw [dialog,later]) ?_
      refine moved.keeps (P := fun e => e.handles = []) gone fun c called => ?_
      exact Events.Event.staysGone gone (by rw [calls c called]; decide)
    · refine .late disabled' clicks' (.inr (by rw [dialog,created])) ?_
      have silent := (inv.event .stop).gone gone
      refine moved.keeps (P := fun e => e.signalled = false) silent fun c called => ?_
      exact Events.Event.staysSilent silent (by rw [calls c called]; decide)
  | late disabled clicks line silent =>
    rcases line with rest | created
    · obtain ⟨elsewhere,after⟩ := restTurn rest turned goesOn
      rcases after with rfl | ⟨enabled,-⟩ | ⟨-,enabled,same,-⟩ | ⟨-,destroys⟩
      · exact .late (by rw [dialog,disabled]) (by rw [dialog,clicks]) (.inl (by rw [dialog,rest]))
          (by rw [moved.kept elsewhere,silent])
      · rw [disabled] at enabled
        cases enabled
      · exact .answered (by rw [dialog,enabled]) (by rw [dialog,same,clicks])
      · exact .left (.inl (by rw [dialog,destroys]))
    · obtain ⟨elsewhere,rest⟩ := createdTurn created turned goesOn
      rcases anyTurn turned goesOn with there | ⟨same,-⟩
      · rw [created] at there
        cases there
      · exact .late (by rw [dialog,same.enabled,disabled]) (by rw [dialog,same.clicks,clicks]) (.inl (by rw [dialog,rest]))
          (by rw [moved.kept elsewhere,silent])
  | answered enabled clicks =>
    rcases anyTurn turned goesOn with rest | ⟨same,-⟩
    · obtain ⟨-,rfl | ⟨-,-,more,-⟩ | ⟨-,enabled',same,-⟩ | ⟨-,destroys⟩⟩ := restTurn rest turned goesOn
      · exact .answered (by rw [dialog,enabled]) (by rw [dialog,clicks])
      · exact .left (.inr (by rw [dialog,more,clicks]; exact Nat.lt_succ_self _))
      · exact .answered (by rw [dialog,enabled']) (by rw [dialog,same,clicks])
      · exact .left (.inl (by rw [dialog,destroys]))
    · exact .answered (by rw [dialog,same.enabled,enabled]) (by rw [dialog,same.clicks,clicks])
  | left left =>
    rw [← dialog] at goesOn
    exact .left (leftStays turned goesOn left)

theorem phaseDeaf {i : ι} (inv : s.Inv) (phase : Phase k s) (stays : ¬ s.left k) (searches : (s.assist i).Searches) :
    (s.event .stop).signalled = false := by
  cases phase with
  | before rest enabled clicks gone => exact absurd searches (enabledIdle inv enabled)
  | early disabled clicks line gone => exact (inv.event .stop).gone gone
  | late disabled clicks line silent => exact silent
  | answered enabled clicks => exact absurd searches (enabledIdle inv enabled)
  | left left => exact absurd left stays

theorem assistPhase {i : ι} {a : AssistAct} (inv : s.Inv) (phase : Phase k s)
    (taken : Control.step s ⟨.assist i,a⟩ = some t) :
    Phase k t ∧ t.dialog = s.dialog ∧ (¬ s.left k → ∀ j, (t.assist j).stopped = (s.assist j).stopped) := by
  obtain ⟨⟨call,goes⟩,result,q,turned,moved⟩ := Events.stepMoved taken .stop
  change (s.assist i).turn a = some (call,goes) at turned
  have goesOn : goes result = some q := moved.goesOn
  have dialog : t.dialog = s.dialog := by
    rw [Control.dialog,moved.party,Function.update_of_ne (by simp)]
    rfl
  obtain ⟨tame,stopped⟩ := assistCalls (assistFits inv i) turned goesOn
  have gone : (s.event .stop).handles = [] → (t.event .stop).handles = [] := fun gone =>
    moved.keeps (P := fun e => e.handles = []) gone fun c called => Events.Event.staysGone gone (tame c called).1
  have silent : (s.event .stop).signalled = false → (t.event .stop).signalled = false := fun silent =>
    moved.keeps (P := fun e => e.signalled = false) silent fun c called => Events.Event.staysSilent silent (tame c called).2
  refine ⟨?_,dialog,fun stays j => ?_⟩
  · cases phase with
    | before rest enabled clicks none =>
      exact .before (dialog ▸ rest) (dialog ▸ enabled) (dialog ▸ clicks) (gone none)
    | early disabled clicks line none => exact .early (dialog ▸ disabled) (dialog ▸ clicks) (dialog ▸ line) (gone none)
    | late disabled clicks line none => exact .late (dialog ▸ disabled) (dialog ▸ clicks) (dialog ▸ line) (silent none)
    | answered enabled clicks => exact .answered (dialog ▸ enabled) (dialog ▸ clicks)
    | left left => exact .left (by rw [Control.left,dialog]; exact left)
  · by_cases here : j = i
    · subst here
      have there : t.assist j = q := by rw [Control.assist,moved.party,Function.update_self]
      rw [there]
      rcases stopped with same | ⟨searches,waits,heard⟩
      · exact same
      · rw [(moved.called .waits waits).1] at heard
        simp [Events.Event.call,phaseDeaf inv phase stays searches] at heard
    · rw [Control.assist,moved.party,Function.update_of_ne (by simpa using here)]
      rfl

theorem dialogLeft {a : InjectionAct} (taken : Control.step s ⟨.dialog,a⟩ = some t) (left : s.left k) : t.left k := by
  obtain ⟨⟨call,goes⟩,result,q,turned,moved⟩ := Events.stepMoved taken .stop
  change s.dialog.turn a = some (call,goes) at turned
  have dialog : t.dialog = q := by rw [Control.dialog,moved.party,Function.update_self]
  rw [Control.left,dialog]
  exact leftStays turned moved.goesOn left

theorem searchUnstopped {acts more : List (ControlStep ι)} (run : follow Control.step acts Control.start = some s)
    (rest : s.dialog.line = .rest) (enabled : s.dialog.enabled = true) (gone : (s.event .stop).handles = [])
    (goesOn : follow Control.step more s = some t) (once : t.dialog.clicks ≤ s.dialog.clicks + 1)
    (stays : t.dialog.line.destroys = false) (i : ι) : (t.assist i).stopped = (s.assist i).stopped := by
  have kept : ∀ {u v : Control ι} {a : ControlStep ι}, Control.step u a = some v →
      u.Inv ∧ Phase s.dialog.clicks u ∧ (¬ u.left s.dialog.clicks → (u.assist i).stopped = (s.assist i).stopped) →
      v.Inv ∧ Phase s.dialog.clicks v ∧ (¬ v.left s.dialog.clicks → (v.assist i).stopped = (s.assist i).stopped) := by
    rintro u v ⟨p,a⟩ taken ⟨inv,phase,same⟩
    refine ⟨stepControl taken inv,?_⟩
    cases p with
    | dialog =>
      obtain ⟨next,others⟩ := dialogPhase inv phase taken
      refine ⟨next,fun stays => ?_⟩
      rw [others]
      exact same fun left => stays (dialogLeft taken left)
    | assist j =>
      obtain ⟨next,dialog,stopped⟩ := assistPhase inv phase taken
      refine ⟨next,fun stays => ?_⟩
      rw [Control.left,dialog] at stays
      exact (stopped stays i).trans (same stays)
  have inv := controlInv run
  obtain ⟨-,-,same⟩ := followKeeps kept goesOn ⟨inv,.before rest enabled rfl gone,fun _ => rfl⟩
  refine same ?_
  rintro (destroys | more)
  · rw [stays] at destroys
    cases destroys
  · omega

end Phases

-- UnInjection(true) after the first search, which is then unloaded; another library is loaded after the next click.
def unloaded : List (ControlStep Nat) :=
  oneClick ++ ofDialog (List.replicate 9 (.next true)) ++ ofAssist 0 [.exitInstance,.next,.next]

def nextClick : List (ControlStep Nat) :=
  ofDialog (.click :: List.replicate 7 (.next true)) ++ ofAssist 2 (List.replicate 5 .next ++ [.timerCallBack,.wait])

theorem searchUnstoppedNext : ∃ s t : Control Nat, follow Control.step unloaded Control.start = some s ∧
    follow Control.step nextClick s = some t ∧ ∀ i, (t.assist i).stopped = (s.assist i).stopped := by
  have ends : ∃ s : Control Nat, follow Control.step unloaded Control.start = some s ∧ s.dialog.line = .rest ∧
      s.dialog.enabled = true ∧ (s.event .stop).handles = [] ∧ s.dialog.clicks = 1 ∧
      ∃ t : Control Nat, follow Control.step nextClick s = some t ∧ t.dialog.clicks = 2 ∧ t.dialog.line.destroys = false := by
    refine ⟨_,rfl,rfl,rfl,rfl,rfl,?_⟩
    exact ⟨_,rfl,rfl,rfl⟩
  obtain ⟨s,run,rest,enabled,gone,first,t,next,second,stays⟩ := ends
  exact ⟨s,t,run,next,searchUnstopped run rest enabled gone next (by rw [first,second]) stays⟩

end JokeDse
