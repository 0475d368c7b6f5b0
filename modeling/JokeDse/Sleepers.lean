import JokeDse.StartStop

/-! Which MonitorThreads sleep while they have clients: those whose table was not empty when Start began them. -/
namespace JokeDse
open Runs

namespace CallerLine

def begun : CallerLine → Option Nat
  | .createSocket | .listenRun | .beginListen => some 0
  | .allocParam i | .zeroCount i | .beginMonitor i => some i
  | _ => none

def stops : CallerLine → Bool
  | .stopListen | .closeServer | .stopThread _ | .disConnect _ _ | .loadClient _ _ | .resumeThread _ | .waitThreads
  | .waitListen | .closeListen | .stopped | .faulted => true
  | _ => false

end CallerLine

namespace Service

structure Begins (s : Service) : Prop where
  fronts : s.server.pool.Fronts
  begun : ∀ n, s.caller.begun = some n → n < maxThread ∧ ∀ i, s.hThread i = true ↔ i < n
  unbegun : ∀ i, s.hThread i = false → s.ready i = false ∧ s.server.monitor i = .loop

/-- The thread is suspended although its table has clients, and ListenThread is not about to resume it. -/
structure Sleeps (s : Service) (i : Nat) : Prop where
  hThread : s.hThread i = true
  suspended : s.ready i = false
  clients : s.count i ≠ 0
  resume : s.listen ≠ .resume i

end Service

section Begin
variable {objects : Nat → SockClient} {s t : Service} {a : ServiceStep} {i : Nat}

theorem startBegins : Service.start.Begins where
  fronts := startFronts
  begun n same := by
    cases same
    exact ⟨by decide,fun i => ⟨nofun,nofun⟩⟩
  unbegun _ _ := ⟨rfl,rfl⟩

theorem callerBegun {succeeds : Bool} (taken : s.callerStep succeeds = some t) {n : Nat} (begun : t.caller.begun = some n) :
    s.caller.begun = some n ∧ t.hThread = s.hThread ∨
      ∃ i, s.caller = .beginMonitor i ∧ n = i + 1 ∧ n < maxThread ∧ t.hThread = Function.update s.hThread i true := by
  unfold Service.callerStep at taken
  cases here : s.caller <;> simp only [here] at taken
  case createSocket | beginListen =>
    cases taken
    cases succeeds
    · cases begun
    · exact .inl ⟨begun,rfl⟩
  case listenRun | allocParam | zeroCount =>
    cases taken
    exact .inl ⟨begun,rfl⟩
  case beginMonitor i =>
    cases taken
    cases succeeds
    · cases begun
    · simp only [if_true] at begun
      split at begun <;> cases begun
      exact .inr ⟨i,rfl,rfl,‹_›,rfl⟩
  case haltThread | freeParam | disConnect | loadClient =>
    cases taken
    dsimp only at begun
    split at begun <;> cases begun
  case stopThread =>
    cases taken
    split at begun
    · split at begun <;> cases begun
    · cases begun
  case waitHalted | waitThreads | waitListen =>
    split at taken <;> cases taken
    cases begun
  case started | stopped | faulted => cases taken
  case listenStop | stopListen | closeServer | resumeThread | closeListen =>
    cases taken
    cases begun

theorem callerStops {succeeds : Bool} (taken : s.callerStep succeeds = some t) : t.caller.stops = s.caller.stops := by
  unfold Service.callerStep at taken
  cases here : s.caller <;> simp only [here] at taken
  case createSocket | beginListen | beginMonitor =>
    cases taken
    cases succeeds
    · rfl
    · simp only [if_true]
      try split
      all_goals rfl
  case haltThread | freeParam | disConnect | loadClient =>
    cases taken
    dsimp only
    split <;> rfl
  case stopThread =>
    cases taken
    split
    · split <;> rfl
    · rfl
  case waitHalted | waitThreads | waitListen =>
    split at taken <;> cases taken
    rfl
  case started | stopped | faulted => cases taken
  all_goals
    cases taken
    rfl

theorem listensKeeps (listens : Listens objects s t) :
    t.caller = s.caller ∧ t.hThread = s.hThread ∧ t.server.monitor = s.server.monitor := by
  cases listens <;> exact ⟨rfl,rfl,rfl⟩

theorem stepStops (taken : s.step objects a = some t) (running : t.caller.stops = false) :
    a ≠ .stop ∧ s.caller.stops = false := by
  cases a with
  | caller succeeds => exact ⟨nofun,callerStops taken ▸ running⟩
  | stop =>
    simp only [Service.step] at taken
    split at taken
    · cases taken
      dsimp only at running
      split at running <;> cases running
    · cases taken
  | listen connected => exact ⟨nofun,(listensKeeps (listenListens taken)).1 ▸ running⟩
  | monitor i answer =>
    have rest := (monitorMonitors taken).rest
    rw [rest] at running
    exact ⟨nofun,running⟩

theorem callerBegins {succeeds : Bool} (taken : s.callerStep succeeds = some t) (running : s.caller.stops = false)
    (begins : s.Begins) : t.Begins := by
  have calls := callerCalls taken
  constructor
  · rcases calls.pool with same | ⟨i,-,zero⟩
    · exact same ▸ begins.fronts
    · exact zero ▸ zeroFronts begins.fronts i
  · intro n begun
    rcases callerBegun taken begun with ⟨begun,same⟩ | ⟨i,here,rfl,inside,hThread⟩
    · exact same ▸ begins.begun n begun
    · obtain ⟨-,before⟩ := begins.begun i (by rw [here]; rfl)
      refine ⟨inside,fun j => ?_⟩
      rw [hThread,Function.update_apply]
      split
      · exact ⟨fun _ => by omega,fun _ => rfl⟩
      · rw [before]
        omega
  · intro i none
    have unbegun : s.hThread i = false := by
      rcases calls.hThread with same | ⟨j,-,same⟩
      · exact same ▸ none
      · rw [same,Function.update_apply] at none
        split at none
        · cases none
        · exact none
    have ready : t.ready = s.ready := by
      rcases calls.ready with same | ⟨j,here,-⟩
      · exact same
      · rw [here] at running
        cases running
    exact ready ▸ calls.monitor ▸ begins.unbegun i unbegun

theorem listenBegins (listens : Listens objects s t) (begins : s.Begins) : t.Begins := by
  have kept := listensKeeps listens
  have still : ∀ i, t.hThread i = false → s.ready i = t.ready i → t.ready i = false ∧ t.server.monitor i = .loop := by
    intro i none same
    rw [← same,kept.2.2]
    exact begins.unbegun i (kept.2.1 ▸ none)
  have begun : ∀ n, t.caller.begun = some n → n < maxThread ∧ ∀ i, t.hThread i = true ↔ i < n := by
    rw [kept.1,kept.2.1]
    exact begins.begun
  cases listens with
  | looks | refuses => exact ⟨begins.fronts,begun,fun i none => still i none rfl⟩
  | accepts _ _ taken =>
    refine ⟨?_,begun,fun i none => still i none rfl⟩
    cases Pool.stepDoes taken
    exact ⟨begins.fronts.length,begins.fronts.each⟩
  | passes _ _ taken | places _ _ taken | drops _ _ taken =>
    exact ⟨adaptFronts begins.fronts taken,begun,fun i none => still i none rfl⟩
  | @resumes i =>
    refine ⟨begins.fronts,begun,fun j none => still j none ?_⟩
    dsimp only at none ⊢
    rw [Function.update_apply]
    split
    · rename_i same
      rw [← same,none,Bool.or_false]
    · rfl

theorem monitorBegins {answer : Answer} (monitors : Monitors objects s t i answer) (begins : s.Begins) : t.Begins := by
  obtain ⟨acted,line,monitor,-⟩ := monitorActed monitors
  have rest := monitors.rest
  refine ⟨(actedCounts begins.fronts acted).1,?_,fun j none => ?_⟩
  · rw [rest]
    exact begins.begun
  · rw [rest] at none ⊢
    have other : j ≠ i := fun same => by
      rw [same,monitors.hThread] at none
      cases none
    dsimp only at none ⊢
    rw [monitor,Function.update_of_ne other]
    exact begins.unbegun j none

theorem stepBegins (taken : s.step objects a = some t) (begins : s.caller.stops = false → s.Begins)
    (running : t.caller.stops = false) : t.Begins := by
  obtain ⟨unstopped,before⟩ := stepStops taken running
  have begins := begins before
  cases a with
  | caller succeeds => exact callerBegins taken before begins
  | stop => exact absurd rfl unstopped
  | listen connected => exact listenBegins (listenListens taken) begins
  | monitor i answer => exact monitorBegins (monitorMonitors taken) begins

theorem runBegins {acts : List ServiceStep} (run : follow (Service.step objects) acts Service.start = some s)
    (running : s.caller.stops = false) : s.Begins :=
  followKeeps (I := fun s : Service => s.caller.stops = false → s.Begins) stepBegins run (fun _ => startBegins) running

structure Untouched (s t : Service) (i : Nat) : Prop where
  hThread : t.hThread i = s.hThread i
  ready : t.ready i = s.ready i
  monitor : t.server.monitor i = s.server.monitor i
  clients : ∀ n < s.count i, (t.server.pool.pClientArray i)[n]? = (s.server.pool.pClientArray i)[n]?

inductive Touches (s t : Service) (i : Nat) : Prop where
  | aside (untouched : Untouched s t i) (count : t.count i = s.count i)
    (resume : t.listen = .resume i ↔ s.listen = .resume i)
  | places (untouched : Untouched s t i) (here : s.listen = .adapt) (count : t.count i = s.count i + 1)
    (listen : t.listen = if t.count i = 1 then .resume i else .loop)
  | runs (hThread : t.hThread i = true) (ready : s.ready i = true) (ready' : t.ready i = true)
  | resumes (hThread : t.hThread i = true) (resume : s.listen = .resume i) (ready : t.ready i = true)

theorem samePool {u v : Pool} (pool : v.m_pThreadPool[i]? = u.m_pThreadPool[i]?) :
    v.dwEventCount i = u.dwEventCount i ∧ v.pClientArray i = u.pClientArray i := by
  rw [Pool.dwEventCount,Pool.dwEventCount,Pool.pClientArray,Pool.pClientArray,pool]
  exact ⟨rfl,rfl⟩

theorem asideOf (hThread : t.hThread i = s.hThread i) (ready : t.ready i = s.ready i)
    (monitor : t.server.monitor i = s.server.monitor i)
    (pool : t.server.pool.m_pThreadPool[i]? = s.server.pool.m_pThreadPool[i]?)
    (resume : t.listen = .resume i ↔ s.listen = .resume i) : Touches s t i := by
  obtain ⟨count,clients⟩ := samePool pool
  exact .aside ⟨hThread,ready,monitor,fun n _ => by rw [clients]⟩ count resume

theorem callerTouches {succeeds : Bool} (taken : s.callerStep succeeds = some t) (running : s.caller.stops = false)
    (begins : s.Begins) (begun : s.hThread i = true) : Touches s t i := by
  have calls := callerCalls taken
  refine asideOf ?_ ?_ (congrFun calls.monitor i) ?_ ?_
  · rcases calls.hThread with same | ⟨j,-,same⟩
    · rw [same]
    · rw [same,Function.update_apply]
      split
      · exact begun.symm
      · rfl
  · rcases calls.ready with same | ⟨j,here,-⟩
    · rw [same]
    · rw [here] at running
      cases running
  · rcases calls.pool with same | ⟨j,here,zero⟩
    · rw [same]
    · have before := ((begins.begun j (by rw [here]; rfl)).2 i).mp begun
      rw [zero,zeroElsewhere _ (Nat.ne_of_lt before)]
  · rcases calls.listen with same | ⟨here,-⟩ | ⟨here,-⟩
    · rw [same]
    · have before := ((begins.begun 0 (by rw [here]; rfl)).2 i).mp begun
      exact absurd before (Nat.not_lt_zero i)
    · rw [here] at running
      cases running

theorem listenTouches (listens : Listens objects s t) (begins : s.Begins) (begun : s.hThread i = true) :
    Touches s t i := by
  cases listens with
  | looks here =>
    refine asideOf rfl rfl rfl rfl ?_
    rw [here]
    dsimp only
    split <;> exact ⟨nofun,nofun⟩
  | refuses here => exact asideOf rfl rfl rfl rfl (by rw [here]; exact ⟨nofun,nofun⟩)
  | accepts here _ taken =>
    cases Pool.stepDoes taken
    exact asideOf rfl rfl rfl rfl (by rw [here]; exact ⟨nofun,nofun⟩)
  | passes here offered taken more =>
    have idle : ListenLine.adapt = .resume i ↔ s.listen = .resume i := by rw [here]
    cases (adapts offered taken).1 with
    | full _ _ _ pool => exact asideOf rfl rfl rfl (by rw [pool]) idle
    | placed _ _ nobody | beyond _ nobody => exact absurd nobody more
  | @places pClient j pool here offered taken nobody inside =>
    cases (adapts offered taken).1 with
    | full _ _ next =>
      obtain ⟨_,next⟩ := next
      cases nobody.symm.trans next
    | beyond beyond =>
      rw [begins.fronts.length] at beyond
      exact absurd inside (Nat.not_lt.mpr beyond)
    | placed _ _ _ counts kept =>
      have clients : ∀ n < s.count i, (pool.pClientArray i)[n]? = (s.server.pool.pClientArray i)[n]? := kept i
      rcases eq_or_ne i j with rfl | other
      · refine .places ⟨rfl,rfl,rfl,clients⟩ here ?_ rfl
        show pool.dwEventCount i = s.server.pool.dwEventCount i + 1
        rw [counts,Function.update_self]
      · refine .aside ⟨rfl,rfl,rfl,clients⟩ ?_ ?_
        · show pool.dwEventCount i = s.server.pool.dwEventCount i
          rw [counts,Function.update_of_ne other]
        · rw [here]
          dsimp only
          split
          · exact ⟨fun same => absurd (ListenLine.resume.inj same).symm other,nofun⟩
          · exact ⟨nofun,nofun⟩
  | drops here offered taken nobody beyond =>
    have idle : ListenLine.loop = .resume i ↔ s.listen = .resume i := by
      rw [here]
      exact ⟨nofun,nofun⟩
    cases (adapts offered taken).1 with
    | full inside | placed inside =>
      rw [begins.fronts.length] at inside
      exact absurd inside (Nat.not_lt.mpr beyond)
    | beyond _ _ pool => exact asideOf rfl rfl rfl (by rw [pool]) idle
  | @resumes j here =>
    rcases eq_or_ne i j with rfl | other
    · refine .resumes begun here ?_
      dsimp only
      rw [Function.update_self,begun,Bool.or_true]
    · refine asideOf rfl (Function.update_of_ne other ..) rfl rfl ?_
      rw [here]
      exact ⟨nofun,fun same => absurd (ListenLine.resume.inj same).symm other⟩

theorem stepTouches (taken : s.step objects a = some t) (running : t.caller.stops = false) (begins : s.Begins)
    (begun : s.hThread i = true) : Touches s t i := by
  obtain ⟨unstopped,before⟩ := stepStops taken running
  cases a with
  | caller succeeds => exact callerTouches taken before begins begun
  | stop => exact absurd rfl unstopped
  | listen connected => exact listenTouches (listenListens taken) begins begun
  | monitor j answer =>
    have monitors := monitorMonitors taken
    have rest := monitors.rest
    rcases eq_or_ne i j with rfl | other
    · refine .runs ?_ monitors.ready ?_
      · rw [rest]
        exact begun
      · rw [rest]
        exact monitors.ready
    · obtain ⟨acted,line,monitor,-⟩ := monitorActed monitors
      refine asideOf (by rw [rest]) (by rw [rest]) ?_ ((actedAside acted).elsewhere i other) (by rw [rest])
      rw [monitor,Function.update_of_ne other]

theorem touchesSleeps (touches : Touches s t i) (begun : s.hThread i = true) :
    t.hThread i = true ∧ (t.Sleeps i ↔ s.Sleeps i) := by
  cases touches with
  | aside untouched count resume =>
    have same : t.hThread i = true := untouched.hThread.trans begun
    refine ⟨same,fun sleeps => ⟨begun,?_,?_,?_⟩,fun sleeps => ⟨same,?_,?_,?_⟩⟩
    · exact untouched.ready ▸ sleeps.suspended
    · exact count ▸ sleeps.clients
    · exact fun here => sleeps.resume (resume.mpr here)
    · exact untouched.ready ▸ sleeps.suspended
    · exact count ▸ sleeps.clients
    · exact fun here => sleeps.resume (resume.mp here)
  | places untouched here count listen =>
    have same : t.hThread i = true := untouched.hThread.trans begun
    refine ⟨same,fun sleeps => ?_,fun sleeps => ?_⟩
    · have resume := sleeps.resume
      rw [listen] at resume
      refine ⟨begun,untouched.ready ▸ sleeps.suspended,fun none => resume ?_,by rw [here]; exact nofun⟩
      rw [if_pos (by rw [count,none])]
    · have some := sleeps.clients
      refine ⟨same,untouched.ready ▸ sleeps.suspended,by rw [count]; exact Nat.succ_ne_zero _,?_⟩
      rw [listen,if_neg (by omega)]
      exact nofun
  | runs hThread ready ready' =>
    refine ⟨hThread,fun sleeps => ?_,fun sleeps => ?_⟩
    · cases ready'.symm.trans sleeps.suspended
    · cases ready.symm.trans sleeps.suspended
  | resumes hThread resume ready =>
    refine ⟨hThread,fun sleeps => ?_,fun sleeps => absurd resume sleeps.resume⟩
    cases ready.symm.trans sleeps.suspended

theorem touchesClients (touches : Touches s t i) (sleeps : s.Sleeps i) : Untouched s t i ∧ s.count i ≤ t.count i := by
  cases touches with
  | aside untouched count => exact ⟨untouched,count.ge⟩
  | places untouched _ count => exact ⟨untouched,count ▸ Nat.le_succ _⟩
  | runs _ ready => cases ready.symm.trans sleeps.suspended
  | resumes _ resume => exact absurd resume sleeps.resume

theorem stillRunning (taken : s.step objects a = some t) (unstopped : a ≠ .stop) (running : s.caller.stops = false) :
    t.caller.stops = false := by
  cases a with
  | caller succeeds => exact (callerStops taken).trans running
  | stop => exact absurd rfl unstopped
  | listen connected => exact (listensKeeps (listenListens taken)).1 ▸ running
  | monitor i answer =>
    rw [(monitorMonitors taken).rest]
    exact running

theorem sleepersStay {more : List ServiceStep} {u : Service} (begins : t.Begins) (running : t.caller.stops = false)
    (begun : t.hThread i = true) (later : follow (Service.step objects) more t = some u)
    (unstopped : ∀ a ∈ more, a ≠ .stop) :
    (u.Sleeps i ↔ t.Sleeps i) ∧ (t.Sleeps i → u.server.monitor i = t.server.monitor i ∧ t.count i ≤ u.count i ∧
      ∀ n < t.count i, (u.server.pool.pClientArray i)[n]? = (t.server.pool.pClientArray i)[n]?) := by
  induction more generalizing t with
  | nil =>
    cases later
    exact ⟨Iff.rfl,fun _ => ⟨rfl,Nat.le_refl _,fun _ _ => rfl⟩⟩
  | cons a more ih =>
    obtain ⟨next,taken,rest⟩ := followCons later
    have first := unstopped a List.mem_cons_self
    have running' := stillRunning taken first running
    have begins' := stepBegins taken (fun _ => begins) running'
    have touches := stepTouches taken running' begins begun
    obtain ⟨begun',same⟩ := touchesSleeps touches begun
    obtain ⟨same',stays⟩ := ih begins' running' begun' rest fun a member => unstopped a (List.mem_cons_of_mem _ member)
    refine ⟨same'.trans same,fun sleeps => ?_⟩
    obtain ⟨untouched,more⟩ := touchesClients touches sleeps
    obtain ⟨monitor,most,clients⟩ := stays (same.mpr sleeps)
    refine ⟨monitor.trans untouched.monitor,more.trans most,fun n below => ?_⟩
    rw [clients n (Nat.lt_of_lt_of_le below more),untouched.clients n below]

theorem sleepersMade {acts more : List ServiceStep} {u : Service}
    (run : follow (Service.step objects) acts Service.start = some s) (here : s.caller = .beginMonitor i)
    (begun : s.step objects (.caller true) = some t) (later : follow (Service.step objects) more t = some u)
    (unstopped : ∀ a ∈ more, a ≠ .stop) :
    (u.Sleeps i ↔ s.count i ≠ 0 ∧ s.listen ≠ .resume i) ∧
      (u.Sleeps i → u.server.monitor i = .loop ∧ s.count i ≤ u.count i ∧
        ∀ n < s.count i, (u.server.pool.pClientArray i)[n]? = (s.server.pool.pClientArray i)[n]?) := by
  have running : s.caller.stops = false := by rw [here]; rfl
  have begins := runBegins run running
  have unbegun : s.hThread i = false := by
    have before := (begins.begun i (by rw [here]; rfl)).2 i
    exact Bool.eq_false_iff.mpr fun already => Nat.lt_irrefl i (before.mp already)
  obtain ⟨suspended,line⟩ := begins.unbegun i unbegun
  have running' := stillRunning begun nofun running
  have begins' := stepBegins begun (fun _ => begins) running'
  simp only [Service.step,Service.callerStep,here,if_true,Option.some.injEq] at begun
  subst begun
  obtain ⟨same,stays⟩ := sleepersStay begins' running' (Function.update_self ..) later unstopped
  refine ⟨same.trans ⟨fun sleeps => ⟨sleeps.clients,sleeps.resume⟩,fun sleeps => ?_⟩,fun sleeps => ?_⟩
  · exact ⟨Function.update_self ..,suspended,sleeps.1,sleeps.2⟩
  · obtain ⟨monitor,more,clients⟩ := stays (same.mp sleeps)
    exact ⟨monitor.trans line,more,clients⟩

end Begin

def earlyClient : List ServiceStep := [.caller true,.caller true,.caller true,.caller true,.caller true,
  .listen true,.listen true,.listen true,.listen true]

theorem sleepersMadeEarly : ∃ s t u, follow (Service.step anyObject) earlyClient Service.start = some s ∧
    s.step anyObject (.caller true) = some t ∧
    follow (Service.step anyObject) [.listen true,.listen true,.listen true] t = some u ∧ u.Sleeps 0 ∧
    u.server.monitor 0 = .loop := by
  have made : (follow (Service.step anyObject) earlyClient Service.start).map (fun s =>
      (s.caller,s.count 0,s.listen,((s.step anyObject (.caller true)).bind
        (follow (Service.step anyObject) [.listen true,.listen true,.listen true])).isSome)) =
      some (.beginMonitor 0,1,.loop,true) := by decide +kernel
  obtain ⟨s,run,same⟩ := Option.map_eq_some_iff.mp made
  simp only [Prod.mk.injEq,Option.isSome_iff_exists,Option.bind_eq_some_iff] at same
  obtain ⟨here,count,listen,u,t,begun,later⟩ := same
  have unstopped : ∀ a ∈ [ServiceStep.listen true,.listen true,.listen true], a ≠ .stop := by
    intro a member
    simp only [List.mem_cons,List.not_mem_nil,or_false,or_self] at member
    rw [member]
    exact nofun
  obtain ⟨same,stays⟩ := sleepersMade run here begun later unstopped
  have sleeps := same.mpr ⟨by rw [count]; exact Nat.one_ne_zero,by rw [listen]; exact nofun⟩
  exact ⟨s,t,u,run,begun,later,sleeps,(stays sleeps).1⟩

end JokeDse
