import JokeDse.Placement

/-! MonitorThread of CSocketServer with ProcessEvent and RemoveConnect, while ListenThread puts new clients
behind the ones it works on. What Winsock and the callbacks answer comes with the steps. -/
namespace JokeDse
open Runs

def wsaWaitEvent0 : Uint := 0
def wsaWaitTimeout : Uint := 258
def wsaWaitFailed : Uint := 0xFFFFFFFF
def wsaNotInitialised : Uint := 10093
def wsaENetDown : Uint := 10050

def fdRead : Uint := 0x01
def fdWrite : Uint := 0x02
def fdConnect : Uint := 0x10
def fdClose : Uint := 0x20

def reports (lNetworkEvents event : Uint) : Bool := lNetworkEvents &&& event != 0

inductive Callback where
  | onRecv
  | onWrite
  | onConnect
  deriving DecidableEq

def callback (lNetworkEvents : Uint) : Option Callback :=
  if reports lNetworkEvents fdRead then some .onRecv
  else if reports lNetworkEvents fdWrite then some .onWrite
  else if reports lNetworkEvents fdConnect then some .onConnect
  else none

/-- Where a MonitorThread is: before the outer wait, in it and behind it, at the call of ProcessEvent and
behind its report, at the call of RemoveConnect and before its csThread, at the inner `while`, and before
and in the inner wait. `inside` says that ProcessEvent is the caller of RemoveConnect. -/
inductive MonitorLine where
  | loop
  | waiting (cEvents : Uint)
  | woken (dwRet : Uint)
  | processEvent (dwIndex : Uint)
  | dispatch (dwIndex : Uint) (pClient : Nat) (lNetworkEvents : Uint)
  | removeConnect (dwIndex : Uint) (pClient : Nat) (inside : Bool)
  | removing (dwIndex : Uint) (pClient : Nat) (inside : Bool)
  | test (dwIndex : Uint)
  | again (dwIndex : Uint)
  | waitingMore (dwIndex cEvents : Uint)
  | ended
  deriving DecidableEq

inductive Answer where
  | go
  | run (bRun : Bool)
  | waited (dwRet dwError : Uint)
  | fetched (lNetworkEvents : Uint)
  | returned (result : Int)

namespace MonitorLine

def next (pThreadInfo : ThreadInfo) : MonitorLine → Answer → Option MonitorLine
  | .loop, .run bRun => some (if bRun then .waiting pThreadInfo.dwEventCount else .ended)
  | .waiting cEvents, .waited dwRet dwError =>
    if dwRet = wsaWaitFailed then
      some (if dwError = wsaNotInitialised ∨ dwError = wsaENetDown then .ended else .loop)
    else if dwRet = wsaWaitTimeout then some .loop
    else if dwRet.toNat < cEvents.toNat then some (.woken dwRet)
    else none
  | .woken dwRet, .go =>
    some (if pThreadInfo.dwEventCount = 0 then .loop else .processEvent (dwRet - wsaWaitEvent0))
  | .processEvent dwIndex, .fetched lNetworkEvents =>
    (pThreadInfo.client dwIndex).map fun pClient => .dispatch dwIndex pClient lNetworkEvents
  | .dispatch dwIndex pClient lNetworkEvents, answer =>
    match callback lNetworkEvents, answer with
    | some _, .returned result =>
      some (if result = -1 then .removeConnect dwIndex pClient false else .test (dwIndex + 1))
    | none, .go =>
      some (if reports lNetworkEvents fdClose then .removeConnect dwIndex pClient true else .test (dwIndex + 1))
    | _, _ => none
  | .removeConnect dwIndex pClient inside, .go => some (.removing dwIndex pClient inside)
  | .removing dwIndex _ inside, .go => some (.test (if inside then dwIndex + 1 else dwIndex))
  | .test dwIndex, .go =>
    some (if dwIndex.toNat < pThreadInfo.dwEventCount.toNat then .again dwIndex else .loop)
  | .again dwIndex, .go => some (.waitingMore dwIndex (pThreadInfo.dwEventCount - dwIndex))
  | .waitingMore dwIndex cEvents, .waited dwRet _ =>
    if dwRet = wsaWaitTimeout then some .loop
    -- a failure is not looked for here
    else if dwRet.toNat < cEvents.toNat ∨ dwRet = wsaWaitFailed then
      some (.processEvent (dwIndex + (dwRet - wsaWaitEvent0)))
    else none
  | _, _ => none

def acts (thread : Nat) : MonitorLine → Option PoolStep
  | .removeConnect dwIndex _ _ => some (.readSlot thread dwIndex)
  | .removing _ _ _ => some (.closeGap thread)
  | _ => none

def fetchedClose : MonitorLine → Option Nat
  | .dispatch _ pClient lNetworkEvents => if reports lNetworkEvents fdClose then some pClient else none
  | _ => none

def called : MonitorLine → Option Uint
  | .processEvent dwIndex => some dwIndex
  | .removeConnect dwIndex _ _ => some dwIndex
  | _ => none

def handles (pClient : Nat) : MonitorLine → Bool
  | .dispatch _ c _ => c == pClient
  | .removeConnect _ c _ => c == pClient
  | .removing _ c _ => c == pClient
  | _ => false

end MonitorLine

def Pool.perform (objects : Nat → SockClient) (s : Pool) : Option PoolStep → Option Pool
  | none => some s
  | some a => s.step objects a

/-- `closed` holds the clients that a report with FD_CLOSE was fetched for, behind their threads. -/
structure SocketServer where
  pool : Pool
  monitor : Nat → MonitorLine
  closed : List (Nat × Nat)

inductive SocketStep where
  | accept
  | adapt
  | monitor (thread : Nat) (answer : Answer)

namespace SocketServer

def start : SocketServer := ⟨Pool.start,fun _ => .loop,[]⟩

def step (objects : Nat → SockClient) (s : SocketServer) : SocketStep → Option SocketServer
  | .accept => (s.pool.step objects .accept).map fun pool => {s with pool}
  | .adapt => (s.pool.step objects .adapt).map fun pool => {s with pool}
  | .monitor thread answer => do
    let p ← s.pool.m_pThreadPool[thread]?
    let line ← (s.monitor thread).next p.info answer
    let pool ← s.pool.perform objects ((s.monitor thread).acts thread)
    some ⟨pool,Function.update s.monitor thread line,(line.fetchedClose.map (thread,·)).toList ++ s.closed⟩

def waitChecked (s : SocketServer) : SocketStep → Bool
  | .monitor thread (.waited dwRet _) =>
    match s.monitor thread with
    | .waitingMore dwIndex _ => !(dwRet == wsaWaitFailed && dwIndex == 0)
    | _ => true
  | _ => true

def closeReturned (s : SocketServer) : SocketStep → Bool
  | .monitor thread (.returned result) =>
    match s.monitor thread with
    | .dispatch _ _ lNetworkEvents => !reports lNetworkEvents fdClose || result == -1
    | _ => true
  | _ => true

end SocketServer

inductive Stepped (objects : Nat → SockClient) (s t : SocketServer) : SocketStep → Prop where
  | accepts (moved : s.pool.step objects .accept = some t.pool) (monitor : t.monitor = s.monitor)
    (closed : t.closed = s.closed) : Stepped objects s t .accept
  | adapts (moved : s.pool.step objects .adapt = some t.pool) (monitor : t.monitor = s.monitor)
    (closed : t.closed = s.closed) : Stepped objects s t .adapt
  | goes {thread : Nat} {answer : Answer} {p : PoolThread} {line : MonitorLine}
    (here : s.pool.m_pThreadPool[thread]? = some p) (next : (s.monitor thread).next p.info answer = some line)
    (performed : s.pool.perform objects ((s.monitor thread).acts thread) = some t.pool)
    (monitor : t.monitor = Function.update s.monitor thread line)
    (closed : t.closed = (line.fetchedClose.map (thread,·)).toList ++ s.closed) :
    Stepped objects s t (.monitor thread answer)

section Lines
variable {pThreadInfo : ThreadInfo}

inductive Goes (pThreadInfo : ThreadInfo) : MonitorLine → Answer → MonitorLine → Prop where
  | runs : Goes pThreadInfo .loop (.run true) (.waiting pThreadInfo.dwEventCount)
  | stops : Goes pThreadInfo .loop (.run false) .ended
  | fails {cEvents dwError : Uint} {line : MonitorLine} (after : line = .ended ∨ line = .loop) :
    Goes pThreadInfo (.waiting cEvents) (.waited wsaWaitFailed dwError) line
  | passes {cEvents dwError : Uint} : Goes pThreadInfo (.waiting cEvents) (.waited wsaWaitTimeout dwError) .loop
  | wakes {cEvents dwRet dwError : Uint} (inside : dwRet.toNat < cEvents.toNat) :
    Goes pThreadInfo (.waiting cEvents) (.waited dwRet dwError) (.woken dwRet)
  | nobody {dwRet : Uint} : Goes pThreadInfo (.woken dwRet) .go .loop
  | calls {dwRet : Uint} : Goes pThreadInfo (.woken dwRet) .go (.processEvent dwRet)
  | fetches {dwIndex lNetworkEvents : Uint} {pClient : Nat} (here : pThreadInfo.client dwIndex = some pClient) :
    Goes pThreadInfo (.processEvent dwIndex) (.fetched lNetworkEvents) (.dispatch dwIndex pClient lNetworkEvents)
  | returns {dwIndex lNetworkEvents : Uint} {pClient : Nat} {result : Int} (kept : result ≠ -1) :
    Goes pThreadInfo (.dispatch dwIndex pClient lNetworkEvents) (.returned result) (.test (dwIndex + 1))
  | refuses {dwIndex lNetworkEvents : Uint} {pClient : Nat} :
    Goes pThreadInfo (.dispatch dwIndex pClient lNetworkEvents) (.returned (-1)) (.removeConnect dwIndex pClient false)
  | closes {dwIndex lNetworkEvents : Uint} {pClient : Nat} :
    Goes pThreadInfo (.dispatch dwIndex pClient lNetworkEvents) .go (.removeConnect dwIndex pClient true)
  | nothing {dwIndex lNetworkEvents : Uint} {pClient : Nat} (none : reports lNetworkEvents fdClose = false) :
    Goes pThreadInfo (.dispatch dwIndex pClient lNetworkEvents) .go (.test (dwIndex + 1))
  | reads {dwIndex : Uint} {pClient : Nat} {inside : Bool} :
    Goes pThreadInfo (.removeConnect dwIndex pClient inside) .go (.removing dwIndex pClient inside)
  | removes {dwIndex next : Uint} {pClient : Nat} {inside : Bool} :
    Goes pThreadInfo (.removing dwIndex pClient inside) .go (.test next)
  | more {dwIndex : Uint} (inside : dwIndex.toNat < pThreadInfo.dwEventCount.toNat) :
    Goes pThreadInfo (.test dwIndex) .go (.again dwIndex)
  | through {dwIndex : Uint} : Goes pThreadInfo (.test dwIndex) .go .loop
  | waitsMore {dwIndex : Uint} :
    Goes pThreadInfo (.again dwIndex) .go (.waitingMore dwIndex (pThreadInfo.dwEventCount - dwIndex))
  | passesMore {dwIndex cEvents dwError : Uint} :
    Goes pThreadInfo (.waitingMore dwIndex cEvents) (.waited wsaWaitTimeout dwError) .loop
  | wakesMore {dwIndex cEvents dwRet dwError : Uint} (inside : dwRet.toNat < cEvents.toNat) :
    Goes pThreadInfo (.waitingMore dwIndex cEvents) (.waited dwRet dwError) (.processEvent (dwIndex + dwRet))
  | failsMore {dwIndex cEvents dwError : Uint} :
    Goes pThreadInfo (.waitingMore dwIndex cEvents) (.waited wsaWaitFailed dwError)
      (.processEvent (dwIndex + wsaWaitFailed))

theorem indexAnswered (dwRet : Uint) : dwRet - wsaWaitEvent0 = dwRet := BitVec.sub_zero dwRet

theorem waitGoes {cEvents dwRet dwError : Uint} {line : MonitorLine}
    (next : MonitorLine.next pThreadInfo (.waiting cEvents) (.waited dwRet dwError) = some line) :
    Goes pThreadInfo (.waiting cEvents) (.waited dwRet dwError) line := by
  simp only [MonitorLine.next] at next
  split at next
  · rename_i failed
    cases failed
    cases next
    split
    · exact .fails (.inl rfl)
    · exact .fails (.inr rfl)
  · split at next
    · rename_i timeOut
      cases timeOut
      cases next
      exact .passes
    · split at next
      · cases next
        exact .wakes ‹_›
      · cases next

theorem waitMoreGoes {dwIndex cEvents dwRet dwError : Uint} {line : MonitorLine}
    (next : MonitorLine.next pThreadInfo (.waitingMore dwIndex cEvents) (.waited dwRet dwError) = some line) :
    Goes pThreadInfo (.waitingMore dwIndex cEvents) (.waited dwRet dwError) line := by
  simp only [MonitorLine.next,indexAnswered] at next
  split at next
  · rename_i timeOut
    cases timeOut
    cases next
    exact .passesMore
  · split at next
    · rename_i answered
      cases next
      rcases answered with inside | failed
      · exact .wakesMore inside
      · cases failed
        exact .failsMore
    · cases next

theorem dispatchGoes {dwIndex lNetworkEvents : Uint} {pClient : Nat} {answer : Answer} {line : MonitorLine}
    (next : MonitorLine.next pThreadInfo (.dispatch dwIndex pClient lNetworkEvents) answer = some line) :
    Goes pThreadInfo (.dispatch dwIndex pClient lNetworkEvents) answer line := by
  simp only [MonitorLine.next] at next
  split at next
  · cases next
    split
    · rename_i refused
      cases refused
      exact .refuses
    · exact .returns ‹_›
  · cases next
    split
    · exact .closes
    · exact .nothing (Bool.eq_false_iff.mpr ‹_›)
  · cases next

theorem goes {line line' : MonitorLine} {answer : Answer} (next : line.next pThreadInfo answer = some line') :
    Goes pThreadInfo line answer line' := by
  cases line with
  | dispatch => exact dispatchGoes next
  | loop =>
    cases answer with
    | run bRun =>
      cases next
      cases bRun with
      | true => exact .runs
      | false => exact .stops
    | _ => cases next
  | waiting =>
    cases answer with
    | waited => exact waitGoes next
    | _ => cases next
  | waitingMore =>
    cases answer with
    | waited => exact waitMoreGoes next
    | _ => cases next
  | woken =>
    cases answer with
    | go =>
      cases next
      split
      · exact .nobody
      · rw [indexAnswered]
        exact .calls
    | _ => cases next
  | processEvent =>
    cases answer with
    | fetched =>
      obtain ⟨pClient,here,same⟩ := Option.map_eq_some_iff.mp next
      cases same
      exact .fetches here
    | _ => cases next
  | test =>
    cases answer with
    | go =>
      cases next
      split
      · exact .more ‹_›
      · exact .through
    | _ => cases next
  | removeConnect | removing | again =>
    cases answer with
    | go =>
      cases next
      constructor
    | _ => cases next
  | ended => cases answer <;> cases next

end Lines

section Steps
variable {objects : Nat → SockClient} {s t : SocketServer} {a : SocketStep}

theorem stepped (step : SocketServer.step objects s a = some t) : Stepped objects s t a := by
  cases a with
  | accept =>
    obtain ⟨pool,moved,same⟩ := Option.map_eq_some_iff.mp step
    cases same
    exact .accepts moved rfl rfl
  | adapt =>
    obtain ⟨pool,moved,same⟩ := Option.map_eq_some_iff.mp step
    cases same
    exact .adapts moved rfl rfl
  | monitor thread answer =>
    simp only [SocketServer.step,bind,Option.bind_eq_some_iff] at step
    obtain ⟨p,here,line,next,pool,performed,step⟩ := step
    cases step
    exact .goes here next performed rfl rfl

end Steps

def Pool.dwEventCount (s : Pool) (thread : Nat) : Nat :=
  (s.m_pThreadPool[thread]?.map (·.info.dwEventCount.toNat)).getD 0

def MonitorLine.Within (count : Nat) : MonitorLine → Prop
  | .waiting cEvents => cEvents.toNat ≤ count
  | .woken dwRet => dwRet.toNat < count
  | .processEvent dwIndex => dwIndex.toNat < count
  | .dispatch dwIndex _ _ => dwIndex.toNat < count
  | .removeConnect dwIndex _ _ => dwIndex.toNat < count
  | .again dwIndex => dwIndex.toNat < count
  | .waitingMore dwIndex cEvents => dwIndex.toNat + cEvents.toNat ≤ count
  | _ => True

section Index
variable {objects : Nat → SockClient}

theorem MonitorLine.Within.more {line : MonitorLine} {count more : Nat} (within : line.Within count)
    (grown : count ≤ more) : line.Within more := by
  cases line with
  | waiting | waitingMore => exact Nat.le_trans within grown
  | woken | processEvent | dispatch | removeConnect | again => exact Nat.lt_of_lt_of_le within grown
  | loop | removing | test | ended => exact True.intro

theorem MonitorLine.Within.called {line : MonitorLine} {count : Nat} (within : line.Within count) {dwIndex : Uint}
    (called : line.called = some dwIndex) : dwIndex.toNat < count := by
  cases line with
  | processEvent | removeConnect =>
    cases called
    exact within
  | _ => cases called

theorem countSet {s t : Pool} {i : Nat} {p p' : PoolThread} (here : s.m_pThreadPool[i]? = some p)
    (pool : t.m_pThreadPool = s.m_pThreadPool.set i p') :
    t.dwEventCount = Function.update s.dwEventCount i p'.info.dwEventCount.toNat := by
  have set := Pool.fieldSet (·.info.dwEventCount.toNat) 0 p' here
  rwa [← pool] at set

theorem countHere {s : Pool} {i : Nat} {p : PoolThread} (here : s.m_pThreadPool[i]? = some p) :
    s.dwEventCount i = p.info.dwEventCount.toNat := by
  rw [Pool.dwEventCount,here]
  rfl

def PoolStep.thins : PoolStep → Option Nat
  | .closeGap thread => some thread
  | .checkFreeClient thread _ => some thread
  | _ => none

theorem adaptCounts {pClient : Nat} {hSocketEvent : Option Nat} {t t' : ThreadInfo} {bAdapterThread : Bool}
    (adapted : t.adapt pClient hSocketEvent = some (bAdapterThread,t')) :
    t.dwEventCount.toNat ≤ t'.dwEventCount.toNat := by
  unfold ThreadInfo.adapt at adapted
  split at adapted
  · rename_i room
    simp only [bind,Option.bind_eq_some_iff] at adapted
    obtain ⟨pClientArray,-,hEventArray,-,same⟩ := adapted
    cases same
    have one : (1 : Uint).toNat = 1 := rfl
    unfold maxClients at room
    rw [BitVec.toNat_add,one,Nat.mod_eq_of_lt (by omega)]
    exact Nat.le_succ _
  · cases adapted
    exact Nat.le_refl _

theorem stepCounts {s t : Pool} {a : PoolStep} (step : s.step objects a = some t) {i : Nat}
    (other : a.thins ≠ some i) : s.dwEventCount i ≤ t.dwEventCount i := by
  have elsewhere {thread : Nat} {p p' : PoolThread} (here : s.m_pThreadPool[thread]? = some p)
      (pool : t.m_pThreadPool = s.m_pThreadPool.set thread p')
      (kept : thread = i → p.info.dwEventCount.toNat ≤ p'.info.dwEventCount.toNat) :
      s.dwEventCount i ≤ t.dwEventCount i := by
    rw [countSet here pool]
    by_cases same : i = thread
    · rw [same,Function.update_self,countHere here]
      exact kept same.symm
    · rw [Function.update_of_ne same]
  cases Pool.stepDoes step with
  | accepts | drops => exact Nat.le_refl _
  | adapts _ here adapted => exact elsewhere here rfl fun _ => adaptCounts adapted
  | reads here => exact elsewhere here rfl fun _ => Nat.le_refl _
  | closes here | checks here => exact elsewhere here rfl fun same => absurd (congrArg some same) other

section Lines
variable {line line' : MonitorLine} {pThreadInfo : ThreadInfo} {answer : Answer}

theorem waitIndex {dwIndex cEvents dwRet : Uint} {count : Nat} (fits : dwIndex.toNat + cEvents.toNat ≤ count)
    (inside : dwRet.toNat < cEvents.toNat) : (dwIndex + dwRet).toNat < count := by
  have low : (dwIndex + dwRet).toNat ≤ dwIndex.toNat + dwRet.toNat := by
    rw [BitVec.toNat_add]
    exact Nat.mod_le _ _
  omega

theorem failedIndex {dwIndex : Uint} {count : Nat} (fits : dwIndex.toNat ≤ count) (some : dwIndex ≠ 0) :
    (dwIndex + wsaWaitFailed).toNat < count := by
  have positive : 0 < dwIndex.toNat := Nat.pos_of_ne_zero fun zero => some (BitVec.eq_of_toNat_eq zero)
  have small := dwIndex.isLt
  have failed : wsaWaitFailed.toNat = 2 ^ 32 - 1 := rfl
  rw [BitVec.toNat_add,failed]
  omega

theorem nextWithin (next : line.next pThreadInfo answer = some line')
    (within : line.Within pThreadInfo.dwEventCount.toNat)
    (checked : ∀ dwIndex cEvents dwError, line = .waitingMore dwIndex cEvents →
      answer = .waited wsaWaitFailed dwError → dwIndex ≠ 0) : line'.Within pThreadInfo.dwEventCount.toNat := by
  cases goes next with
  | runs => exact Nat.le_refl _
  | wakes inside => exact Nat.lt_of_lt_of_le inside within
  | calls | fetches | refuses | closes => exact within
  | fails after => rcases after with rfl | rfl <;> exact True.intro
  | more inside => exact inside
  | @waitsMore dwIndex =>
    have below : dwIndex ≤ pThreadInfo.dwEventCount := BitVec.le_def.mpr (Nat.le_of_lt within)
    rw [MonitorLine.Within,BitVec.toNat_sub_of_le below]
    exact Nat.le_of_eq (Nat.add_sub_cancel' (Nat.le_of_lt within))
  | wakesMore inside => exact waitIndex within inside
  | failsMore => exact failedIndex (Nat.le_trans (Nat.le_add_right _ _) within) (checked _ _ _ rfl rfl)
  | stops | passes | nobody | returns | nothing | reads | removes | through | passesMore => exact True.intro

theorem performsFree {thread : Nat} {a : PoolStep} (next : line.next pThreadInfo answer = some line')
    (acts : line.acts thread = some a) (count : Nat) : line'.Within count := by
  cases goes next with
  | reads | removes => exact True.intro
  | _ => cases acts

theorem actsHere {thread other : Nat} {a : PoolStep} (acts : line.acts thread = some a) (different : other ≠ thread) :
    a.thins ≠ some other := by
  cases line with
  | removeConnect =>
    cases acts
    exact nofun
  | removing =>
    cases acts
    exact fun same => different (Option.some.inj same).symm
  | _ => cases acts

end Lines

theorem stepWithin {s t : SocketServer} {a : SocketStep} (step : SocketServer.step objects s a = some t)
    (checked : s.waitChecked a = true)
    (within : ∀ thread, (s.monitor thread).Within (s.pool.dwEventCount thread)) (thread : Nat) :
    (t.monitor thread).Within (t.pool.dwEventCount thread) := by
  cases stepped step with
  | accepts moved monitor | adapts moved monitor =>
    rw [monitor]
    exact (within thread).more (stepCounts moved nofun)
  | @goes changed answer p line here next performed monitor =>
    rw [monitor]
    by_cases same : thread = changed
    · rw [same,Function.update_self]
      cases acts : (s.monitor changed).acts changed with
      | some a => exact performsFree next acts _
      | none =>
        rw [acts] at performed
        rw [← Option.some.inj performed,countHere here]
        refine nextWithin next (countHere here ▸ within changed) fun dwIndex cEvents dwError line answered zero => ?_
        simp [SocketServer.waitChecked,answered,line,zero] at checked
    · rw [Function.update_of_ne same]
      cases acts : (s.monitor changed).acts changed with
      | some a =>
        rw [acts] at performed
        exact (within thread).more (stepCounts performed (actsHere acts same))
      | none =>
        rw [acts] at performed
        rw [← Option.some.inj performed]
        exact within thread

end Index

section Run
variable {objects : Nat → SockClient} {acts : List SocketStep} {s t : SocketServer}

theorem indicesBelow (heads : ∀ thread, s.monitor thread = .loop)
    (run : follow (SocketServer.step objects) acts s = some t)
    (checked : Meets (SocketServer.step objects) (fun s a => s.waitChecked a = true) acts s) {thread : Nat}
    {p : PoolThread} {dwIndex : Uint} (here : t.pool.m_pThreadPool[thread]? = some p)
    (called : (t.monitor thread).called = some dwIndex) : dwIndex.toNat < p.info.dwEventCount.toNat := by
  have within := meetsKeeps (I := fun s : SocketServer => ∀ thread, (s.monitor thread).Within (s.pool.dwEventCount thread))
    stepWithin run checked fun thread => by
      rw [heads]
      exact True.intro
  rw [← countHere here]
  exact (within thread).called called

-- The first of two clients is taken out, and the next wait fails.
def failingWait : List SocketStep := [.accept,.adapt,.accept,.adapt,.monitor 0 (.run true),.monitor 0 (.waited 0 0),
  .monitor 0 .go,.monitor 0 (.fetched fdRead),.monitor 0 (.returned (-1)),.monitor 0 .go,.monitor 0 .go,.monitor 0 .go,
  .monitor 0 .go,.monitor 0 (.waited wsaWaitFailed wsaENetDown)]

theorem indicesBelowShort : ∃ t p, follow (SocketServer.step anyObject) (failingWait.take 7) SocketServer.start = some t ∧
    t.pool.m_pThreadPool[0]? = some p ∧ (t.monitor 0).called = some 0 ∧ (0 : Uint).toNat < p.info.dwEventCount.toNat := by
  have called : (follow (SocketServer.step anyObject) (failingWait.take 7) SocketServer.start).map (fun t =>
      ((t.monitor 0).called,t.pool.m_pThreadPool[0]?.isSome)) = some (some 0,true) := rfl
  have checked : Meets (SocketServer.step anyObject) (fun s a => s.waitChecked a = true) (failingWait.take 7)
      SocketServer.start := by decide +kernel
  obtain ⟨t,run,called⟩ := Option.map_eq_some_iff.mp called
  obtain ⟨called,there⟩ := Prod.mk.inj called
  obtain ⟨p,here⟩ := Option.isSome_iff_exists.mp there
  exact ⟨t,p,run,here,called,indicesBelow (fun _ => rfl) run checked here called⟩

theorem indexBeyond : ∃ t p, follow (SocketServer.step anyObject) failingWait SocketServer.start = some t ∧
    t.pool.m_pThreadPool[0]? = some p ∧ (t.monitor 0).called = some 0xFFFFFFFF ∧ p.info.dwEventCount = 1 := by
  have called : (follow (SocketServer.step anyObject) failingWait SocketServer.start).map (fun t =>
      ((t.monitor 0).called,t.pool.m_pThreadPool[0]?.map (·.info.dwEventCount))) = some (some 0xFFFFFFFF,some 1) := rfl
  obtain ⟨t,run,called⟩ := Option.map_eq_some_iff.mp called
  obtain ⟨called,there⟩ := Prod.mk.inj called
  obtain ⟨p,here,one⟩ := Option.map_eq_some_iff.mp there
  exact ⟨t,p,run,here,called,one⟩

end Run

end JokeDse
