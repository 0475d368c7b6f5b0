import JokeDse.Monitor

/-! Start and Stop of CSocketServer with the threads they begin. The threads of the pool are begun suspended, and
ListenThread resumes the one whose first client it has put into the table. -/
namespace JokeDse
open Runs Slots

/-- The next statement of the thread that calls Start and Stop. In a loop over the pool `i` is the thread whose turn
it is, in the loop over a table `n` is the index. `faulted` is the access violation that ends the process. -/
inductive CallerLine where
  | createSocket
  | listenRun
  | beginListen
  | allocParam (i : Nat)
  | zeroCount (i : Nat)
  | beginMonitor (i : Nat)
  | listenStop
  | haltThread (i : Nat)
  | waitHalted
  | freeParam (i : Nat)
  | started (bSucceed : Bool)
  | stopListen
  | closeServer
  | stopThread (i : Nat)
  | disConnect (i n : Nat)
  | loadClient (i n : Nat)
  | resumeThread (i : Nat)
  | waitThreads
  | waitListen
  | closeListen
  | stopped
  | faulted
  deriving DecidableEq, Repr

inductive ListenLine where
  | absent
  | loop
  | accept
  | adapt
  | resume (i : Nat)
  | ended
  deriving DecidableEq, Repr

/-- `ready` says that the thread is not suspended any more; ThreadArray[i] has been allocated if `allocated` says so,
and was deleted `deleted` times; `placed` counts the clients that a thread was ever given. -/
structure Service where
  server : SocketServer
  caller : CallerLine
  listen : ListenLine
  m_bListenThreadRun : Bool
  m_sServer : Bool
  bRun : Nat → Bool
  hThread : Nat → Bool
  ready : Nat → Bool
  allocated : Nat → Bool
  deleted : Nat → Nat
  placed : Nat → Nat

inductive ServiceStep where
  | caller (succeeds : Bool)
  | stop
  | listen (connected : Bool)
  | monitor (i : Nat) (answer : Answer)

def Pool.zeroCount (i : Nat) (s : Pool) : Pool :=
  {s with m_pThreadPool := s.m_pThreadPool.modify i fun p => {p with info := {p.info with dwEventCount := 0}}}

def Pool.pClientArray (s : Pool) (i : Nat) : List (Option Nat) := (s.m_pThreadPool[i]?.map (·.info.pClientArray)).getD []

namespace Service

def start : Service where
  server := .start
  caller := .createSocket
  listen := .absent
  m_bListenThreadRun := false
  m_sServer := false
  bRun _ := false
  hThread _ := false
  ready _ := false
  allocated _ := false
  deleted _ := 0
  placed _ := 0

def count (s : Service) (i : Nat) : Nat := s.server.pool.dwEventCount i

def slot (s : Service) (i n : Nat) : Option Nat := (s.server.pool.pClientArray i)[n]?.join

def threadsEnded (s : Service) : Bool :=
  (List.range maxThread).all fun i => !s.hThread i || s.server.monitor i == .ended

def free (i : Nat) (s : Service) : Service := {s with deleted := Function.update s.deleted i (s.deleted i + 1)}

/-- Start from CreateSocket on, and Stop. `succeeds` is what CreateSocket or _beginthreadex makes of the call. -/
def callerStep (s : Service) (succeeds : Bool) : Option Service :=
  match s.caller with
  | .createSocket => some {s with m_sServer := succeeds, caller := if succeeds then .listenRun else .listenStop}
  | .listenRun => some {s with m_bListenThreadRun := true, caller := .beginListen}
  | .beginListen =>
    some (if succeeds then {s with listen := .loop, caller := .allocParam 0} else {s with caller := .listenStop})
  | .allocParam i =>
    some {s with
      allocated := Function.update s.allocated i true
      bRun := Function.update s.bRun i true
      caller := .zeroCount i}
  | .zeroCount i => some {s with server := {s.server with pool := s.server.pool.zeroCount i}, caller := .beginMonitor i}
  | .beginMonitor i =>
    some (if succeeds then
      {s with
        hThread := Function.update s.hThread i true
        caller := if i + 1 < maxThread then .allocParam (i + 1) else .started true}
    else {s.free i with caller := .listenStop})
  | .listenStop => some {s with m_bListenThreadRun := false, caller := .haltThread 0}
  | .haltThread i =>
    some {s with
      bRun := Function.update s.bRun i false
      caller := if i + 1 < maxThread then .haltThread (i + 1) else .waitHalted}
  | .waitHalted =>
    if s.threadsEnded ∧ (s.listen = .absent ∨ s.listen = .ended) then some {s with caller := .freeParam 0} else none
  | .freeParam i =>
    some {if s.allocated i then s.free i else s with
      caller := if i + 1 < maxThread then .freeParam (i + 1) else .started false}
  | .started _ => none
  | .stopListen => some {s with m_bListenThreadRun := false, caller := .closeServer}
  | .closeServer => some {s with m_sServer := false, caller := .stopThread 0}
  | .stopThread i =>
    some (if i < maxThread then
      if s.hThread i then {s with bRun := Function.update s.bRun i false, caller := .disConnect i 0}
      else {s with caller := .stopThread (i + 1)}
    else {s with caller := .waitThreads})
  | .disConnect i n => some {s with caller := if n < s.count i then .loadClient i n else .resumeThread i}
  -- Stop does not enter csThread, so RemoveConnect can have emptied the slot that was tested
  | .loadClient i n => some {s with caller := if (s.slot i n).isSome then .disConnect i (n + 1) else .faulted}
  | .resumeThread i => some {s with ready := Function.update s.ready i true, caller := .stopThread (i + 1)}
  | .waitThreads => if s.threadsEnded then some {s with caller := .waitListen} else none
  | .waitListen => if s.listen = .ended then some {s with caller := .closeListen} else none
  | .closeListen => some {s with listen := .absent, caller := .stopped}
  | .stopped => none
  | .faulted => none

/-- ListenThread. A client is behind its `accept` until it is in a table or behind the last thread. -/
def listenStep (objects : Nat → SockClient) (s : Service) (connected : Bool) : Option Service :=
  match s.listen with
  | .absent => none
  | .loop => some {s with listen := if s.m_bListenThreadRun then .accept else .ended}
  | .accept =>
    if connected then
      if s.m_sServer then (s.server.step objects .accept).map fun server => {s with server, listen := .adapt}
      else none
    else some {s with listen := .loop}
  | .adapt => do
    let (_,i) ← s.server.pool.offered
    let server ← s.server.step objects .adapt
    if server.pool.offered.isSome then some {s with server}
    -- bResumed is never set
    else if i < maxThread then some {s with
      server
      listen := if server.pool.dwEventCount i = 1 then .resume i else .loop
      placed := Function.update s.placed i (s.placed i + 1)}
    else some {s with server, listen := .loop}
  -- the thread stays suspended where hThread is still NULL
  | .resume i => some {s with ready := Function.update s.ready i (s.ready i || s.hThread i), listen := .loop}
  | .ended => none

/-- MonitorThread, which reads its bRun and deletes its ThreadParam behind the loop. -/
def monitorStep (objects : Nat → SockClient) (s : Service) (i : Nat) (answer : Answer) : Option Service :=
  if s.hThread i ∧ s.ready i then
    match answer with
    | .run bRun =>
      if bRun = s.bRun i then
        (s.server.step objects (.monitor i answer)).map fun server => {if bRun then s else s.free i with server}
      else none
    | _ => (s.server.step objects (.monitor i answer)).map fun server => {s with server}
  else none

def step (objects : Nat → SockClient) (s : Service) : ServiceStep → Option Service
  | .caller succeeds => s.callerStep succeeds
  | .stop =>
    match s.caller with
    | .started _ => some {s with caller := if s.listen = .absent then .stopped else .stopListen}
    | _ => none
  | .listen connected => s.listenStep objects connected
  | .monitor i answer => s.monitorStep objects i answer

end Service

/-! What the steps do, without the lines of Start and Stop that only lead to the next one. -/

section Tables
variable {objects : Nat → SockClient} {s t : Pool}

theorem zeroLength (s : Pool) (i : Nat) : (s.zeroCount i).m_pThreadPool.length = s.m_pThreadPool.length :=
  List.length_modify ..

theorem zeroCounts (s : Pool) (i : Nat) : (s.zeroCount i).dwEventCount = Function.update s.dwEventCount i 0 := by
  funext j
  simp only [Pool.dwEventCount,Pool.zeroCount,List.getElem?_modify,Function.update_apply]
  rcases eq_or_ne j i with rfl | other
  · cases s.m_pThreadPool[j]? <;> simp
  · cases s.m_pThreadPool[j]? <;> simp [other,other.symm]

theorem zeroElsewhere (s : Pool) {i j : Nat} (other : j ≠ i) :
    (s.zeroCount i).m_pThreadPool[j]? = s.m_pThreadPool[j]? := by
  rw [Pool.zeroCount,List.getElem?_modify]
  simp only [if_neg other.symm]
  exact congrFun Option.map_id _

theorem arraySet {i : Nat} {p p' : PoolThread} (here : s.m_pThreadPool[i]? = some p)
    (pool : t.m_pThreadPool = s.m_pThreadPool.set i p') :
    t.pClientArray = Function.update s.pClientArray i p'.info.pClientArray := by
  have set := Pool.fieldSet (·.info.pClientArray) [] p' here
  rwa [← pool] at set

inductive Adapts (s t : Pool) (i : Nat) : Prop where
  | full (inside : i < s.m_pThreadPool.length) (full : maxClients ≤ s.dwEventCount i)
    (next : ∃ pClient, t.offered = some (pClient,i + 1)) (pool : t.m_pThreadPool = s.m_pThreadPool)
  | placed (inside : i < s.m_pThreadPool.length) (room : s.dwEventCount i < maxClients) (next : t.offered = none)
    (counts : t.dwEventCount = Function.update s.dwEventCount i (s.dwEventCount i + 1))
    (kept : ∀ j n, n < s.dwEventCount j → (t.pClientArray j)[n]? = (s.pClientArray j)[n]?)
  | beyond (beyond : s.m_pThreadPool.length ≤ i) (next : t.offered = none) (pool : t.m_pThreadPool = s.m_pThreadPool)

theorem adapts {pClient i : Nat} (offered : s.offered = some (pClient,i)) (taken : s.step objects .adapt = some t) :
    Adapts s t i ∧ t.accepted = s.accepted := by
  cases Pool.stepDoes taken with
  | drops same beyond =>
    cases offered.symm.trans same
    exact ⟨.beyond (List.getElem?_eq_none_iff.mp beyond) rfl rfl,rfl⟩
  | @adapts _ _ p bAdapterThread info same here adapted =>
    cases offered.symm.trans same
    have inside := (List.getElem?_eq_some_iff.mp here).1
    have count := countHere here
    refine ⟨?_,rfl⟩
    unfold ThreadInfo.adapt at adapted
    split at adapted
    · rename_i room
      simp only [bind,Option.bind_eq_some_iff] at adapted
      obtain ⟨pClientArray,stored,hEventArray,-,placed⟩ := adapted
      cases placed
      have more : (p.info.dwEventCount + 1).toNat = s.dwEventCount i + 1 := by
        have one : (1 : Uint).toNat = 1 := rfl
        unfold maxClients at room
        rw [count,BitVec.toNat_add,one]
        exact Nat.mod_eq_of_lt (by omega)
      refine .placed inside (count ▸ room) rfl (by rw [countSet here rfl,more]) fun j n below => ?_
      rw [arraySet here rfl]
      rcases eq_or_ne j i with rfl | other
      · rw [Function.update_self,Pool.pClientArray,here]
        rw [count] at below
        unfold Slots.store at stored
        split at stored <;> cases stored
        exact List.getElem?_set_ne (Nat.ne_of_gt below)
      · rw [Function.update_of_ne other]
    · rename_i full
      cases adapted
      refine .full inside (count ▸ Nat.not_lt.mp full) ⟨pClient,rfl⟩ ?_
      obtain ⟨inside,rfl⟩ := List.getElem?_eq_some_iff.mp here
      exact List.set_getElem_self inside

structure ThreadInfo.Front (t : ThreadInfo) (clients : List Nat) : Prop where
  dwEventCount : t.dwEventCount.toNat = clients.length
  clients : clients.map some <+: t.pClientArray
  pClientArray : t.pClientArray.length = 64
  hEventArray : t.hEventArray.length = 64

section Front
variable {info info' : ThreadInfo} {clients : List Nat}

theorem ThreadInfo.Front.few (front : info.Front clients) : clients.length ≤ 64 := by
  have few := front.clients.length_le
  rwa [List.length_map,front.pClientArray] at few

theorem frontAdapts {pClient : Nat} {hSocketEvent : Option Nat} {bAdapterThread : Bool} (front : info.Front clients)
    (adapted : info.adapt pClient hSocketEvent = some (bAdapterThread,info')) :
    info'.Front (if bAdapterThread then clients ++ [pClient] else clients) := by
  have count := front.dwEventCount
  unfold ThreadInfo.adapt at adapted
  split at adapted
  · rename_i room
    rw [count] at room adapted
    have inside : (clients.map some).length < info.pClientArray.length := by
      rw [List.length_map,front.pClientArray]
      exact room
    obtain ⟨pClientArray,placed,grown,length⟩ := frontStore (x := some pClient) front.clients inside
    rw [List.length_map] at placed
    simp only [placed,bind,Option.bind_some,Option.bind_eq_some_iff] at adapted
    obtain ⟨hEventArray,stored,same⟩ := adapted
    cases same
    have events : hEventArray.length = 64 := by
      unfold Slots.store at stored
      split at stored <;> cases stored
      rw [List.length_set,front.hEventArray]
    have more : (info.dwEventCount + 1).toNat = clients.length + 1 := by
      have one : (1 : Uint).toNat = 1 := rfl
      unfold maxClients at room
      rw [BitVec.toNat_add,one,count]
      exact Nat.mod_eq_of_lt (by omega)
    refine ⟨?_,?_,length.trans front.pClientArray,events⟩
    · rw [if_pos rfl,List.length_append]
      exact more
    · rw [if_pos rfl,List.map_append]
      exact grown
  · cases adapted
    exact front

theorem closesInside {dwIndex : Uint} (front : info.Front clients) (closed : info.closeGap dwIndex = some info') :
    dwIndex.toNat < clients.length := by
  have count := front.dwEventCount
  have few := front.few
  simp only [ThreadInfo.closeGap,bind,Option.bind_eq_some_iff] at closed
  obtain ⟨-,-,pClientArray,moved,-⟩ := closed
  unfold Slots.memmove at moved
  split at moved
  · rename_i inside
    have fits := inside.2
    rw [front.pClientArray] at fits
    by_contra outside
    have size := dwIndex.isLt
    have one : (1 : Uint).toNat = 1 := rfl
    rw [BitVec.toNat_sub,BitVec.toNat_sub,one,count] at fits
    omega
  · cases moved

theorem frontCloses {dwIndex : Uint} (front : info.Front clients) (inside : dwIndex.toNat < clients.length) :
    ∃ info', info.closeGap dwIndex = some info' ∧ info'.Front (clients.eraseIdx dwIndex.toNat) := by
  have atMost := front.few
  have shorter : (clients.eraseIdx dwIndex.toNat).length = clients.length - 1 := List.length_eraseIdx_of_lt inside
  have same : (clients.map some).length = clients.length := List.length_map _
  obtain ⟨hEventArray,events,length⟩ := gapDefined none inside (atMost.trans_eq front.hEventArray.symm)
  obtain ⟨pClientArray,moved,kept,length'⟩ := frontErase none front.clients (inside.trans_eq same.symm)
  rw [same] at moved
  rw [List.eraseIdx_map] at kept
  obtain ⟨closed,lower⟩ := closeGapMoves front.dwEventCount inside events moved
  exact ⟨_,closed,lower.trans shorter.symm,kept,length'.trans front.pClientArray,length.trans front.hEventArray⟩

end Front

inductive Acted (objects : Nat → SockClient) (s t : Pool) (thread : Nat) : MonitorLine → Prop where
  | nothing {line : MonitorLine} (acts : line.acts thread = none) (same : t = s) : Acted objects s t thread line
  | reads {dwIndex : Uint} {pClient : Nat} {inside : Bool} (taken : s.step objects (.readSlot thread dwIndex) = some t) :
    Acted objects s t thread (.removeConnect dwIndex pClient inside)
  | closes {dwIndex : Uint} {pClient : Nat} {inside : Bool} (taken : s.step objects (.closeGap thread) = some t) :
    Acted objects s t thread (.removing dwIndex pClient inside)

theorem acted {line : MonitorLine} {thread : Nat} (performed : s.perform objects (line.acts thread) = some t) :
    Acted objects s t thread line := by
  cases line with
  | removeConnect => exact .reads performed
  | removing => exact .closes performed
  | _ => exact .nothing rfl (Option.some.inj performed).symm

structure Aside (s t : Pool) (thread : Nat) : Prop where
  offered : t.offered = s.offered
  accepted : t.accepted = s.accepted
  elsewhere : ∀ i, i ≠ thread → t.m_pThreadPool[i]? = s.m_pThreadPool[i]?

theorem actedAside {line : MonitorLine} {thread : Nat} (acted : Acted objects s t thread line) : Aside s t thread := by
  cases acted with
  | nothing _ same => exact same ▸ ⟨rfl,rfl,fun _ _ => rfl⟩
  | reads taken | closes taken =>
    cases Pool.stepDoes taken
    exact ⟨rfl,rfl,fun _ other => List.getElem?_set_ne other.symm⟩

structure Pool.Fronts (s : Pool) : Prop where
  length : s.m_pThreadPool.length = maxThread
  each : ∀ p ∈ s.m_pThreadPool, ∃ clients, p.info.Front clients

theorem Pool.Fronts.set (fronts : s.Fronts) {i : Nat} {p' : PoolThread}
    (pool : t.m_pThreadPool = s.m_pThreadPool.set i p') (front : ∃ clients, p'.info.Front clients) : t.Fronts where
  length := by rw [pool,List.length_set,fronts.length]
  each p member := by
    rw [pool] at member
    rcases List.mem_or_eq_of_mem_set member with old | rfl
    · exact fronts.each p old
    · exact front

theorem startFronts : Pool.start.Fronts where
  length := List.length_replicate
  each p member := by
    rw [List.eq_of_mem_replicate member]
    exact ⟨[],rfl,List.nil_prefix,rfl,rfl⟩

theorem zeroFronts (fronts : s.Fronts) (i : Nat) : (s.zeroCount i).Fronts where
  length := (zeroLength s i).trans fronts.length
  each p member := by
    obtain ⟨j,there⟩ := List.mem_iff_getElem?.mp member
    rw [Pool.zeroCount,List.getElem?_modify] at there
    obtain ⟨q,here,same⟩ := Option.map_eq_some_iff.mp there
    obtain ⟨clients,front⟩ := fronts.each q (List.mem_of_getElem? here)
    rcases eq_or_ne i j with rfl | other
    · rw [if_pos rfl] at same
      subst same
      exact ⟨[],rfl,List.nil_prefix,front.pClientArray,front.hEventArray⟩
    · rw [if_neg other] at same
      subst same
      exact ⟨clients,front⟩

theorem adaptFronts (fronts : s.Fronts) (taken : s.step objects .adapt = some t) : t.Fronts := by
  cases Pool.stepDoes taken with
  | drops => exact ⟨fronts.length,fronts.each⟩
  | adapts _ here adapted =>
    obtain ⟨clients,front⟩ := fronts.each _ (List.mem_of_getElem? here)
    exact fronts.set rfl ⟨_,frontAdapts front adapted⟩

theorem closeGapCounts {thread : Nat} (fronts : s.Fronts) (taken : s.step objects (.closeGap thread) = some t) :
    t.Fronts ∧ t.dwEventCount thread + 1 = s.dwEventCount thread := by
  cases Pool.stepDoes taken with
  | @closes _ _ dwIndex p _ here _ closed =>
    obtain ⟨clients,front⟩ := fronts.each p (List.mem_of_getElem? here)
    have inside := closesInside front closed
    obtain ⟨info,same,front'⟩ := frontCloses front inside
    cases closed.symm.trans same
    refine ⟨fronts.set rfl ⟨_,front'⟩,?_⟩
    rw [countSet here rfl,Function.update_self,countHere here,front.dwEventCount,front'.dwEventCount,
      List.length_eraseIdx_of_lt inside]
    exact Nat.sub_add_cancel (Nat.lt_of_le_of_lt (Nat.zero_le _) inside)

theorem actedCounts {line : MonitorLine} {thread : Nat} (fronts : s.Fronts) (acted : Acted objects s t thread line) :
    t.Fronts ∧ (line.acts thread ≠ some (.closeGap thread) ∧ t.dwEventCount thread = s.dwEventCount thread ∨
      line.acts thread = some (.closeGap thread) ∧ t.dwEventCount thread + 1 = s.dwEventCount thread) := by
  cases acted with
  | nothing acts same =>
    subst same
    exact ⟨fronts,.inl ⟨(fun other => by cases acts.symm.trans other),rfl⟩⟩
  | reads taken =>
    cases Pool.stepDoes taken with
    | reads here =>
      refine ⟨fronts.set rfl (fronts.each _ (List.mem_of_getElem? here) :),.inl ⟨nofun,?_⟩⟩
      rw [countSet here rfl,Function.update_self,countHere here]
  | closes taken =>
    obtain ⟨fronts,count⟩ := closeGapCounts fronts taken
    exact ⟨fronts,.inr ⟨rfl,count⟩⟩

end Tables

section Steps
variable {objects : Nat → SockClient} {s t : Service} {i : Nat}

structure Calling (s t : Service) : Prop where
  placed : t.placed = s.placed
  monitor : t.server.monitor = s.server.monitor
  pool : t.server.pool = s.server.pool ∨ ∃ i, s.caller = .zeroCount i ∧ t.server.pool = s.server.pool.zeroCount i
  listen : t.listen = s.listen ∨ s.caller = .beginListen ∧ t.listen = .loop ∨ s.caller = .closeListen ∧ t.listen = .absent
  hThread : t.hThread = s.hThread ∨ ∃ i, s.caller = .beginMonitor i ∧ t.hThread = Function.update s.hThread i true
  ready : t.ready = s.ready ∨ ∃ i, s.caller = .resumeThread i ∧ t.ready = Function.update s.ready i true

theorem callerCalls {succeeds : Bool} (taken : s.callerStep succeeds = some t) : Calling s t := by
  unfold Service.callerStep at taken
  cases here : s.caller <;> simp only [here] at taken
  case createSocket | listenRun | allocParam | listenStop | haltThread | stopListen | closeServer | disConnect
      | loadClient =>
    cases taken
    exact ⟨rfl,rfl,.inl rfl,.inl rfl,.inl rfl,.inl rfl⟩
  case beginListen =>
    cases taken
    cases succeeds
    · exact ⟨rfl,rfl,.inl rfl,.inl rfl,.inl rfl,.inl rfl⟩
    · exact ⟨rfl,rfl,.inl rfl,.inr (.inl ⟨here,rfl⟩),.inl rfl,.inl rfl⟩
  case zeroCount =>
    cases taken
    exact ⟨rfl,rfl,.inr ⟨_,here,rfl⟩,.inl rfl,.inl rfl,.inl rfl⟩
  case beginMonitor =>
    cases taken
    cases succeeds
    · exact ⟨rfl,rfl,.inl rfl,.inl rfl,.inl rfl,.inl rfl⟩
    · exact ⟨rfl,rfl,.inl rfl,.inl rfl,.inr ⟨_,here,rfl⟩,.inl rfl⟩
  case freeParam =>
    cases taken
    split <;> exact ⟨rfl,rfl,.inl rfl,.inl rfl,.inl rfl,.inl rfl⟩
  case stopThread =>
    cases taken
    split
    · split <;> exact ⟨rfl,rfl,.inl rfl,.inl rfl,.inl rfl,.inl rfl⟩
    · exact ⟨rfl,rfl,.inl rfl,.inl rfl,.inl rfl,.inl rfl⟩
  case resumeThread =>
    cases taken
    exact ⟨rfl,rfl,.inl rfl,.inl rfl,.inl rfl,.inr ⟨_,here,rfl⟩⟩
  case closeListen =>
    cases taken
    exact ⟨rfl,rfl,.inl rfl,.inr (.inr ⟨here,rfl⟩),.inl rfl,.inl rfl⟩
  case waitHalted | waitThreads | waitListen =>
    split at taken <;> cases taken
    exact ⟨rfl,rfl,.inl rfl,.inl rfl,.inl rfl,.inl rfl⟩
  case started | stopped | faulted => cases taken

inductive Listens (objects : Nat → SockClient) (s : Service) : Service → Prop where
  | looks (here : s.listen = .loop) :
    Listens objects s {s with listen := if s.m_bListenThreadRun then .accept else .ended}
  | refuses (here : s.listen = .accept) : Listens objects s {s with listen := .loop}
  | accepts {pool : Pool} (here : s.listen = .accept) (listening : s.m_sServer = true)
    (taken : s.server.pool.step objects .accept = some pool) :
    Listens objects s {s with server := {s.server with pool}, listen := .adapt}
  | passes {pClient i : Nat} {pool : Pool} (here : s.listen = .adapt)
    (offered : s.server.pool.offered = some (pClient,i)) (taken : s.server.pool.step objects .adapt = some pool)
    (more : pool.offered ≠ none) : Listens objects s {s with server := {s.server with pool}, listen := .adapt}
  | places {pClient i : Nat} {pool : Pool} (here : s.listen = .adapt)
    (offered : s.server.pool.offered = some (pClient,i)) (taken : s.server.pool.step objects .adapt = some pool)
    (nobody : pool.offered = none) (inside : i < maxThread) :
    Listens objects s {s with
      server := {s.server with pool}
      listen := if pool.dwEventCount i = 1 then .resume i else .loop
      placed := Function.update s.placed i (s.placed i + 1)}
  | drops {pClient i : Nat} {pool : Pool} (here : s.listen = .adapt)
    (offered : s.server.pool.offered = some (pClient,i)) (taken : s.server.pool.step objects .adapt = some pool)
    (nobody : pool.offered = none) (beyond : maxThread ≤ i) :
    Listens objects s {s with server := {s.server with pool}, listen := .loop}
  | resumes {i : Nat} (here : s.listen = .resume i) :
    Listens objects s {s with ready := Function.update s.ready i (s.ready i || s.hThread i), listen := .loop}

theorem listenListens {connected : Bool} (taken : s.listenStep objects connected = some t) : Listens objects s t := by
  cases here : s.listen <;> simp only [Service.listenStep,here] at taken
  case absent | ended => cases taken
  case loop =>
    cases taken
    exact .looks here
  case accept =>
    split at taken
    · split at taken
      · obtain ⟨server,step,rfl⟩ := Option.map_eq_some_iff.mp taken
        obtain ⟨pool,moved,rfl⟩ := Option.map_eq_some_iff.mp step
        exact .accepts here ‹_› moved
      · cases taken
    · cases taken
      exact .refuses here
  case adapt =>
    simp only [bind,Option.bind_eq_some_iff] at taken
    obtain ⟨⟨pClient,i⟩,offered,server,step,taken⟩ := taken
    obtain ⟨pool,moved,rfl⟩ := Option.map_eq_some_iff.mp step
    dsimp only at taken
    split at taken
    · rename_i more
      cases taken
      exact .passes here offered moved (Option.ne_none_iff_isSome.mpr more)
    · rename_i nobody
      have nobody := Option.not_isSome_iff_eq_none.mp nobody
      split at taken <;> cases taken
      · exact .places here offered moved nobody ‹_›
      · exact .drops here offered moved nobody (Nat.not_lt.mp ‹_›)
  case resume =>
    cases taken
    exact .resumes here

structure Monitors (objects : Nat → SockClient) (s t : Service) (i : Nat) (answer : Answer) : Prop where
  hThread : s.hThread i = true
  ready : s.ready i = true
  bRun : ∀ bRun, answer = .run bRun → bRun = s.bRun i
  taken : s.server.step objects (.monitor i answer) = some t.server
  rest : t = {s with server := t.server, deleted := t.deleted}
  deleted : answer = .run false ∧ t.deleted = Function.update s.deleted i (s.deleted i + 1) ∨
    (∀ bRun, answer = .run bRun → bRun = true) ∧ t.deleted = s.deleted

theorem monitorMonitors {answer : Answer} (taken : s.monitorStep objects i answer = some t) :
    Monitors objects s t i answer := by
  unfold Service.monitorStep at taken
  split at taken
  · rename_i running
    split at taken
    · rename_i bRun
      split at taken
      · rename_i same
        obtain ⟨server,step,rfl⟩ := Option.map_eq_some_iff.mp taken
        have read : ∀ b, Answer.run bRun = .run b → b = s.bRun i := fun b equal => by
          cases equal
          exact same
        cases bRun with
        | true => exact ⟨running.1,running.2,read,step,rfl,.inr ⟨fun b equal => by cases equal; rfl,rfl⟩⟩
        | false => exact ⟨running.1,running.2,read,step,rfl,.inl ⟨rfl,rfl⟩⟩
      · cases taken
    · rename_i other
      obtain ⟨server,step,rfl⟩ := Option.map_eq_some_iff.mp taken
      exact ⟨running.1,running.2,fun b same => absurd same (other b),step,rfl,
        .inr ⟨fun b same => absurd same (other b),rfl⟩⟩
  · cases taken

theorem monitorActed {answer : Answer} (monitors : Monitors objects s t i answer) :
    Acted objects s.server.pool t.server.pool i (s.server.monitor i) ∧
      ∃ line, t.server.monitor = Function.update s.server.monitor i line ∧
        ∃ info : ThreadInfo, (s.server.monitor i).next info answer = some line ∧
          info.dwEventCount.toNat = s.server.pool.dwEventCount i := by
  cases stepped monitors.taken with
  | goes here next performed monitor => exact ⟨acted performed,_,monitor,_,next,(countHere here).symm⟩

end Steps

end JokeDse
