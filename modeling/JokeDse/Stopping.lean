import JokeDse.FailedStart
import JokeDse.Lib.Progress

/-! Stop comes to its end: ListenThread and every MonitorThread that it waits for leave their loops. -/
namespace JokeDse
open Runs

namespace MonitorLine

def Removing (count : Nat) (removing : Option (Uint × Nat)) : MonitorLine → Prop
  | .removing dwIndex _ _ => dwIndex.toNat < count ∧ ∃ pClient, removing = some (dwIndex,pClient)
  | _ => removing = none

theorem Removing.more {line : MonitorLine} {count more : Nat} {removing : Option (Uint × Nat)}
    (there : line.Removing count removing) (grown : count ≤ more) : line.Removing more removing := by
  cases line with
  | removing => exact ⟨Nat.lt_of_lt_of_le there.1 grown,there.2⟩
  | _ => exact there

theorem goesRemoving {info : ThreadInfo} {line line' : MonitorLine} {answer : Answer} {thread count : Nat}
    {removing : Option (Uint × Nat)} (goes : Goes info line answer line') (acts : line.acts thread = none)
    (there : line.Removing count removing) : line'.Removing count removing := by
  cases goes with
  | reads | removes => cases acts
  | fails after => rcases after with rfl | rfl <;> exact there
  | _ => exact there

def left (count : Nat) : MonitorLine → Nat
  | .ended => 0
  | .loop => 1
  | .waiting _ => 7 * count + 3
  | .woken _ => 7 * count + 2
  | .test dwIndex => 7 * (count - dwIndex.toNat) + 4
  | .again dwIndex => 7 * (count - dwIndex.toNat) + 3
  | .waitingMore dwIndex _ => 7 * (count - dwIndex.toNat) + 2
  | .processEvent dwIndex => 7 * (count - dwIndex.toNat) + 1
  | .dispatch dwIndex _ _ => 7 * (count - dwIndex.toNat)
  | .removeConnect dwIndex _ _ => 7 * (count - dwIndex.toNat) - 1
  | .removing dwIndex _ _ => 7 * (count - dwIndex.toNat) - 2

theorem leftMost (line : MonitorLine) {count : Nat} (few : count ≤ maxClients) : line.left count ≤ 452 := by
  have few : count ≤ 64 := few
  cases line <;> simp only [left] <;> omega

theorem leftMore (line : MonitorLine) (count : Nat) : line.left (count + 1) ≤ line.left count + 7 := by
  cases line <;> simp only [left] <;> omega

end MonitorLine

namespace Service

def waitsWell (s : Service) : ServiceStep → Bool
  | .monitor i (.waited dwRet _) =>
    match s.server.monitor i with
    | .waitingMore _ _ => dwRet != wsaWaitFailed
    | _ => true
  | _ => true

def calm (objects : Nat → SockClient) (s : Service) (a : ServiceStep) : Option Service :=
  if s.waitsWell a then s.step objects a else none

/-- No RemoveConnect empties the slot of pClientArray that Stop has tested and not read yet. -/
def spares (s : Service) : ServiceStep → Bool
  | .monitor i _ =>
    match s.caller, s.server.monitor i with
    | .loadClient j n, .removing _ _ _ => decide (j ≠ i ∨ n + 1 < s.count i)
    | _, _ => true
  | _ => true

def careful (objects : Nat → SockClient) (s : Service) (a : ServiceStep) : Option Service :=
  if s.spares a then s.calm objects a else none

structure Holds (s : Service) : Prop where
  whole : s.caller ≠ .faulted
  tested : ∀ i n, s.caller = .loadClient i n → n < s.count i

structure Lined (s : Service) : Prop where
  fronts : s.server.pool.Fronts
  within : ∀ i, (s.server.monitor i).Within (s.count i)
  removing : ∀ i, (s.server.monitor i).Removing (s.count i) (s.server.pool.removing i)
  offered : s.server.pool.offered ≠ none ↔ s.listen = .adapt
  unbegun : ∀ i, s.hThread i = false → s.server.monitor i = .loop
  absent : s.caller = .createSocket ∨ s.caller = .listenRun ∨ s.caller = .beginListen → s.listen = .absent
  closing : s.caller = .closeListen → s.listen = .ended

end Service

section Lines
variable {objects : Nat → SockClient} {s t : Service} {a : ServiceStep} {i : Nat}

theorem calmTaken (taken : s.calm objects a = some t) : s.waitsWell a = true ∧ s.step objects a = some t := by
  unfold Service.calm at taken
  split at taken
  · exact ⟨‹_›,taken⟩
  · cases taken

theorem startLined : Service.start.Lined where
  fronts := startFronts
  within _ := True.intro
  removing i := by
    show Pool.start.removing i = none
    rw [Pool.removing,Pool.start,List.getElem?_replicate]
    split <;> rfl
  offered := ⟨fun some => absurd rfl some,nofun⟩
  unbegun _ _ := rfl
  absent _ := rfl
  closing := nofun

theorem callerEdges {succeeds : Bool} (taken : s.callerStep succeeds = some t) :
    (t.caller = .createSocket ∨ t.caller = .listenRun ∨ t.caller = .beginListen →
      (s.caller = .createSocket ∨ s.caller = .listenRun ∨ s.caller = .beginListen) ∧ t.listen = s.listen) ∧
      (t.caller = .closeListen → t.listen = .ended) := by
  unfold Service.callerStep at taken
  cases here : s.caller <;> simp only [here] at taken
  case createSocket | beginListen | beginMonitor =>
    cases taken
    cases succeeds
    · exact ⟨fun edge => by simp at edge,nofun⟩
    · simp only [if_true]
      try split
      all_goals exact ⟨fun edge => by simp at edge ⊢,nofun⟩
  case waitHalted | waitThreads =>
    split at taken <;> cases taken
    exact ⟨fun edge => by simp at edge,nofun⟩
  case waitListen =>
    split at taken <;> cases taken
    exact ⟨fun edge => by simp at edge,fun _ => ‹_›⟩
  case haltThread | freeParam | disConnect | loadClient =>
    cases taken
    dsimp only
    split <;> exact ⟨fun edge => by simp at edge,nofun⟩
  case stopThread =>
    cases taken
    split
    · split <;> exact ⟨fun edge => by simp at edge,nofun⟩
    · exact ⟨fun edge => by simp at edge,nofun⟩
  case started | stopped | faulted => cases taken
  all_goals
    cases taken
    exact ⟨fun edge => by simp at edge ⊢,nofun⟩

theorem zeroRemoving (s : Pool) (i : Nat) : (s.zeroCount i).removing = s.removing := by
  funext j
  rw [Pool.removing,Pool.removing,Pool.zeroCount,List.getElem?_modify]
  cases s.m_pThreadPool[j]? with
  | none => rfl
  | some p =>
    by_cases same : i = j <;> simp [same]

theorem callerLined {succeeds : Bool} (taken : s.callerStep succeeds = some t)
    (begins : s.caller.stops = false → s.Begins) (lined : s.Lined) : t.Lined := by
  have calls := callerCalls taken
  obtain ⟨before,behind⟩ := callerEdges taken
  have pool : t.server.pool.Fronts ∧ t.server.pool.removing = s.server.pool.removing ∧
      t.server.pool.offered = s.server.pool.offered ∧
      ∀ i, t.count i = s.count i ∨ s.server.monitor i = .loop := by
    rcases calls.pool with same | ⟨i,here,zero⟩
    · rw [same]
      exact ⟨lined.fronts,rfl,rfl,fun i => .inl (congrArg (fun pool => pool.dwEventCount i) same)⟩
    · rw [zero]
      refine ⟨zeroFronts lined.fronts i,zeroRemoving _ i,rfl,fun j => ?_⟩
      unfold Service.count
      rw [zero,zeroCounts,Function.update_apply]
      split
      · rename_i same
        have begun := ((begins (by rw [here]; rfl)).begun i (by rw [here]; rfl)).2 i
        exact .inr (same ▸ lined.unbegun i (Bool.eq_false_iff.mpr fun already => Nat.lt_irrefl i (begun.mp already)))
      · exact .inl rfl
  obtain ⟨fronts,removing,offered,counts⟩ := pool
  constructor
  · exact fronts
  · intro i
    rw [calls.monitor]
    rcases counts i with same | line
    · exact same ▸ lined.within i
    · rw [line]
      exact True.intro
  · intro i
    rw [calls.monitor,removing]
    have there := lined.removing i
    rcases counts i with same | line
    · exact same ▸ there
    · rw [line] at there ⊢
      exact there
  · rw [offered]
    rcases calls.listen with same | ⟨here,began⟩ | ⟨here,gone⟩
    · exact same ▸ lined.offered
    · rw [began]
      have absent := lined.absent (.inr (.inr here))
      have nobody := lined.offered
      rw [absent] at nobody
      exact ⟨(fun some => by cases nobody.mp some),nofun⟩
    · rw [gone]
      have ended := lined.closing here
      have nobody := lined.offered
      rw [ended] at nobody
      exact ⟨(fun some => by cases nobody.mp some),nofun⟩
  · intro i none
    rw [calls.monitor]
    refine lined.unbegun i ?_
    rcases calls.hThread with same | ⟨j,-,same⟩
    · exact same ▸ none
    · rw [same,Function.update_apply] at none
      split at none
      · cases none
      · exact none
  · intro edge
    obtain ⟨edge,same⟩ := before edge
    rw [same]
    exact lined.absent edge
  · exact behind

theorem adaptRemoving {u v : Pool} (taken : u.step objects .adapt = some v) : v.removing = u.removing := by
  cases Pool.stepDoes taken with
  | drops => rfl
  | adapts offered here =>
    rw [Pool.removingSet here rfl]
    funext j
    rw [Function.update_apply]
    split
    · rename_i same
      rw [same,Pool.removingHere here]
    · rfl

theorem listensRunning (listens : Listens objects s t) : s.listen ≠ .absent ∧ s.listen ≠ .ended := by
  cases listens with
  | looks here | refuses here | accepts here | passes here | places here | drops here | resumes here =>
    rw [here]
    exact ⟨nofun,nofun⟩

theorem listenLined (listens : Listens objects s t) (lined : s.Lined) : t.Lined := by
  have kept := listensKeeps listens
  have edges := listensRunning listens
  have absent : t.caller = .createSocket ∨ t.caller = .listenRun ∨ t.caller = .beginListen → t.listen = .absent :=
    fun edge => absurd (lined.absent (kept.1 ▸ edge)) edges.1
  have closing : t.caller = .closeListen → t.listen = .ended :=
    fun edge => absurd (lined.closing (kept.1 ▸ edge)) edges.2
  have unbegun : ∀ i, t.hThread i = false → t.server.monitor i = .loop := by
    rw [kept.2.1,kept.2.2]
    exact lined.unbegun
  cases listens with
  | looks here =>
    have nobody := lined.offered
    rw [here] at nobody
    refine ⟨lined.fronts,lined.within,lined.removing,⟨(fun some => by cases nobody.mp some),fun adapt => ?_⟩,unbegun,
      absent,closing⟩
    dsimp only at adapt
    split at adapt <;> cases adapt
  | refuses here | resumes here =>
    have nobody := lined.offered
    rw [here] at nobody
    exact ⟨lined.fronts,lined.within,lined.removing,⟨(fun some => by cases nobody.mp some),nofun⟩,unbegun,absent,closing⟩
  | accepts here listening taken =>
    cases Pool.stepDoes taken
    exact ⟨⟨lined.fronts.length,lined.fronts.each⟩,lined.within,lined.removing,⟨fun _ => rfl,fun _ => nofun⟩,unbegun,
      absent,closing⟩
  | passes here offered taken more =>
    refine ⟨adaptFronts lined.fronts taken,fun i => (lined.within i).more (stepCounts taken nofun),fun i => ?_,
      ⟨fun _ => rfl,fun _ => more⟩,unbegun,absent,closing⟩
    rw [adaptRemoving taken]
    exact (lined.removing i).more (stepCounts taken nofun)
  | places here offered taken nobody inside =>
    refine ⟨adaptFronts lined.fronts taken,fun i => (lined.within i).more (stepCounts taken nofun),fun i => ?_,
      ⟨fun some => absurd nobody some,fun adapt => ?_⟩,unbegun,absent,closing⟩
    · rw [adaptRemoving taken]
      exact (lined.removing i).more (stepCounts taken nofun)
    · dsimp only at adapt
      split at adapt <;> cases adapt
  | drops here offered taken nobody beyond =>
    refine ⟨adaptFronts lined.fronts taken,fun i => (lined.within i).more (stepCounts taken nofun),fun i => ?_,
      ⟨fun some => absurd nobody some,nofun⟩,unbegun,absent,closing⟩
    rw [adaptRemoving taken]
    exact (lined.removing i).more (stepCounts taken nofun)

theorem actedRemoving {u v : Pool} {line line' : MonitorLine} {info : ThreadInfo} {answer : Answer} {thread : Nat}
    (acted : Acted objects u v thread line) (goes : Goes info line answer line')
    (within : line.Within (u.dwEventCount thread))
    (there : line.Removing (u.dwEventCount thread) (u.removing thread)) :
    line'.Removing (v.dwEventCount thread) (v.removing thread) := by
  cases acted with
  | nothing acts same =>
    subst same
    exact MonitorLine.goesRemoving goes acts there
  | reads taken =>
    cases goes
    cases Pool.stepDoes taken with
    | @reads _ pClient _ p here =>
      rw [Pool.removingSet here rfl,countSet here rfl,Function.update_self,Function.update_self]
      exact ⟨countHere here ▸ within,pClient,rfl⟩
  | closes taken =>
    cases goes
    cases Pool.stepDoes taken with
    | closes here =>
      rw [Pool.removingSet here rfl,Function.update_self]
      rfl

theorem monitorLined {answer : Answer} (monitors : Monitors objects s t i answer)
    (well : s.waitsWell (.monitor i answer) = true) (lined : s.Lined) : t.Lined := by
  obtain ⟨acted,line,monitor,info,next,-⟩ := monitorActed monitors
  have rest := monitors.rest
  have aside := actedAside acted
  have caller : t.caller = s.caller := by rw [rest]
  have listen : t.listen = s.listen := by rw [rest]
  have checked : s.server.waitChecked (.monitor i answer) = true := by
    cases answer with
    | waited dwRet dwError =>
      simp only [SocketServer.waitChecked,Service.waitsWell] at well ⊢
      split
      · rename_i dwIndex cEvents here
        rw [here] at well
        simp only [bne_iff_ne] at well
        simp [well]
      · rfl
    | _ => rfl
  have elsewhere : ∀ j, j ≠ i → t.count j = s.count j ∧ t.server.pool.removing j = s.server.pool.removing j :=
    fun j other => by
      have same := aside.elsewhere j other
      rw [Pool.removing,Pool.removing,same]
      exact ⟨(samePool same).1,rfl⟩
  constructor
  · exact (actedCounts lined.fronts acted).1
  · exact stepWithin monitors.taken checked lined.within
  · intro j
    rw [monitor]
    rcases eq_or_ne j i with rfl | other
    · rw [Function.update_self]
      exact actedRemoving acted (goes next) (lined.within j) (lined.removing j)
    · rw [Function.update_of_ne other,(elsewhere j other).1,(elsewhere j other).2]
      exact lined.removing j
  · rw [aside.offered,listen]
    exact lined.offered
  · rw [rest]
    intro j none
    dsimp only at none ⊢
    have other : j ≠ i := fun same => by
      rw [same,monitors.hThread] at none
      cases none
    rw [monitor,Function.update_of_ne other]
    exact lined.unbegun j none
  · rw [caller,listen]
    exact lined.absent
  · rw [caller,listen]
    exact lined.closing

theorem stepLined (taken : s.calm objects a = some t) (kept : (s.caller.stops = false → s.Begins) ∧ s.Lined) :
    (t.caller.stops = false → t.Begins) ∧ t.Lined := by
  obtain ⟨well,taken⟩ := calmTaken taken
  refine ⟨stepBegins taken kept.1,?_⟩
  cases a with
  | caller succeeds => exact callerLined taken kept.1 kept.2
  | stop =>
    have lined := kept.2
    simp only [Service.step] at taken
    split at taken <;> cases taken
    refine ⟨lined.fronts,lined.within,lined.removing,lined.offered,lined.unbegun,fun edge => ?_,fun edge => ?_⟩
    · dsimp only at edge
      split at edge <;> simp at edge
    · dsimp only at edge
      split at edge <;> cases edge
  | listen connected => exact listenLined (listenListens taken) kept.2
  | monitor i answer => exact monitorLined (monitorMonitors taken) well kept.2

theorem runLined {acts : List ServiceStep} (run : follow (Service.calm objects) acts Service.start = some s) : s.Lined :=
  (followKeeps (I := fun s : Service => (s.caller.stops = false → s.Begins) ∧ s.Lined) stepLined run
    ⟨fun _ => startBegins,startLined⟩).2

theorem countFew {u : Pool} (fronts : u.Fronts) (i : Nat) : u.dwEventCount i ≤ maxClients := by
  cases here : u.m_pThreadPool[i]? with
  | none =>
    rw [Pool.dwEventCount,here]
    exact Nat.zero_le _
  | some p =>
    obtain ⟨clients,front⟩ := fronts.each p (List.mem_of_getElem? here)
    rw [countHere here,front.dwEventCount]
    exact front.few

theorem leftFalls {u v : Pool} {line line' : MonitorLine} {info : ThreadInfo} {answer : Answer} {thread : Nat}
    (acted : Acted objects u v thread line) (next : line.next info answer = some line')
    (count : info.dwEventCount.toNat = u.dwEventCount thread) (fronts : u.Fronts)
    (within : line.Within (u.dwEventCount thread))
    (there : line.Removing (u.dwEventCount thread) (u.removing thread)) (stopped : answer ≠ .run true)
    (well : ∀ dwIndex cEvents dwError, line = .waitingMore dwIndex cEvents → answer ≠ .waited wsaWaitFailed dwError) :
    line'.left (v.dwEventCount thread) + 1 ≤ line.left (u.dwEventCount thread) := by
  have few : u.dwEventCount thread ≤ 64 := countFew fronts thread
  have counts := (actedCounts fronts acted).2
  rw [← count] at few counts within there ⊢
  generalize info.dwEventCount.toNat = n at few counts within there ⊢
  generalize v.dwEventCount thread = m at counts ⊢
  have one : (1 : Uint).toNat = 1 := rfl
  have later : ∀ dwIndex : Uint, dwIndex.toNat < n → (dwIndex + 1).toNat = dwIndex.toNat + 1 := fun dwIndex inside => by
    rw [BitVec.toNat_add,one]
    omega
  have same : line.acts thread ≠ some (.closeGap thread) → m = n := fun other => by
    rcases counts with ⟨-,same⟩ | ⟨acts,-⟩
    · exact same
    · exact absurd acts other
  cases goes next with
  | runs => exact absurd rfl stopped
  | failsMore => exact absurd rfl (well _ _ _ rfl)
  | stops => exact Nat.le_refl 1
  | fails after =>
    rcases after with rfl | rfl
    · exact Nat.le_add_left 1 _
    · simp only [MonitorLine.left]
      omega
  | @removes dwIndex next' pClient inside' =>
    have inside := there.1
    have behind : dwIndex.toNat ≤ next'.toNat := by
      simp only [MonitorLine.next,Option.some.injEq,MonitorLine.test.injEq] at next
      rw [← next]
      split
      · rw [later dwIndex inside]
        exact Nat.le_succ _
      · exact Nat.le_refl _
    rcases counts with ⟨acts,-⟩ | ⟨-,fewer⟩
    · exact absurd rfl acts
    · simp only [MonitorLine.left]
      omega
  | calls | fetches | refuses | closes | reads | waitsMore =>
    simp only [MonitorLine.Within] at within
    simp only [same (fun other => by cases other),MonitorLine.left]
    omega
  | returns | nothing =>
    simp only [MonitorLine.Within] at within
    simp only [same (fun other => by cases other),MonitorLine.left,later _ within]
    omega
  | @wakesMore dwIndex cEvents dwRet _ inside =>
    simp only [MonitorLine.Within] at within
    have sum : (dwIndex + dwRet).toNat = dwIndex.toNat + dwRet.toNat := by
      rw [BitVec.toNat_add]
      omega
    simp only [same (fun other => by cases other),MonitorLine.left,sum]
    omega
  | passes | nobody | wakes | more | through | passesMore =>
    simp only [same (fun other => by cases other),MonitorLine.left]
    omega

theorem frontClient {info : ThreadInfo} {clients : List Nat} {dwIndex : Uint} (front : info.Front clients)
    (inside : dwIndex.toNat < info.dwEventCount.toNat) : ∃ pClient, info.client dwIndex = some pClient := by
  rw [front.dwEventCount] at inside
  obtain ⟨rest,same⟩ := front.clients
  refine ⟨clients[dwIndex.toNat],?_⟩
  rw [ThreadInfo.client,← same,List.getElem?_append_left (by rwa [List.length_map]),List.getElem?_map,
    List.getElem?_eq_getElem inside]
  rfl

theorem lineGoes {u : Pool} {p : PoolThread} {line : MonitorLine} {clients : List Nat}
    (here : u.m_pThreadPool[i]? = some p) (front : p.info.Front clients) (within : line.Within p.info.dwEventCount.toNat)
    (there : line.Removing p.info.dwEventCount.toNat p.removing) (running : line ≠ .ended) (bRun : Bool) :
    ∃ answer line', line.next p.info answer = some line' ∧ (∃ v, u.perform objects (line.acts i) = some v) ∧
      (∀ b, answer = .run b → b = bRun) ∧ ∀ dwError, answer ≠ .waited wsaWaitFailed dwError := by
  cases line with
  | loop => exact ⟨.run bRun,_,rfl,⟨u,rfl⟩,fun b same => (Answer.run.inj same).symm,nofun⟩
  | waiting cEvents =>
    exact ⟨.waited wsaWaitTimeout 0,.loop,rfl,⟨u,rfl⟩,nofun,fun _ => by simp [wsaWaitTimeout,wsaWaitFailed]⟩
  | waitingMore dwIndex cEvents =>
    exact ⟨.waited wsaWaitTimeout 0,.loop,rfl,⟨u,rfl⟩,nofun,fun _ => by simp [wsaWaitTimeout,wsaWaitFailed]⟩
  | woken | again | test => exact ⟨.go,_,rfl,⟨u,rfl⟩,nofun,nofun⟩
  | processEvent dwIndex =>
    obtain ⟨pClient,client⟩ := frontClient front within
    exact ⟨.fetched 0,_,by rw [MonitorLine.next,client]; rfl,⟨u,rfl⟩,(by simp),(by simp)⟩
  | dispatch dwIndex pClient lNetworkEvents =>
    cases called : callback lNetworkEvents with
    | none => exact ⟨.go,_,by simp only [MonitorLine.next,called]; rfl,⟨u,rfl⟩,(by simp),(by simp)⟩
    | some c => exact ⟨.returned 0,_,by simp only [MonitorLine.next,called]; rfl,⟨u,rfl⟩,(by simp),(by simp)⟩
  | removeConnect dwIndex pClient inside =>
    obtain ⟨pClient,client⟩ := frontClient front within
    have free : p.removing = none := there
    have below : dwIndex.toNat < p.info.dwEventCount.toNat := within
    refine ⟨.go,_,rfl,⟨{u with m_pThreadPool := u.m_pThreadPool.set i {p with removing := some (dwIndex,pClient)}},?_⟩,
      (by simp),(by simp)⟩
    simp only [Pool.perform,MonitorLine.acts,Pool.step,here,free,client,below,bind,Option.bind_some,Option.isNone_none,
      and_self,if_true]
  | removing dwIndex pClient inside =>
    obtain ⟨below,pClient,removing⟩ := there
    rw [front.dwEventCount] at below
    obtain ⟨info,closed,-⟩ := frontCloses front below
    refine ⟨.go,_,rfl,⟨{u with m_pThreadPool := u.m_pThreadPool.set i ⟨info,none⟩},?_⟩,(by simp),(by simp)⟩
    simp only [Pool.perform,MonitorLine.acts,Pool.step,here,removing,closed,bind,Option.bind_some]
  | ended => exact absurd rfl running

theorem monitorTaken {answer : Answer} {server : SocketServer} (begun : s.hThread i = true) (ready : s.ready i = true)
    (read : ∀ b, answer = .run b → b = s.bRun i) (moved : s.server.step objects (.monitor i answer) = some server) :
    ∃ t, s.monitorStep objects i answer = some t := by
  unfold Service.monitorStep
  rw [if_pos ⟨begun,ready⟩]
  cases answer with
  | run bRun =>
    have same := read bRun rfl
    simp only [if_pos same,moved]
    exact ⟨_,rfl⟩
  | _ =>
    simp only [moved]
    exact ⟨_,rfl⟩

theorem monitorGoes (lined : s.Lined) (begun : s.hThread i = true) (ready : s.ready i = true) (inside : i < maxThread)
    (running : s.server.monitor i ≠ .ended) : ∃ answer t, s.calm objects (.monitor i answer) = some t := by
  have there : i < s.server.pool.m_pThreadPool.length := by
    rw [lined.fronts.length]
    exact inside
  have here := List.getElem?_eq_getElem there
  obtain ⟨clients,front⟩ := lined.fronts.each _ (List.mem_of_getElem? here)
  have within := lined.within i
  have removing := lined.removing i
  rw [Service.count,countHere here] at within removing
  rw [Pool.removingHere here] at removing
  obtain ⟨answer,line,next,⟨v,performed⟩,read,well⟩ :=
    @lineGoes objects _ _ _ _ _ here front within removing running (s.bRun i)
  have calm : s.waitsWell (.monitor i answer) = true := by
    cases answer with
    | waited dwRet dwError =>
      simp only [Service.waitsWell]
      split
      · exact bne_iff_ne.mpr fun failed => well dwError (by rw [failed])
      · rfl
    | _ => rfl
  have moved : ∃ server, s.server.step objects (.monitor i answer) = some server :=
    ⟨_,by simp only [SocketServer.step,here,next,performed,bind,Option.bind_some]; rfl⟩
  obtain ⟨server,moved⟩ := moved
  obtain ⟨t,taken⟩ := monitorTaken begun ready read moved
  exact ⟨answer,t,(if_pos calm).trans taken⟩

end Lines

namespace Service

structure Rises (s : Service) : Prop where
  bRun : ∀ n, s.caller.begun = some n → ∀ i, i < n → s.bRun i = true
  current : ∀ i, s.caller = .zeroCount i ∨ s.caller = .beginMonitor i → s.bRun i = true
  all : s.caller = .started true → ∀ i, i < maxThread → s.hThread i = true ∧ s.bRun i = true
  listen : (∃ i, s.caller = .allocParam i ∨ s.caller = .zeroCount i ∨ s.caller = .beginMonitor i) ∨
    s.caller = .started true → s.listen ≠ .absent

end Service

section Rise
variable {objects : Nat → SockClient} {s t : Service} {a : ServiceStep}

theorem startRises : Service.start.Rises where
  bRun n same i below := by
    cases same
    exact absurd below (Nat.not_lt_zero i)
  current _ here := by simp [Service.start] at here
  all := nofun
  listen here := by simp [Service.start] at here

theorem risesApart {caller : CallerLine} (same : t.caller = caller) (begun : caller.begun = none)
    (unstarted : caller ≠ .started true) : t.Rises where
  bRun n some := by
    rw [same,begun] at some
    cases some
  current i here := by
    rw [same] at here
    rcases here with rfl | rfl <;> cases begun
  all here := absurd (same.symm.trans here) unstarted
  listen here := by
    rw [same] at here
    rcases here with ⟨i,rfl | rfl | rfl⟩ | here
    · cases begun
    · cases begun
    · cases begun
    · exact absurd here unstarted

theorem callerRises {succeeds : Bool} (taken : s.callerStep succeeds = some t) (running : s.caller.stops = false)
    (begins : s.Begins) (rises : s.Rises) : t.Rises := by
  unfold Service.callerStep at taken
  cases here : s.caller <;> simp only [here] at taken
  case createSocket =>
    cases taken
    cases succeeds
    · exact risesApart rfl rfl nofun
    · refine ⟨fun n same i below => ?_,fun i here => by simp at here,nofun,fun here => by simp at here⟩
      cases same
      exact absurd below (Nat.not_lt_zero i)
  case listenRun =>
    cases taken
    refine ⟨fun n same i below => ?_,fun i here => by simp at here,nofun,fun here => by simp at here⟩
    cases same
    exact absurd below (Nat.not_lt_zero i)
  case beginListen =>
    cases taken
    cases succeeds
    · exact risesApart rfl rfl nofun
    · refine ⟨fun n same i below => ?_,fun i here => by simp at here,nofun,fun _ => nofun⟩
      cases same
      exact absurd below (Nat.not_lt_zero i)
  case allocParam i =>
    have before := rises.bRun i (by rw [here]; rfl)
    cases taken
    refine ⟨fun n same j below => ?_,fun j same => ?_,nofun,fun _ => rises.listen (.inl ⟨i,.inl here⟩)⟩
    · cases same
      dsimp only
      rw [Function.update_of_ne (Nat.ne_of_lt below)]
      exact before j below
    · rcases same with same | same <;> cases same
      exact Function.update_self ..
  case zeroCount i =>
    have before := rises.bRun i (by rw [here]; rfl)
    have current := rises.current i (.inl here)
    cases taken
    refine ⟨fun n same => ?_,fun j same => ?_,nofun,fun _ => rises.listen (.inl ⟨i,.inr (.inl here)⟩)⟩
    · cases same
      exact before
    · rcases same with same | same <;> cases same
      exact current
  case beginMonitor i =>
    have before := rises.bRun i (by rw [here]; rfl)
    have current := rises.current i (.inr here)
    have all : ∀ j, j < i + 1 → s.bRun j = true := fun j below => by
      rcases Nat.lt_or_eq_of_le (Nat.le_of_lt_succ below) with earlier | rfl
      · exact before j earlier
      · exact current
    have begun := (begins.begun i (by rw [here]; rfl)).2
    have listen := rises.listen (.inl ⟨i,.inr (.inr here)⟩)
    cases taken
    cases succeeds
    · exact risesApart rfl rfl nofun
    · refine ⟨fun n same => ?_,fun j same => ?_,fun same j inside => ?_,fun _ => listen⟩
      · simp only [if_true] at same
        split at same <;> cases same
        exact all
      · simp only [if_true] at same
        split at same <;> rcases same with same | same <;> cases same
      · simp only [if_true] at same
        split at same
        · cases same
        · refine ⟨?_,all j (by omega)⟩
          simp only [if_true,Function.update_apply]
          split
          · rfl
          · exact (begun j).mpr (by omega)
  case listenStop =>
    cases taken
    exact risesApart rfl rfl nofun
  case haltThread | freeParam =>
    cases taken
    refine risesApart rfl ?_ ?_ <;> dsimp only <;> split
    · rfl
    · rfl
    · exact nofun
    · exact nofun
  case waitHalted =>
    split at taken <;> cases taken
    exact risesApart rfl rfl nofun
  case started => cases taken
  all_goals
    rw [here] at running
    cases running

theorem stepRises (taken : s.step objects a = some t) (kept : s.caller.stops = false → s.Begins ∧ s.Rises)
    (running : t.caller.stops = false) : t.Begins ∧ t.Rises := by
  obtain ⟨unstopped,before⟩ := stepStops taken running
  obtain ⟨begins,rises⟩ := kept before
  refine ⟨stepBegins taken (fun _ => begins) running,?_⟩
  cases a with
  | caller succeeds => exact callerRises taken before begins rises
  | stop => exact absurd rfl unstopped
  | listen connected =>
    have listens := listenListens taken
    have kept := listensKeeps listens
    have bRun : t.bRun = s.bRun := by cases listens <;> rfl
    have listen : t.listen ≠ .absent := by
      cases listens <;> dsimp only <;> try split
      all_goals exact nofun
    refine ⟨?_,?_,?_,fun _ => listen⟩ <;> rw [kept.1,bRun]
    · exact rises.bRun
    · exact rises.current
    · rw [kept.2.1]
      exact rises.all
  | monitor i answer =>
    have rest := (monitorMonitors taken).rest
    rw [rest]
    exact ⟨rises.bRun,rises.current,rises.all,rises.listen⟩

theorem runRises {acts : List ServiceStep} (run : follow (Service.step objects) acts Service.start = some s)
    (running : s.caller.stops = false) : s.Rises :=
  (followKeeps (I := fun s : Service => s.caller.stops = false → s.Begins ∧ s.Rises) stepRises run
    (fun _ => ⟨startBegins,startRises⟩) running).2

end Rise

namespace CallerLine

def halted : CallerLine → Nat
  | .stopThread i => i
  | .disConnect i _ | .loadClient i _ | .resumeThread i => i + 1
  | .waitThreads | .waitListen | .closeListen | .stopped => maxThread
  | _ => 0

def resumed : CallerLine → Nat
  | .stopThread i | .disConnect i _ | .loadClient i _ | .resumeThread i => i
  | .waitThreads | .waitListen | .closeListen | .stopped => maxThread
  | _ => 0

/-- A bound on the statements of Stop that are left. A thread of the pool costs 132, of which 128 are for its clients. -/
def ahead : CallerLine → Nat
  | .stopListen => 132 * maxThread + 6
  | .closeServer => 132 * maxThread + 5
  | .stopThread i => 132 * (maxThread - i) + 4
  | .disConnect i n => 132 * (maxThread - (i + 1)) + 6 + 2 * (maxClients - n)
  | .loadClient i n => 132 * (maxThread - (i + 1)) + 5 + 2 * (maxClients - n)
  | .resumeThread i => 132 * (maxThread - (i + 1)) + 5
  | .waitThreads => 3
  | .waitListen => 2
  | .closeListen => 1
  | _ => 0

end CallerLine

namespace Service

structure Closing (s : Service) : Prop where
  stops : s.caller.stops = true
  hThread : ∀ i, s.hThread i = true ↔ i < maxThread
  flag : s.m_bListenThreadRun = true → s.caller = .stopListen
  untold : s.caller = .stopListen → ∀ i, i < maxThread → s.bRun i = true
  halted : ∀ i, i < s.caller.halted → s.bRun i = false
  resumed : ∀ i, i < s.caller.resumed → s.ready i = true
  listen : s.listen = .absent ↔ s.caller = .stopped
  ended : s.caller = .waitListen ∨ s.caller = .closeListen ∨ s.caller = .stopped →
    ∀ i, i < maxThread → s.server.monitor i = .ended

def listenAhead (s : Service) : Nat :=
  if s.m_bListenThreadRun then 75
  else match s.listen with
    | .absent | .ended => 0
    | .loop => 1
    | .resume _ => 2
    | .adapt => 10 + (maxThread - (s.server.pool.offered.map Prod.snd).getD 0)
    | .accept => 75

def threadAhead (s : Service) (i : Nat) : Nat := if s.bRun i then 452 else (s.server.monitor i).left (s.count i)

def ahead (s : Service) : Nat := s.caller.ahead + s.listenAhead + ∑ i ∈ Finset.range maxThread, s.threadAhead i

def lingers (s : Service) : ServiceStep → Bool
  | .listen _ => s.m_bListenThreadRun
  | .monitor i _ => s.bRun i
  | _ => false

end Service

section Closing
variable {objects : Nat → SockClient} {s t : Service} {a : ServiceStep} {i : Nat}

theorem sumMoves {f g : Nat → Nat} {n i c d : Nat} (inside : i < n) (others : ∀ j, j ≠ i → g j ≤ f j)
    (here : g i + c ≤ f i + d) : ∑ j ∈ Finset.range n, g j + c ≤ ∑ j ∈ Finset.range n, f j + d := by
  have member := Finset.mem_range.mpr inside
  have rest : ∑ j ∈ (Finset.range n).erase i, g j ≤ ∑ j ∈ (Finset.range n).erase i, f j :=
    Finset.sum_le_sum fun j other => others j (Finset.ne_of_mem_erase other)
  rw [← Finset.add_sum_erase _ _ member,← Finset.add_sum_erase _ f member]
  omega

theorem listenMost (s : Service) : s.listenAhead ≤ 75 := by
  have most : maxThread = 64 := rfl
  unfold Service.listenAhead
  split
  · exact Nat.le_refl 75
  · split <;> omega

theorem Service.Closing.next (closing : s.Closing) {caller : CallerLine} (t' : t = {s with
      caller := caller, m_bListenThreadRun := t.m_bListenThreadRun, m_sServer := t.m_sServer, bRun := t.bRun
      ready := t.ready}) (here : s.caller ≠ .stopped) (stops : caller.stops = true)
    (within : caller ≠ .stopListen ∧ caller ≠ .stopped) (flag : t.m_bListenThreadRun = false)
    (halted : ∀ i, i < caller.halted → t.bRun i = false) (resumed : ∀ i, i < caller.resumed → t.ready i = true)
    (ended : caller = .waitListen ∨ caller = .closeListen → ∀ i, i < maxThread → s.server.monitor i = .ended) :
    t.Closing := by
  have same : t.caller = caller := by rw [t']
  have hThread : t.hThread = s.hThread := by rw [t']
  have listen : t.listen = s.listen := by rw [t']
  have server : t.server = s.server := by rw [t']
  constructor
  · exact same ▸ stops
  · exact hThread ▸ closing.hThread
  · exact fun run => by cases flag.symm.trans run
  · exact fun first => absurd (same.symm.trans first) within.1
  · exact same ▸ halted
  · exact same ▸ resumed
  · rw [listen,closing.listen,same]
    exact ⟨fun past => absurd past here,fun past => absurd past within.2⟩
  · rw [same,server]
    intro late
    refine ended (late.imp_right fun late => late.resolve_right within.2)

theorem callerClosing {succeeds : Bool} (taken : s.callerStep succeeds = some t) (closing : s.Closing) :
    t.Closing := by
  have stops := closing.stops
  have quiet : s.caller ≠ .stopListen → s.m_bListenThreadRun = false := fun other =>
    Bool.eq_false_iff.mpr fun run => other (closing.flag run)
  unfold Service.callerStep at taken
  cases here : s.caller <;> simp only [here] at taken
  case stopListen =>
    cases taken
    exact closing.next rfl (by rw [here]; exact nofun) rfl ⟨nofun,nofun⟩ rfl nofun nofun (by simp)
  case closeServer =>
    cases taken
    exact closing.next rfl (by rw [here]; exact nofun) rfl ⟨nofun,nofun⟩ (quiet (by rw [here]; exact nofun)) nofun nofun
      (by simp)
  case stopThread i =>
    have flag := quiet (by rw [here]; exact nofun)
    have halted := closing.halted
    have resumed := closing.resumed
    have running : s.caller ≠ .stopped := by rw [here]; exact nofun
    rw [here] at halted resumed
    cases taken
    split
    · rename_i inside
      rw [if_pos ((closing.hThread i).mpr inside)]
      refine closing.next rfl running rfl ⟨nofun,nofun⟩ flag (fun j below => ?_) resumed (by simp)
      dsimp only
      rw [Function.update_apply]
      split
      · rfl
      · exact halted j (Nat.lt_of_le_of_ne (Nat.le_of_lt_succ below) ‹_›)
    · rename_i outside
      have all : maxThread ≤ i := Nat.not_lt.mp outside
      exact closing.next rfl running rfl ⟨nofun,nofun⟩ flag (fun j below => halted j (Nat.lt_of_lt_of_le below all))
        (fun j below => resumed j (Nat.lt_of_lt_of_le below all)) (by simp)
  case disConnect i n =>
    have flag := quiet (by rw [here]; exact nofun)
    have halted := closing.halted
    have resumed := closing.resumed
    have running : s.caller ≠ .stopped := by rw [here]; exact nofun
    rw [here] at halted resumed
    cases taken
    split
    · exact closing.next rfl running rfl ⟨nofun,nofun⟩ flag halted resumed (by simp)
    · exact closing.next rfl running rfl ⟨nofun,nofun⟩ flag halted resumed (by simp)
  case loadClient i n =>
    have flag := quiet (by rw [here]; exact nofun)
    have halted := closing.halted
    have resumed := closing.resumed
    have running : s.caller ≠ .stopped := by rw [here]; exact nofun
    rw [here] at halted resumed
    cases taken
    split
    · exact closing.next rfl running rfl ⟨nofun,nofun⟩ flag halted resumed (by simp)
    · exact closing.next rfl running rfl ⟨nofun,nofun⟩ flag nofun nofun (by simp)
  case resumeThread i =>
    have flag := quiet (by rw [here]; exact nofun)
    have halted := closing.halted
    have resumed := closing.resumed
    have running : s.caller ≠ .stopped := by rw [here]; exact nofun
    rw [here] at halted resumed
    cases taken
    refine closing.next rfl running rfl ⟨nofun,nofun⟩ flag halted (fun j below => ?_) (by simp)
    dsimp only
    rw [Function.update_apply]
    split
    · rfl
    · exact resumed j (Nat.lt_of_le_of_ne (Nat.le_of_lt_succ below) ‹_›)
  case waitThreads =>
    have flag := quiet (by rw [here]; exact nofun)
    have halted := closing.halted
    have resumed := closing.resumed
    have running : s.caller ≠ .stopped := by rw [here]; exact nofun
    rw [here] at halted resumed
    split at taken <;> cases taken
    rename_i ended
    refine closing.next rfl running rfl ⟨nofun,nofun⟩ flag halted resumed fun _ i inside => ?_
    have past := List.all_eq_true.mp ended i (List.mem_range.mpr inside)
    rw [(closing.hThread i).mpr inside] at past
    exact beq_iff_eq.mp past
  case waitListen =>
    have flag := quiet (by rw [here]; exact nofun)
    have halted := closing.halted
    have resumed := closing.resumed
    have running : s.caller ≠ .stopped := by rw [here]; exact nofun
    have ended := closing.ended (.inl here)
    rw [here] at halted resumed
    split at taken <;> cases taken
    exact closing.next rfl running rfl ⟨nofun,nofun⟩ flag halted resumed fun _ => ended
  case closeListen =>
    have flag := quiet (by rw [here]; exact nofun)
    have halted := closing.halted
    have resumed := closing.resumed
    have ended := closing.ended (.inr (.inl here))
    rw [here] at halted resumed
    cases taken
    exact ⟨rfl,closing.hThread,(fun run => by cases flag.symm.trans run),nofun,halted,resumed,⟨fun _ => rfl,fun _ => rfl⟩,
      fun _ => ended⟩
  case stopped | faulted => cases taken
  all_goals
    rw [here] at stops
    cases stops

theorem threadMost (lined : s.Lined) (i : Nat) : s.threadAhead i ≤ 452 := by
  unfold Service.threadAhead
  split
  · exact Nat.le_refl 452
  · exact MonitorLine.leftMost _ (countFew lined.fronts i)

theorem threadTold (lined : s.Lined) (monitor : t.server.monitor i = s.server.monitor i) (count : t.count i = s.count i)
    (told : t.bRun i = s.bRun i ∨ t.bRun i = false) : t.threadAhead i ≤ s.threadAhead i := by
  have few := MonitorLine.leftMost (s.server.monitor i) (countFew lined.fronts i)
  simp only [Service.threadAhead,monitor,count]
  rcases told with same | told
  · rw [same]
  · rw [told,if_neg Bool.false_ne_true]
    split
    · exact few
    · exact Nat.le_refl _

theorem slotInside {i n : Nat} (fronts : s.server.pool.Fronts) (some : (s.slot i n).isSome = true) : n < maxClients := by
  have clients : maxClients = 64 := rfl
  by_contra beyond
  have none : s.slot i n = none := by
    unfold Service.slot Pool.pClientArray
    cases here : s.server.pool.m_pThreadPool[i]? with
    | none => rfl
    | some p =>
      obtain ⟨_,front⟩ := fronts.each p (List.mem_of_getElem? here)
      have length : (p.info.pClientArray).length ≤ n := by rw [front.pClientArray]; omega
      simp only [Option.map_some,Option.getD_some,List.getElem?_eq_none length,Option.join_none]
  rw [none] at some
  cases some

theorem callerFalls {succeeds : Bool} (taken : s.callerStep succeeds = some t) (lined : s.Lined) (closing : s.Closing) :
    t.caller.ahead + 1 ≤ s.caller.ahead ∧ t.listenAhead ≤ s.listenAhead ∧ ∀ i, t.threadAhead i ≤ s.threadAhead i := by
  have stops := closing.stops
  have most : maxThread = 64 := rfl
  have clients : maxClients = 64 := rfl
  unfold Service.callerStep at taken
  cases here : s.caller <;> simp only [here] at taken
  case stopListen =>
    cases taken
    refine ⟨Nat.le_refl _,?_,fun i => Nat.le_refl _⟩
    cases run : s.m_bListenThreadRun with
    | true =>
      have full : s.listenAhead = 75 := by rw [Service.listenAhead,if_pos run]
      exact full ▸ listenMost _
    | false => simp only [Service.listenAhead,run,Nat.le_refl]
  case closeServer =>
    cases taken
    exact ⟨Nat.le_refl _,Nat.le_refl _,fun i => Nat.le_refl _⟩
  case stopThread i =>
    cases taken
    split
    · rename_i inside
      rw [if_pos ((closing.hThread i).mpr inside)]
      refine ⟨?_,Nat.le_refl _,fun j => ?_⟩
      · simp only [CallerLine.ahead]
        omega
      · refine threadTold lined rfl rfl ?_
        dsimp only
        rw [Function.update_apply]
        split
        · exact .inr rfl
        · exact .inl rfl
    · refine ⟨?_,Nat.le_refl _,fun i => Nat.le_refl _⟩
      simp only [CallerLine.ahead]
      omega
  case disConnect i n =>
    have few : s.count i ≤ maxClients := countFew lined.fronts i
    cases taken
    refine ⟨?_,Nat.le_refl _,fun i => Nat.le_refl _⟩
    dsimp only
    split <;> simp only [CallerLine.ahead] <;> omega
  case loadClient i n =>
    cases taken
    refine ⟨?_,Nat.le_refl _,fun i => Nat.le_refl _⟩
    dsimp only
    split
    · rename_i some
      have inside := slotInside lined.fronts some
      simp only [CallerLine.ahead]
      omega
    · simp only [CallerLine.ahead]
      omega
  case resumeThread i =>
    cases taken
    refine ⟨?_,Nat.le_refl _,fun i => Nat.le_refl _⟩
    simp only [CallerLine.ahead]
    omega
  case waitThreads | waitListen =>
    split at taken <;> cases taken
    exact ⟨Nat.le_refl _,Nat.le_refl _,fun i => Nat.le_refl _⟩
  case closeListen =>
    have flag : s.m_bListenThreadRun = false := Bool.eq_false_iff.mpr fun run => by
      cases here.symm.trans (closing.flag run)
    cases taken
    refine ⟨Nat.le_refl _,?_,fun i => Nat.le_refl _⟩
    rw [Service.listenAhead,if_neg (by rw [flag]; exact Bool.false_ne_true)]
    exact Nat.zero_le _
  case stopped | faulted => cases taken
  all_goals
    rw [here] at stops
    cases stops

theorem listenClosing (listens : Listens objects s t) (closing : s.Closing) : t.Closing := by
  have kept := listensKeeps listens
  have running := listensRunning listens
  have flag : t.m_bListenThreadRun = s.m_bListenThreadRun := by cases listens <;> rfl
  have bRun : t.bRun = s.bRun := by cases listens <;> rfl
  have ready : ∀ i, s.ready i = true → t.ready i = true := by
    cases listens with
    | @resumes j =>
      intro i ready
      dsimp only
      rw [Function.update_apply]
      split
      · rename_i same
        rw [← same,ready,Bool.true_or]
      · exact ready
    | _ => exact fun _ => id
  have listen : t.listen ≠ .absent := by
    cases listens <;> dsimp only <;> try split
    all_goals exact nofun
  constructor
  · exact kept.1 ▸ closing.stops
  · exact kept.2.1 ▸ closing.hThread
  · rw [flag,kept.1]
    exact closing.flag
  · rw [kept.1,bRun]
    exact closing.untold
  · rw [kept.1,bRun]
    exact closing.halted
  · rw [kept.1]
    exact fun i below => ready i (closing.resumed i below)
  · rw [kept.1]
    exact ⟨fun absent => absurd absent listen,fun past => absurd (closing.listen.mpr past) running.1⟩
  · rw [kept.1,kept.2.2]
    exact closing.ended

theorem monitorClosing {answer : Answer} (monitors : Monitors objects s t i answer) (closing : s.Closing) : t.Closing := by
  obtain ⟨-,line,monitor,info,next,-⟩ := monitorActed monitors
  have rest := monitors.rest
  have running := goesRunning (goes next)
  rw [rest]
  refine ⟨closing.stops,closing.hThread,closing.flag,closing.untold,closing.halted,closing.resumed,closing.listen,
    fun late j inside => ?_⟩
  have ended := closing.ended late
  exact absurd (ended i ((closing.hThread i).mp monitors.hThread)) running

theorem monitorFalls {answer : Answer} (monitors : Monitors objects s t i answer)
    (well : s.waitsWell (.monitor i answer) = true) (lined : s.Lined) (closing : s.Closing) :
    t.ahead + (if s.bRun i then 0 else 1) ≤ s.ahead := by
  obtain ⟨acted,line,monitor,info,next,count⟩ := monitorActed monitors
  have rest := monitors.rest
  have aside := actedAside acted
  have bRun : t.bRun = s.bRun := by rw [rest]
  have caller : t.caller = s.caller := by rw [rest]
  have listen : t.listenAhead = s.listenAhead := by
    rw [rest]
    simp only [Service.listenAhead,aside.offered]
  have inside := (closing.hThread i).mp monitors.hThread
  have others : ∀ j, j ≠ i → t.threadAhead j ≤ s.threadAhead j := fun j other =>
    threadTold lined (by rw [monitor,Function.update_of_ne other]) (samePool (aside.elsewhere j other)).1 (.inl (by rw [bRun]))
  have mine : t.threadAhead i + (if s.bRun i then 0 else 1) ≤ s.threadAhead i + 0 := by
    unfold Service.threadAhead
    rw [bRun]
    cases told : s.bRun i with
    | true => exact Nat.le_refl _
    | false =>
      simp only [Bool.false_eq_true,if_false,Nat.add_zero]
      rw [monitor,Function.update_self]
      refine leftFalls acted next count lined.fronts (lined.within i) (lined.removing i) ?_ ?_
      · intro run
        have read := monitors.bRun true run
        rw [told] at read
        cases read
      · intro dwIndex cEvents dwError here failed
        rw [failed] at well
        simp [Service.waitsWell,here] at well
  have sum := sumMoves inside others mine
  unfold Service.ahead
  rw [caller,listen]
  omega

theorem aheadFalls {c : Nat} (caller : t.caller = s.caller) (listen : t.listenAhead + c ≤ s.listenAhead)
    (threads : ∀ j, j < maxThread → t.threadAhead j ≤ s.threadAhead j) : t.ahead + c ≤ s.ahead := by
  have sum : ∑ j ∈ Finset.range maxThread, t.threadAhead j ≤ ∑ j ∈ Finset.range maxThread, s.threadAhead j :=
    Finset.sum_le_sum fun j member => threads j (Finset.mem_range.mp member)
  unfold Service.ahead
  rw [caller]
  omega

theorem placesFalls (lined : s.Lined) (caller : t.caller = s.caller) (monitor : t.server.monitor = s.server.monitor)
    (bRun : t.bRun = s.bRun) (before : 10 ≤ s.listenAhead) (after : t.listenAhead ≤ 2) (inside : i < maxThread)
    (more : t.count i = s.count i + 1) (others : ∀ j, j ≠ i → t.count j = s.count j) : t.ahead + 1 ≤ s.ahead := by
  have own : t.threadAhead i + 0 ≤ s.threadAhead i + 7 := by
    have left := MonitorLine.leftMore (s.server.monitor i) (s.count i)
    simp only [Service.threadAhead,monitor,bRun,more]
    split <;> omega
  have sum := sumMoves inside
    (fun j other => threadTold lined (by rw [monitor]) (others j other) (.inl (by rw [bRun]))) own
  unfold Service.ahead
  rw [caller]
  omega

theorem listenFalls (listens : Listens objects s t) (lined : s.Lined) (closing : s.Closing) :
    t.ahead + (if s.m_bListenThreadRun then 0 else 1) ≤ s.ahead := by
  have caller := (listensKeeps listens).1
  have flag : t.m_bListenThreadRun = s.m_bListenThreadRun := by cases listens <;> rfl
  have bRun : t.bRun = s.bRun := by cases listens <;> rfl
  have most : maxThread = 64 := rfl
  cases run : s.m_bListenThreadRun with
  | true =>
    rw [run] at flag
    refine aheadFalls caller (by simp [Service.listenAhead,run,flag]) fun j inside => ?_
    have told := closing.untold (closing.flag run) j inside
    simp only [Service.threadAhead,bRun,told,if_true]
    exact Nat.le_refl _
  | false =>
    simp only [Bool.false_eq_true,if_false]
    cases listens with
    | looks here =>
      exact aheadFalls rfl (by simp [Service.listenAhead,run,here]) fun j _ => Nat.le_refl _
    | refuses here => exact aheadFalls rfl (by simp [Service.listenAhead,run,here]) fun j _ => Nat.le_refl _
    | resumes here => exact aheadFalls rfl (by simp [Service.listenAhead,run,here]) fun j _ => Nat.le_refl _
    | accepts here listening taken =>
      cases Pool.stepDoes taken
      exact aheadFalls rfl (by simp [Service.listenAhead,run,here,maxThread]) fun j _ => Nat.le_refl _
    | @passes pClient i pool here offered taken more =>
      cases (adapts offered taken).1 with
      | placed _ _ nobody | beyond _ nobody => exact absurd nobody more
      | full inside _ next same =>
        obtain ⟨_,next⟩ := next
        rw [lined.fronts.length] at inside
        refine aheadFalls rfl ?_ fun j _ => threadTold lined rfl (samePool (by rw [same])).1 (.inl rfl)
        simp only [Service.listenAhead,run,here,offered,next,Bool.false_eq_true,if_false,Option.map_some,Option.getD_some]
        omega
    | @places pClient i pool here offered taken nobody inside =>
      cases (adapts offered taken).1 with
      | full _ _ next =>
        obtain ⟨_,next⟩ := next
        cases nobody.symm.trans next
      | beyond beyond =>
        rw [lined.fronts.length] at beyond
        exact absurd inside (Nat.not_lt.mpr beyond)
      | placed _ _ _ counts =>
        have more : pool.dwEventCount i = s.count i + 1 := by
          rw [counts,Function.update_self]
          rfl
        have before : 10 ≤ s.listenAhead := by
          simp only [Service.listenAhead,run,here,Bool.false_eq_true,if_false]
          omega
        refine placesFalls lined rfl rfl rfl before ?_ inside more fun j other => ?_
        · simp only [Service.listenAhead,run,Bool.false_eq_true,if_false]
          by_cases first : pool.dwEventCount i = 1 <;> simp [first]
        · show pool.dwEventCount j = s.server.pool.dwEventCount j
          rw [counts,Function.update_of_ne other]
    | @drops pClient i pool here offered taken nobody beyond =>
      cases (adapts offered taken).1 with
      | full inside | placed inside =>
        rw [lined.fronts.length] at inside
        exact absurd inside (Nat.not_lt.mpr beyond)
      | beyond _ _ same =>
        refine aheadFalls rfl ?_ fun j _ => threadTold lined rfl (samePool (by rw [same])).1 (.inl rfl)
        simp only [Service.listenAhead,run,here,Bool.false_eq_true,if_false]
        omega

theorem closingStep (taken : s.calm objects a = some t) (kept : s.Lined ∧ s.Closing) : t.Lined ∧ t.Closing := by
  obtain ⟨lined,closing⟩ := kept
  have lined' := (stepLined taken ⟨(fun running => by cases closing.stops.symm.trans running),lined⟩).2
  obtain ⟨well,taken⟩ := calmTaken taken
  refine ⟨lined',?_⟩
  cases a with
  | caller succeeds => exact callerClosing taken closing
  | stop =>
    simp only [Service.step] at taken
    split at taken
    · rename_i here
      have stops := closing.stops
      rw [here] at stops
      cases stops
    · cases taken
  | listen connected => exact listenClosing (listenListens taken) closing
  | monitor i answer => exact monitorClosing (monitorMonitors taken) closing

theorem stopFalls : Falls (Service.calm objects) Service.lingers (fun s => s.Lined ∧ s.Closing) Service.ahead := by
  rintro s a t taken ⟨lined,closing⟩
  obtain ⟨well,taken⟩ := calmTaken taken
  cases a with
  | caller succeeds =>
    obtain ⟨caller,listen,threads⟩ := callerFalls taken lined closing
    have sum : ∑ j ∈ Finset.range maxThread, t.threadAhead j ≤ ∑ j ∈ Finset.range maxThread, s.threadAhead j :=
      Finset.sum_le_sum fun j _ => threads j
    simp only [Service.lingers,Bool.false_eq_true,if_false,Service.ahead]
    omega
  | stop =>
    simp only [Service.step] at taken
    split at taken
    · rename_i here
      have stops := closing.stops
      rw [here] at stops
      cases stops
    · cases taken
  | listen connected => exact listenFalls (listenListens taken) lined closing
  | monitor i answer => exact monitorFalls (monitorMonitors taken) well lined closing

theorem adaptGoes {u : Pool} {pClient i : Nat} (fronts : u.Fronts) (offered : u.offered = some (pClient,i)) :
    ∃ v, u.step objects .adapt = some v := by
  simp only [Pool.step,offered,bind,Option.bind_some]
  cases here : u.m_pThreadPool[i]? with
  | none => exact ⟨_,rfl⟩
  | some p =>
    obtain ⟨clients,front⟩ := fronts.each p (List.mem_of_getElem? here)
    have adapted : ∃ pair, p.info.adapt pClient (objects pClient).hSocketEvent = some pair := by
      unfold ThreadInfo.adapt
      split
      · rename_i room
        have events : p.info.dwEventCount.toNat < p.info.hEventArray.length := front.hEventArray ▸ room
        have clients : p.info.dwEventCount.toNat < p.info.pClientArray.length := front.pClientArray ▸ room
        simp only [Slots.store,if_pos events,if_pos clients,bind,Option.bind_some]
        exact ⟨_,rfl⟩
      · exact ⟨_,rfl⟩
    obtain ⟨pair,adapted⟩ := adapted
    simp only [adapted,Option.bind_some]
    exact ⟨_,rfl⟩

theorem listenGoes (lined : s.Lined) (running : s.listen ≠ .absent ∧ s.listen ≠ .ended) :
    ∃ t, s.calm objects (.listen false) = some t := by
  show ∃ t, s.listenStep objects false = some t
  cases here : s.listen with
  | absent => exact absurd here running.1
  | ended => exact absurd here running.2
  | loop | accept | resume => exact ⟨_,by simp only [Service.listenStep,here]; rfl⟩
  | adapt =>
    obtain ⟨⟨pClient,i⟩,offered⟩ := Option.ne_none_iff_exists'.mp (lined.offered.mpr here)
    obtain ⟨pool,moved⟩ := @adaptGoes objects _ _ _ lined.fronts offered
    simp only [Service.listenStep,here,offered,SocketServer.step,moved,Option.map_some,bind,Option.bind_some]
    split
    · exact ⟨_,rfl⟩
    · split <;> exact ⟨_,rfl⟩

theorem stopOnward (kept : s.Lined ∧ s.Closing) (unfinished : s.caller ≠ .stopped) (whole : s.caller ≠ .faulted) :
    ∃ a t, s.calm objects a = some t ∧ s.lingers a = false ∧ s.spares a = true := by
  obtain ⟨lined,closing⟩ := kept
  have stops := closing.stops
  have goes : ∀ t, s.callerStep true = some t →
      ∃ a t, s.calm objects a = some t ∧ s.lingers a = false ∧ s.spares a = true :=
    fun t taken => ⟨.caller true,t,taken,rfl,rfl⟩
  cases here : s.caller with
  | stopListen | closeServer | stopThread | disConnect | loadClient | resumeThread | closeListen =>
    exact goes _ (by simp only [Service.callerStep,here]; rfl)
  | stopped => exact absurd here unfinished
  | faulted => exact absurd here whole
  | waitThreads =>
    by_cases ended : s.threadsEnded = true
    · exact goes _ (by simp only [Service.callerStep,here,if_pos ended]; rfl)
    · obtain ⟨i,inside,running⟩ : ∃ i, i < maxThread ∧ s.server.monitor i ≠ .ended := by
        by_contra none
        refine ended (List.all_eq_true.mpr fun i member => ?_)
        have past : s.server.monitor i = .ended := by
          by_contra running
          exact none ⟨i,List.mem_range.mp member,running⟩
        simp [past]
      have told := closing.halted i (by rw [here]; exact inside)
      have ready := closing.resumed i (by rw [here]; exact inside)
      have begun := (closing.hThread i).mpr inside
      obtain ⟨answer,t,taken⟩ := @monitorGoes objects _ _ lined begun ready inside running
      exact ⟨_,t,taken,told,by simp only [Service.spares,here]⟩
  | waitListen =>
    by_cases ended : s.listen = .ended
    · exact goes _ (by simp only [Service.callerStep,here,if_pos ended]; rfl)
    · have there : s.listen ≠ .absent := fun absent => by cases here.symm.trans (closing.listen.mp absent)
      obtain ⟨t,taken⟩ := @listenGoes objects _ lined ⟨there,ended⟩
      have flag : s.m_bListenThreadRun = false := Bool.eq_false_iff.mpr fun run => by
        cases here.symm.trans (closing.flag run)
      exact ⟨_,t,taken,flag,rfl⟩
  | _ =>
    rw [here] at stops
    cases stops

theorem carefulTaken (taken : s.careful objects a = some t) : s.spares a = true ∧ s.calm objects a = some t := by
  unfold Service.careful at taken
  split at taken
  · exact ⟨‹_›,taken⟩
  · cases taken

theorem carefulFollow {acts : List ServiceStep} (run : follow (Service.careful objects) acts s = some t) :
    follow (Service.calm objects) acts s = some t := by
  induction acts generalizing s with
  | nil => exact run
  | cons a acts ih =>
    obtain ⟨next,taken,rest⟩ := followCons run
    rw [follow,(carefulTaken taken).2]
    exact ih rest

theorem slotHeld {n : Nat} (fronts : s.server.pool.Fronts) (inside : n < s.count i) : (s.slot i n).isSome = true := by
  unfold Service.count at inside
  unfold Service.slot Pool.pClientArray
  cases here : s.server.pool.m_pThreadPool[i]? with
  | none =>
    rw [Pool.dwEventCount,here] at inside
    cases inside
  | some p =>
    obtain ⟨clients,front⟩ := fronts.each p (List.mem_of_getElem? here)
    rw [countHere here,front.dwEventCount] at inside
    obtain ⟨rest,same⟩ := front.clients
    have there : (clients.map some ++ rest)[n]? = some (some clients[n]) := by
      rw [List.getElem?_append_left (by rwa [List.length_map]),List.getElem?_map,List.getElem?_eq_getElem inside]
      rfl
    simp only [Option.map_some,Option.getD_some,← same,there,Option.join_some,Option.isSome_some]

theorem callerLoads {succeeds : Bool} (taken : s.callerStep succeeds = some t) :
    (∀ i n, t.caller = .loadClient i n → n < s.count i ∧ t.server = s.server) ∧
      (t.caller = .faulted → ∃ i n, s.caller = .loadClient i n ∧ (s.slot i n).isSome = false) := by
  unfold Service.callerStep at taken
  cases here : s.caller <;> simp only [here] at taken
  case started | stopped | faulted => cases taken
  case waitHalted | waitThreads | waitListen =>
    split at taken <;> cases taken
    exact ⟨nofun,nofun⟩
  case beginListen | beginMonitor =>
    cases taken
    cases succeeds
    · exact ⟨nofun,nofun⟩
    · simp only [if_true]
      try split
      all_goals exact ⟨nofun,nofun⟩
  case createSocket =>
    cases taken
    cases succeeds <;> exact ⟨fun i n same => by simp at same,fun same => by simp at same⟩
  case haltThread | freeParam =>
    cases taken
    dsimp only
    split <;> exact ⟨nofun,nofun⟩
  case stopThread =>
    cases taken
    split
    · split <;> exact ⟨nofun,nofun⟩
    · exact ⟨nofun,nofun⟩
  case disConnect i n =>
    cases taken
    dsimp only
    split
    · refine ⟨fun j m same => ?_,nofun⟩
      cases same
      exact ⟨‹_›,rfl⟩
    · exact ⟨nofun,nofun⟩
  case loadClient i n =>
    cases taken
    dsimp only
    split
    · exact ⟨nofun,nofun⟩
    · exact ⟨nofun,fun _ => ⟨i,n,rfl,Bool.eq_false_iff.mpr ‹_›⟩⟩
  all_goals
    cases taken
    exact ⟨nofun,nofun⟩

theorem monitorHolds {answer : Answer} (monitors : Monitors objects s t i answer)
    (spared : s.spares (.monitor i answer) = true) (lined : s.Lined) (holds : s.Holds) : t.Holds := by
  obtain ⟨acted,line,monitor,info,next,-⟩ := monitorActed monitors
  have aside := actedAside acted
  have counts := (actedCounts lined.fronts acted).2
  have caller : t.caller = s.caller := by rw [monitors.rest]
  refine ⟨caller ▸ holds.whole,fun j n here => ?_⟩
  rw [caller] at here
  have tested := holds.tested j n here
  rcases eq_or_ne j i with rfl | other
  · rcases counts with ⟨-,same⟩ | ⟨closes,fewer⟩
    · exact Nat.lt_of_lt_of_eq tested same.symm
    · have removing : ∃ dwIndex pClient inside, s.server.monitor j = .removing dwIndex pClient inside := by
        cases line : s.server.monitor j <;> rw [line] at closes <;> cases closes
        exact ⟨_,_,_,rfl⟩
      obtain ⟨dwIndex,pClient,inside,removing⟩ := removing
      simp only [Service.spares,here,removing,ne_eq,not_true_eq_false,false_or,decide_eq_true_eq] at spared
      unfold Service.count at spared ⊢
      omega
  · have same : t.count j = s.count j := (samePool (aside.elsewhere j other)).1
    exact Nat.lt_of_lt_of_eq tested same.symm

theorem holdsStep (taken : s.calm objects a = some t) (spared : s.spares a = true) (lined : s.Lined) (holds : s.Holds) :
    t.Holds := by
  obtain ⟨-,taken⟩ := calmTaken taken
  cases a with
  | caller succeeds =>
    obtain ⟨loads,faults⟩ := callerLoads taken
    refine ⟨fun faulted => ?_,fun i n here => ?_⟩
    · obtain ⟨i,n,here,empty⟩ := faults faulted
      rw [slotHeld lined.fronts (holds.tested i n here)] at empty
      cases empty
    · obtain ⟨tested,server⟩ := loads i n here
      rwa [Service.count,server]
  | stop =>
    simp only [Service.step] at taken
    split at taken <;> cases taken
    refine ⟨?_,fun i n here => ?_⟩
    · dsimp only
      split <;> exact fun faulted => by cases faulted
    · dsimp only at here
      split at here <;> cases here
  | listen connected =>
    have listens := listenListens taken
    have caller := (listensKeeps listens).1
    refine ⟨caller ▸ holds.whole,fun i n here => ?_⟩
    have tested := holds.tested i n (caller ▸ here)
    cases listens with
    | looks | refuses | resumes => exact tested
    | accepts _ _ moved => exact Nat.lt_of_lt_of_le tested (stepCounts moved fun same => by cases same)
    | passes _ _ moved => exact Nat.lt_of_lt_of_le tested (stepCounts moved fun same => by cases same)
    | places _ _ moved => exact Nat.lt_of_lt_of_le tested (stepCounts moved fun same => by cases same)
    | drops _ _ moved => exact Nat.lt_of_lt_of_le tested (stepCounts moved fun same => by cases same)
  | monitor i answer => exact monitorHolds (monitorMonitors taken) spared lined holds

theorem calmFollow {acts : List ServiceStep} (run : follow (Service.calm objects) acts s = some t) :
    follow (Service.step objects) acts s = some t := by
  induction acts generalizing s with
  | nil => exact run
  | cons a acts ih =>
    obtain ⟨next,taken,rest⟩ := followCons run
    rw [follow,(calmTaken taken).2]
    exact ih rest

theorem stopBegins {acts : List ServiceStep} (run : follow (Service.calm objects) acts Service.start = some s)
    (here : s.caller = .started true) (called : s.calm objects .stop = some t) :
    (t.Lined ∧ t.Closing) ∧ t.ahead ≤ 37457 := by
  have plain := calmFollow run
  have lined := runLined run
  have lined' := (stepLined called ⟨runBegins plain,lined⟩).2
  have rises := runRises plain (by rw [here]; rfl)
  have owns := runOwns plain
  have listen := rises.listen (.inr here)
  obtain ⟨-,called⟩ := calmTaken called
  unfold Service.step at called
  simp only [here,if_neg listen,Option.some.injEq] at called
  subst called
  have closing : {s with caller := .stopListen : Service}.Closing := by
    refine ⟨rfl,fun i => ⟨owns.threads i,fun inside => (rises.all here i inside).1⟩,fun _ => rfl,
      fun _ i inside => (rises.all here i inside).2,nofun,nofun,⟨fun absent => absurd absent listen,nofun⟩,fun late => ?_⟩
    simp at late
  refine ⟨⟨lined',closing⟩,?_⟩
  have waiting := listenMost {s with caller := .stopListen : Service}
  have threads : ∑ i ∈ Finset.range maxThread, {s with caller := .stopListen : Service}.threadAhead i ≤ maxThread * 452 := by
    have most := Finset.sum_le_card_nsmul (Finset.range maxThread) _ 452 fun i _ => threadMost lined' i
    rwa [Finset.card_range,nsmul_eq_mul,Nat.cast_id] at most
  have most : maxThread = 64 := rfl
  unfold Service.ahead
  simp only [CallerLine.ahead,most] at threads ⊢
  omega

theorem stopGoes (kept : s.Lined ∧ s.Closing) (holds : s.Holds) : ∃ rest v,
    follow (Service.calm objects) rest s = some v ∧ v.caller = .stopped ∧ rest.length ≤ s.ahead := by
  have keeps : ∀ {s t : Service} {a : ServiceStep}, s.careful objects a = some t → (s.Lined ∧ s.Closing) ∧ s.Holds →
      (t.Lined ∧ t.Closing) ∧ t.Holds := fun taken kept => by
    obtain ⟨spared,taken⟩ := carefulTaken taken
    exact ⟨closingStep taken kept.1,holdsStep taken spared kept.1.1 kept.2⟩
  have falls : Falls (Service.careful objects) Service.lingers (fun s => (s.Lined ∧ s.Closing) ∧ s.Holds) Service.ahead :=
    fun s a t taken kept => stopFalls s a t (carefulTaken taken).2 kept.1
  have onward : ∀ {s : Service}, (s.Lined ∧ s.Closing) ∧ s.Holds → ¬ s.caller = .stopped →
      ∃ a t, s.careful objects a = some t ∧ s.lingers a = false := fun kept unfinished => by
    obtain ⟨a,t,taken,moving,spared⟩ := stopOnward kept.1 unfinished kept.2.whole
    exact ⟨a,t,(if_pos spared).trans taken,moving⟩
  obtain ⟨rest,v,run,ended,short⟩ := movesEnd keeps falls onward ⟨kept,holds⟩
  exact ⟨rest,v,carefulFollow run,ended,short⟩

/-- Stop takes a bounded number of steps, not counting those of threads that it has not yet told to end, and until it
is over something that counts can be executed. It ends at an access violation only if a RemoveConnect has emptied a
slot between Stop's test and its load; where none does it can be brought to its end, and then the 64 MonitorThreads
and ListenThread have left their loops. -/
theorem stopReturns {acts more : List ServiceStep} {u : Service}
    (run : follow (Service.calm objects) acts Service.start = some s) (here : s.caller = .started true)
    (called : s.calm objects .stop = some t) (later : follow (Service.calm objects) more t = some u) :
    moves (Service.calm objects) Service.lingers more t ≤ 37457 ∧
      (u.caller ≠ .stopped → u.caller ≠ .faulted → ∃ a v, u.calm objects a = some v ∧ u.lingers a = false) ∧
      (Meets (Service.calm objects) (fun s a => s.spares a = true) more t → u.caller ≠ .faulted ∧
        ∃ rest v, follow (Service.calm objects) rest u = some v ∧ v.caller = .stopped ∧ rest.length ≤ 37457) ∧
      (u.caller = .stopped → u.listen = .absent ∧ (∀ i, u.hThread i = true → u.server.monitor i = .ended) ∧
        ∀ a, u.step objects a = none) := by
  obtain ⟨begun,most⟩ := stopBegins run here called
  have kept := followKeeps closingStep later begun
  have bounded := movesBounded closingStep stopFalls later begun
  refine ⟨by omega,fun unfinished whole => ?_,fun spared => ?_,fun past => ?_⟩
  · obtain ⟨a,v,taken,moving,-⟩ := stopOnward kept unfinished whole
    exact ⟨a,v,taken,moving⟩
  · have started : t.Holds := by
      obtain ⟨-,called⟩ := calmTaken called
      unfold Service.step at called
      simp only [here] at called
      cases called
      refine ⟨?_,fun i n same => ?_⟩
      · dsimp only
        split <;> exact nofun
      · dsimp only at same
        split at same <;> cases same
    have holds := (meetsKeeps (I := fun s : Service => (s.Lined ∧ s.Closing) ∧ s.Holds)
      (fun taken spared kept => ⟨closingStep taken kept.1,holdsStep taken spared kept.1.1 kept.2⟩) later spared
      ⟨begun,started⟩).2
    obtain ⟨rest,v,onwards,finished,short⟩ := @stopGoes objects _ kept holds
    exact ⟨holds.whole,rest,v,onwards,finished,by omega⟩
  · obtain ⟨lined,closing⟩ := kept
    have absent := closing.listen.mpr past
    have ended : ∀ i, u.hThread i = true → u.server.monitor i = .ended := fun i begun =>
      closing.ended (.inr (.inr past)) i ((closing.hThread i).mp begun)
    refine ⟨absent,ended,fun a => ?_⟩
    cases a with
    | caller succeeds => simp only [Service.step,Service.callerStep,past]
    | stop => simp only [Service.step,past]
    | listen connected => simp only [Service.step,Service.listenStep,absent]
    | monitor i answer =>
      by_contra some
      obtain ⟨v,taken⟩ := Option.ne_none_iff_exists'.mp some
      have monitors := monitorMonitors taken
      obtain ⟨-,line,-,info,next,-⟩ := monitorActed monitors
      exact goesRunning (goes next) (ended i monitors.hThread)

end Closing

def starting : List ServiceStep := List.replicate 195 (.caller true)

theorem stopReturnsStarted : ∃ s t, follow (Service.calm anyObject) starting Service.start = some s ∧
    s.calm anyObject .stop = some t ∧
    ∃ rest v, follow (Service.calm anyObject) rest t = some v ∧ v.caller = .stopped ∧ rest.length ≤ 37457 := by
  have made : (follow (Service.calm anyObject) starting Service.start).map (fun s =>
      (s.caller,(s.calm anyObject .stop).isSome)) = some (.started true,true) := by decide +kernel
  obtain ⟨s,run,same⟩ := Option.map_eq_some_iff.mp made
  simp only [Prod.mk.injEq,Option.isSome_iff_exists] at same
  obtain ⟨here,t,called⟩ := same
  have still : follow (Service.calm anyObject) [] t = some t := rfl
  exact ⟨s,t,run,called,((stopReturns run here called still).2.2.1 True.intro).2⟩

-- The only client of the first thread is taken out between Stop's test and its load.
def removedBetween : List ServiceStep :=
  [.listen false,.listen true,.listen false,.listen false,.monitor 0 (.run true),.monitor 0 (.waited 0 0),.monitor 0 .go,
    .monitor 0 (.fetched fdClose),.monitor 0 .go,.monitor 0 .go,.stop,.caller true,.caller true,.caller true,.caller true,
    .monitor 0 .go,.caller true]

example : (follow (Service.calm anyObject) (starting ++ removedBetween) Service.start).map Service.caller = some .faulted := by
  decide +kernel

end JokeDse
