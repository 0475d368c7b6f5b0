import JokeDse.Basic
import JokeDse.Lib.Runs
import JokeDse.Lib.Slots
import Mathlib.Data.List.InsertIdx

/-! The clients of CSocketServer (SocketUtils.h): ListenThread puts them into the tables of the pool
threads, and the monitor of a thread takes them out. A CSockClient is its number in the order of the
accepts, and the functions are `none` where they leave an array or use a client that is NULL. -/
namespace JokeDse
open Runs Slots

def maxClients : Nat := 64
def maxThread : Nat := 64

structure SockClient where
  hSocketEvent : Option Nat
  nFreeTimeout : Uint

structure ThreadInfo where
  hEventArray : List (Option Nat)
  pClientArray : List (Option Nat)
  dwEventCount : Uint
  deriving DecidableEq, Repr

namespace ThreadInfo

def new : ThreadInfo := ⟨List.replicate 64 none,List.replicate 64 none,0⟩

def client (dwIndex : Uint) (t : ThreadInfo) : Option Nat := t.pClientArray[dwIndex.toNat]?.join

def clients (t : ThreadInfo) : List Nat := t.pClientArray.filterMap id

def adapt (pClient : Nat) (hSocketEvent : Option Nat) (t : ThreadInfo) : Option (Bool × ThreadInfo) :=
  if t.dwEventCount.toNat < maxClients then do
    let pClientArray ← store t.dwEventCount.toNat (some pClient) t.pClientArray
    let hEventArray ← store t.dwEventCount.toNat hSocketEvent t.hEventArray
    some (true,⟨hEventArray,pClientArray,t.dwEventCount + 1⟩)
  else some (false,t)

def closeGap (dwIndex : Uint) (t : ThreadInfo) : Option ThreadInfo := do
  let count := (t.dwEventCount - dwIndex - 1).toNat
  let hEventArray ← memmove dwIndex.toNat (dwIndex.toNat + 1) count t.hEventArray
  let pClientArray ← memmove dwIndex.toNat (dwIndex.toNat + 1) count t.pClientArray
  let dwEventCount := t.dwEventCount - 1
  let hEventArray ← store dwEventCount.toNat none hEventArray
  let pClientArray ← store dwEventCount.toNat none pClientArray
  some ⟨hEventArray,pClientArray,dwEventCount⟩

def removeConnect (dwIndex : Uint) (t : ThreadInfo) : Option (Nat × ThreadInfo) := do
  let pClient ← t.client dwIndex
  let t ← t.closeGap dwIndex
  some (pClient,t)

section Free
variable (objects : Nat → SockClient) (perfTimeSpan : Nat → Rat)

def freeTimedOut (pClient : Nat) : Bool := decide ((objects pClient).nFreeTimeout.toNat ≤ perfTimeSpan pClient * 1000)

def checkBelow : Nat → ThreadInfo → Option (List Nat × ThreadInfo)
  | 0, t => some ([],t)
  | nIndex + 1, t => do
    let pClient ← t.client (BitVec.ofNat 32 nIndex)
    if freeTimedOut objects perfTimeSpan pClient then
      let (removed,t) ← t.removeConnect (BitVec.ofNat 32 nIndex)
      let (others,t) ← checkBelow nIndex t
      some (removed :: others,t)
    else checkBelow nIndex t

def checkFreeClient (t : ThreadInfo) : Option (List Nat × ThreadInfo) :=
  checkBelow objects perfTimeSpan t.dwEventCount.toNat t

end Free

end ThreadInfo

/-- A pool thread with the locals of a RemoveConnect that has read its slot and waits for csThread. -/
structure PoolThread where
  info : ThreadInfo
  removing : Option (Uint × Nat)

/-- `offered` is the client ListenThread has accepted and the thread it tries next. -/
structure Pool where
  m_pThreadPool : List PoolThread
  accepted : Nat
  offered : Option (Nat × Nat)

inductive PoolStep where
  | accept
  | adapt
  | readSlot (thread : Nat) (dwIndex : Uint)
  | closeGap (thread : Nat)
  | checkFreeClient (thread : Nat) (perfTimeSpan : Nat → Rat)

namespace Pool

def start : Pool := ⟨List.replicate maxThread ⟨ThreadInfo.new,none⟩,0,none⟩

def step (objects : Nat → SockClient) (s : Pool) : PoolStep → Option Pool
  | .accept =>
    match s.offered with
    | some _ => none
    | none => some {s with accepted := s.accepted + 1, offered := some (s.accepted,0)}
  | .adapt => do
    let (pClient,i) ← s.offered
    match s.m_pThreadPool[i]? with
    | none => some {s with offered := none}
    | some p =>
      let (bAdapterThread,info) ← p.info.adapt pClient (objects pClient).hSocketEvent
      some {s with
        m_pThreadPool := s.m_pThreadPool.set i {p with info}
        offered := if bAdapterThread then none else some (pClient,i + 1)}
  | .readSlot thread dwIndex => do
    let p ← s.m_pThreadPool[thread]?
    if p.removing.isNone ∧ dwIndex.toNat < p.info.dwEventCount.toNat then
      let pClient ← p.info.client dwIndex
      some {s with m_pThreadPool := s.m_pThreadPool.set thread {p with removing := some (dwIndex,pClient)}}
    else none
  | .closeGap thread => do
    let p ← s.m_pThreadPool[thread]?
    let (dwIndex,_) ← p.removing
    let info ← p.info.closeGap dwIndex
    some {s with m_pThreadPool := s.m_pThreadPool.set thread ⟨info,none⟩}
  | .checkFreeClient thread perfTimeSpan => do
    let p ← s.m_pThreadPool[thread]?
    if p.removing.isNone then
      let (_,info) ← p.info.checkFreeClient objects perfTimeSpan
      some {s with m_pThreadPool := s.m_pThreadPool.set thread {p with info}}
    else none

end Pool

structure ThreadInfo.Holds (objects : Nat → SockClient) (t : ThreadInfo) (clients : List Nat) : Prop where
  dwEventCount : t.dwEventCount.toNat = clients.length
  atMost : clients.length ≤ 64
  arrival : clients.Pairwise (· < ·)
  pClientArray : t.pClientArray = table none 64 (clients.map some)
  hEventArray : t.hEventArray = table none 64 (clients.map fun c => (objects c).hSocketEvent)

section Table
variable {objects : Nat → SockClient} {t : ThreadInfo} {clients : List Nat}

theorem newHolds : ThreadInfo.new.Holds objects [] := ⟨rfl,Nat.zero_le _,List.Pairwise.nil,rfl,rfl⟩

theorem tableClient (pClientArray : t.pClientArray = table none 64 (clients.map some)) {dwIndex : Uint}
    (inside : dwIndex.toNat < clients.length) : t.client dwIndex = some clients[dwIndex.toNat] := by
  have entry : dwIndex.toNat < (clients.map some).length := by rwa [List.length_map]
  rw [ThreadInfo.client,pClientArray,tableEntry entry,List.getElem_map]
  rfl

theorem holdsClient (holds : t.Holds objects clients) {dwIndex : Uint} (inside : dwIndex.toNat < clients.length) :
    t.client dwIndex = some clients[dwIndex.toNat] := tableClient holds.pClientArray inside

theorem holdsAdapt (holds : t.Holds objects clients) {pClient : Nat} (last : ∀ c ∈ clients, c < pClient) :
    clients.length = 64 ∧ t.adapt pClient (objects pClient).hSocketEvent = some (false,t) ∨
    clients.length < 64 ∧ ∃ t', t.adapt pClient (objects pClient).hSocketEvent = some (true,t') ∧
      t'.Holds objects (clients ++ [pClient]) := by
  have count := holds.dwEventCount
  rcases Nat.lt_or_eq_of_le holds.atMost with room | full
  · refine .inr ⟨room,⟨table none 64 ((clients ++ [pClient]).map fun c => (objects c).hSocketEvent),
      table none 64 ((clients ++ [pClient]).map some),t.dwEventCount + 1⟩,?_,?_⟩
    · have pClientArray : store t.dwEventCount.toNat (some pClient) t.pClientArray =
          some (table none 64 ((clients ++ [pClient]).map some)) := by
        rw [holds.pClientArray,count,← List.length_map some,tableStore (by rwa [List.length_map]),List.map_append]
        rfl
      have hEventArray : store t.dwEventCount.toNat (objects pClient).hSocketEvent t.hEventArray =
          some (table none 64 ((clients ++ [pClient]).map fun c => (objects c).hSocketEvent)) := by
        rw [holds.hEventArray,count,← List.length_map fun c => (objects c).hSocketEvent,
          tableStore (by rwa [List.length_map]),List.map_append]
        rfl
      have fewer : t.dwEventCount.toNat < maxClients := count ▸ room
      simp only [ThreadInfo.adapt,if_pos fewer,bind,pClientArray,hEventArray,Option.bind_some]
    · refine ⟨?_,?_,?_,rfl,rfl⟩
      · have one : (1 : Uint).toNat = 1 := rfl
        rw [BitVec.toNat_add,count,one,List.length_append,List.length_singleton]
        exact Nat.mod_eq_of_lt (by omega)
      · rw [List.length_append,List.length_singleton]
        exact room
      · refine List.pairwise_append.mpr ⟨holds.arrival,List.pairwise_singleton _ _,fun c member d same => ?_⟩
        rw [List.mem_singleton.mp same]
        exact last c member
  · refine .inl ⟨full,?_⟩
    rw [ThreadInfo.adapt,count,full,if_neg (by decide)]

theorem holdsClients (holds : t.Holds objects clients) : t.clients = clients := by
  rw [ThreadInfo.clients,holds.pClientArray,tableEntries]

theorem closeGapMoves {dwIndex : Uint} {n : Nat} {hEventArray pClientArray : List (Option Nat)}
    (count : t.dwEventCount.toNat = n) (inside : dwIndex.toNat < n)
    (events : (memmove dwIndex.toNat (dwIndex.toNat + 1) (n - dwIndex.toNat - 1) t.hEventArray).bind
      (store (n - 1) none) = some hEventArray)
    (clients : (memmove dwIndex.toNat (dwIndex.toNat + 1) (n - dwIndex.toNat - 1) t.pClientArray).bind
      (store (n - 1) none) = some pClientArray) :
    t.closeGap dwIndex = some ⟨hEventArray,pClientArray,t.dwEventCount - 1⟩ ∧
      (t.dwEventCount - 1).toNat = n - 1 := by
  have gap : (t.dwEventCount - dwIndex - 1).toNat = n - dwIndex.toNat - 1 := by
    rw [BitVec.toNat_sub_of_le,BitVec.toNat_sub_of_le,count]
    · rfl
    · exact BitVec.le_def.mpr (by omega)
    · refine BitVec.le_def.mpr ?_
      rw [BitVec.toNat_sub_of_le (BitVec.le_def.mpr (by omega)),count]
      exact Nat.le_sub_of_add_le (by simp; omega)
  have lower : (t.dwEventCount - 1).toNat = n - 1 := by
    rw [BitVec.toNat_sub_of_le (BitVec.le_def.mpr (by simp; omega)),count]
    rfl
  obtain ⟨movedEvents,moveEvents,storeEvents⟩ := Option.bind_eq_some_iff.mp events
  obtain ⟨movedClients,moveClients,storeClients⟩ := Option.bind_eq_some_iff.mp clients
  refine ⟨?_,lower⟩
  simp only [ThreadInfo.closeGap,gap,lower,bind,moveEvents,moveClients,Option.bind_some,storeEvents,storeClients]

theorem erasedMap {β : Type} (f : Nat → Option β) {i : Nat} (inside : i < clients.length) (atMost : clients.length ≤ 64) :
    (memmove i (i + 1) (clients.length - i - 1) (table none 64 (clients.map f))).bind (store (clients.length - 1) none) =
      some (table none 64 ((clients.eraseIdx i).map f)) := by
  have all : (clients.map f).length = clients.length := List.length_map f
  have erase := tableErase none (inside.trans_eq all.symm) (all ▸ atMost)
  rwa [all,List.eraseIdx_map] at erase

theorem holdsCloseGap (holds : t.Holds objects clients) {dwIndex : Uint} (inside : dwIndex.toNat < clients.length) :
    ∃ t', t.closeGap dwIndex = some t' ∧ t'.Holds objects (clients.eraseIdx dwIndex.toNat) := by
  have atMost := holds.atMost
  have shorter : (clients.eraseIdx dwIndex.toNat).length = clients.length - 1 := List.length_eraseIdx_of_lt inside
  obtain ⟨closed,lower⟩ := closeGapMoves holds.dwEventCount inside
    (holds.hEventArray ▸ erasedMap (fun c => (objects c).hSocketEvent) inside atMost)
    (holds.pClientArray ▸ erasedMap some inside atMost)
  exact ⟨_,closed,lower.trans shorter.symm,by omega,holds.arrival.eraseIdx _,rfl,rfl⟩

theorem holdsRemove (holds : t.Holds objects clients) {dwIndex : Uint} (inside : dwIndex.toNat < clients.length) :
    ∃ t', t.removeConnect dwIndex = some (clients[dwIndex.toNat],t') ∧
      t'.Holds objects (clients.eraseIdx dwIndex.toNat) := by
  obtain ⟨t',closed,held⟩ := holdsCloseGap holds inside
  refine ⟨t',?_,held⟩
  simp only [ThreadInfo.removeConnect,holdsClient holds inside,closed,bind,Option.bind_some]

theorem holdsCheckBelow (perfTimeSpan : Nat → Rat) {n : Nat} (inside : n ≤ clients.length)
    (holds : t.Holds objects clients) : ∃ t', t.checkBelow objects perfTimeSpan n =
      some (((clients.take n).filter (ThreadInfo.freeTimedOut objects perfTimeSpan)).reverse,t') ∧
      t'.Holds objects (sweep (ThreadInfo.freeTimedOut objects perfTimeSpan) n clients) := by
  induction n generalizing t clients with
  | zero => exact ⟨t,rfl,holds⟩
  | succ n ih =>
    have atMost := holds.atMost
    have index : (BitVec.ofNat 32 n).toNat = n := by
      rw [BitVec.toNat_ofNat]
      exact Nat.mod_eq_of_lt (by omega)
    have here : (BitVec.ofNat 32 n).toNat < clients.length := index.symm ▸ inside
    have client := holdsClient holds here
    obtain ⟨t',removed,held⟩ := holdsRemove holds here
    simp only [index] at client removed held
    have last : clients.take (n + 1) = clients.take n ++ [clients[n]] := by
      rw [List.take_succ_eq_append_getElem inside]
    rw [sweep,List.getElem?_eq_getElem inside,Option.any_some,last,List.filter_append]
    cases out : ThreadInfo.freeTimedOut objects perfTimeSpan clients[n] with
    | true =>
      have shorter : (clients.eraseIdx n).length = clients.length - 1 := List.length_eraseIdx_of_lt inside
      have front : (clients.eraseIdx n).take n = clients.take n := by
        rw [List.eraseIdx_eq_take_drop_succ,List.take_left' (List.length_take_of_le (by omega))]
      obtain ⟨t'',checked,kept⟩ := ih (by omega) held
      refine ⟨t'',?_,kept⟩
      simp only [ThreadInfo.checkBelow,client,bind,Option.bind_some,out,if_true,removed,checked,front,
        List.filter_singleton,Bool.cond_true,List.reverse_append,List.reverse_singleton,List.singleton_append]
    | false =>
      obtain ⟨t'',checked,kept⟩ := ih (by omega) holds
      refine ⟨t'',?_,kept⟩
      simp only [ThreadInfo.checkBelow,client,bind,Option.bind_some,out,Bool.false_eq_true,if_false,checked,
        List.filter_singleton,Bool.cond_false,List.append_nil]

theorem holdsCheck (perfTimeSpan : Nat → Rat) (holds : t.Holds objects clients) :
    ∃ t', t.checkFreeClient objects perfTimeSpan =
      some ((clients.filter (ThreadInfo.freeTimedOut objects perfTimeSpan)).reverse,t') ∧
      t'.Holds objects (clients.filter fun c => !ThreadInfo.freeTimedOut objects perfTimeSpan c) := by
  have checked := holdsCheckBelow perfTimeSpan (Nat.le_refl _) holds
  rw [sweepFilters _ (Nat.le_refl _),List.take_length,List.drop_length,List.append_nil,
    ← holds.dwEventCount] at checked
  exact checked

end Table

section Run
variable {objects : Nat → SockClient}

structure PoolThread.Inv (objects : Nat → SockClient) (next : Nat) (p : PoolThread) (clients : List Nat) : Prop where
  holds : p.info.Holds objects clients
  earlier : ∀ c ∈ clients, c < next
  removing : ∀ dwIndex pClient, p.removing = some (dwIndex,pClient) → clients[dwIndex.toNat]? = some pClient

theorem PoolThread.Inv.later {next more : Nat} {p : PoolThread} {clients : List Nat} (inv : p.Inv objects next clients)
    (grown : next ≤ more) : p.Inv objects more clients :=
  ⟨inv.holds,fun c member => Nat.lt_of_lt_of_le (inv.earlier c member) grown,inv.removing⟩

namespace Pool

def next (s : Pool) : Nat := (s.offered.map Prod.fst).getD s.accepted

structure Inv (objects : Nat → SockClient) (s : Pool) : Prop where
  threads : s.m_pThreadPool.length = maxThread
  offered : ∀ pClient i, s.offered = some (pClient,i) → pClient < s.accepted
  each : ∀ p ∈ s.m_pThreadPool, ∃ clients, p.Inv objects s.next clients

theorem startInv : start.Inv objects where
  threads := List.length_replicate
  offered _ _ offered := by cases offered
  each p member := by
    rw [List.eq_of_mem_replicate member]
    exact ⟨[],newHolds,(fun _ member => by cases member),fun _ _ removing => by cases removing⟩

theorem Inv.replace {s : Pool} {i : Nat} {p p' : PoolThread} {offered : Option (Nat × Nat)} (inv : s.Inv objects)
    (here : s.m_pThreadPool[i]? = some p)
    (below : ∀ pClient i, offered = some (pClient,i) → pClient < s.accepted)
    (next : s.next ≤ {s with offered}.next)
    (kept : ∀ clients, p.Inv objects s.next clients → ∃ clients', p'.Inv objects {s with offered}.next clients') :
    {s with m_pThreadPool := s.m_pThreadPool.set i p', offered}.Inv objects where
  threads := by rw [List.length_set,inv.threads]
  offered := below
  each q member := by
    rcases List.mem_or_eq_of_mem_set member with member | rfl
    · obtain ⟨clients,held⟩ := inv.each q member
      exact ⟨clients,held.later next⟩
    · obtain ⟨clients,held⟩ := inv.each p (List.mem_of_getElem? here)
      exact kept clients held

inductive Does (objects : Nat → SockClient) (s : Pool) : PoolStep → Pool → Prop where
  | accepts (nobody : s.offered = none) :
    Does objects s .accept {s with accepted := s.accepted + 1, offered := some (s.accepted,0)}
  | drops {pClient i : Nat} (offered : s.offered = some (pClient,i)) (beyond : s.m_pThreadPool[i]? = none) :
    Does objects s .adapt {s with offered := none}
  | adapts {pClient i : Nat} {p : PoolThread} {bAdapterThread : Bool} {info : ThreadInfo}
    (offered : s.offered = some (pClient,i)) (here : s.m_pThreadPool[i]? = some p)
    (adapted : p.info.adapt pClient (objects pClient).hSocketEvent = some (bAdapterThread,info)) :
    Does objects s .adapt {s with
      m_pThreadPool := s.m_pThreadPool.set i {p with info}
      offered := if bAdapterThread then none else some (pClient,i + 1)}
  | reads {thread pClient : Nat} {dwIndex : Uint} {p : PoolThread} (here : s.m_pThreadPool[thread]? = some p)
    (inside : dwIndex.toNat < p.info.dwEventCount.toNat) (client : p.info.client dwIndex = some pClient) :
    Does objects s (.readSlot thread dwIndex)
      {s with m_pThreadPool := s.m_pThreadPool.set thread {p with removing := some (dwIndex,pClient)}}
  | closes {thread pClient : Nat} {dwIndex : Uint} {p : PoolThread} {info : ThreadInfo}
    (here : s.m_pThreadPool[thread]? = some p) (removing : p.removing = some (dwIndex,pClient))
    (closed : p.info.closeGap dwIndex = some info) :
    Does objects s (.closeGap thread) {s with m_pThreadPool := s.m_pThreadPool.set thread ⟨info,none⟩}
  | checks {thread : Nat} {perfTimeSpan : Nat → Rat} {p : PoolThread} {removed : List Nat} {info : ThreadInfo}
    (here : s.m_pThreadPool[thread]? = some p) (free : p.removing = none)
    (checked : p.info.checkFreeClient objects perfTimeSpan = some (removed,info)) :
    Does objects s (.checkFreeClient thread perfTimeSpan)
      {s with m_pThreadPool := s.m_pThreadPool.set thread {p with info}}

theorem stepDoes {s t : Pool} {a : PoolStep} (taken : step objects s a = some t) : Does objects s a t := by
  cases a with
  | accept =>
    simp only [step] at taken
    split at taken
    · cases taken
    · cases taken
      exact .accepts ‹_›
  | adapt =>
    simp only [step,bind,Option.bind_eq_some_iff] at taken
    obtain ⟨⟨pClient,i⟩,offered,taken⟩ := taken
    split at taken
    · cases taken
      exact .drops offered ‹_›
    · obtain ⟨⟨bAdapterThread,info⟩,adapted,taken⟩ := Option.bind_eq_some_iff.mp taken
      cases taken
      exact .adapts offered ‹_› adapted
  | readSlot thread dwIndex =>
    simp only [step,bind,Option.bind_eq_some_iff] at taken
    obtain ⟨p,here,taken⟩ := taken
    split at taken
    · rename_i free
      obtain ⟨pClient,client,taken⟩ := Option.bind_eq_some_iff.mp taken
      cases taken
      exact .reads here free.2 client
    · cases taken
  | closeGap thread =>
    simp only [step,bind,Option.bind_eq_some_iff] at taken
    obtain ⟨p,here,⟨dwIndex,pClient⟩,removing,info,closed,taken⟩ := taken
    cases taken
    exact .closes here removing closed
  | checkFreeClient thread perfTimeSpan =>
    simp only [step,bind,Option.bind_eq_some_iff] at taken
    obtain ⟨p,here,taken⟩ := taken
    split at taken
    · rename_i free
      obtain ⟨⟨removed,info⟩,checked,taken⟩ := Option.bind_eq_some_iff.mp taken
      cases taken
      exact .checks here (Option.isNone_iff_eq_none.mp free) checked
    · cases taken

theorem nextOffered {s : Pool} {pClient i : Nat} (offered : s.offered = some (pClient,i)) : s.next = pClient := by
  rw [Pool.next,offered]
  rfl

theorem Inv.adapts {s : Pool} {pClient i : Nat} {p : PoolThread} {bAdapterThread : Bool} {info : ThreadInfo}
    (inv : s.Inv objects) (offered : s.offered = some (pClient,i)) (here : s.m_pThreadPool[i]? = some p)
    (adapted : p.info.adapt pClient (objects pClient).hSocketEvent = some (bAdapterThread,info)) :
    Inv objects {s with
      m_pThreadPool := s.m_pThreadPool.set i {p with info}
      offered := if bAdapterThread then none else some (pClient,i + 1)} := by
  have next := nextOffered offered
  have below := inv.offered pClient i offered
  obtain ⟨clients,held⟩ := inv.each p (List.mem_of_getElem? here)
  have last := held.earlier
  rw [next] at last
  rcases holdsAdapt held.holds last with ⟨full,adapted'⟩ | ⟨room,info',adapted',holds⟩
  · rw [adapted'] at adapted
    cases adapted
    refine inv.replace here (fun c j same => ?_) (Nat.le_of_eq next) fun clients held => ⟨clients,?_⟩
    · cases same
      exact below
    · exact ⟨held.holds,next ▸ held.earlier,held.removing⟩
  · rw [adapted'] at adapted
    cases adapted
    have grown : s.next ≤ s.accepted := next ▸ Nat.le_of_lt below
    refine inv.replace here (fun _ _ offered => by cases offered) grown fun _ _ => ⟨_,holds,fun c member => ?_,?_⟩
    · rcases List.mem_append.mp member with member | member
      · exact Nat.lt_trans (last c member) below
      · exact List.mem_singleton.mp member ▸ below
    · intro dwIndex c same
      have there := held.removing dwIndex c same
      obtain ⟨inside,-⟩ := List.getElem?_eq_some_iff.mp there
      rwa [List.getElem?_append_left inside]

theorem stepInv {s t : Pool} {a : PoolStep} (taken : step objects s a = some t) (inv : s.Inv objects) :
    t.Inv objects := by
  cases stepDoes taken with
  | accepts nobody =>
    refine ⟨inv.threads,fun pClient i same => ?_,fun p member => ?_⟩
    · cases same
      exact Nat.lt_succ_self _
    · obtain ⟨clients,held⟩ := inv.each p member
      have next : s.next = s.accepted := by rw [Pool.next,nobody]; rfl
      exact ⟨clients,next ▸ held⟩
  | @drops pClient i offered beyond =>
    have below := inv.offered pClient i offered
    refine ⟨inv.threads,(fun _ _ offered => by cases offered),fun p member => ?_⟩
    obtain ⟨clients,held⟩ := inv.each p member
    exact ⟨clients,held.later (nextOffered offered ▸ Nat.le_of_lt below)⟩
  | adapts offered here adapted => exact inv.adapts offered here adapted
  | reads here inside client =>
    refine inv.replace here inv.offered (Nat.le_refl _) fun clients held => ⟨clients,held.holds,held.earlier,?_⟩
    rintro dwIndex' pClient' same
    cases same
    rw [held.holds.dwEventCount] at inside
    rw [holdsClient held.holds inside] at client
    rw [List.getElem?_eq_getElem inside,client]
  | closes here removing closed =>
    refine inv.replace here inv.offered (Nat.le_refl _) fun clients held => ?_
    obtain ⟨inside,-⟩ := List.getElem?_eq_some_iff.mp (held.removing _ _ removing)
    obtain ⟨info',closed',holds⟩ := holdsCloseGap held.holds inside
    rw [closed'] at closed
    cases closed
    exact ⟨_,holds,fun c member => held.earlier c (List.mem_of_mem_eraseIdx member),fun _ _ removing => by cases removing⟩
  | @checks thread perfTimeSpan p removed info here free checked =>
    refine inv.replace here inv.offered (Nat.le_refl _) fun clients held => ?_
    obtain ⟨info',checked',holds⟩ := holdsCheck perfTimeSpan held.holds
    rw [checked'] at checked
    cases checked
    exact ⟨_,holds,fun c member => held.earlier c (List.mem_of_mem_filter member),fun _ _ same => by
      cases free.symm.trans same⟩

end Pool

structure PoolThread.Kept (objects : Nat → SockClient) (p : PoolThread) (clients : List Nat) : Prop where
  holds : p.info.Holds objects clients
  removeConnect : ∀ (dwIndex : Uint) (inside : dwIndex.toNat < clients.length), ∃ t,
    p.info.removeConnect dwIndex = some (clients[dwIndex.toNat],t) ∧ t.Holds objects (clients.eraseIdx dwIndex.toNat)
  removing : ∀ dwIndex pClient, p.removing = some (dwIndex,pClient) → clients[dwIndex.toNat]? = some pClient ∧
    ∃ t, p.info.closeGap dwIndex = some t ∧ t.Holds objects (clients.eraseIdx dwIndex.toNat)
  checkFreeClient : ∀ perfTimeSpan, ∃ t, p.info.checkFreeClient objects perfTimeSpan =
    some ((clients.filter (ThreadInfo.freeTimedOut objects perfTimeSpan)).reverse,t) ∧
    t.Holds objects (clients.filter fun c => !ThreadInfo.freeTimedOut objects perfTimeSpan c)

theorem poolKept {acts : List PoolStep} {s : Pool} (run : follow (Pool.step objects) acts Pool.start = some s) :
    s.m_pThreadPool.length = maxThread ∧ ∀ p ∈ s.m_pThreadPool, ∃ clients, p.Kept objects clients := by
  have inv : s.Inv objects := followKeeps Pool.stepInv run Pool.startInv
  refine ⟨inv.threads,fun p member => ?_⟩
  obtain ⟨clients,held⟩ := inv.each p member
  refine ⟨clients,held.holds,fun dwIndex => holdsRemove held.holds,fun dwIndex pClient same => ?_,
    fun perfTimeSpan => holdsCheck perfTimeSpan held.holds⟩
  have there := held.removing dwIndex pClient same
  obtain ⟨inside,-⟩ := List.getElem?_eq_some_iff.mp there
  exact ⟨there,holdsCloseGap held.holds inside⟩

end Run

def anyObject (_ : Nat) : SockClient := ⟨some 7,5000⟩

-- The second client comes into the table while the first one is taken out.
def oneLeaves : List PoolStep := [.accept,.adapt,.accept,.readSlot 0 0,.adapt,.closeGap 0]

theorem poolKeptShort : ∃ s, follow (Pool.step anyObject) oneLeaves Pool.start = some s ∧
    s.m_pThreadPool.length = maxThread ∧ ∀ p ∈ s.m_pThreadPool, ∃ clients, p.Kept anyObject clients := by
  have possible : (follow (Pool.step anyObject) oneLeaves Pool.start).isSome = true := rfl
  obtain ⟨s,run⟩ := Option.isSome_iff_exists.mp possible
  exact ⟨s,run,poolKept run⟩

end JokeDse
