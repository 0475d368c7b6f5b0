import JokeDse.Monitor

/-! What MonitorThread makes of a closed connection: its client is in no table any more when the monitor step
that has fetched FD_CLOSE is over, unless ProcessEvent has returned before it came to FD_CLOSE. -/
namespace JokeDse
open Runs

namespace Pool

def Gone (pClient : Nat) (s : Pool) : Prop := pClient < s.next ∧ ∀ thread, pClient ∉ s.clients thread

section Gone
variable {objects : Nat → SockClient} {s t : Pool} {a : PoolStep}

theorem nextNobody (offered : s.offered = none) : s.next = s.accepted := by
  rw [Pool.next,offered]
  rfl

theorem Inv.nextMost (inv : s.Inv objects) : s.next ≤ s.accepted := by
  cases offered : s.offered with
  | none => exact Nat.le_of_eq (nextNobody offered)
  | some pair =>
    rw [nextOffered offered]
    exact Nat.le_of_lt (inv.offered pair.1 pair.2 offered)

theorem stepNext (step : step objects s a = some t) (inv : s.Inv objects) : s.next ≤ t.next := by
  cases stepMoved step inv with
  | accepts offered =>
    rw [nextOffered offered]
    exact inv.nextMost
  | passes offered _ _ next => rw [nextOffered offered,nextOffered next]
  | drops _ _ next _ _ accepted | places _ _ next _ _ accepted =>
    rw [nextNobody next,accepted]
    exact inv.nextMost
  | reads _ _ offered _ _ accepted | closes _ _ offered _ _ accepted | checks _ offered _ _ accepted =>
    rw [Pool.next,Pool.next,offered,accepted]

theorem stepGone (step : step objects s a = some t) (inv : s.Inv objects) {pClient : Nat} (gone : s.Gone pClient) :
    t.Gone pClient := by
  refine ⟨Nat.lt_of_lt_of_le gone.1 (stepNext step inv),fun thread member => ?_⟩
  have absent := gone.2
  cases stepMoved step inv with
  | accepts _ clients | passes _ _ _ _ clients | drops _ _ _ clients | reads _ _ _ clients =>
    exact absent thread (clients ▸ member)
  | places offered _ _ clients =>
    rw [clients] at member
    refine absent thread (updateMembers member fun member => ?_)
    rcases List.mem_append.mp member with old | new
    · exact old
    · have earlier := gone.1
      rw [nextOffered offered,List.mem_singleton.mp new] at earlier
      exact absurd earlier (Nat.lt_irrefl _)
  | closes _ _ _ clients =>
    rw [clients] at member
    exact absent thread (updateMembers member List.mem_of_mem_eraseIdx)
  | checks _ _ clients =>
    rw [clients] at member
    exact absent thread (updateMembers member fun member => (List.mem_filter.mp member).1)

theorem closeGone (inv : s.Inv objects) (apart : s.Apart) {thread pClient : Nat} {dwIndex : Uint}
    (reading : s.removing thread = some (dwIndex,pClient)) (step : step objects s (.closeGap thread) = some t) :
    t.Gone pClient := by
  cases stepMoved step inv with
  | closes same here _ clients =>
    cases reading.symm.trans same
    have member := List.mem_of_getElem? here
    obtain ⟨p,-,held⟩ := inv.exists member
    refine ⟨Nat.lt_of_lt_of_le (held.earlier pClient member) (stepNext step inv),fun other => ?_⟩
    rw [clients]
    by_cases same : other = thread
    · rw [same,Function.update_self]
      intro left
      obtain ⟨k,elsewhere,there⟩ := List.mem_eraseIdx_iff_getElem?.mp left
      exact elsewhere (inv.unique there here)
    · rw [Function.update_of_ne same]
      exact fun left => same (apart other thread pClient left member)

theorem performKeeps {I : Pool → Prop} {a : Option PoolStep} (performed : s.perform objects a = some t) (same : I s)
    (keeps : ∀ a, s.step objects a = some t → I t) : I t := by
  cases a with
  | none => exact Option.some.inj performed ▸ same
  | some a => exact keeps a performed

end Gone

end Pool

namespace MonitorLine

def At (clients : List Nat) (removing : Option (Uint × Nat)) : MonitorLine → Prop
  | .dispatch dwIndex pClient _ => removing = none ∧ clients[dwIndex.toNat]? = some pClient
  | .removeConnect dwIndex pClient _ => removing = none ∧ clients[dwIndex.toNat]? = some pClient
  | .removing dwIndex pClient _ => removing = some (dwIndex,pClient)
  | _ => removing = none

def Closing (pClient : Nat) : MonitorLine → Prop
  | .dispatch _ c lNetworkEvents => c = pClient ∧ reports lNetworkEvents fdClose = true
  | .removeConnect _ c _ => c = pClient
  | .removing _ c _ => c = pClient
  | _ => False

section Lines
variable {line line' : MonitorLine} {pThreadInfo : ThreadInfo} {answer : Answer} {clients : List Nat}
  {removing : Option (Uint × Nat)} {pClient : Nat}

theorem At.more {clients' : List Nat} (at' : line.At clients removing)
    (kept : ∀ i c : Nat, clients[i]? = some c → clients'[i]? = some c) : line.At clients' removing := by
  cases line with
  | dispatch | removeConnect => exact ⟨at'.1,kept _ _ at'.2⟩
  | _ => exact at'

theorem Closing.handles (closing : line.Closing pClient) : line.handles pClient = true := by
  cases line with
  | dispatch => exact beq_iff_eq.mpr closing.1
  | removeConnect | removing => exact beq_iff_eq.mpr closing
  | _ => cases closing

theorem fetchedCloses (fetched : line.fetchedClose = some pClient) : line.Closing pClient := by
  cases line with
  | dispatch dwIndex c lNetworkEvents =>
    simp only [fetchedClose] at fetched
    split at fetched
    · exact ⟨Option.some.inj fetched,‹_›⟩
    · cases fetched
  | _ => cases fetched

theorem nextAt {thread : Nat} (next : line.next pThreadInfo answer = some line') (idle : line.acts thread = none)
    (at' : line.At clients removing)
    (slots : ∀ dwIndex c, pThreadInfo.client dwIndex = some c → clients[dwIndex.toNat]? = some c) :
    line'.At clients removing := by
  cases goes next with
  | fetches here => exact ⟨at',slots _ _ here⟩
  | returns | nothing => exact at'.1
  | fails after => rcases after with rfl | rfl <;> exact at'
  | reads | removes => cases idle
  | _ => exact at'

theorem closingNext (next : line.next pThreadInfo answer = some line') (closing : line.Closing pClient)
    (returned : ∀ dwIndex c lNetworkEvents result, line = .dispatch dwIndex c lNetworkEvents →
      answer = .returned result → reports lNetworkEvents fdClose = true → result = -1) :
    line'.Closing pClient ∨ ∃ dwIndex inside, line = .removing dwIndex pClient inside := by
  cases goes next with
  | refuses | closes => exact .inl closing.1
  | returns kept => exact absurd (returned _ _ _ _ rfl rfl closing.2) kept
  | nothing none => cases none.symm.trans closing.2
  | reads => exact .inl closing
  | @removes dwIndex _ _ inside =>
    cases closing
    exact .inr ⟨dwIndex,inside,rfl⟩
  | _ => cases closing

end Lines

end MonitorLine

structure Tracked (objects : Nat → SockClient) (s : SocketServer) : Prop where
  inv : s.pool.Inv objects
  apart : s.pool.Apart
  line : ∀ thread, (s.monitor thread).At (s.pool.clients thread) (s.pool.removing thread)
  closed : ∀ thread pClient, (thread,pClient) ∈ s.closed →
    s.pool.Gone pClient ∨ (s.monitor thread).Closing pClient

section Track
variable {objects : Nat → SockClient} {s t : SocketServer} {a : SocketStep}

theorem startTracked : Tracked objects SocketServer.start where
  inv := Pool.startInv
  apart := Pool.startApart
  line thread := by
    change (Pool.start.m_pThreadPool[thread]?.map (·.removing)).getD none = none
    rw [Pool.start,List.getElem?_replicate]
    split
    · rfl
    · rfl
  closed _ _ member := by cases member

theorem listenKeeps {s t : Pool} {a : PoolStep} (moved : Pool.Moved objects s t a) (listens : a = .accept ∨ a = .adapt) :
    t.removing = s.removing ∧ ∀ thread i c : Nat, (s.clients thread)[i]? = some c → (t.clients thread)[i]? = some c := by
  cases moved with
  | accepts _ clients removing | passes _ _ _ _ clients removing | drops _ _ _ clients removing =>
    exact ⟨removing,fun thread i c here => by rwa [clients]⟩
  | @places pClient k _ _ _ clients removing =>
    refine ⟨removing,fun thread i c here => ?_⟩
    rw [clients]
    by_cases same : thread = k
    · rw [same] at here ⊢
      obtain ⟨inside,-⟩ := List.getElem?_eq_some_iff.mp here
      rwa [Function.update_self,List.getElem?_append_left inside]
    · rwa [Function.update_of_ne same]
  | reads | closes | checks => rcases listens with same | same <;> cases same

theorem performsElsewhere {line : MonitorLine} {s t : Pool} {thread other : Nat} (inv : s.Inv objects)
    (performed : s.perform objects (line.acts thread) = some t) (different : other ≠ thread) :
    t.clients other = s.clients other ∧ t.removing other = s.removing other := by
  cases line with
  | removeConnect dwIndex =>
    have moved : Pool.Moved objects s t (.readSlot thread dwIndex) := Pool.stepMoved performed inv
    cases moved with
    | reads _ _ _ clients removing =>
      rw [clients,removing,Function.update_of_ne different]
      exact ⟨rfl,rfl⟩
  | removing =>
    have moved : Pool.Moved objects s t (.closeGap thread) := Pool.stepMoved performed inv
    cases moved with
    | closes _ _ _ clients removing =>
      rw [clients,removing,Function.update_of_ne different,Function.update_of_ne different]
      exact ⟨rfl,rfl⟩
  | _ =>
    cases performed
    exact ⟨rfl,rfl⟩

theorem performsAt {line line' : MonitorLine} {s t : Pool} {thread : Nat} {p : PoolThread} {answer : Answer}
    (inv : s.Inv objects) (here : s.m_pThreadPool[thread]? = some p) (next : line.next p.info answer = some line')
    (performed : s.perform objects (line.acts thread) = some t)
    (at' : line.At (s.clients thread) (s.removing thread)) : line'.At (t.clients thread) (t.removing thread) := by
  have slots (dwIndex : Uint) (c : Nat) (client : p.info.client dwIndex = some c) :
      (s.clients thread)[dwIndex.toNat]? = some c := (holdsSlot (inv.thread here).holds).mp client
  cases acts : line.acts thread with
  | none =>
    rw [acts] at performed
    rw [← Option.some.inj performed]
    exact MonitorLine.nextAt next acts at' slots
  | some a =>
    cases goes next with
    | @reads dwIndex c =>
      have moved : Pool.Moved objects s t (.readSlot thread dwIndex) := Pool.stepMoved performed inv
      cases moved with
      | reads _ there _ _ removing =>
        rw [removing,Function.update_self]
        cases at'.2.symm.trans there
        rfl
    | removes =>
      have moved : Pool.Moved objects s t (.closeGap thread) := Pool.stepMoved performed inv
      cases moved with
      | closes _ _ _ _ removing =>
        rw [removing,Function.update_self]
        rfl
    | _ => cases acts

theorem performsClosed {line line' : MonitorLine} {s t : Pool} {thread pClient : Nat} {pThreadInfo : ThreadInfo}
    {answer : Answer} (inv : s.Inv objects) (apart : s.Apart) (at' : line.At (s.clients thread) (s.removing thread))
    (next : line.next pThreadInfo answer = some line') (performed : s.perform objects (line.acts thread) = some t)
    (closing : line.Closing pClient)
    (refused : ∀ dwIndex c lNetworkEvents result, line = .dispatch dwIndex c lNetworkEvents →
      answer = .returned result → reports lNetworkEvents fdClose = true → result = -1) :
    t.Gone pClient ∨ line'.Closing pClient := by
  rcases MonitorLine.closingNext next closing refused with closing' | ⟨dwIndex,inside,rfl⟩
  · exact .inr closing'
  · exact .inl (Pool.closeGone inv apart at' performed)

theorem stepTracked (step : SocketServer.step objects s a = some t) (returned : s.closeReturned a = true)
    (tracked : Tracked objects s) : Tracked objects t := by
  obtain ⟨inv,apart,line,closed⟩ := tracked
  cases stepped step with
  | accepts moved monitor same | adapts moved monitor same =>
    obtain ⟨removing,kept⟩ := listenKeeps (Pool.stepMoved moved inv) (by simp)
    refine ⟨Pool.stepInv moved inv,Pool.stepApart moved inv apart,fun thread => ?_,fun thread pClient member => ?_⟩
    · rw [monitor,removing]
      exact (line thread).more (kept thread)
    · rw [monitor]
      rw [same] at member
      exact (closed thread pClient member).imp_left (Pool.stepGone moved inv)
  | @goes changed answer p line' here next performed monitor same =>
    refine ⟨?_,?_,fun thread => ?_,fun thread pClient member => ?_⟩
    · exact Pool.performKeeps performed inv fun a moved => Pool.stepInv moved inv
    · exact Pool.performKeeps performed apart fun a moved => Pool.stepApart moved inv apart
    · rw [monitor]
      by_cases mine : thread = changed
      · rw [mine,Function.update_self]
        exact performsAt inv here next performed (line changed)
      · obtain ⟨clients,removing⟩ := performsElsewhere inv performed mine
        rw [Function.update_of_ne mine,clients,removing]
        exact line thread
    · rw [same] at member
      rcases List.mem_append.mp member with new | old
      · obtain ⟨c,fetched,pair⟩ := Option.map_eq_some_iff.mp (Option.mem_toList.mp new)
        cases pair
        rw [monitor,Function.update_self]
        exact .inr (MonitorLine.fetchedCloses fetched)
      · rcases closed thread pClient old with gone | closing
        · exact .inl (Pool.performKeeps performed gone fun a moved => Pool.stepGone moved inv gone)
        · rw [monitor]
          by_cases mine : thread = changed
          · rw [mine] at closing ⊢
            rw [Function.update_self]
            refine performsClosed inv apart (line changed) next performed closing ?_
            intro dwIndex c lNetworkEvents result dispatch answered close
            simpa [SocketServer.closeReturned,answered,dispatch,close] using returned
          · rw [Function.update_of_ne mine]
            exact .inr closing

end Track

section Run
variable {objects : Nat → SockClient} {acts : List SocketStep} {t : SocketServer}

theorem closedRemoved (run : follow (SocketServer.step objects) acts SocketServer.start = some t)
    (returned : Meets (SocketServer.step objects) (fun s a => s.closeReturned a = true) acts SocketServer.start)
    {thread pClient : Nat} (closed : (thread,pClient) ∈ t.closed)
    (ended : (t.monitor thread).handles pClient = false) (other slot : Nat) : ¬ t.pool.Occupies pClient other slot := by
  have tracked := meetsKeeps (I := Tracked objects) stepTracked run returned startTracked
  intro occupies
  have member := List.mem_of_getElem? ((Pool.occupies tracked.inv).mp occupies)
  rcases tracked.closed thread pClient closed with gone | closing
  · exact gone.2 other member
  · cases ended.symm.trans closing.handles

-- The last octets of a connection come with its end.
def lastRead (result : Int) : List SocketStep := [.accept,.adapt,.monitor 0 (.run true),.monitor 0 (.waited 0 0),
  .monitor 0 .go,.monitor 0 (.fetched (fdRead ||| fdClose)),.monitor 0 (.returned result)]

theorem closedRemovedShort : ∃ t, follow (SocketServer.step anyObject)
      (lastRead (-1) ++ [.monitor 0 .go,.monitor 0 .go]) SocketServer.start = some t ∧ (0,0) ∈ t.closed ∧
    (t.monitor 0).handles 0 = false ∧ ∀ other slot, ¬ t.pool.Occupies 0 other slot := by
  have fetched : (follow (SocketServer.step anyObject) (lastRead (-1) ++ [.monitor 0 .go,.monitor 0 .go])
      SocketServer.start).map (fun t => (t.closed,(t.monitor 0).handles 0)) = some ([(0,0)],false) := rfl
  have returned : Meets (SocketServer.step anyObject) (fun s a => s.closeReturned a = true)
      (lastRead (-1) ++ [.monitor 0 .go,.monitor 0 .go]) SocketServer.start := by decide +kernel
  obtain ⟨t,run,fetched⟩ := Option.map_eq_some_iff.mp fetched
  obtain ⟨all,ended⟩ := Prod.mk.inj fetched
  have closed : (0,0) ∈ t.closed := all ▸ List.mem_singleton_self _
  exact ⟨t,run,closed,ended,closedRemoved run returned closed ended⟩

theorem closedStays : ∃ t, follow (SocketServer.step anyObject) (lastRead 5) SocketServer.start = some t ∧
    (0,0) ∈ t.closed ∧ (t.monitor 0).handles 0 = false ∧ t.pool.Occupies 0 0 0 := by
  have stays : (follow (SocketServer.step anyObject) (lastRead 5) SocketServer.start).map (fun t =>
      (t.closed,(t.monitor 0).handles 0,t.pool.m_pThreadPool[0]?.map (·.info.pClientArray[0]?))) =
      some ([(0,0)],false,some (some (some 0))) := rfl
  obtain ⟨t,run,stays⟩ := Option.map_eq_some_iff.mp stays
  obtain ⟨all,stays⟩ := Prod.mk.inj stays
  obtain ⟨ended,there⟩ := Prod.mk.inj stays
  obtain ⟨p,here,slot⟩ := Option.map_eq_some_iff.mp there
  exact ⟨t,run,all ▸ List.mem_singleton_self _,ended,p,here,slot⟩

end Run

end JokeDse
