import JokeDse.Pool

/-! Where a client of CSocketServer stands: from the end of its accept to its RemoveConnect it keeps one slot
of one pool thread, unless every thread was full. -/
namespace JokeDse
open Runs Slots

theorem holdsSlot {objects : Nat → SockClient} {t : ThreadInfo} {clients : List Nat} (holds : t.Holds objects clients)
    {dwIndex : Uint} {pClient : Nat} : t.client dwIndex = some pClient ↔ clients[dwIndex.toNat]? = some pClient := by
  rw [ThreadInfo.client,Option.join_eq_some_iff,holds.pClientArray,tableHolds]

namespace Pool

def clients (s : Pool) (thread : Nat) : List Nat := (s.m_pThreadPool[thread]?.map (·.info.clients)).getD []

def removing (s : Pool) (thread : Nat) : Option (Uint × Nat) := (s.m_pThreadPool[thread]?.map (·.removing)).getD none

def Occupies (s : Pool) (pClient thread slot : Nat) : Prop :=
  ∃ p, s.m_pThreadPool[thread]? = some p ∧ p.info.pClientArray[slot]? = some (some pClient)

def OneSlot (s : Pool) (pClient thread : Nat) : Prop :=
  ∃ slot, ∀ other place, s.Occupies pClient other place ↔ other = thread ∧ place = slot

def removes (objects : Nat → SockClient) (s : Pool) : PoolStep → List Nat
  | .readSlot thread dwIndex => (s.m_pThreadPool[thread]?.bind (·.info.client dwIndex)).toList
  | .checkFreeClient thread perfTimeSpan =>
    ((s.m_pThreadPool[thread]?.bind (·.info.checkFreeClient objects perfTimeSpan)).map Prod.fst).getD []
  | _ => []

def room (s : Pool) : PoolStep → Bool
  | .adapt =>
    match s.offered with
    | none => true
    | some (_,i) => i + 1 != maxThread || s.m_pThreadPool[i]?.all fun p => p.info.dwEventCount.toNat < maxClients
  | _ => true

section Tables
variable {objects : Nat → SockClient} {s t : Pool} {i : Nat} {p p' : PoolThread}

theorem Inv.thread (inv : s.Inv objects) (here : s.m_pThreadPool[i]? = some p) :
    p.Inv objects s.next (s.clients i) := by
  obtain ⟨clients,held⟩ := inv.each p (List.mem_of_getElem? here)
  have same : s.clients i = clients := by
    rw [Pool.clients,here]
    exact holdsClients held.holds
  rwa [same]

theorem Inv.exists (inv : s.Inv objects) {c : Nat} (member : c ∈ s.clients i) :
    ∃ p, s.m_pThreadPool[i]? = some p ∧ p.Inv objects s.next (s.clients i) := by
  cases here : s.m_pThreadPool[i]? with
  | none =>
    rw [Pool.clients,here] at member
    cases member
  | some p => exact ⟨p,rfl,inv.thread here⟩

theorem Inv.fresh (inv : s.Inv objects) {pClient k : Nat} (offered : s.offered = some (pClient,k)) (i : Nat) :
    pClient ∉ s.clients i := by
  intro member
  obtain ⟨p,-,held⟩ := inv.exists member
  have earlier := held.earlier pClient member
  rw [nextOffered offered] at earlier
  exact Nat.lt_irrefl _ earlier

theorem Inv.unique (inv : s.Inv objects) {c j k : Nat} (here : (s.clients i)[j]? = some c)
    (there : (s.clients i)[k]? = some c) : j = k := by
  obtain ⟨p,-,held⟩ := inv.exists (List.mem_of_getElem? here)
  have distinct : (s.clients i).Nodup := held.holds.arrival.imp Nat.ne_of_lt
  obtain ⟨inside,-⟩ := List.getElem?_eq_some_iff.mp here
  exact (List.getElem?_inj inside distinct).mp (here.trans there.symm)

theorem fieldSet {β : Type} (field : PoolThread → β) (rest : β) (p' : PoolThread) {pool : List PoolThread}
    (here : pool[i]? = some p) :
    (fun j => ((pool.set i p')[j]?.map field).getD rest) =
      Function.update (fun j => (pool[j]?.map field).getD rest) i (field p') := by
  obtain ⟨inside,-⟩ := List.getElem?_eq_some_iff.mp here
  funext j
  by_cases same : j = i
  · rw [same,List.getElem?_set_self inside,Function.update_self]
    rfl
  · rw [List.getElem?_set_ne (Ne.symm same),Function.update_of_ne same]

theorem clientsSet (here : s.m_pThreadPool[i]? = some p) (pool : t.m_pThreadPool = s.m_pThreadPool.set i p') :
    t.clients = Function.update s.clients i p'.info.clients := by
  have set := fieldSet (·.info.clients) [] p' here
  rwa [← pool] at set

theorem removingSet (here : s.m_pThreadPool[i]? = some p) (pool : t.m_pThreadPool = s.m_pThreadPool.set i p') :
    t.removing = Function.update s.removing i p'.removing := by
  have set := fieldSet (·.removing) none p' here
  rwa [← pool] at set

theorem removingHere (here : s.m_pThreadPool[i]? = some p) : s.removing i = p.removing := by
  rw [Pool.removing,here]
  rfl

end Tables

inductive Moved (objects : Nat → SockClient) (s t : Pool) : PoolStep → Prop where
  | accepts (offered : t.offered = some (s.accepted,0)) (clients : t.clients = s.clients)
    (removing : t.removing = s.removing) (accepted : t.accepted = s.accepted + 1) : Moved objects s t .accept
  | passes {pClient i : Nat} (offered : s.offered = some (pClient,i)) (full : (s.clients i).length = 64)
    (inside : i < maxThread) (next : t.offered = some (pClient,i + 1)) (clients : t.clients = s.clients)
    (removing : t.removing = s.removing) (accepted : t.accepted = s.accepted) : Moved objects s t .adapt
  | drops {pClient i : Nat} (offered : s.offered = some (pClient,i)) (behind : maxThread ≤ i) (next : t.offered = none)
    (clients : t.clients = s.clients) (removing : t.removing = s.removing) (accepted : t.accepted = s.accepted) :
    Moved objects s t .adapt
  | places {pClient i : Nat} (offered : s.offered = some (pClient,i)) (inside : i < maxThread) (next : t.offered = none)
    (clients : t.clients = Function.update s.clients i (s.clients i ++ [pClient]))
    (removing : t.removing = s.removing) (accepted : t.accepted = s.accepted) : Moved objects s t .adapt
  | reads {thread : Nat} {dwIndex : Uint} {pClient : Nat}
    (removed : s.removes objects (.readSlot thread dwIndex) = [pClient])
    (here : (s.clients thread)[dwIndex.toNat]? = some pClient) (offered : t.offered = s.offered)
    (clients : t.clients = s.clients)
    (removing : t.removing = Function.update s.removing thread (some (dwIndex,pClient)))
    (accepted : t.accepted = s.accepted) : Moved objects s t (.readSlot thread dwIndex)
  | closes {thread : Nat} {dwIndex : Uint} {pClient : Nat} (reading : s.removing thread = some (dwIndex,pClient))
    (here : (s.clients thread)[dwIndex.toNat]? = some pClient) (offered : t.offered = s.offered)
    (clients : t.clients = Function.update s.clients thread ((s.clients thread).eraseIdx dwIndex.toNat))
    (removing : t.removing = Function.update s.removing thread none) (accepted : t.accepted = s.accepted) :
    Moved objects s t (.closeGap thread)
  | checks {thread : Nat} {perfTimeSpan : Nat → Rat} {out : Nat → Bool}
    (removed : s.removes objects (.checkFreeClient thread perfTimeSpan) = ((s.clients thread).filter out).reverse)
    (offered : t.offered = s.offered)
    (clients : t.clients = Function.update s.clients thread ((s.clients thread).filter fun c => !out c))
    (removing : t.removing = s.removing) (accepted : t.accepted = s.accepted) :
    Moved objects s t (.checkFreeClient thread perfTimeSpan)

section Moves
variable {objects : Nat → SockClient} {s t : Pool} {a : PoolStep}

theorem removingKept {i : Nat} {p p' : PoolThread} (here : s.m_pThreadPool[i]? = some p)
    (pool : t.m_pThreadPool = s.m_pThreadPool.set i p') (same : p'.removing = p.removing) : t.removing = s.removing := by
  rw [removingSet here pool,same,← removingHere here,Function.update_eq_self]

theorem Inv.threadAt (inv : s.Inv objects) {i : Nat} (inside : i < maxThread) :
    ∃ p, s.m_pThreadPool[i]? = some p ∧ p.Inv objects s.next (s.clients i) := by
  have there : i < s.m_pThreadPool.length := inv.threads.symm ▸ inside
  exact ⟨_,List.getElem?_eq_getElem there,inv.thread (List.getElem?_eq_getElem there)⟩

section Adapt
variable {pClient i : Nat}

theorem adaptPasses (inv : s.Inv objects) (offered : s.offered = some (pClient,i)) (inside : i < maxThread)
    (full : (s.clients i).length = 64) : step objects s .adapt = some {s with offered := some (pClient,i + 1)} := by
  obtain ⟨p,here,held⟩ := inv.threadAt inside
  have last := held.earlier
  rw [nextOffered offered] at last
  have adapted : p.info.adapt pClient (objects pClient).hSocketEvent = some (false,p.info) := by
    rcases holdsAdapt held.holds last with ⟨-,adapted⟩ | ⟨room,-⟩
    · exact adapted
    · omega
  have same : s.m_pThreadPool.set i p = s.m_pThreadPool := by
    obtain ⟨there,rfl⟩ := List.getElem?_eq_some_iff.mp here
    exact List.set_getElem_self there
  simp only [step,bind,offered,Option.bind_some,here,adapted,same,Bool.false_eq_true,if_false]

theorem adaptPlaces (inv : s.Inv objects) (offered : s.offered = some (pClient,i)) (inside : i < maxThread)
    (room : (s.clients i).length < 64) : ∃ t, step objects s .adapt = some t ∧ t.accepted = s.accepted ∧
      t.offered = none ∧ t.clients = Function.update s.clients i (s.clients i ++ [pClient]) ∧
      t.removing = s.removing := by
  obtain ⟨p,here,held⟩ := inv.threadAt inside
  have last := held.earlier
  rw [nextOffered offered] at last
  rcases holdsAdapt held.holds last with ⟨full,-⟩ | ⟨-,info,adapted,holds⟩
  · omega
  · refine ⟨{s with m_pThreadPool := s.m_pThreadPool.set i {p with info}, offered := none},?_,rfl,rfl,?_,
      removingKept here rfl rfl⟩
    · simp only [step,bind,offered,Option.bind_some,here,adapted,if_true]
    · rw [clientsSet here rfl,holdsClients holds]

theorem adaptDrops (inv : s.Inv objects) (offered : s.offered = some (pClient,i)) (behind : maxThread ≤ i) :
    step objects s .adapt = some {s with offered := none} := by
  have beyond : s.m_pThreadPool[i]? = none := List.getElem?_eq_none (inv.threads.symm ▸ behind)
  simp only [step,bind,offered,Option.bind_some,beyond]

end Adapt

theorem stepMoved (step : step objects s a = some t) (inv : s.Inv objects) : Moved objects s t a := by
  cases stepDoes step with
  | accepts => exact .accepts rfl rfl rfl rfl
  | drops offered beyond => exact .drops offered (inv.threads ▸ List.getElem?_eq_none_iff.mp beyond) rfl rfl rfl rfl
  | adapts offered here =>
    have inside := inv.threads ▸ (List.getElem?_eq_some_iff.mp here).1
    rcases Nat.lt_or_eq_of_le (inv.thread here).holds.atMost with room | full
    · obtain ⟨t',placed,accepted,next,clients,removing⟩ := adaptPlaces inv offered inside room
      cases placed.symm.trans step
      exact .places offered inside next clients removing accepted
    · rw [← Option.some.inj ((adaptPasses inv offered inside full).symm.trans step)]
      exact .passes offered full inside rfl rfl rfl rfl
  | @reads thread pClient dwIndex p here inside client =>
    have removed : s.removes objects (.readSlot thread dwIndex) = [pClient] := by
      rw [removes,here,Option.bind_some,client]
      rfl
    have there := (holdsSlot (inv.thread here).holds).mp client
    refine .reads removed there rfl ?_ (by rw [removingSet here rfl]) rfl
    rw [clientsSet here rfl,holdsClients (inv.thread here).holds,Function.update_eq_self]
  | closes here reading closed =>
    have held := inv.thread here
    have there := held.removing _ _ reading
    obtain ⟨inside,-⟩ := List.getElem?_eq_some_iff.mp there
    obtain ⟨info',closed',holds⟩ := holdsCloseGap held.holds inside
    cases closed'.symm.trans closed
    refine .closes ((removingHere here).trans reading) there rfl ?_ (by rw [removingSet here rfl]) rfl
    rw [clientsSet here rfl,holdsClients holds]
  | @checks thread perfTimeSpan p removed info here free checked =>
    obtain ⟨info',checked',holds⟩ := holdsCheck perfTimeSpan (inv.thread here).holds
    cases checked'.symm.trans checked
    have removed : s.removes objects (.checkFreeClient thread perfTimeSpan) =
        ((s.clients thread).filter (ThreadInfo.freeTimedOut objects perfTimeSpan)).reverse := by
      rw [removes,here,Option.bind_some,checked']
      rfl
    refine .checks removed rfl ?_ (removingKept here rfl rfl) rfl
    rw [clientsSet here rfl,holdsClients holds]

end Moves

def Apart (s : Pool) : Prop := ∀ i j c, c ∈ s.clients i → c ∈ s.clients j → i = j

def Stays (thread pClient : Nat) (s : Pool) : Prop :=
  pClient ∈ s.clients thread ∧ ∀ dwIndex, s.removing thread ≠ some (dwIndex,pClient)

section Keeping
variable {objects : Nat → SockClient} {s t : Pool} {a : PoolStep} {thread pClient : Nat}

theorem startClients (i : Nat) : start.clients i = [] := by
  rw [Pool.clients,start,List.getElem?_replicate]
  split
  · rfl
  · rfl

theorem startApart : start.Apart := by
  intro i j c member
  rw [startClients] at member
  cases member

theorem Apart.fewer (apart : s.Apart) (fewer : ∀ i c, c ∈ t.clients i → c ∈ s.clients i) : t.Apart :=
  fun i j c here there => apart i j c (fewer i c here) (fewer j c there)

theorem updateMembers {clients : Nat → List Nat} {i j c : Nat} {l : List Nat}
    (member : c ∈ Function.update clients i l j) (kept : c ∈ l → c ∈ clients i) : c ∈ clients j := by
  by_cases same : j = i
  · rw [same,Function.update_self] at member
    exact same ▸ kept member
  · rwa [Function.update_of_ne same] at member

theorem memberUpdated {clients : Nat → List Nat} {i j c : Nat} {l : List Nat} (member : c ∈ clients j)
    (kept : j = i → c ∈ l) : c ∈ Function.update clients i l j := by
  by_cases same : j = i
  · rw [same,Function.update_self]
    exact kept same
  · rwa [Function.update_of_ne same]

theorem stepApart (step : step objects s a = some t) (inv : s.Inv objects) (apart : s.Apart) : t.Apart := by
  cases stepMoved step inv with
  | accepts _ clients | passes _ _ _ _ clients | drops _ _ _ clients | reads _ _ _ clients =>
    exact apart.fewer fun i c member => clients ▸ member
  | closes _ _ _ clients =>
    refine apart.fewer fun i c member => ?_
    rw [clients] at member
    exact updateMembers member List.mem_of_mem_eraseIdx
  | checks _ _ clients =>
    refine apart.fewer fun i c member => ?_
    rw [clients] at member
    exact updateMembers member fun member => (List.mem_filter.mp member).1
  | @places pClient k offered _ _ clients =>
    have fresh := inv.fresh offered
    have split {j c : Nat} (member : c ∈ t.clients j) : c ∈ s.clients j ∨ c = pClient ∧ j = k := by
      rw [clients] at member
      by_cases same : j = k
      · rw [same,Function.update_self] at member
        rcases List.mem_append.mp member with old | new
        · exact .inl (same ▸ old)
        · exact .inr ⟨List.mem_singleton.mp new,same⟩
      · rw [Function.update_of_ne same] at member
        exact .inl member
    intro i j c here there
    rcases split here with old | ⟨rfl,rfl⟩
    · rcases split there with old' | ⟨rfl,rfl⟩
      · exact apart i j c old old'
      · exact absurd old (fresh i)
    · rcases split there with old' | ⟨-,same⟩
      · exact absurd old' (fresh j)
      · exact same.symm

theorem stepStays (step : step objects s a = some t) (inv : s.Inv objects) (kept : pClient ∉ s.removes objects a)
    (stays : s.Stays thread pClient) : t.Stays thread pClient := by
  obtain ⟨member,free⟩ := stays
  cases stepMoved step inv with
  | accepts _ clients removing | passes _ _ _ _ clients removing | drops _ _ _ clients removing =>
    rw [Stays,clients,removing]
    exact ⟨member,free⟩
  | @places c i _ _ _ clients removing =>
    rw [Stays,clients,removing]
    exact ⟨memberUpdated member fun same => List.mem_append_left _ (same ▸ member),free⟩
  | @reads i dwIndex c removed _ _ clients removing =>
    rw [Stays,clients,removing]
    refine ⟨member,fun dwIndex' => ?_⟩
    by_cases same : thread = i
    · rw [same,Function.update_self]
      rintro reading
      cases reading
      exact kept (removed ▸ List.mem_singleton_self _)
    · rw [Function.update_of_ne same]
      exact free dwIndex'
  | @closes i dwIndex c reading here _ clients removing =>
    rw [Stays,clients,removing]
    refine ⟨memberUpdated member fun same => ?_,fun dwIndex' => ?_⟩
    · rw [same] at member free
      obtain ⟨slot,there⟩ := List.mem_iff_getElem?.mp member
      refine List.mem_eraseIdx_iff_getElem?.mpr ⟨slot,fun gone => ?_,there⟩
      rw [gone,here] at there
      cases there
      exact free dwIndex reading
    · by_cases same : thread = i
      · rw [same,Function.update_self]
        exact nofun
      · rw [Function.update_of_ne same]
        exact free dwIndex'
  | @checks i perfTimeSpan out removed _ clients removing =>
    rw [Stays,clients,removing]
    refine ⟨memberUpdated member fun same => ?_,free⟩
    rw [same] at member
    refine List.mem_filter.mpr ⟨member,?_⟩
    rw [Bool.not_eq_true',Bool.eq_false_iff]
    intro picked
    exact kept (removed ▸ List.mem_reverse.mpr (List.mem_filter.mpr ⟨member,picked⟩))

theorem occupies (inv : s.Inv objects) {other place : Nat} :
    s.Occupies pClient other place ↔ (s.clients other)[place]? = some pClient := by
  constructor
  · rintro ⟨p,here,entry⟩
    rw [(inv.thread here).holds.pClientArray] at entry
    exact tableHolds.mp entry
  · intro entry
    obtain ⟨p,here,held⟩ := inv.exists (List.mem_of_getElem? entry)
    refine ⟨p,here,?_⟩
    rw [held.holds.pClientArray]
    exact tableHolds.mpr entry

theorem Stays.oneSlot (stays : s.Stays thread pClient) (inv : s.Inv objects) (apart : s.Apart) :
    s.OneSlot pClient thread := by
  obtain ⟨slot,here⟩ := List.mem_iff_getElem?.mp stays.1
  refine ⟨slot,fun other place => ?_⟩
  rw [occupies inv]
  constructor
  · intro there
    have same : other = thread := apart other thread pClient (List.mem_of_getElem? there) stays.1
    rw [same] at there
    exact ⟨same,inv.unique there here⟩
  · rintro ⟨rfl,rfl⟩
    exact here

def Offers (s : Pool) : Prop := ∀ pClient i, s.offered = some (pClient,i) → i < maxThread

theorem stepOffers (step : step objects s a = some t) (inv : s.Inv objects) (room : s.room a = true)
    (offers : s.Offers) : t.Offers := by
  intro pClient j same
  cases stepMoved step inv with
  | accepts offered =>
    rw [offered] at same
    cases same
    exact Nat.zero_lt_succ 63
  | drops _ _ next | places _ _ next =>
    rw [next] at same
    cases same
  | reads _ _ offered | closes _ _ offered | checks _ offered => exact offers pClient j (offered ▸ same)
  | @passes c i offered full inside next =>
    rw [next] at same
    cases same
    refine Nat.lt_of_le_of_ne inside fun last => ?_
    obtain ⟨p,here,held⟩ := inv.threadAt inside
    have count := held.holds.dwEventCount
    simp [Pool.room,offered,last,here,count,full,maxClients] at room

end Keeping

section Placed
variable {objects : Nat → SockClient} {acts : List PoolStep} {s t : Pool} {pClient i : Nat}

theorem clientPlaced (inv : s.Inv objects) (offered : s.offered = some (pClient,i)) (inside : i < maxThread)
    (handled : step objects s .adapt = some t) (done : t.offered = none) : t.Stays i pClient := by
  cases stepMoved handled inv with
  | passes _ _ _ next =>
    rw [next] at done
    cases done
  | drops same behind =>
    rw [offered] at same
    cases same
    exact absurd inside (Nat.not_lt.mpr behind)
  | places same _ _ clients removing =>
    rw [offered] at same
    cases same
    rw [Stays,clients,removing,Function.update_self]
    refine ⟨List.mem_append_right _ (List.mem_singleton_self _),fun dwIndex reading => ?_⟩
    obtain ⟨p,here,held⟩ := inv.threadAt inside
    exact inv.fresh offered i (List.mem_of_getElem? (held.removing dwIndex pClient (removingHere here ▸ reading)))

end Placed

end Pool

section Run
variable {objects : Nat → SockClient} {acts : List PoolStep} {s t : Pool} {pClient i : Nat}

theorem clientsPlaced (run : follow (Pool.step objects) acts Pool.start = some s)
    (offered : s.offered = some (pClient,i)) (handled : Pool.step objects s .adapt = some t)
    (done : t.offered = none)
    (room : Meets (Pool.step objects) (fun s a => s.room a = true) (acts ++ [.adapt]) Pool.start) :
    ∃ thread, t.OneSlot pClient thread ∧ ∀ more u, follow (Pool.step objects) more t = some u →
      Meets (Pool.step objects) (fun s a => pClient ∉ s.removes objects a) more t → u.OneSlot pClient thread := by
  have inv : s.Inv objects ∧ s.Apart ∧ s.Offers := by
    refine meetsKeeps (I := fun s => s.Inv objects ∧ s.Apart ∧ s.Offers) ?_ run (meetsAppend room run).1
      ⟨Pool.startInv,Pool.startApart,fun _ _ offered => by cases offered⟩
    rintro s a t step room ⟨inv,apart,offers⟩
    exact ⟨Pool.stepInv step inv,Pool.stepApart step inv apart,Pool.stepOffers step inv room offers⟩
  obtain ⟨inv,apart,offers⟩ := inv
  have inv' := Pool.stepInv handled inv
  have apart' := Pool.stepApart handled inv apart
  have stays := Pool.clientPlaced inv offered (offers pClient i offered) handled done
  refine ⟨i,stays.oneSlot inv' apart',fun more u further kept => ?_⟩
  have later : u.Inv objects ∧ u.Apart ∧ u.Stays i pClient := by
    refine meetsKeeps (I := fun s => s.Inv objects ∧ s.Apart ∧ s.Stays i pClient) ?_ further kept ⟨inv',apart',stays⟩
    rintro s a t step kept ⟨inv,apart,stays⟩
    exact ⟨Pool.stepInv step inv,Pool.stepApart step inv apart,Pool.stepStays step inv kept stays⟩
  exact later.2.2.oneSlot later.1 later.2.1

theorem clientsPlacedShort : ∃ s t, follow (Pool.step anyObject) (oneLeaves ++ [.accept]) Pool.start = some s ∧
    Pool.step anyObject s .adapt = some t ∧ ∃ thread, t.OneSlot 2 thread ∧
      ∀ more u, follow (Pool.step anyObject) more t = some u →
        Meets (Pool.step anyObject) (fun s a => 2 ∉ s.removes anyObject a) more t → u.OneSlot 2 thread := by
  have handled : (follow (Pool.step anyObject) ((oneLeaves ++ [.accept]) ++ [.adapt]) Pool.start).map (·.offered) =
      some none := rfl
  have accepted : (follow (Pool.step anyObject) (oneLeaves ++ [.accept]) Pool.start).map (·.offered) =
      some (some (2,0)) := rfl
  have room : Meets (Pool.step anyObject) (fun s a => s.room a = true) ((oneLeaves ++ [.accept]) ++ [.adapt])
      Pool.start := by decide +kernel
  obtain ⟨t,run,done⟩ := Option.map_eq_some_iff.mp handled
  rw [followAppend,Option.bind_eq_some_iff] at run
  obtain ⟨s,run,adapt⟩ := run
  obtain ⟨next,placed,rest⟩ := followCons adapt
  cases rest
  rw [run] at accepted
  exact ⟨s,_,run,placed,clientsPlaced run (Option.some.inj accepted) placed done room⟩

section Full

def handle (c : Nat) : List PoolStep := .accept :: List.replicate (c / 64 + 1) .adapt

structure Filled (objects : Nat → SockClient) (n : Nat) (s : Pool) : Prop where
  inv : s.Inv objects
  offered : s.offered = none
  accepted : s.accepted = n
  lengths : ∀ i < maxThread, (s.clients i).length = min 64 (n - 64 * i)

theorem passesAll (d : Nat) (inv : s.Inv objects) (offered : s.offered = some (pClient,i)) (inside : i + d ≤ maxThread)
    (full : ∀ j < i + d, (s.clients j).length = 64) :
    follow (Pool.step objects) (List.replicate d .adapt) s = some {s with offered := some (pClient,i + d)} := by
  induction d generalizing s i with
  | zero =>
    rw [Nat.add_zero,← offered]
    rfl
  | succ d ih =>
    have passes := Pool.adaptPasses inv offered (by omega) (full i (by omega))
    rw [List.replicate_succ,follow,passes,Option.bind_some]
    have rest := ih (Pool.stepInv passes inv) rfl (by omega) fun j below => full j (by omega)
    rw [rest,Nat.add_right_comm,Nat.add_assoc]

theorem acceptOffers (inv : s.Inv objects) (offered : s.offered = none) : ∃ t, Pool.step objects s .accept = some t ∧
    t.Inv objects ∧ t.offered = some (s.accepted,0) ∧ t.accepted = s.accepted + 1 ∧ t.clients = s.clients := by
  have accepted : Pool.step objects s .accept =
      some {s with accepted := s.accepted + 1, offered := some (s.accepted,0)} := by
    simp only [Pool.step,offered]
  exact ⟨_,accepted,Pool.stepInv accepted inv,rfl,rfl,rfl⟩

theorem fillsNext {n : Nat} (filled : Filled objects n s) (room : n < 4096) :
    ∃ t, follow (Pool.step objects) (handle n) s = some t ∧ Filled objects (n + 1) t := by
  obtain ⟨s1,accepted,inv,offered,count,same⟩ := acceptOffers filled.inv filled.offered
  have lengths := filled.lengths
  rw [← same] at lengths
  have threads : n / 64 < maxThread := by
    unfold maxThread
    omega
  have passed := passesAll (n / 64) inv offered (by omega) fun j below => by
    rw [lengths j (by omega)]
    omega
  rw [Nat.zero_add] at passed
  have inv' := followKeeps Pool.stepInv passed inv
  obtain ⟨t,placed,accepted',done,clients,-⟩ := Pool.adaptPlaces inv' rfl threads (by
    have here := lengths (n / 64) threads
    change (s1.clients (n / 64)).length < 64
    omega)
  refine ⟨t,?_,⟨Pool.stepInv placed inv',done,?_,fun i inside => ?_⟩⟩
  · rw [handle,List.replicate_succ',follow,accepted,Option.bind_some,followAppend,passed,Option.bind_some,follow,
      placed]
    rfl
  · rw [accepted',count,filled.accepted]
  · have here := lengths i inside
    rw [clients]
    by_cases same : i = n / 64
    · rw [same,Function.update_self,List.length_append,List.length_singleton]
      change (s1.clients (n / 64)).length + 1 = _
      rw [same] at here
      omega
    · rw [Function.update_of_ne same]
      change (s1.clients i).length = _
      omega

theorem fills {n : Nat} (few : n ≤ 4096) : ∃ s, follow (Pool.step objects) ((List.range n).flatMap handle) Pool.start =
    some s ∧ Filled objects n s := by
  induction n with
  | zero =>
    refine ⟨Pool.start,rfl,Pool.startInv,rfl,rfl,fun i inside => ?_⟩
    rw [Pool.startClients,Nat.zero_sub]
    rfl
  | succ n ih =>
    obtain ⟨s,run,filled⟩ := ih (by omega)
    obtain ⟨t,next,filled'⟩ := fillsNext filled few
    refine ⟨t,?_,filled'⟩
    rw [List.range_succ,List.flatMap_append,List.flatMap_singleton,followAppend,run,Option.bind_some,next]

theorem lastDropped : ∃ s t, follow (Pool.step anyObject)
      ((List.range 4096).flatMap handle ++ .accept :: List.replicate 64 .adapt) Pool.start = some s ∧
    s.offered = some (4096,64) ∧ Pool.step anyObject s .adapt = some t ∧ t.offered = none ∧
    ∀ thread slot, ¬ t.Occupies 4096 thread slot := by
  obtain ⟨s,run,filled⟩ := @fills anyObject 4096 (Nat.le_refl _)
  obtain ⟨s1,accepted,inv,offered,-,same⟩ := acceptOffers filled.inv filled.offered
  rw [filled.accepted] at offered
  have passed := passesAll 64 inv offered (Nat.le_refl _) fun j below => by
    rw [same,filled.lengths j below]
    omega
  have inv' := followKeeps Pool.stepInv passed inv
  refine ⟨_,_,?_,rfl,Pool.adaptDrops inv' rfl (Nat.le_refl _),rfl,fun thread slot occupies => ?_⟩
  · rw [followAppend,run,Option.bind_some,follow,accepted,Option.bind_some,passed]
  · exact inv'.fresh rfl thread (List.mem_of_getElem? ((Pool.occupies inv').mp occupies))

end Full

end Run

end JokeDse
