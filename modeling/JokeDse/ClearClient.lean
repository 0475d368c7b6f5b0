import JokeDse.Pool
import Mathlib.Data.List.Nodup

/-! ClearClient of CSocketServer (SocketUtils.h): it takes the clients out of the tables it walks through. -/
namespace JokeDse
open Slots

structure StartedThread where
  hThread : Bool
  info : ThreadInfo
  deriving DecidableEq, Repr

inductive Parting where
  | disConnect (pClient : Nat)
  | onDisConnect (pClient : Nat)
  deriving DecidableEq, Repr

def parting (pClient : Nat) : List Parting := [.disConnect pClient,.onDisConnect pClient]

def clearLoop : (fuel : Nat) → (n : Uint) → ThreadInfo → Option (List Parting × ThreadInfo)
  | 0, n, pThreadInfo => if n.toNat < pThreadInfo.dwEventCount.toNat then none else some ([],pThreadInfo)
  | fuel + 1, n, pThreadInfo =>
    if n.toNat < pThreadInfo.dwEventCount.toNat then do
      let (pClient,pThreadInfo) ← pThreadInfo.removeConnect n
      let (others,pThreadInfo) ← clearLoop fuel (n + 1) pThreadInfo
      some (parting pClient ++ others,pThreadInfo)
    else some ([],pThreadInfo)

def clearClient : List StartedThread → Option (List Parting × List StartedThread)
  | [] => some ([],[])
  | pThreadInfo :: rest => do
    -- every turn takes out one client
    let (parted,info) ←
      if pThreadInfo.hThread then clearLoop pThreadInfo.info.dwEventCount.toNat 0 pThreadInfo.info
      else some ([],pThreadInfo.info)
    let (others,rest) ← clearClient rest
    some (parted ++ others,{pThreadInfo with info} :: rest)

structure ThreadInfo.Packed (t : ThreadInfo) (clients : List Nat) : Prop where
  dwEventCount : t.dwEventCount.toNat = clients.length
  atMost : clients.length ≤ 64
  pClientArray : t.pClientArray = table none 64 (clients.map some)
  hEventArray : t.hEventArray.length = 64

section Clear
variable {t : ThreadInfo} {clients : List Nat}

theorem packedRemove (packed : t.Packed clients) {dwIndex : Uint} (inside : dwIndex.toNat < clients.length) :
    ∃ t', t.removeConnect dwIndex = some (clients[dwIndex.toNat],t') ∧ t'.Packed (clients.eraseIdx dwIndex.toNat) := by
  have atMost := packed.atMost
  have shorter : (clients.eraseIdx dwIndex.toNat).length = clients.length - 1 := List.length_eraseIdx_of_lt inside
  obtain ⟨hEventArray,events,length⟩ := gapDefined none inside (atMost.trans_eq packed.hEventArray.symm)
  obtain ⟨closed,lower⟩ := closeGapMoves packed.dwEventCount inside events
    (packed.pClientArray ▸ erasedMap some inside atMost)
  refine ⟨⟨hEventArray,table none 64 ((clients.eraseIdx dwIndex.toNat).map some),t.dwEventCount - 1⟩,?_,
    ⟨lower.trans shorter.symm,by omega,rfl,length.trans packed.hEventArray⟩⟩
  simp only [ThreadInfo.removeConnect,tableClient packed.pClientArray inside,closed,bind,Option.bind_some]

theorem packedNext {front rest : List Nat} {x : Nat} {n : Uint} (packed : t.Packed (front ++ x :: rest))
    (here : n.toNat = front.length) :
    n.toNat < t.dwEventCount.toNat ∧ (n + 1).toNat = front.length + 1 ∧
      ∃ t', t.removeConnect n = some (x,t') ∧ t'.Packed (front ++ rest) := by
  have count := packed.dwEventCount
  have atMost := packed.atMost
  rw [List.length_append,List.length_cons] at count atMost
  have inside : n.toNat < (front ++ x :: rest).length := by
    rw [List.length_append,List.length_cons]
    omega
  obtain ⟨t',removed,packed'⟩ := packedRemove packed inside
  refine ⟨by omega,?_,t',?_,?_⟩
  · have one : (1 : Uint).toNat = 1 := rfl
    rw [BitVec.toNat_add,here,one]
    exact Nat.mod_eq_of_lt (by omega)
  · rw [removed]
    simp only [here,List.getElem_append_right (Nat.le_refl _),Nat.sub_self,List.getElem_cons_zero]
  · rwa [here,List.eraseIdx_append_of_length_le (Nat.le_refl _),Nat.sub_self,List.eraseIdx_cons_zero] at packed'

theorem clearLoopOver {n : Uint} (beyond : t.dwEventCount.toNat ≤ n.toNat) (fuel : Nat) :
    clearLoop fuel n t = some ([],t) := by
  cases fuel with
  | zero => rw [clearLoop,if_neg (Nat.not_lt.mpr beyond)]
  | succ fuel => rw [clearLoop,if_neg (Nat.not_lt.mpr beyond)]

/-- The entry that moves into the gap is passed over, since `n` goes up as well. -/
theorem clearLoopEnds {front rest : List Nat} {n : Uint} {fuel : Nat} (packed : t.Packed (front ++ rest))
    (here : n.toNat = front.length) (fuelled : rest.length ≤ fuel) :
    ∃ t', clearLoop fuel n t = some ((taken rest).flatMap parting,t') ∧ t'.Packed (front ++ spared rest) := by
  induction rest using taken.induct generalizing t front n fuel with
  | case1 =>
    refine ⟨t,clearLoopOver ?_ fuel,packed⟩
    rw [packed.dwEventCount,List.append_nil,here]
  | case2 x =>
    obtain ⟨inside,next,t',removed,packed'⟩ := packedNext packed here
    obtain ⟨fuel,rfl⟩ : ∃ f, fuel = f + 1 := ⟨fuel - 1,by simp at fuelled; omega⟩
    refine ⟨t',?_,packed'⟩
    have beyond : t'.dwEventCount.toNat ≤ (n + 1).toNat := by
      rw [packed'.dwEventCount,List.append_nil,next]
      exact Nat.le_succ _
    simp only [clearLoop,if_pos inside,removed,bind,Option.bind_some,clearLoopOver beyond,taken,List.flatMap_cons,
      List.flatMap_nil]
  | case3 x y rest ih =>
    obtain ⟨inside,next,t',removed,packed'⟩ := packedNext packed here
    obtain ⟨fuel,rfl⟩ : ∃ f, fuel = f + 1 := ⟨fuel - 1,by simp at fuelled; omega⟩
    have passed : front ++ y :: rest = front ++ [y] ++ rest := by rw [List.append_assoc,List.singleton_append]
    rw [passed] at packed'
    have fewer : rest.length ≤ fuel := by simp only [List.length_cons] at fuelled; omega
    obtain ⟨t'',cleared,kept⟩ := ih packed' (by rw [next,List.length_append,List.length_singleton]) fewer
    refine ⟨t'',?_,?_⟩
    · simp only [clearLoop,if_pos inside,removed,bind,Option.bind_some,cleared,taken,List.flatMap_cons]
    · rwa [List.append_assoc,List.singleton_append] at kept

theorem clearClientEnds {pool : List StartedThread} (packed : ∀ p ∈ pool, p.info.Packed p.info.clients)
    (started : ∀ p ∈ pool, p.hThread = true) : ∃ cleared,
      clearClient pool = some (pool.flatMap fun p => (taken p.info.clients).flatMap parting,cleared) ∧
      cleared.map (·.info.dwEventCount.toNat) = pool.map (·.info.dwEventCount.toNat / 2) := by
  induction pool with
  | nil => exact ⟨[],rfl,rfl⟩
  | cons p pool ih =>
    have here := packed p List.mem_cons_self
    have all : p.info.Packed ([] ++ p.info.clients) := here
    obtain ⟨info,loop,left⟩ := clearLoopEnds (n := 0) all rfl (Nat.le_of_eq here.dwEventCount.symm)
    obtain ⟨cleared,rest,counts⟩ := ih (fun q member => packed q (List.mem_cons_of_mem _ member))
      fun q member => started q (List.mem_cons_of_mem _ member)
    refine ⟨{p with info} :: cleared,?_,?_⟩
    · simp only [clearClient,started p List.mem_cons_self,if_true,loop,rest,bind,Option.bind_some,List.flatMap_cons]
    · rw [List.map_cons,List.map_cons,counts,left.dwEventCount,List.nil_append,sparedLength,here.dwEventCount]

theorem partingCounts (clients : List Nat) (c : Nat) :
    (clients.flatMap parting).count (.disConnect c) = clients.count c ∧
    (clients.flatMap parting).count (.onDisConnect c) = clients.count c := by
  induction clients with
  | nil => exact ⟨rfl,rfl⟩
  | cons d clients ih =>
    simp only [List.flatMap_cons,List.count_append,ih.1,ih.2,List.count_cons,parting]
    by_cases same : d = c
    · simp [same,Nat.add_comm]
    · simp [same]

end Clear

theorem poolCleared {pool : List StartedThread} (packed : ∀ p ∈ pool, p.info.Packed p.info.clients)
    (distinct : (pool.flatMap (·.info.clients)).Nodup) (started : ∀ p ∈ pool, p.hThread = true) :
    (∃ parted cleared, clearClient pool = some (parted,cleared) ∧ (∀ p ∈ cleared, p.info.dwEventCount = 0) ∧
      ∀ c ∈ pool.flatMap (·.info.clients), parted.count (.disConnect c) = 1 ∧ parted.count (.onDisConnect c) = 1) ↔
    ∀ p ∈ pool, p.info.dwEventCount.toNat ≤ 1 := by
  obtain ⟨cleared,ends,counts⟩ := clearClientEnds packed started
  constructor
  · rintro ⟨parted,cleared',ends',zero,-⟩ p member
    rw [ends] at ends'
    cases ends'
    have half : p.info.dwEventCount.toNat / 2 ∈ cleared.map (·.info.dwEventCount.toNat) := by
      rw [counts]
      exact List.mem_map_of_mem member
    obtain ⟨q,member',same⟩ := List.mem_map.mp half
    rw [zero q member'] at same
    simp at same
    omega
  · intro short
    refine ⟨_,cleared,ends,fun p member => ?_,fun c member => ?_⟩
    · have half : p.info.dwEventCount.toNat ∈ pool.map (·.info.dwEventCount.toNat / 2) := by
        rw [← counts]
        exact List.mem_map_of_mem member
      obtain ⟨q,member',same⟩ := List.mem_map.mp half
      have few := short q member'
      exact BitVec.eq_of_toNat_eq (same.symm.trans (by simp; omega))
    · have all : (pool.flatMap fun p => (taken p.info.clients).flatMap parting) =
          (pool.flatMap (·.info.clients)).flatMap parting := by
        rw [List.flatMap_assoc]
        refine List.flatMap_congr fun p member => ?_
        have few : p.info.clients.length ≤ 1 := (packed p member).dwEventCount ▸ short p member
        rw [takenShort few]
      have once : (pool.flatMap (·.info.clients)).count c = 1 := List.count_eq_one_of_mem distinct member
      rw [all,(partingCounts _ c).1,(partingCounts _ c).2]
      exact ⟨once,once⟩

def holding (clients : List Nat) : StartedThread :=
  ⟨true,⟨table none 64 (clients.map some),table none 64 (clients.map some),BitVec.ofNat 32 clients.length⟩⟩

theorem holdingPacked {clients : List Nat} (few : clients.length ≤ 64) :
    (holding clients).info.Packed (holding clients).info.clients := by
  have same : (holding clients).info.clients = clients := tableEntries 64 clients
  have length : (table none 64 (clients.map some)).length = 64 := tableLength (by rwa [List.length_map])
  rw [same]
  refine ⟨?_,few,rfl,length⟩
  rw [holding,BitVec.toNat_ofNat]
  exact Nat.mod_eq_of_lt (by omega)

def someHolding (first : List Nat) : List StartedThread := holding first :: List.replicate 63 (holding [])

theorem someHoldingPacked {first : List Nat} (few : first.length ≤ 64) :
    (∀ p ∈ someHolding first, p.info.Packed p.info.clients) ∧ ∀ p ∈ someHolding first, p.hThread = true := by
  constructor
  · rintro p (_ | ⟨_,member⟩)
    · exact holdingPacked few
    · rw [List.eq_of_mem_replicate member]
      exact holdingPacked (Nat.zero_le 64)
  · rintro p (_ | ⟨_,member⟩)
    · rfl
    · rw [List.eq_of_mem_replicate member]
      rfl

theorem poolClearedShort :
    (∃ parted cleared, clearClient (someHolding [7]) = some (parted,cleared) ∧
      (∀ p ∈ cleared, p.info.dwEventCount = 0) ∧ ∀ c ∈ (someHolding [7]).flatMap (·.info.clients),
        parted.count (.disConnect c) = 1 ∧ parted.count (.onDisConnect c) = 1) ↔
    ∀ p ∈ someHolding [7], p.info.dwEventCount.toNat ≤ 1 :=
  poolCleared (someHoldingPacked (by decide)).1 (by decide +kernel) (someHoldingPacked (by decide)).2

theorem secondSpared :
    ((∀ p ∈ someHolding [7,8], p.info.Packed p.info.clients) ∧ ∀ p ∈ someHolding [7,8], p.hThread = true) ∧
    ∃ cleared, clearClient (someHolding [7,8]) = some (parting 7,cleared) ∧
      ∃ p ∈ cleared, p.info.clients = [8] ∧ p.info.dwEventCount = 1 := by
  refine ⟨someHoldingPacked (by decide),holding [8] :: List.replicate 63 (holding []),by decide +kernel,holding [8],
    List.mem_cons_self,by decide,by decide⟩

end JokeDse
