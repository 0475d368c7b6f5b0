import JokeDse.Sleepers
import Mathlib.Algebra.BigOperators.Group.Finset.Piecewise
import Mathlib.Algebra.Order.BigOperators.Group.Finset

/-! When Start cannot begin all its threads: it waits for the suspended ones that it has begun, and deletes a
ThreadParam twice if it ever returns. -/
namespace JokeDse
open Runs

namespace Service

structure Filled (s : Service) : Prop where
  counted : ∀ i, s.count i ≤ s.placed i
  offered : ∀ pClient i, s.server.pool.offered = some (pClient,i) → ∀ j < i, maxClients ≤ s.placed j
  before : ∀ i, 0 < s.placed i → i < maxThread ∧ ∀ j < i, maxClients ≤ s.placed j
  accepted : ∑ i ∈ Finset.range maxThread, s.placed i + (if s.server.pool.offered = none then 0 else 1) ≤
    s.server.pool.accepted
  resume : ∀ i, s.listen = .resume i → 0 < s.placed i
  ready : ∀ i, s.ready i = true → 0 < s.placed i
  moved : ∀ i, s.server.monitor i ≠ .loop → s.ready i = true

end Service

section Fill
variable {objects : Nat → SockClient} {s t : Service} {a : ServiceStep} {i : Nat}

theorem startFilled : Service.start.Filled where
  counted i := by
    show Pool.start.dwEventCount i ≤ 0
    rw [Pool.dwEventCount,Pool.start,List.getElem?_replicate]
    split <;> rfl
  offered _ _ offered := by cases offered
  before _ some := absurd some (Nat.lt_irrefl 0)
  accepted := by simp [Service.start,SocketServer.start,Pool.start]
  resume _ resume := by cases resume
  ready _ ready := by cases ready
  moved _ moved := absurd rfl moved

theorem callerFilled {succeeds : Bool} (taken : s.callerStep succeeds = some t) (running : s.caller.stops = false)
    (filled : s.Filled) : t.Filled := by
  have calls := callerCalls taken
  have pool : t.server.pool.offered = s.server.pool.offered ∧ t.server.pool.accepted = s.server.pool.accepted := by
    rcases calls.pool with same | ⟨j,-,zero⟩
    · rw [same]
      exact ⟨rfl,rfl⟩
    · rw [zero]
      exact ⟨rfl,rfl⟩
  have ready : t.ready = s.ready := by
    rcases calls.ready with same | ⟨j,here,-⟩
    · exact same
    · rw [here] at running
      cases running
  constructor
  · intro i
    rw [calls.placed]
    refine Nat.le_trans ?_ (filled.counted i)
    rcases calls.pool with same | ⟨j,-,zero⟩
    · rw [Service.count,Service.count,same]
    · rw [Service.count,zero,zeroCounts,Function.update_apply]
      split
      · exact Nat.zero_le _
      · exact Nat.le_refl _
  · rw [pool.1,calls.placed]
    exact filled.offered
  · rw [calls.placed]
    exact filled.before
  · rw [pool.1,pool.2,calls.placed]
    exact filled.accepted
  · intro i resume
    rw [calls.placed]
    rcases calls.listen with same | ⟨-,other⟩ | ⟨-,other⟩
    · exact filled.resume i (same ▸ resume)
    · cases other.symm.trans resume
    · cases other.symm.trans resume
  · rw [ready,calls.placed]
    exact filled.ready
  · rw [calls.monitor,ready]
    exact filled.moved

theorem monitorFilled {answer : Answer} (monitors : Monitors objects s t i answer) (begins : s.Begins)
    (filled : s.Filled) : t.Filled := by
  obtain ⟨acted,line,monitor,-⟩ := monitorActed monitors
  have aside := actedAside acted
  have rest := monitors.rest
  have placed : t.placed = s.placed := by rw [rest]
  have ready : t.ready = s.ready := by rw [rest]
  have listen : t.listen = s.listen := by rw [rest]
  constructor
  · intro j
    rw [placed]
    refine Nat.le_trans ?_ (filled.counted j)
    rcases eq_or_ne j i with rfl | other
    · rcases (actedCounts begins.fronts acted).2 with ⟨-,same⟩ | ⟨-,fewer⟩
      · exact Nat.le_of_eq same
      · exact Nat.le_of_lt (Nat.lt_of_lt_of_eq (Nat.lt_succ_self _) fewer)
    · exact Nat.le_of_eq (samePool (aside.elsewhere j other)).1
  · rw [aside.offered,placed]
    exact filled.offered
  · rw [placed]
    exact filled.before
  · rw [aside.offered,aside.accepted,placed]
    exact filled.accepted
  · rw [listen,placed]
    exact filled.resume
  · rw [ready,placed]
    exact filled.ready
  · intro j moved
    rw [ready]
    rw [monitor,Function.update_apply] at moved
    split at moved
    · rename_i same
      exact same ▸ monitors.ready
    · exact filled.moved j moved

theorem placedMore (placed : Nat → Nat) (i j : Nat) : placed j ≤ Function.update placed i (placed i + 1) j := by
  rw [Function.update_apply]
  split
  · rename_i same
    exact same ▸ Nat.le_succ _
  · exact Nat.le_refl _

theorem placedSum (placed : Nat → Nat) (inside : i < maxThread) :
    ∑ j ∈ Finset.range maxThread, Function.update placed i (placed i + 1) j =
      ∑ j ∈ Finset.range maxThread, placed j + 1 := by
  have member := Finset.mem_range.mpr inside
  rw [Finset.sum_update_of_mem member,Finset.sdiff_singleton_eq_erase,← Finset.add_sum_erase _ placed member]
  omega

theorem listenFilled (listens : Listens objects s t) (begins : s.Begins) (filled : s.Filled) : t.Filled := by
  cases listens with
  | looks =>
    refine ⟨filled.counted,filled.offered,filled.before,filled.accepted,fun i resume => ?_,filled.ready,filled.moved⟩
    dsimp only at resume
    split at resume <;> cases resume
  | refuses =>
    exact ⟨filled.counted,filled.offered,filled.before,filled.accepted,nofun,filled.ready,filled.moved⟩
  | @accepts pool here listening taken =>
    cases Pool.stepDoes taken with
    | accepts nobody =>
      refine ⟨filled.counted,?_,filled.before,?_,nofun,filled.ready,filled.moved⟩
      · intro pClient i offered j below
        cases offered
        exact absurd below (Nat.not_lt_zero j)
      · have before := filled.accepted
        rw [if_pos nobody,Nat.add_zero] at before
        dsimp only
        rw [if_neg nofun]
        exact Nat.add_le_add_right before 1
  | @passes pClient i pool here offered taken more =>
    obtain ⟨adapts,accepted⟩ := adapts offered taken
    cases adapts with
    | placed _ _ nobody | beyond _ nobody => exact absurd nobody more
    | full inside full next same =>
      obtain ⟨_,next⟩ := next
      have counts : pool.dwEventCount = s.server.pool.dwEventCount := funext fun j => (samePool (by rw [same])).1
      refine ⟨?_,?_,filled.before,?_,nofun,filled.ready,filled.moved⟩
      · intro j
        show pool.dwEventCount j ≤ s.placed j
        rw [counts]
        exact filled.counted j
      · intro c k later j below
        cases next.symm.trans later
        rcases Nat.lt_or_eq_of_le (Nat.le_of_lt_succ below) with earlier | rfl
        · exact filled.offered pClient i offered j earlier
        · exact Nat.le_trans full (filled.counted j)
      · have before := filled.accepted
        rw [if_neg (by rw [offered]; exact nofun)] at before
        dsimp only
        rw [if_neg more,accepted]
        exact before
  | @places pClient i pool here offered taken nobody inside =>
    obtain ⟨adapts,accepted⟩ := adapts offered taken
    cases adapts with
    | full _ _ next =>
      obtain ⟨_,next⟩ := next
      cases nobody.symm.trans next
    | beyond beyond =>
      rw [begins.fronts.length] at beyond
      exact absurd inside (Nat.not_lt.mpr beyond)
    | placed _ _ _ counts =>
      have more := placedMore s.placed i
      have some : 0 < Function.update s.placed i (s.placed i + 1) i := by
        rw [Function.update_self]
        exact Nat.succ_pos _
      refine ⟨?_,?_,?_,?_,?_,?_,filled.moved⟩
      · intro j
        show pool.dwEventCount j ≤ Function.update s.placed i (s.placed i + 1) j
        rw [counts,Function.update_apply,Function.update_apply]
        split
        · exact Nat.succ_le_succ (filled.counted i)
        · exact filled.counted j
      · intro c k later
        cases nobody.symm.trans later
      · intro k given
        dsimp only at given ⊢
        rcases eq_or_ne k i with rfl | other
        · exact ⟨inside,fun j below => (filled.offered pClient k offered j below).trans (more j)⟩
        · rw [Function.update_of_ne other] at given
          obtain ⟨inside,full⟩ := filled.before k given
          exact ⟨inside,fun j below => (full j below).trans (more j)⟩
      · have before := filled.accepted
        rw [if_neg (by rw [offered]; exact nofun)] at before
        dsimp only
        rw [if_pos nobody,accepted,placedSum s.placed inside]
        exact before
      · intro k resume
        dsimp only at resume ⊢
        split at resume <;> cases resume
        exact some
      · exact fun k ready => Nat.lt_of_lt_of_le (filled.ready k ready) (more k)
  | @drops pClient i pool here offered taken nobody beyond =>
    obtain ⟨adapts,accepted⟩ := adapts offered taken
    cases adapts with
    | full inside | placed inside =>
      rw [begins.fronts.length] at inside
      exact absurd inside (Nat.not_lt.mpr beyond)
    | beyond _ _ same =>
      refine ⟨?_,?_,filled.before,?_,nofun,filled.ready,filled.moved⟩
      · intro j
        show pool.dwEventCount j ≤ s.placed j
        rw [(samePool (by rw [same]) : pool.dwEventCount j = s.server.pool.dwEventCount j ∧ _).1]
        exact filled.counted j
      · intro c k later
        cases nobody.symm.trans later
      · have before := filled.accepted
        dsimp only
        rw [if_pos nobody,accepted]
        exact Nat.le_trans (Nat.add_le_add_left (Nat.zero_le _) _) before
  | @resumes i here =>
    refine ⟨filled.counted,filled.offered,filled.before,filled.accepted,nofun,fun j ready => ?_,fun j moved => ?_⟩
    · dsimp only at ready ⊢
      rw [Function.update_apply] at ready
      split at ready
      · rename_i same
        exact same ▸ filled.resume i here
      · exact filled.ready j ready
    · have ready := filled.moved j moved
      dsimp only
      rw [Function.update_apply]
      split
      · rename_i same
        rw [← same,ready,Bool.true_or]
      · exact ready

theorem stepFilled (taken : s.step objects a = some t) (kept : s.caller.stops = false → s.Begins ∧ s.Filled)
    (running : t.caller.stops = false) : t.Begins ∧ t.Filled := by
  obtain ⟨unstopped,before⟩ := stepStops taken running
  obtain ⟨begins,filled⟩ := kept before
  refine ⟨stepBegins taken (fun _ => begins) running,?_⟩
  cases a with
  | caller succeeds => exact callerFilled taken before filled
  | stop => exact absurd rfl unstopped
  | listen connected => exact listenFilled (listenListens taken) begins filled
  | monitor i answer => exact monitorFilled (monitorMonitors taken) begins filled

theorem runFilled {acts : List ServiceStep} (run : follow (Service.step objects) acts Service.start = some s)
    (running : s.caller.stops = false) : s.Begins ∧ s.Filled :=
  followKeeps (I := fun s : Service => s.caller.stops = false → s.Begins ∧ s.Filled) stepFilled run
    (fun _ => ⟨startBegins,startFilled⟩) running

theorem Service.Filled.enough (filled : s.Filled) (given : 0 < s.placed i) :
    maxClients * i + 1 ≤ s.server.pool.accepted := by
  obtain ⟨inside,full⟩ := filled.before i given
  have earlier : maxClients * i ≤ ∑ j ∈ Finset.range i, s.placed j := by
    have each := Finset.card_nsmul_le_sum (Finset.range i) s.placed maxClients fun j member =>
      full j (Finset.mem_range.mp member)
    rwa [Finset.card_range,nsmul_eq_mul,Nat.cast_id,Nat.mul_comm] at each
  have some : maxClients * i + 1 ≤ ∑ j ∈ Finset.range (i + 1), s.placed j := by
    rw [Finset.sum_range_succ]
    exact Nat.add_le_add earlier given
  have all : ∑ j ∈ Finset.range (i + 1), s.placed j ≤ ∑ j ∈ Finset.range maxThread, s.placed j :=
    Finset.sum_le_sum_of_subset (Finset.range_subset_range.mpr inside)
  exact some.trans (all.trans (Nat.le_trans (Nat.le_add_right _ _) filled.accepted))

end Fill

namespace CallerLine

def fails : CallerLine → Bool
  | .listenStop | .haltThread _ | .waitHalted | .freeParam _ | .started false => true
  | _ => false

def waited : CallerLine → Bool
  | .freeParam _ | .started false => true
  | _ => false

def frees (i : Nat) : CallerLine → Nat
  | .freeParam k => if i < k then 2 else 1
  | .started _ => 2
  | _ => 1

end CallerLine

namespace Service

def Begun (s : Service) : Prop := s.caller.begun ≠ none ∨ s.hThread (maxThread - 1) = true

structure Owns (s : Service) : Prop where
  last : s.caller.fails = true → s.hThread (maxThread - 1) = false
  once : s.Begun → ∀ i, s.deleted i ≤ 1 ∧ (s.server.monitor i ≠ .ended → s.deleted i = 0)
  allocated : s.caller.begun ≠ none → ∀ i, s.allocated i = true →
    s.hThread i = true ∨ s.caller = .zeroCount i ∨ s.caller = .beginMonitor i
  inside : ∀ i, s.allocated i = true → i < maxThread
  threads : ∀ i, s.hThread i = true → i < maxThread
  failed : s.caller.fails = true → ∀ i, s.allocated i = true → s.hThread i = false → s.deleted i = s.caller.frees i
  ended : s.caller.waited = true → ∀ i, s.hThread i = true → s.server.monitor i = .ended

end Service

section Own
variable {objects : Nat → SockClient} {s t : Service} {a : ServiceStep} {i : Nat}

theorem startOwns : Service.start.Owns where
  last := nofun
  once _ _ := ⟨Nat.zero_le _,fun _ => rfl⟩
  allocated _ _ := nofun
  inside _ := nofun
  threads _ := nofun
  failed := nofun
  ended := nofun

theorem Service.Owns.goesOn (owns : s.Owns) {caller : CallerLine} (t' : t = {s with
      server := t.server, caller := caller, listen := t.listen, m_bListenThreadRun := t.m_bListenThreadRun
      m_sServer := t.m_sServer, bRun := t.bRun, ready := t.ready, placed := t.placed})
    (monitor : t.server.monitor = s.server.monitor) (begun : caller.begun ≠ none → s.caller.begun ≠ none)
    (fails : caller.fails = true → s.caller.fails = true ∧ ∀ i, caller.frees i = s.caller.frees i)
    (waited : caller.waited = true → s.caller.waited = true)
    (allocated : caller.begun ≠ none → ∀ i, s.caller = .zeroCount i ∨ s.caller = .beginMonitor i →
      caller = .zeroCount i ∨ caller = .beginMonitor i) : t.Owns := by
  have same : t.caller = caller := by rw [t']
  have hThread : t.hThread = s.hThread := by rw [t']
  have deleted : t.deleted = s.deleted := by rw [t']
  have allocs : t.allocated = s.allocated := by rw [t']
  constructor
  · rw [same,hThread]
    exact fun failing => owns.last (fails failing).1
  · rw [Service.Begun,same,hThread,deleted,monitor]
    exact fun safe => owns.once (safe.imp_left begun)
  · rw [same,hThread,allocs]
    exact fun some i there => (owns.allocated (begun some) i there).imp_right (allocated some i)
  · exact allocs ▸ owns.inside
  · exact hThread ▸ owns.threads
  · rw [same,hThread,deleted,allocs]
    intro failing i there none
    rw [(fails failing).2 i]
    exact owns.failed (fails failing).1 i there none
  · rw [same,hThread,monitor]
    exact fun past => owns.ended (waited past)

theorem Service.Owns.leaves (owns : s.Owns) {caller : CallerLine} (here : s.caller = caller)
    (begun : caller.begun = some 0) (before : ∀ i, caller ≠ .zeroCount i ∧ caller ≠ .beginMonitor i)
    (none : ∀ i, s.hThread i = false) (m_sServer : Bool) :
    {s with m_sServer, caller := .listenStop : Service}.Owns where
  last _ := none _
  once safe := by
    rcases safe with some | all
    · exact absurd rfl some
    · cases (none _).symm.trans all
  allocated some := absurd rfl some
  inside := owns.inside
  threads := owns.threads
  failed _ i there unbegun := by
    rcases owns.allocated (by rw [here,begun]; exact nofun) i there with begun | same | same
    · cases unbegun.symm.trans begun
    · exact absurd (here.symm.trans same) (before i).1
    · exact absurd (here.symm.trans same) (before i).2
  ended := nofun

theorem freeParamOwns (owns : s.Owns) (here : s.caller = .freeParam i) {deleted : Nat → Nat}
    (same : deleted = if s.allocated i = true then Function.update s.deleted i (s.deleted i + 1) else s.deleted) :
    {s with
      deleted
      caller := if i + 1 < maxThread then .freeParam (i + 1) else .started false : Service}.Owns where
  last _ := owns.last (by rw [here]; rfl)
  once safe := by
    rcases safe with some | all
    · dsimp only at some
      split at some <;> exact absurd rfl some
    · cases (owns.last (by rw [here]; rfl)).symm.trans all
  allocated some := by
    dsimp only at some
    split at some <;> exact absurd rfl some
  inside := owns.inside
  threads := owns.threads
  failed _ j there none := by
    have before := owns.failed (by rw [here]; rfl) j there none
    have inside := owns.inside j there
    rw [here,CallerLine.frees] at before
    have freed : deleted j = if j < i + 1 then 2 else 1 := by
      rcases eq_or_ne j i with rfl | other
      · rw [if_neg (Nat.lt_irrefl j)] at before
        rw [same,if_pos there,Function.update_self,before,if_pos (Nat.lt_succ_self j)]
      · have kept : deleted j = s.deleted j := by
          rw [same]
          split
          · exact Function.update_of_ne other ..
          · rfl
        rw [kept,before]
        refine if_congr ?_ rfl rfl
        omega
    dsimp only
    rw [freed]
    rcases Nat.lt_or_ge (i + 1) maxThread with more | last
    · rw [if_pos more]
      rfl
    · rw [if_neg (Nat.not_lt.mpr last),if_pos (by omega)]
      rfl
  ended _ := owns.ended (by rw [here]; rfl)

theorem callerOwns {succeeds : Bool} (taken : s.callerStep succeeds = some t)
    (begins : s.caller.stops = false → s.Begins) (owns : s.Owns) : t.Owns := by
  unfold Service.callerStep at taken
  cases here : s.caller <;> simp only [here] at taken
  case started | stopped | faulted => cases taken
  case listenRun | stopListen | closeServer | resumeThread | closeListen =>
    cases taken
    refine owns.goesOn rfl rfl ?_ nofun nofun ?_ <;> rw [here]
    · exact id
    · exact fun _ _ other => by rcases other with other | other <;> cases other
  case waitThreads | waitListen =>
    split at taken <;> cases taken
    exact owns.goesOn rfl rfl nofun nofun nofun fun some => absurd rfl some
  case stopThread =>
    cases taken
    split
    · split <;> exact owns.goesOn rfl rfl nofun nofun nofun fun some => absurd rfl some
    · exact owns.goesOn rfl rfl nofun nofun nofun fun some => absurd rfl some
  case disConnect | loadClient =>
    cases taken
    split <;> exact owns.goesOn rfl rfl nofun nofun nofun fun some => absurd rfl some
  case createSocket | beginListen =>
    have none : ∀ i, s.hThread i = false := fun i => by
      have before := ((begins (by rw [here]; rfl)).begun 0 (by rw [here]; rfl)).2 i
      exact Bool.eq_false_iff.mpr fun begun => Nat.not_lt_zero i (before.mp begun)
    cases taken
    cases succeeds
    · exact owns.leaves here rfl (fun _ => ⟨nofun,nofun⟩) none _
    · refine owns.goesOn rfl rfl ?_ nofun nofun ?_ <;> rw [here]
      · exact fun _ => nofun
      · exact fun _ _ other => by rcases other with other | other <;> cases other
  case allocParam i =>
    cases taken
    have begun : s.caller.begun ≠ none := by rw [here]; exact nofun
    refine ⟨nofun,fun _ => owns.once (.inl begun),fun _ j there => ?_,fun j there => ?_,owns.threads,nofun,nofun⟩
    · rcases eq_or_ne j i with rfl | other
      · exact .inr (.inl rfl)
      · dsimp only at there
        rw [Function.update_of_ne other] at there
        refine .inl ((owns.allocated begun j there).resolve_right ?_)
        rw [here]
        exact fun other => by rcases other with other | other <;> cases other
    · rcases eq_or_ne j i with rfl | other
      · exact ((begins (by rw [here]; rfl)).begun j (by rw [here]; rfl)).1
      · dsimp only at there
        rw [Function.update_of_ne other] at there
        exact owns.inside j there
  case zeroCount i =>
    cases taken
    refine owns.goesOn rfl rfl ?_ nofun nofun ?_ <;> rw [here]
    · exact fun _ => nofun
    · exact fun _ j same => .inr (by rcases same with same | same <;> cases same; rfl)
  case beginMonitor i =>
    have begins := begins (by rw [here]; rfl)
    have begun : s.caller.begun ≠ none := by rw [here]; exact nofun
    obtain ⟨inside,before⟩ := begins.begun i (by rw [here]; rfl)
    have mine : ∀ j, s.allocated j = true → s.hThread j = true ∨ j = i := fun j there => by
      rcases owns.allocated begun j there with already | same | same
      · exact .inl already
      · cases here.symm.trans same
      · cases here.symm.trans same
        exact .inr rfl
    cases taken
    cases succeeds
    · have unbegun : s.hThread i = false := Bool.eq_false_iff.mpr fun already => Nat.lt_irrefl i ((before i).mp already)
      have last : s.hThread (maxThread - 1) = false := Bool.eq_false_iff.mpr fun all => by
        have below := (before _).mp all
        omega
      refine ⟨fun _ => last,fun safe => ?_,fun some => absurd rfl some,owns.inside,owns.threads,
        fun _ j there none => ?_,nofun⟩
      · rcases safe with some | all
        · exact absurd rfl some
        · cases last.symm.trans all
      · rcases mine j there with already | rfl
        · cases none.symm.trans already
        · show Function.update s.deleted j (s.deleted j + 1) j = 1
          rw [Function.update_self,(owns.once (.inl begun) j).2 (by rw [(begins.unbegun j unbegun).2]; exact nofun)]
    · refine ⟨fun fails => ?_,fun _ => owns.once (.inl begun),fun _ j there => .inl ?_,owns.inside,fun j already => ?_,
        fun fails => ?_,fun past => ?_⟩
      · simp only [if_true] at fails
        split at fails <;> cases fails
      · simp only [if_true,Function.update_apply]
        split
        · rfl
        · exact (mine j there).resolve_right ‹_›
      · rcases eq_or_ne j i with rfl | other
        · exact inside
        · simp only [if_true,Function.update_of_ne other] at already
          exact owns.threads j already
      · simp only [if_true] at fails
        split at fails <;> cases fails
      · simp only [if_true] at past
        split at past <;> cases past
  case listenStop =>
    cases taken
    exact owns.goesOn rfl rfl (fun some => absurd rfl some) (fun _ => by rw [here]; exact ⟨rfl,fun _ => rfl⟩) nofun
      fun some => absurd rfl some
  case haltThread =>
    cases taken
    split <;> exact owns.goesOn rfl rfl (fun some => absurd rfl some)
      (fun _ => by rw [here]; exact ⟨rfl,fun _ => rfl⟩) nofun fun some => absurd rfl some
  case waitHalted =>
    split at taken <;> cases taken
    rename_i ended
    have ended := List.all_eq_true.mp ended.1
    have failed := owns.failed (by rw [here]; rfl)
    rw [here] at failed
    refine ⟨fun _ => owns.last (by rw [here]; rfl),fun safe => owns.once (.inr ?_),fun some => absurd rfl some,owns.inside,
      owns.threads,fun _ => failed,fun _ i begun => ?_⟩
    · exact safe.resolve_left (absurd rfl)
    · have past := ended i (List.mem_range.mpr (owns.threads i begun))
      rw [begun] at past
      exact beq_iff_eq.mp past
  case freeParam i =>
    cases taken
    cases there : s.allocated i with
    | true => exact freeParamOwns owns here (by rw [there]; rfl)
    | false => exact freeParamOwns owns here (by rw [there]; rfl)

theorem goesRunning {info : ThreadInfo} {line line' : MonitorLine} {answer : Answer} (goes : Goes info line answer line') :
    line ≠ .ended := by
  cases goes <;> exact nofun

theorem goesStops {info : ThreadInfo} {line line' : MonitorLine} (goes : Goes info line (.run false) line') :
    line' = .ended := by
  cases goes
  rfl

theorem monitorOwns {answer : Answer} (monitors : Monitors objects s t i answer) (owns : s.Owns) : t.Owns := by
  obtain ⟨-,line,monitor,info,next,-⟩ := monitorActed monitors
  have goes := goes next
  have rest := monitors.rest
  have running := goesRunning goes
  have caller : t.caller = s.caller := by rw [rest]
  have hThread : t.hThread = s.hThread := by rw [rest]
  have allocated : t.allocated = s.allocated := by rw [rest]
  have elsewhere : ∀ j, j ≠ i → t.deleted j = s.deleted j := fun j other => by
    rcases monitors.deleted with ⟨-,freed⟩ | ⟨-,same⟩
    · rw [freed,Function.update_of_ne other]
    · rw [same]
  constructor
  · rw [caller,hThread]
    exact owns.last
  · rw [Service.Begun,caller,hThread]
    intro safe j
    rcases eq_or_ne j i with rfl | other
    · obtain ⟨-,none⟩ := owns.once safe j
      rw [monitor,Function.update_self]
      rcases monitors.deleted with ⟨rfl,freed⟩ | ⟨-,same⟩
      · rw [freed,Function.update_self,none running]
        exact ⟨Nat.le_refl 1,fun moving => absurd (goesStops goes) moving⟩
      · rw [same,none running]
        exact ⟨Nat.zero_le 1,fun _ => rfl⟩
    · rw [elsewhere j other,monitor,Function.update_of_ne other]
      exact owns.once safe j
  · rw [caller,hThread,allocated]
    exact owns.allocated
  · exact allocated ▸ owns.inside
  · exact hThread ▸ owns.threads
  · rw [caller,hThread,allocated]
    intro fails j there none
    have other : j ≠ i := fun same => by
      rw [same,monitors.hThread] at none
      cases none
    rw [elsewhere j other]
    exact owns.failed fails j there none
  · rw [caller,hThread]
    exact fun waited => absurd (owns.ended waited i monitors.hThread) running

theorem listenOwns (listens : Listens objects s t) (owns : s.Owns) : t.Owns := by
  have kept := listensKeeps listens
  refine @Service.Owns.goesOn _ _ owns s.caller ?_ kept.2.2 id (fun fails => ⟨fails,fun _ => rfl⟩) id fun _ _ => id
  cases listens <;> rfl

theorem stepOwns (taken : s.step objects a = some t) (kept : (s.caller.stops = false → s.Begins) ∧ s.Owns) :
    (t.caller.stops = false → t.Begins) ∧ t.Owns := by
  refine ⟨stepBegins taken kept.1,?_⟩
  cases a with
  | caller succeeds => exact callerOwns taken kept.1 kept.2
  | stop =>
    unfold Service.step at taken
    dsimp only at taken
    split at taken <;> cases taken
    split <;> exact kept.2.goesOn rfl rfl (fun some => absurd rfl some) nofun nofun fun some => absurd rfl some
  | listen connected => exact listenOwns (listenListens taken) kept.2
  | monitor i answer => exact monitorOwns (monitorMonitors taken) kept.2

theorem runOwns {acts : List ServiceStep} (run : follow (Service.step objects) acts Service.start = some s) : s.Owns :=
  (followKeeps (I := fun s : Service => (s.caller.stops = false → s.Begins) ∧ s.Owns) stepOwns run
    ⟨fun _ => startBegins,startOwns⟩).2

theorem startReturns {acts : List ServiceStep} (run : follow (Service.step objects) acts Service.start = some s) :
    (s.hThread (maxThread - 1) = true → ∀ i, s.deleted i ≤ 1) ∧
      (s.caller = .started false →
        (∀ i, s.hThread i = true → s.server.monitor i = .ended ∧ maxClients * i + 1 ≤ s.server.pool.accepted) ∧
        ∀ i, s.allocated i = true → s.hThread i = false → s.deleted i = 2) := by
  have owns := runOwns run
  refine ⟨fun all i => (owns.once (.inr all) i).1,fun here => ⟨fun i begun => ?_,fun i there none => ?_⟩⟩
  · obtain ⟨-,filled⟩ := runFilled run (by rw [here]; rfl)
    have ended := owns.ended (by rw [here]; rfl) i begun
    have moved := filled.moved i (by rw [ended]; exact nofun)
    exact ⟨ended,filled.enough (filled.ready i moved)⟩
  · rw [owns.failed (by rw [here]; rfl) i there none,here]
    rfl

end Own

def secondFails : List ServiceStep :=
  List.replicate 6 (.caller true) ++ List.replicate 4 (.listen true) ++ [.caller true,.caller true,.caller false] ++
    List.replicate 65 (.caller true) ++ [.listen true,.monitor 0 (.run false)] ++ List.replicate 65 (.caller true)

theorem startReturnsSecond : ∃ s, follow (Service.step anyObject) secondFails Service.start = some s ∧
    s.caller = .started false ∧ s.server.monitor 0 = .ended ∧ s.deleted 1 = 2 := by
  have made : (follow (Service.step anyObject) secondFails Service.start).map (fun s =>
      (s.caller,s.hThread 0,s.hThread 1,s.allocated 1)) = some (.started false,true,false,true) := by decide +kernel
  obtain ⟨s,run,same⟩ := Option.map_eq_some_iff.mp made
  simp only [Prod.mk.injEq] at same
  obtain ⟨here,first,second,there⟩ := same
  obtain ⟨ended,twice⟩ := (startReturns run).2 here
  exact ⟨s,run,here,(ended 0 first).1,twice 1 there second⟩

end JokeDse
