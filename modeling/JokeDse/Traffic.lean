import JokeDse.StatSection
import JokeDse.Lib.Runs

/-! The traffic of a CSockClient over its life. CheckListSection erases samples while Recv and Send append
others; what it returns is what it would return if every sample were still there. -/
namespace JokeDse
open Runs

structure Measured where
  statList : List StreamStat
  dfAvg : Rat
  deriving DecidableEq, Repr

inductive Measure where
  | push (stat : StreamStat)
  | check (dfNow : Rat) (entered : Bool)
  deriving DecidableEq, Repr

def Measured.step (m_nStatSection : Uint) (s : Measured) : Measure → Option Measured
  | .push stat => some {s with statList := s.statList ++ [stat]}
  | .check _ false => some s
  | .check dfNow true => (checkListSection dfNow m_nStatSection s.statList).map fun r => ⟨r.2,r.1⟩

structure Traffic where
  recv : Measured
  send : Measured
  m_nTotalRecv : BitVec 64
  m_nTotalSend : BitVec 64
  deriving DecidableEq, Repr

inductive TrafficStep where
  | recv (nRecvNum : Int) (dfTime : Rat)
  | send (nSendNum : Int) (dfTime : Rat)
  | checkRecv (dfNow : Rat) (entered : Bool)
  | checkSend (dfNow : Rat) (entered : Bool)
  deriving DecidableEq, Repr

section Steps
variable (m_bEnableStreamStat : Bool) (m_nStatSection : Uint)

namespace Traffic

def new : Traffic := ⟨⟨[],0⟩,⟨[],0⟩,0,0⟩

/-- Recv with a buffer counts m_nTotalRecv only while the statistic is enabled; Send always counts. -/
def step (s : Traffic) : TrafficStep → Option Traffic
  | .recv nRecvNum dfTime =>
    if nRecvNum ≠ 0 ∧ nRecvNum ≠ -1 then
      if m_bEnableStreamStat then
        some {s with
          recv := {s.recv with statList := s.recv.statList ++ [⟨dfTime,toUint nRecvNum⟩]}
          m_nTotalRecv := s.m_nTotalRecv + BitVec.ofInt 64 nRecvNum}
      else some s
    else some s
  | .send nSendNum dfTime =>
    if 0 ≤ nSendNum then
      let m_nTotalSend := s.m_nTotalSend + BitVec.ofInt 64 nSendNum
      if m_bEnableStreamStat then
        some {s with send := {s.send with statList := s.send.statList ++ [⟨dfTime,toUint nSendNum⟩]}, m_nTotalSend}
      else some {s with m_nTotalSend}
    else some s
  | .checkRecv dfNow entered => (s.recv.step m_nStatSection (.check dfNow entered)).map fun recv => {s with recv}
  | .checkSend dfNow entered => (s.send.step m_nStatSection (.check dfNow entered)).map fun send => {s with send}

end Traffic

def TrafficStep.received : TrafficStep → Option Measure
  | .recv nRecvNum dfTime =>
    if nRecvNum ≠ 0 ∧ nRecvNum ≠ -1 ∧ m_bEnableStreamStat then some (.push ⟨dfTime,toUint nRecvNum⟩) else none
  | .checkRecv dfNow entered => some (.check dfNow entered)
  | _ => none

def TrafficStep.sent : TrafficStep → Option Measure
  | .send nSendNum dfTime =>
    if 0 ≤ nSendNum ∧ m_bEnableStreamStat then some (.push ⟨dfTime,toUint nSendNum⟩) else none
  | .checkSend dfNow entered => some (.check dfNow entered)
  | _ => none

end Steps

/-! The same without erasing. -/

def average (dfNow : Rat) (m_nStatSection : Uint) (all : List StreamStat) : Rat :=
  (1000 * sectionSum dfNow m_nStatSection all % 2 ^ 32 / m_nStatSection.toNat : Nat)

def Measured.plain (m_nStatSection : Uint) (s : Measured) : Measure → Measured
  | .push stat => {s with statList := s.statList ++ [stat]}
  | .check _ false => s
  | .check dfNow true => {s with dfAvg := average dfNow m_nStatSection s.statList}

def pushTimes (acts : List Measure) : List Rat :=
  acts.filterMap fun
    | .push stat => some stat.dfTime
    | _ => none

def checkTimes (acts : List Measure) : List Rat :=
  acts.filterMap fun
    | .check dfNow _ => some dfNow
    | _ => none

section Pruning
variable {m_nStatSection : Uint} {dfNow : Rat} {stats gone : List StreamStat} {s t u : Measured}

theorem laterExpired {stat : StreamStat} {later : Rat} (outside : inSection dfNow m_nStatSection stat = false)
    (order : dfNow ≤ later) : inSection later m_nStatSection stat = false := by
  rw [inSection,decide_eq_false_iff_not,not_le] at outside ⊢
  refine outside.trans_le ?_
  gcongr

theorem olderExpired {stat older : StreamStat} (outside : inSection dfNow m_nStatSection stat = false)
    (order : older.dfTime ≤ stat.dfTime) : inSection dfNow m_nStatSection older = false := by
  rw [inSection,decide_eq_false_iff_not,not_le] at outside ⊢
  refine outside.trans_le ?_
  gcongr

theorem averageFrom (expired : ∀ stat ∈ gone, inSection dfNow m_nStatSection stat = false) :
    average dfNow m_nStatSection (gone ++ stats) = average dfNow m_nStatSection stats := by
  have nothing : within dfNow m_nStatSection gone = [] := by
    rw [within,List.filter_eq_nil_iff]
    intro stat member
    simp [expired stat member]
  rw [average,average,sectionSum,sectionSum,within,List.filter_append,← within,nothing,List.nil_append,← within]

theorem checkPrunes {r : Rat × List StreamStat} (checked : checkListSection dfNow m_nStatSection stats = some r)
    (ordered : stats.Pairwise fun a b => a.dfTime ≤ b.dfTime) :
    r.1 = average dfNow m_nStatSection stats ∧ ∃ before, stats = before ++ r.2 ∧
      (∀ stat ∈ before, inSection dfNow m_nStatSection stat = false) ∧ (expired dfNow m_nStatSection r.2).length ≤ 1 := by
  by_cases positive : m_nStatSection = 0
  · cases stats with
    | nil =>
      cases checked
      exact ⟨by simp [average,sectionSum,within],[],rfl,by simp,by simp [expired]⟩
    | cons stat rest => simp [checkListSection,positive] at checked
  · obtain ⟨left,result,leaves⟩ := @checkListSectionResult dfNow m_nStatSection stats positive
    rw [checked] at result
    cases result
    refine ⟨rfl,?_⟩
    cases leaves with
    | all fresh =>
      have none : expired dfNow m_nStatSection stats = [] := by
        rw [expired,List.filter_eq_nil_iff]
        intro stat member
        simp [fresh stat member]
      exact ⟨[],rfl,by simp,by simp [none]⟩
    | @since before after stat whole outside fresh =>
      rw [whole,List.pairwise_append] at ordered
      have none : after.filter (!inSection dfNow m_nStatSection ·) = [] := by
        rw [List.filter_eq_nil_iff]
        intro stat member
        simp [fresh stat member]
      refine ⟨before,whole,fun older member => olderExpired outside (ordered.2.2 older member stat List.mem_cons_self),?_⟩
      simp [expired,outside,none]

structure Pruned (m_nStatSection : Uint) (later : List Measure) (gone : List StreamStat) (s t : Measured) : Prop where
  dfAvg : t.dfAvg = s.dfAvg
  statList : t.statList = gone ++ s.statList
  ordered : t.statList.Pairwise fun a b => a.dfTime ≤ b.dfTime
  before : ∀ stat ∈ t.statList, ∀ dfTime ∈ pushTimes later, stat.dfTime ≤ dfTime
  expired : ∀ stat ∈ gone, ∀ dfNow ∈ checkTimes later, inSection dfNow m_nStatSection stat = false

theorem stepPruned {a : Measure} {later : List Measure} (taken : s.step m_nStatSection a = some u)
    (pushes : (pushTimes (a :: later)).Pairwise (· ≤ ·)) (checks : (checkTimes (a :: later)).Pairwise (· ≤ ·))
    (pruned : Pruned m_nStatSection (a :: later) gone s t) :
    ∃ gone', Pruned m_nStatSection later gone' u (t.plain m_nStatSection a) := by
  cases a with
  | push stat =>
    cases taken
    have newest : ∀ dfTime ∈ pushTimes later, stat.dfTime ≤ dfTime := (List.pairwise_cons.mp pushes).1
    refine ⟨gone,pruned.dfAvg,?_,?_,?_,pruned.expired⟩
    · simp only [Measured.plain,pruned.statList,List.append_assoc]
    · refine List.pairwise_append.mpr ⟨pruned.ordered,List.pairwise_singleton _ _,fun older member same last => ?_⟩
      rw [List.mem_singleton.mp last]
      exact pruned.before older member _ List.mem_cons_self
    · intro older member dfTime after
      rcases List.mem_append.mp member with old | new
      · exact pruned.before older old dfTime (List.mem_cons_of_mem _ after)
      · rw [List.mem_singleton.mp new]
        exact newest dfTime after
  | check dfNow entered =>
    have latest : ∀ time ∈ checkTimes later, dfNow ≤ time := (List.pairwise_cons.mp checks).1
    have still : ∀ stat ∈ gone, ∀ time ∈ checkTimes later, inSection time m_nStatSection stat = false :=
      fun stat member time after => pruned.expired stat member time (List.mem_cons_of_mem _ after)
    cases entered with
    | false =>
      cases taken
      exact ⟨gone,pruned.dfAvg,pruned.statList,pruned.ordered,pruned.before,still⟩
    | true =>
      obtain ⟨r,checked,rfl⟩ := Option.map_eq_some_iff.mp taken
      have ordered := pruned.ordered
      rw [pruned.statList] at ordered
      obtain ⟨value,before,whole,older,-⟩ := checkPrunes checked (List.pairwise_append.mp ordered).2.1
      refine ⟨gone ++ before,?_,?_,pruned.ordered,pruned.before,?_⟩
      · rw [Measured.plain,pruned.statList,value]
        exact averageFrom fun stat member => pruned.expired stat member dfNow List.mem_cons_self
      · rw [Measured.plain,pruned.statList,whole,List.append_assoc]
      · intro stat member time after
        rcases List.mem_append.mp member with old | new
        · exact still stat old time after
        · exact laterExpired (older stat new) (latest time after)

theorem runPruned {acts : List Measure} (run : follow (Measured.step m_nStatSection) acts s = some u)
    (pushes : (pushTimes acts).Pairwise (· ≤ ·)) (checks : (checkTimes acts).Pairwise (· ≤ ·))
    (pruned : Pruned m_nStatSection acts gone s t) :
    ∃ gone', Pruned m_nStatSection [] gone' u (acts.foldl (Measured.plain m_nStatSection) t) := by
  induction acts generalizing s t gone with
  | nil =>
    cases run
    exact ⟨gone,pruned⟩
  | cons a acts ih =>
    obtain ⟨next,taken,rest⟩ := followCons run
    obtain ⟨gone',now⟩ := stepPruned taken pushes checks pruned
    have later : ∀ times : Measure → Option Rat, ((a :: acts).filterMap times).Pairwise (· ≤ ·) →
        (acts.filterMap times).Pairwise (· ≤ ·) := fun times all => all.sublist ((List.sublist_cons_self a acts).filterMap times)
    exact ih rest (later _ pushes) (later _ checks) now

structure Agrees (m_nStatSection : Uint) (acts : List Measure) (s : Measured) : Prop where
  dfAvg : s.dfAvg = (acts.foldl (Measured.plain m_nStatSection) ⟨[],0⟩).dfAvg
  statList : s.statList <:+ (acts.foldl (Measured.plain m_nStatSection) ⟨[],0⟩).statList
  short : ∀ dfNow, acts.getLast? = some (.check dfNow true) → (expired dfNow m_nStatSection s.statList).length ≤ 1

theorem measuresAgree {acts : List Measure} (run : follow (Measured.step m_nStatSection) acts ⟨[],0⟩ = some u)
    (pushes : (pushTimes acts).Pairwise (· ≤ ·)) (checks : (checkTimes acts).Pairwise (· ≤ ·)) :
    Agrees m_nStatSection acts u := by
  have start : ∀ acts, Pruned m_nStatSection acts [] ⟨[],0⟩ ⟨[],0⟩ := fun _ =>
    ⟨rfl,rfl,List.Pairwise.nil,by simp,by simp⟩
  obtain ⟨gone,pruned⟩ := runPruned run pushes checks (start acts)
  refine ⟨pruned.dfAvg.symm,⟨gone,pruned.statList.symm⟩,fun dfNow last => ?_⟩
  obtain ⟨init,rfl⟩ := List.getLast?_eq_some_iff.mp last
  rw [followAppend] at run
  obtain ⟨mid,ran,checked⟩ := Option.bind_eq_some_iff.mp run
  have earlier : ∀ times : Measure → Option Rat, ((init ++ [Measure.check dfNow true]).filterMap times).Pairwise (· ≤ ·) →
      (init.filterMap times).Pairwise (· ≤ ·) := fun times all => all.sublist ((List.sublist_append_left init _).filterMap times)
  obtain ⟨gone',before⟩ := runPruned ran (earlier _ pushes) (earlier _ checks) (start init)
  obtain ⟨next,step,rest⟩ := followCons checked
  cases rest
  obtain ⟨r,result,rfl⟩ := Option.map_eq_some_iff.mp step
  have ordered := before.ordered
  rw [before.statList] at ordered
  obtain ⟨-,-,-,-,one⟩ := checkPrunes result (List.pairwise_append.mp ordered).2.1
  exact one

end Pruning

section Run
variable {m_bEnableStreamStat : Bool} {m_nStatSection : Uint} {s t : Traffic}

theorem stepMeasures {a : TrafficStep} (taken : s.step m_bEnableStreamStat m_nStatSection a = some t) :
    follow (Measured.step m_nStatSection) (a.received m_bEnableStreamStat).toList s.recv = some t.recv ∧
    follow (Measured.step m_nStatSection) (a.sent m_bEnableStreamStat).toList s.send = some t.send := by
  cases a with
  | recv nRecvNum dfTime =>
    by_cases some : nRecvNum ≠ 0 ∧ nRecvNum ≠ -1
    · cases m_bEnableStreamStat with
      | true =>
        rw [Traffic.step,if_pos some,if_pos rfl] at taken
        cases taken
        rw [TrafficStep.received,if_pos ⟨some.1,some.2,rfl⟩]
        exact ⟨rfl,rfl⟩
      | false =>
        rw [Traffic.step,if_pos some,if_neg Bool.false_ne_true] at taken
        cases taken
        rw [TrafficStep.received,if_neg fun all => Bool.false_ne_true all.2.2]
        exact ⟨rfl,rfl⟩
    · rw [Traffic.step,if_neg some] at taken
      cases taken
      rw [TrafficStep.received,if_neg fun all => some ⟨all.1,all.2.1⟩]
      exact ⟨rfl,rfl⟩
  | send nSendNum dfTime =>
    by_cases some : 0 ≤ nSendNum
    · cases m_bEnableStreamStat with
      | true =>
        rw [Traffic.step,if_pos some,if_pos rfl] at taken
        cases taken
        rw [TrafficStep.sent,if_pos ⟨some,rfl⟩]
        exact ⟨rfl,rfl⟩
      | false =>
        rw [Traffic.step,if_pos some,if_neg Bool.false_ne_true] at taken
        cases taken
        rw [TrafficStep.sent,if_neg fun all => Bool.false_ne_true all.2]
        exact ⟨rfl,rfl⟩
    · rw [Traffic.step,if_neg some] at taken
      cases taken
      rw [TrafficStep.sent,if_neg fun all => some all.1]
      exact ⟨rfl,rfl⟩
  | checkRecv dfNow entered =>
    obtain ⟨recv,checked,rfl⟩ := Option.map_eq_some_iff.mp taken
    exact ⟨by simp [TrafficStep.received,follow,checked],rfl⟩
  | checkSend dfNow entered =>
    obtain ⟨send,checked,rfl⟩ := Option.map_eq_some_iff.mp taken
    exact ⟨rfl,by simp [TrafficStep.sent,follow,checked]⟩

theorem runMeasures {acts : List TrafficStep} (run : follow (Traffic.step m_bEnableStreamStat m_nStatSection) acts s = some t) :
    follow (Measured.step m_nStatSection) (acts.filterMap (TrafficStep.received m_bEnableStreamStat)) s.recv = some t.recv ∧
    follow (Measured.step m_nStatSection) (acts.filterMap (TrafficStep.sent m_bEnableStreamStat)) s.send = some t.send := by
  induction acts generalizing s with
  | nil =>
    cases run
    exact ⟨rfl,rfl⟩
  | cons a acts ih =>
    obtain ⟨next,taken,rest⟩ := followCons run
    obtain ⟨received,sent⟩ := stepMeasures taken
    obtain ⟨receivedLater,sentLater⟩ := ih rest
    have whole : ∀ f : TrafficStep → Option Measure, (a :: acts).filterMap f = (f a).toList ++ acts.filterMap f := by
      intro f
      cases here : f a <;> simp [here]
    rw [whole,whole,followAppend,followAppend,received,sent]
    exact ⟨receivedLater,sentLater⟩

theorem trafficMeasured {acts : List TrafficStep}
    (run : follow (Traffic.step m_bEnableStreamStat m_nStatSection) acts Traffic.new = some t)
    (received : (pushTimes (acts.filterMap (TrafficStep.received m_bEnableStreamStat))).Pairwise (· ≤ ·))
    (sent : (pushTimes (acts.filterMap (TrafficStep.sent m_bEnableStreamStat))).Pairwise (· ≤ ·))
    (checkedRecv : (checkTimes (acts.filterMap (TrafficStep.received m_bEnableStreamStat))).Pairwise (· ≤ ·))
    (checkedSend : (checkTimes (acts.filterMap (TrafficStep.sent m_bEnableStreamStat))).Pairwise (· ≤ ·)) :
    Agrees m_nStatSection (acts.filterMap (TrafficStep.received m_bEnableStreamStat)) t.recv ∧
      Agrees m_nStatSection (acts.filterMap (TrafficStep.sent m_bEnableStreamStat)) t.send := by
  obtain ⟨recv,send⟩ := runMeasures run
  exact ⟨measuresAgree recv received checkedRecv,measuresAgree send sent checkedSend⟩

end Run

-- The sample of 1 is erased at 10, when the one of 7 has expired as well.
def fourSeconds : List TrafficStep :=
  [.recv 300 1,.recv 400 7,.checkSend 8 true,.recv 500 9,.checkRecv 10 true,.checkRecv 11 false,.send 20 10]

theorem trafficMeasuredFour : ∃ t, follow (Traffic.step true 2000) fourSeconds Traffic.new = some t ∧
    Agrees 2000 (fourSeconds.filterMap (TrafficStep.received true)) t.recv ∧
    Agrees 2000 (fourSeconds.filterMap (TrafficStep.sent true)) t.send :=
  ⟨_,by decide +kernel,@trafficMeasured true 2000 ⟨⟨[⟨7,400⟩,⟨9,500⟩],250⟩,⟨[⟨10,20⟩],0⟩,1200,20⟩ fourSeconds
    (by decide +kernel) (by decide +kernel)
    (by decide +kernel) (by decide +kernel) (by decide +kernel)⟩

end JokeDse
