import JokeDse.OneSession
import JokeDse.Transfer
import JokeDse.Workers

/-! Both programs together. The workers of the sender share the queue and have a connection each, the
server reads the connections in turns; what is queued is what is saved. -/
namespace JokeDse
open Framing Runs Shares

/-! A list of pairs, seen key by key. -/

section Keys
variable {ι β : Type} [DecidableEq ι]

def valuesOf (k : ι) (l : List (ι × β)) : List β := l.filterMap fun x => if x.1 = k then some x.2 else none

theorem valuesCons (k : ι) (x : ι × β) (l : List (ι × β)) :
    valuesOf k (x :: l) = (if x.1 = k then [x.2] else []) ++ valuesOf k l := by
  unfold valuesOf
  by_cases here : x.1 = k
  · rw [List.filterMap_cons_some (by rw [if_pos here]),if_pos here]
    rfl
  · rw [List.filterMap_cons_none (by rw [if_neg here]),if_neg here]
    rfl

theorem valuesMem {k : ι} {l : List (ι × β)} {v : β} (member : v ∈ valuesOf k l) : (k,v) ∈ l := by
  obtain ⟨⟨k',v'⟩,inside,same⟩ := List.mem_filterMap.mp member
  split at same
  · rename_i here
    cases here
    cases same
    exact inside
  · cases same

theorem oneKey {keys : List ι} (once : keys.Nodup) {k : ι} (member : k ∈ keys) (v : β) :
    (keys.flatMap fun k' => if k = k' then [v] else []) = [v] := by
  induction keys with
  | nil => cases member
  | cons k' keys ih =>
    obtain ⟨fresh,rest⟩ := List.nodup_cons.mp once
    rw [List.flatMap_cons]
    by_cases here : k = k'
    · subst here
      have none : (keys.flatMap fun k' => if k = k' then [v] else []) = [] :=
        List.flatMap_eq_nil_iff.mpr fun k' inside => if_neg fun same => by subst same; exact fresh inside
      rw [if_pos rfl,none]
      rfl
    · rw [if_neg here,List.nil_append]
      exact ih rest ((List.mem_cons.mp member).resolve_left here)

theorem valuesPerm {keys : List ι} (once : keys.Nodup) {l : List (ι × β)} (all : ∀ x ∈ l, x.1 ∈ keys) :
    (keys.flatMap fun k => valuesOf k l).Perm (l.map Prod.snd) := by
  induction l with
  | nil => simp [valuesOf]
  | cons x l ih =>
    have rest := ih fun y member => all y (List.mem_cons_of_mem _ member)
    simp only [valuesCons]
    refine (List.flatMap_append_perm keys _ _).symm.trans ?_
    rw [oneKey once (all x List.mem_cons_self)]
    exact rest.cons x.2

theorem valuesPart (k : ι) (l : List (ι × β)) : (valuesOf k l).Sublist (l.map Prod.snd) := by
  induction l with
  | nil => exact List.Sublist.slnil
  | cons x l ih =>
    rw [valuesCons,List.map_cons]
    split
    · exact ih.cons_cons x.2
    · exact ih.cons x.2

omit [DecidableEq ι] in
theorem byNumber (l : List ι) {f : Nat → List β} {g : ι → List β} (same : ∀ k x, l[k]? = some x → f k = g x) :
    (List.range l.length).flatMap f = l.flatMap g := by
  have each : (List.range l.length).map f = l.map g := by
    apply List.ext_getElem (by simp)
    intro k inside _
    have below : k < l.length := by simpa using inside
    simpa using same k l[k] (List.getElem?_eq_getElem below)
  rw [List.flatMap_def,List.flatMap_def,each]

omit [DecidableEq ι] in
theorem somePerm {l : List β} {m : List ι} {f : ι → β} (perm : (l.map some).Perm (m.map fun x => some (f x))) :
    l.Perm (m.map f) := by
  rw [← List.map_perm_map_iff (Option.some_injective β),List.map_map]
  exact perm

theorem takeSame {l m : List β} (same : ∀ n < l.length, m[n]? = l[n]?) : m.take l.length = l := by
  apply List.ext_getElem?
  intro n
  rw [List.getElem?_take]
  split
  · rename_i inside
    exact same n inside
  · rename_i outside
    exact (List.getElem?_eq_none (by omega)).symm

end Keys

/-! What arrives of the files of one worker. -/

/-- A file with no content whose header is the last thing on its connection is never opened. -/
def arrives {α : Type} (empty : α → Bool) (l : List α) : List α :=
  match l.getLast? with
  | some x => if empty x then l.dropLast else l
  | none => []

section Arriving
variable {α : Type} {empty : α → Bool}

theorem arrivesLast (init : List α) (x : α) :
    arrives empty (init ++ [x]) = if empty x then init else init ++ [x] := by
  rw [arrives,List.getLast?_concat,List.dropLast_concat]

theorem arrivesInside (l : List α) : ∀ x ∈ arrives empty l, x ∈ l := by
  intro x member
  rcases List.eq_nil_or_concat l with rfl | ⟨init,y,rfl⟩
  · exact member
  · rw [List.concat_eq_append] at member ⊢
    rw [arrivesLast] at member
    split at member
    · exact List.mem_append_left _ member
    · exact member

theorem arrivesMap {β : Type} (f : β → α) (l : List β) :
    arrives empty (l.map f) = (arrives (fun y => empty (f y)) l).map f := by
  rcases List.eq_nil_or_concat l with rfl | ⟨init,y,rfl⟩
  · rfl
  · rw [List.concat_eq_append,List.map_append,List.map_singleton,arrivesLast,arrivesLast]
    split
    · rfl
    · simp

theorem arrivesFilters {l : List α} (once : l.Nodup) {lost : α → Bool}
    (exactly : ∀ x ∈ l, lost x = true ↔ empty x = true ∧ l.getLast? = some x) :
    arrives empty l = l.filter fun x => !lost x := by
  rcases List.eq_nil_or_concat l with rfl | ⟨init,y,rfl⟩
  · rfl
  · rw [List.concat_eq_append] at once exactly ⊢
    have before : init.filter (fun x => !lost x) = init := by
      refine List.filter_eq_self.mpr fun x member => ?_
      have kept : ¬ lost x = true := by
        rw [exactly x (List.mem_append_left _ member),List.getLast?_concat]
        rintro ⟨-,same⟩
        cases same
        exact (List.nodup_append.mp once).2.2 y member y List.mem_cons_self rfl
      simpa using kept
    have last := exactly y (List.mem_append_right _ List.mem_cons_self)
    rw [List.getLast?_concat] at last
    rw [arrivesLast,List.filter_append,before]
    split
    · rename_i nothing
      have gone : lost y = true := last.mpr ⟨nothing,rfl⟩
      simp [gone]
    · rename_i something
      have stays : lost y = false := by
        rw [← Bool.not_eq_true,last]
        exact fun both => something both.1
      simp [stays]

end Arriving

section Sent
variable {ansiString : CString → Bytes} {files : List (FileInfo × Surroundings)}

theorem sentArrives (sendable : Sendable ansiString files) (m_nSendFiles : Uint) :
    (decode fileFormat (encode (sentFrames ansiString files m_nSendFiles))).frames =
      sentFrames ansiString (arrives (fun x => x.2.content.isEmpty) files) m_nSendFiles ∧
    (decode fileFormat (encode (sentFrames ansiString files m_nSendFiles))).current = none := by
  have whole := sendable.whole m_nSendFiles
  rcases List.eq_nil_or_concat files with rfl | ⟨init,x,rfl⟩
  · rw [sentFrames,encodeNil,decodeNil]
    exact ⟨rfl,rfl⟩
  · rw [List.concat_eq_append] at whole ⊢
    obtain ⟨n,frames⟩ := sentFramesLast ansiString init x m_nSendFiles
    rw [arrivesLast]
    rw [frames] at whole ⊢
    rw [decodeEncodeLast whole]
    have body : (sentFrame ansiString x.2 x.1 n).body = x.2.content := rfl
    rw [body]
    by_cases empty : x.2.content = []
    · simp [empty]
    · simp [empty,frames]

end Sent

/-! The workers and their connections. -/

section Queue
variable {ι : Type} [DecidableEq ι]

structure Senders.Connected (s : Senders ι) : Prop where
  running : ∀ i, (s.worker i).line ≠ .connect → (s.worker i).line ≠ .returned → (s.worker i).connected = true
  passed : ∀ call ∈ s.passed, (s.worker call.1).connected = true

section Connecting
variable {n : Nat} {s t : Senders ι} {i : ι}

omit [DecidableEq ι] in
theorem startConnected (files : List FileInfo) : (Senders.start files : Senders ι).Connected where
  running i line := absurd rfl line
  passed call member := by cases member

theorem Senders.Connected.move (connected : s.Connected) (i : ι) (u : SendWorker)
    (worker : t.worker = Function.update s.worker i u)
    (kept : (s.worker i).connected = true → u.connected = true)
    (running : u.line ≠ .connect → u.line ≠ .returned → u.connected = true)
    (passed : ∀ call ∈ t.passed, call ∈ s.passed ∨ call.1 = i ∧ u.connected = true) : t.Connected where
  running := by
    rw [worker]
    exact (Function.forall_update_iff s.worker fun _ w => w.line ≠ .connect → w.line ≠ .returned → w.connected = true).mpr
      ⟨running,fun j _ => connected.running j⟩
  passed call member := by
    rw [worker]
    by_cases same : call.1 = i
    · rw [same,Function.update_self]
      rcases passed call member with before | ⟨-,now⟩
      · exact kept (same ▸ connected.passed call before)
      · exact now
    · rw [Function.update_of_ne same]
      rcases passed call member with before | ⟨here,-⟩
      · exact connected.passed call before
      · exact absurd here same

theorem Senders.Connected.set (connected : s.Connected) (i : ι) {u : SendWorker}
    (worker : t.worker = Function.update s.worker i u) (kept : u.connected = (s.worker i).connected)
    (line : u.line = .returned ∨ (s.worker i).line ≠ .connect ∧ (s.worker i).line ≠ .returned)
    (passed : t.passed = s.passed) : t.Connected := by
  refine connected.move i u worker (fun before => kept.trans before) (fun _ going => ?_) fun call member =>
    .inl (passed ▸ member)
  rcases line with returned | ⟨begun,running⟩
  · exact absurd returned going
  · exact kept.trans (connected.running i begun running)

theorem stepConnected {a : ι × Bool} (taken : s.step a = some t) (connected : s.Connected) : t.Connected := by
  obtain ⟨i,connects⟩ := a
  cases line : (s.worker i).line with
  | connect =>
    simp only [Senders.step,line,Option.some.injEq] at taken
    subst taken
    cases connects with
    | true => exact connected.move i _ rfl (fun _ => rfl) (fun _ _ => rfl) fun call member => .inl member
    | false => exact connected.set i rfl rfl (.inl rfl) rfl
  | tryLock =>
    simp only [Senders.step,line] at taken
    split at taken <;> cases taken
    · exact connected.set i rfl rfl (.inr (by simp [line])) rfl
    · exact connected
  | size =>
    simp only [Senders.step,line,Option.some.injEq] at taken
    subst taken
    exact connected.set i rfl rfl (.inr (by simp [line])) rfl
  | front =>
    simp only [Senders.step,line] at taken
    split at taken <;> cases taken
    exact connected.set i rfl rfl (.inr (by simp [line])) rfl
  | popFront =>
    simp only [Senders.step,line] at taken
    split at taken <;> cases taken
    exact connected.set i rfl rfl (.inr (by simp [line])) rfl
  | unlock =>
    simp only [Senders.step,line,Option.some.injEq] at taken
    subst taken
    exact connected.set i rfl rfl (.inr (by simp [line])) rfl
  | check =>
    simp only [Senders.step,line] at taken
    have mine := connected.running i (by simp [line]) (by simp [line])
    split at taken <;> cases taken
    · exact connected.set i rfl rfl (.inl rfl) rfl
    · refine connected.move i _ rfl id (fun _ _ => mine) fun call member => ?_
      rcases List.mem_append.mp member with before | now
      · exact .inl before
      · cases List.mem_singleton.mp now
        exact .inr ⟨rfl,mine⟩
  | sendFile =>
    simp only [Senders.step,line,Option.some.injEq] at taken
    subst taken
    exact connected.set i rfl rfl (.inr (by simp [line])) rfl
  | returned => simp [Senders.step,line] at taken

theorem allPassed (inv : s.Inv n) (returned : ∀ i, (s.worker i).line = .returned) (connected : (s.worker i).connected = true) :
    (s.passed.map Prod.snd).Perm (List.range n) := by
  have fits := inv.fits i
  rw [SendWorker.Fits,returned i] at fits
  have order := inv.order
  rw [fits connected,List.append_nil] at order
  have same : s.passed.Perm s.popped := by
    rw [List.perm_iff_count]
    rintro ⟨j,p⟩
    rw [inv.counts j p,if_neg (holdsNot (by simp [returned j]) p),Nat.add_zero]
  exact order ▸ same.map Prod.snd

end Connecting

def queuedAt (queue : List FileInfo) (world : Nat → Surroundings) (p : Nat) : FileInfo × Surroundings :=
  (queue.getD p ⟨[],[]⟩,world p)

def handed (queue : List FileInfo) (world : Nat → Surroundings) (sent : Senders ι) (i : ι) :
    List (FileInfo × Surroundings) := (valuesOf i sent.passed).map (queuedAt queue world)

/-- The connections: `order` are the workers with a connection, the one that was accepted first in front. The
reads of a session bring what its worker has sent. -/
structure Joined (ansiString : CString → Bytes) (queue : List FileInfo) (world : Nat → Surroundings)
    (m_nSendFiles : ι → Uint) (sent : Senders ι) (order : List ι) (acts : List ServerStep) (s : Server) : Prop where
  once : order.Nodup
  connected : ∀ i, i ∈ order ↔ (sent.worker i).connected = true
  sessions : s.sessions.length = order.length
  wire : ∀ k i, order[k]? = some i → ∃ t, sendThread ansiString (handed queue world sent i) (Worker.new (m_nSendFiles i)) =
    .done () t ∧ (readsOf k acts).flatten = t.wire

def lost (world : Nat → Surroundings) (sent : Senders ι) (order : List ι) (p : Nat) : Bool :=
  (world p).content.isEmpty && order.any fun i => (valuesOf i sent.passed).getLast? = some p

def savedOf (queue : List FileInfo) (world : Nat → Surroundings) (sent : Senders ι) (order : List ι) :
    List (FileInfo × Surroundings) :=
  ((List.range queue.length).filter fun p => !lost world sent order p).map (queuedAt queue world)

section Saving
variable {env : Env} {ansiString : CString → Bytes} {queue : List FileInfo} {world : Nat → Surroundings}
  {m_nSendFiles : ι → Uint} {calls : List (ι × Bool)} {sent : Senders ι} {order : List ι} {acts : List ServerStep}
  {m_strSavePath : CString} {disk : Disk} {s : Server}

/-- The files of the queue can be sent and have names that the way through ANSI does not change. -/
structure Queued (env : Env) (ansiString : CString → Bytes) (queue : List FileInfo) (world : Nat → Surroundings) : Prop where
  reliable : ∀ p < queue.length, (world p).Reliable
  names : ∀ file ∈ queue, (sentName ansiString file).length < 1024
  sizes : ∀ p < queue.length, (world p).content.length < 2147483648
  clean : ∀ file ∈ queue, (0 : Byte) ∉ ansiString file.strDir
  back : ∀ file ∈ queue, env.unicodeString (ansiString file.strDir) = file.strDir

theorem queuedMember {p : Nat} (inside : p < queue.length) : (queuedAt queue world p).1 ∈ queue := by
  simp [queuedAt,List.getD_eq_getElem?_getD,List.getElem?_eq_getElem inside]

theorem handedFrom (passed : ∀ call ∈ sent.passed, call.2 < queue.length) {i : ι} {x : FileInfo × Surroundings}
    (member : x ∈ handed queue world sent i) : ∃ p < queue.length, x = queuedAt queue world p := by
  obtain ⟨p,value,rfl⟩ := List.mem_map.mp member
  exact ⟨p,passed _ (valuesMem value),rfl⟩

theorem Queued.sendable (queued : Queued env ansiString queue world) {files : List (FileInfo × Surroundings)}
    (each : ∀ x ∈ files, ∃ p < queue.length, x = queuedAt queue world p) : Sendable ansiString files where
  names x member := by
    obtain ⟨p,inside,rfl⟩ := each x member
    exact queued.names _ (queuedMember inside)
  sizes x member := by
    obtain ⟨p,inside,rfl⟩ := each x member
    exact queued.sizes p inside

theorem sessionSaves (queued : Queued env ansiString queue world) (passed : ∀ call ∈ sent.passed, call.2 < queue.length)
    (joined : Joined ansiString queue world m_nSendFiles sent order acts s)
    (run : follow (Server.step env) acts (Server.start m_strSavePath disk) = some s)
    (smooth : ∀ a ∈ acts, a.Smooth) (free : s.handler = none) {k : Nat} {i : ι} (here : order[k]? = some i) :
    ((madeBy env m_strSavePath disk acts k).files.map fun n => s.disk.files[n]?) =
      (arrives (fun x => x.2.content.isEmpty) (handed queue world sent i)).map
        (fun x => some ⟨m_strSavePath ++ x.1.strDir,x.2.content⟩) ∧
    ((madeBy env m_strSavePath disk acts k).items.map fun n => s.dialog.items[n]?) =
      (arrives (fun x => x.2.content.isEmpty) (handed queue world sent i)).map fun x =>
        some ⟨x.1.strDir,m_strSavePath ++ x.1.strDir,BitVec.ofNat 32 x.2.content.length,
          BitVec.ofNat 32 x.2.content.length,true⟩ := by
  have each := fun x (member : x ∈ handed queue world sent i) => handedFrom passed member
  have sendable := queued.sendable each
  have reliable : ∀ x ∈ handed queue world sent i, x.2.Reliable := by
    intro x member
    obtain ⟨p,inside,rfl⟩ := each x member
    exact queued.reliable p inside
  obtain ⟨t,ended,brought⟩ := joined.wire k i here
  have wire := sentWire reliable sendable ended
  rw [wire] at brought
  have whole := sendable.whole (m_nSendFiles i)
  obtain ⟨inside,-⟩ := List.getElem?_eq_some_iff.mp here
  have there := List.getElem?_eq_getElem (show k < s.sessions.length by rw [joined.sessions]; exact inside)
  have collected := sessionsFilled run smooth there (by simp [Server.busy,free])
    (by rw [brought]; exact encodeRoom whole List.prefix_rfl)
    (by rw [brought]; exact partAdmissible whole (sendable.admissible _) List.prefix_rfl)
  obtain ⟨frames,current⟩ := sentArrives sendable (m_nSendFiles i)
  have files := collected.files
  have items := collected.items
  rw [brought,Reception.all,frames,current,Option.toList_none] at files
  rw [brought,frames,current,Option.toList_none] at items
  have named : ∀ x ∈ arrives (fun x => x.2.content.isEmpty) (handed queue world sent i), x.1 ∈ queue := by
    intro x member
    obtain ⟨p,inside,rfl⟩ := each x (arrivesInside _ x member)
    exact queuedMember inside
  obtain ⟨shownFiles,shownItems⟩ := sentShown env (startDialog m_strSavePath) ⟨[],[]⟩
    (fun x member => queued.clean _ (named x member)) (fun x member => queued.back _ (named x member)) (m_nSendFiles i)
  constructor
  · rw [files,List.append_nil]
    have same := congrArg (List.map some) shownFiles
    rwa [List.map_map,List.map_map] at same
  · rw [items,List.map_nil,List.append_nil]
    have same := congrArg (List.map some) shownItems
    rwa [List.map_map,List.map_map] at same

theorem lostLast (once : (sent.passed.map Prod.snd).Nodup) {i : ι} (here : i ∈ order) :
    ∀ p ∈ valuesOf i sent.passed, lost world sent order p = true ↔
      (world p).content.isEmpty = true ∧ (valuesOf i sent.passed).getLast? = some p := by
  intro p member
  rw [lost,Bool.and_eq_true,List.any_eq_true]
  refine and_congr_right fun _ => ⟨?_,fun last => ⟨i,here,decide_eq_true last⟩⟩
  rintro ⟨j,-,last⟩
  have last := of_decide_eq_true last
  have mine := valuesMem (List.mem_of_getLast? last)
  cases List.inj_on_of_nodup_map once mine (valuesMem member) rfl
  exact last

theorem arrivesSaved (world : Nat → Surroundings)
    (perm : (sent.passed.map Prod.snd).Perm (List.range queue.length)) (once : order.Nodup)
    (all : ∀ call ∈ sent.passed, call.1 ∈ order) :
    (order.flatMap fun i => arrives (fun x => x.2.content.isEmpty) (handed queue world sent i)).Perm
      (savedOf queue world sent order) := by
  have nodup := perm.nodup_iff.mpr List.nodup_range
  have each : ∀ i ∈ order, arrives (fun x => x.2.content.isEmpty) (handed queue world sent i) =
      ((valuesOf i sent.passed).filter fun p => !lost world sent order p).map (queuedAt queue world) := by
    intro i here
    rw [handed,arrivesMap]
    exact congrArg _ (arrivesFilters (nodup.sublist (valuesPart i _)) (lostLast nodup here))
  rw [List.flatMap_congr each,← List.map_flatMap,← List.filter_flatMap]
  exact (((valuesPerm once all).trans perm).filter _).map _

theorem queueSaved (queued : Queued env ansiString queue world)
    (calling : follow Senders.step calls (Senders.start queue) = some sent)
    (returned : ∀ i, (sent.worker i).line = .returned)
    (joined : Joined ansiString queue world m_nSendFiles sent order acts s) (somebody : order ≠ [])
    (run : follow (Server.step env) acts (Server.start m_strSavePath disk) = some s)
    (smooth : ∀ a ∈ acts, a.Smooth) (free : s.handler = none) :
    (∃ saved, s.disk.files = disk.files ++ saved ∧ saved.Perm ((savedOf queue world sent order).map fun x =>
      ⟨m_strSavePath ++ x.1.strDir,x.2.content⟩)) ∧
    s.dialog.items.Perm ((savedOf queue world sent order).map fun x =>
      ⟨x.1.strDir,m_strSavePath ++ x.1.strDir,BitVec.ofNat 32 x.2.content.length,BitVec.ofNat 32 x.2.content.length,true⟩) := by
  have inv : sent.Inv queue.length := followKeeps stepInv calling (startInv queue)
  have connected : sent.Connected := followKeeps stepConnected calling (startConnected queue)
  obtain ⟨first,there⟩ := List.exists_mem_of_ne_nil order somebody
  have perm := allPassed inv returned ((joined.connected first).mp there)
  have passed : ∀ call ∈ sent.passed, call.2 < queue.length := fun call member =>
    List.mem_range.mp (perm.subset (List.mem_map_of_mem member))
  have separate := sessionsApart run
  have begun : ∀ k, (madeBy env m_strSavePath disk acts k) ≠ Own.none → k ∈ List.range order.length := by
    intro k own
    by_contra outside
    rw [List.mem_range,← joined.sessions,Nat.not_lt] at outside
    exact own (separate.absent k (List.getElem?_eq_none outside))
  have each := fun k i => @sessionSaves ι _ env ansiString queue world m_nSendFiles sent order acts m_strSavePath disk s
    queued passed joined run smooth free k i
  have saved := arrivesSaved world perm joined.once fun call member =>
    (joined.connected call.1).mpr (connected.passed call member)
  have files := separate.files.cells separate.more List.nodup_range
    fun k own => begun k fun none => own (by simp only [none]; rfl)
  have items := separate.items.cells (Nat.zero_le _) List.nodup_range
    fun k own => begun k fun none => own (by simp only [none]; rfl)
  rw [byNumber order fun k i here => (each k i here).1,← List.map_flatMap] at files
  rw [byNumber order fun k i here => (each k i here).2,← List.map_flatMap] at items
  refine ⟨⟨s.disk.files.drop disk.files.length,?_,?_⟩,?_⟩
  · refine (List.take_append_drop disk.files.length s.disk.files).symm.trans (congrArg (· ++ _) ?_)
    exact takeSame separate.before
  · exact somePerm (files.symm.trans (saved.map _))
  · exact somePerm (items.symm.trans (saved.map _))

end Saving

end Queue

-- One worker, one file.
def oneSender : List (Unit × Bool) := List.replicate 12 ((),true)

theorem shortQueued : Queued plainEnv asciiString [shortName] fun _ => undisturbed [1,2,3] where
  reliable _ _ := undisturbedReliable _
  names file member := by
    rw [List.mem_singleton.mp member]
    decide
  sizes _ _ := by
    show [1,2,3].length < _
    decide
  clean file member := by
    rw [List.mem_singleton.mp member]
    decide
  back file member := by
    rw [List.mem_singleton.mp member]
    decide

theorem shortRan : ∃ sent acts s, follow Senders.step oneSender (Senders.start [shortName]) = some sent ∧
    (∀ i, (sent.worker i).line = .returned) ∧
    Joined asciiString [shortName] (fun _ => undisturbed [1,2,3]) (fun _ => 0) sent [()] acts s ∧
    follow (Server.step plainEnv) acts (Server.start plainDialog.m_strSavePath emptyDisk) = some s ∧
    (∀ a ∈ acts, a.Smooth) ∧ s.handler = none ∧ s.ui = .idle := by
  obtain ⟨t,ended,length⟩ := shortSent [1,2,3] (by decide)
  have sendable : Sendable asciiString (shortList [1,2,3]) := shortSendable (by decide)
  have wire := sentWire (shortReliable _) sendable ended
  have short : t.wire.length ≤ 8192 := by
    rw [length]
    decide
  have each : ∀ f ∈ (decode fileFormat t.wire).all, Admissible f := by
    rw [wire]
    exact partAdmissible (sendable.whole _) (sendable.admissible _) List.prefix_rfl
  obtain ⟨acts,part,s,run,smooth,reads,sessions,free,idle⟩ := oneRead plainEnv plainDialog.m_strSavePath emptyDisk short each
  obtain ⟨sent,calling,handed,returned,connected⟩ : ∃ sent : Senders Unit,
      follow Senders.step oneSender (Senders.start [shortName]) = some sent ∧
      handed [shortName] (fun _ => undisturbed [1,2,3]) sent () = shortList [1,2,3] ∧
      (sent.worker ()).line = .returned ∧ (sent.worker ()).connected = true := ⟨_,rfl,rfl,rfl,rfl⟩
  refine ⟨sent,acts,s,calling,fun _ => returned,?_,run,smooth,free,idle⟩
  refine ⟨List.nodup_singleton _,fun i => iff_of_true List.mem_cons_self connected,by rw [sessions]; rfl,fun k i here => ?_⟩
  obtain ⟨inside,-⟩ := List.getElem?_eq_some_iff.mp here
  obtain rfl : k = 0 := Nat.lt_one_iff.mp inside
  refine ⟨t,by rw [handed]; exact ended,?_⟩
  rw [reads,List.flatten_singleton]

theorem queueSavedShort : ∃ sent acts s,
    follow Senders.step oneSender (Senders.start [shortName]) = some sent ∧
    follow (Server.step plainEnv) acts (Server.start plainDialog.m_strSavePath emptyDisk) = some s ∧
    ∃ saved, s.disk.files = emptyDisk.files ++ saved ∧
      saved.Perm ((savedOf [shortName] (fun _ => undisturbed [1,2,3]) sent [()]).map fun x =>
        ⟨plainDialog.m_strSavePath ++ x.1.strDir,x.2.content⟩) := by
  obtain ⟨sent,acts,s,calling,returned,joined,run,smooth,free,-⟩ := shortRan
  exact ⟨sent,acts,s,calling,run,(queueSaved shortQueued calling returned joined (by simp) run smooth free).1⟩

end JokeDse
