import JokeDse.EndToEnd
import JokeDse.FileList

/-! What the list control shows of the files that have come: between two timer messages its number of rows is
that of m_vecFileList, and after OnTimer every file saved has its row. -/
namespace JokeDse
open Runs

theorem clickStarts (env : Env) {m_strSavePath m_strSourcePath : CString} (disk : Disk) (before : CString)
    (save : m_strSavePath ≠ []) (source : m_strSourcePath ≠ []) :
    follow (Server.step env) [.inject m_strSavePath m_strSourcePath,.zeroSaved,.restart] (Server.start before disk) =
      some (Server.start m_strSavePath disk) := by
  have given : ¬ (m_strSourcePath = [] ∨ m_strSavePath = []) := by simp [save,source]
  simp only [follow,Server.step,Server.start,if_true,if_neg given,Option.bind_some]
  rfl

structure Displays (s : Server) : Prop where
  same : s.ui ≠ .cleared → s.ui ≠ .zeroed → s.m_vecFileSize = s.itemCount ∧ 0 ≤ s.itemCount
  all : s.ui = .idle ∨ s.ui = .swapped → s.itemCount = s.m_vecFileList.length

section Displays
variable {env : Env} {s t : Server}

theorem goSize (taken : s.step env .go = some t) : t.m_vecFileSize = s.m_vecFileSize := by
  simp only [Server.step] at taken
  split at taken
  · rename_i i ops ec nFileSize place handler
    obtain ⟨part,there,parsed⟩ := Option.bind_eq_some_iff.mp taken
    cases place with
    | leave nOffset =>
      simp only [Server.parse] at parsed
      split at parsed <;> cases parsed
      rfl
    | _ =>
      simp only [Server.parse] at parsed
      split at parsed <;> cases parsed <;> rfl
  · cases taken

theorem Displays.still (displays : Displays s) (still : UiStill s t) (size : t.m_vecFileSize = s.m_vecFileSize) :
    Displays t := by
  constructor
  · rw [still.ui,still.itemCount,size]
    exact displays.same
  · rw [still.ui,still.itemCount,still.m_vecFileList]
    exact displays.all

theorem Listed.few (listed : Listed s) : s.m_vecFileList.length ≤ s.dialog.items.length := by
  have rising := (List.pairwise_append.mp listed.all).1
  have once : s.m_vecFileList.Nodup := rising.imp Nat.ne_of_lt
  have inside : s.m_vecFileList ⊆ List.range s.dialog.items.length := fun p member =>
    List.mem_range.mpr (listed.below p (List.mem_append_left _ member))
  simpa using (once.subperm inside).length_le

theorem displaysStep {a : ServerStep} (displays : Displays s) (listed : Listed s) (few : s.dialog.items.length < 2 ^ 31)
    (taken : s.step env a = some t) : Displays t := by
  have inside := listed.few
  cases a with
  | accept ec | start | read i data ops ec | finish =>
    have took := stepTook taken
    cases took <;> exact displays.still ⟨rfl,rfl,rfl,rfl,rfl,rfl⟩ rfl
  | go =>
    obtain ⟨i,place,part,c,gone⟩ := stepGone taken
    exact displays.still gone.still (goSize taken)
  | onTimer =>
    simp only [Server.step] at taken
    split at taken <;> cases taken
    rename_i free
    have idle := free.1
    exact ⟨fun _ _ => displays.same (by simp [idle]) (by simp [idle]),fun _ => displays.all (.inl idle)⟩
  | insert =>
    simp only [Server.step] at taken
    split at taken <;> cases taken
    rename_i swapped
    exact ⟨fun _ _ => displays.same (by simp [swapped]) (by simp [swapped]),
      fun other => by rcases other with other | other <;> cases other⟩
  | setItemCount =>
    simp only [Server.step] at taken
    split at taken
    · rename_i inserted
      obtain ⟨size,low⟩ := displays.same (by simp [inserted]) (by simp [inserted])
      have shown := listed.shown (by simp [inserted]) (by simp [inserted])
      have count : int s.m_vecFileList.length = s.m_vecFileList.length :=
        intFits (Int.le_trans (by decide) (Int.natCast_nonneg _)) (by omega)
      have nonneg : 0 ≤ int s.m_vecFileList.length := count.symm ▸ Int.natCast_nonneg _
      have unsigned : (uint s.m_vecFileSize : Int) = s.itemCount := by
        rw [size]
        exact uintFits low (by omega)
      split at taken <;> cases taken
      · constructor
        · intro _ _
          dsimp only
          exact ⟨rfl,nonneg⟩
        · intro _
          dsimp only
          exact count
      · rename_i enough
        refine ⟨fun _ _ => ⟨size,low⟩,fun _ => ?_⟩
        show s.itemCount = s.m_vecFileList.length
        omega
    · cases taken
  | inject m_strSavePath m_strSourcePath =>
    simp only [Server.step] at taken
    split at taken
    · rename_i idle
      split at taken <;> cases taken
      · exact ⟨displays.same,displays.all⟩
      · exact ⟨fun other => absurd rfl other,fun other => by rcases other with other | other <;> cases other⟩
    · cases taken
  | zeroSaved =>
    simp only [Server.step] at taken
    split at taken <;> cases taken
    exact ⟨fun _ other => absurd rfl other,fun other => by rcases other with other | other <;> cases other⟩
  | restart =>
    simp only [Server.step] at taken
    split at taken <;> cases taken
    rename_i zeroed
    have none := listed.cleared (.inr zeroed)
    exact ⟨fun _ _ => ⟨rfl,Int.le_refl _⟩,fun _ => by simp [none]⟩

theorem itemsMore {a : ServerStep} (took : Took s a t) : s.dialog.items.length ≤ t.dialog.items.length := by
  cases took with
  | gone gone =>
    rw [gone.dialog]
    have effect := gone.effect
    generalize t.handler = handler at effect
    cases effect with
    | quiet quiet | loaded quiet | finished quiet => exact (quietLength quiet).ge
    | counted counts => exact (countsLength counts).ge
    | marked marks => exact (marksLength marks).ge
    | announced announced => exact (announcedLength announced).symm ▸ Nat.le_succ _
  | _ => exact Nat.le_refl _

theorem rowsShown {m_strSavePath : CString} {disk : Disk} {acts : List ServerStep}
    (run : follow (Server.step env) acts (Server.start m_strSavePath disk) = some s) (idle : s.ui = .idle)
    (few : s.dialog.items.length < 2 ^ 31) : s.itemCount = s.m_vecFileList.length := by
  have start : Displays (Server.start m_strSavePath disk) := ⟨fun _ _ => ⟨rfl,Int.le_refl _⟩,fun _ => rfl⟩
  have kept : ∀ {u v : Server} {a : ServerStep}, u.step env a = some v →
      Listed u ∧ (u.dialog.items.length < 2 ^ 31 → Displays u) →
      Listed v ∧ (v.dialog.items.length < 2 ^ 31 → Displays v) := by
    intro u v a taken ⟨listed,displays⟩
    refine ⟨listedStep listed (stepTook taken),fun few => ?_⟩
    have before := Nat.lt_of_le_of_lt (itemsMore (stepTook taken)) few
    exact displaysStep (displays before) listed before taken
  have begun : Listed (Server.start m_strSavePath disk) ∧
      ((Server.start m_strSavePath disk).dialog.items.length < 2 ^ 31 → Displays (Server.start m_strSavePath disk)) :=
    ⟨startListed m_strSavePath disk,fun _ => start⟩
  exact ((followKeeps kept run begun).2 few).all (.inl idle)

theorem markStays {a : ServerStep} (smooth : a.Smooth) (took : Took s a t) : t.mark = s.mark := by
  cases took with
  | gone gone => exact gone.still.mark
  | asked | cleared => exact smooth.elim
  | _ => rfl

theorem marksStay {acts : List ServerStep} (smooth : ∀ a ∈ acts, a.Smooth) (run : follow (Server.step env) acts s = some t) :
    t.mark = s.mark := by
  induction acts generalizing s with
  | nil =>
    cases run
    rfl
  | cons a acts ih =>
    obtain ⟨next,taken,rest⟩ := followCons run
    have first := markStays (smooth a List.mem_cons_self) (stepTook taken)
    exact (ih (fun a member => smooth a (List.mem_cons_of_mem _ member)) rest).trans first

def Server.row (cchTextMax : Nat) (s : Server) (k : Nat) : List (Option (Except Stop (Option DispText))) :=
  [1,2,3,4].map fun iSubItem => s.onLvnGetdispinfoListFile cchTextMax true k iSubItem

def FileItem.texts (pFile : FileItem) : List DispText :=
  [.text pFile.strSourceFile,.text pFile.strDestFile,.number (int pFile.nFileSize.toNat),.status pFile.nStatus]

def shown (text : DispText) : Option (Except Stop (Option DispText)) := some (.ok (some text))

theorem rowItem {cchTextMax k p : Nat} {pFile : FileItem} (there : s.m_vecFileList[k]? = some p)
    (item : s.dialog.items[p]? = some pFile) (fits : ∀ text ∈ pFile.texts, text.characters.length < cchTextMax) :
    s.row cchTextMax k = pFile.texts.map shown := by
  have some : s.m_vecFileList.length ≠ 0 := Nat.ne_zero_of_lt (List.getElem?_eq_some_iff.mp there).1
  have positive : ¬ (k : Int) < 0 := Int.not_lt.mpr (Int.natCast_nonneg k)
  simp only [FileItem.texts,List.mem_cons,List.not_mem_nil,or_false,forall_eq_or_imp,forall_eq] at fits
  obtain ⟨source,dest,size,status⟩ := fits
  simp [Server.row,FileItem.texts,shown,Server.onLvnGetdispinfoListFile,fitted,some,positive,there,item,source,dest,size,
    status]

theorem rowsItems {cchTextMax : Nat} {m_strSavePath : CString} {disk : Disk} {acts : List ServerStep}
    (run : follow (Server.step env) acts (Server.start m_strSavePath disk) = some s) (idle : s.ui = .idle)
    (few : s.dialog.items.length < 2 ^ 31) (fresh : s.mark = 0) (taken : s.dialog.m_vecFileTemp = [])
    (fits : ∀ pFile ∈ s.dialog.items, ∀ text ∈ pFile.texts, text.characters.length < cchTextMax) :
    (List.range s.itemCount.toNat).map (s.row cchTextMax) = s.dialog.items.map fun pFile => pFile.texts.map shown := by
  have listed : Listed s :=
    followKeeps (fun taken listed => listedStep listed (stepTook taken)) run (startListed m_strSavePath disk)
  have waiting : s.waiting = [] := List.eq_nil_iff_forall_not_mem.mpr fun p member => by
    have early := listed.early p member
    omega
  have all : s.m_vecFileList = List.range s.dialog.items.length := by
    have order := listed.order
    rw [Server.listed,listed.swapped (by rw [idle]; decide),taken,waiting,fresh,List.append_nil,List.append_nil] at order
    rw [order,List.nil_append,Nat.sub_zero,List.range_eq_range']
  have count := rowsShown run idle few
  rw [all,List.length_range] at count
  rw [count,Int.toNat_natCast]
  apply List.ext_getElem (by simp)
  intro k inside _
  have below : k < s.dialog.items.length := by simpa using inside
  rw [List.getElem_map,List.getElem_map,List.getElem_range]
  exact rowItem (by rw [all,List.getElem?_range below]) (List.getElem?_eq_getElem below) (fits _ (List.getElem_mem below))

end Displays

section Queue
variable {ι : Type} [DecidableEq ι]
variable {env : Env} {ansiString : CString → Bytes} {queue : List FileInfo} {world : Nat → Surroundings}
  {m_nSendFiles : ι → Uint} {calls : List (ι × Bool)} {sent : Senders ι} {order : List ι} {acts : List ServerStep}
  {m_strSavePath : CString} {disk : Disk} {s : Server}

theorem numberFits {n : Int} (low : 0 ≤ n) (high : n < 2147483648) : (DispText.number n).characters.length ≤ 10 := by
  have digits : (Nat.toDigits 10 n.natAbs).length ≤ 10 :=
    (Nat.length_toDigits_le_iff (by decide) (by decide)).mpr (by omega)
  rw [DispText.characters,if_neg (Int.not_lt.mpr low),List.nil_append,chars,List.length_map]
  exact digits

theorem queueShown {cchTextMax : Nat} (digits : 10 < cchTextMax)
    (wide : ∀ file ∈ queue, (m_strSavePath ++ file.strDir).length < cchTextMax)
    (queued : Queued env ansiString queue world) (few : queue.length < 2 ^ 31)
    (calling : follow Senders.step calls (Senders.start queue) = some sent)
    (returned : ∀ i, (sent.worker i).line = .returned)
    (joined : Joined ansiString queue world m_nSendFiles sent order acts s) (somebody : order ≠ [])
    {before m_strSourcePath : CString} (save : m_strSavePath ≠ []) (source : m_strSourcePath ≠ [])
    (run : follow (Server.step env) ([.inject m_strSavePath m_strSourcePath,.zeroSaved,.restart] ++ acts)
      (Server.start before disk) = some s)
    (smooth : ∀ a ∈ acts, a.Smooth) (free : s.handler = none) (idle : s.ui = .idle)
    (taken : s.dialog.m_vecFileTemp = []) :
    ((List.range s.itemCount.toNat).map (s.row cchTextMax)).Perm ((savedOf queue world sent order).map fun x =>
      [shown (.text x.1.strDir),shown (.text (m_strSavePath ++ x.1.strDir)),shown (.number x.2.content.length),
        shown (.status true)]) := by
  rw [followAppend,clickStarts env disk before save source,Option.bind_some] at run
  obtain ⟨-,items⟩ := queueSaved queued calling returned joined somebody run smooth free
  have length := items.length_eq
  have kept : (savedOf queue world sent order).length ≤ queue.length := by
    rw [savedOf,List.length_map]
    exact (List.length_filter_le _ _).trans List.length_range.le
  rw [List.length_map] at length
  have sizes : ∀ x ∈ savedOf queue world sent order, x.1 ∈ queue ∧ x.2.content.length < 2147483648 := by
    intro x member
    obtain ⟨p,inside,rfl⟩ := List.mem_map.mp member
    have below := List.mem_range.mp (List.mem_filter.mp inside).1
    exact ⟨queuedMember below,queued.sizes p below⟩
  have number : ∀ n < 2147483648, int ((BitVec.ofNat 32 n).toNat : Nat) = n := fun n small => by
    rw [BitVec.toNat_ofNat,Nat.mod_eq_of_lt (by omega)]
    exact intFits (by omega) (by omega)
  have fits : ∀ pFile ∈ s.dialog.items, ∀ text ∈ pFile.texts, text.characters.length < cchTextMax := by
    intro pFile member
    obtain ⟨x,here,rfl⟩ := List.mem_map.mp (items.subset member)
    obtain ⟨inside,size⟩ := sizes x here
    have dest := wide x.1 inside
    have few := numberFits (Int.natCast_nonneg x.2.content.length) (by omega)
    simp only [FileItem.texts,List.mem_cons,List.not_mem_nil,or_false,forall_eq_or_imp,forall_eq,number _ size]
    refine ⟨?_,dest,by omega,?_⟩
    · rw [List.length_append] at dest
      exact Nat.lt_of_le_of_lt (Nat.le_add_left _ _) dest
    · exact Nat.lt_trans (by decide) digits
  rw [rowsItems run idle (by omega) (marksStay smooth run) taken fits]
  refine (items.map fun pFile => pFile.texts.map shown).trans (List.Perm.of_eq ?_)
  rw [List.map_map]
  refine List.map_congr_left fun x member => ?_
  simp only [Function.comp,FileItem.texts,List.map_cons,List.map_nil,number _ (sizes x member).2]

end Queue

theorem timerTakes (env : Env) {s : Server} (idle : s.ui = .idle) (free : s.handler = none) :
    ∃ t, follow (Server.step env) [.onTimer,.insert,.setItemCount] s = some t ∧ t.ui = .idle ∧
      t.dialog.m_vecFileTemp = [] ∧ t.handler = s.handler ∧ t.sessions = s.sessions := by
  have unlocked : s.locked = false := by rw [Server.locked,free]
  simp only [follow,Server.step,idle,unlocked,and_self,if_true,Option.bind_some]
  split <;> exact ⟨_,rfl,rfl,rfl,rfl,rfl⟩

theorem queueShownShort : ∃ sent acts s,
    follow Senders.step oneSender (Senders.start [shortName]) = some sent ∧
    follow (Server.step plainEnv) ([.inject plainDialog.m_strSavePath [0x43],.zeroSaved,.restart] ++ acts)
      (Server.start [] emptyDisk) = some s ∧
    ((List.range s.itemCount.toNat).map (s.row 260)).Perm
      ((savedOf [shortName] (fun _ => undisturbed [1,2,3]) sent [()]).map fun x =>
        [shown (.text x.1.strDir),shown (.text (plainDialog.m_strSavePath ++ x.1.strDir)),
          shown (.number x.2.content.length),shown (.status true)]) := by
  obtain ⟨sent,acts,s,calling,returned,joined,run,smooth,free,idle⟩ := shortRan
  obtain ⟨t,tick,idle',taken,handler,sessions⟩ := timerTakes plainEnv idle free
  have save : plainDialog.m_strSavePath ≠ [] := by decide
  have source : ([0x43] : CString) ≠ [] := by decide
  have whole : follow (Server.step plainEnv) ([.inject plainDialog.m_strSavePath [0x43],.zeroSaved,.restart] ++
      (acts ++ [.onTimer,.insert,.setItemCount])) (Server.start [] emptyDisk) = some t := by
    rw [followAppend,clickStarts plainEnv emptyDisk [] save source,Option.bind_some,followAppend,run,Option.bind_some,tick]
  have reads : ∀ k, readsOf k (acts ++ [.onTimer,.insert,.setItemCount]) = readsOf k acts := fun k => by
    rw [readsAppend]
    exact List.append_nil _
  have joined' : Joined asciiString [shortName] (fun _ => undisturbed [1,2,3]) (fun _ => 0) sent [()]
      (acts ++ [.onTimer,.insert,.setItemCount]) t :=
    ⟨joined.once,joined.connected,sessions ▸ joined.sessions,fun k i here => by rw [reads]; exact joined.wire k i here⟩
  have smooth' : ∀ a ∈ acts ++ [ServerStep.onTimer,.insert,.setItemCount], a.Smooth := by
    intro a member
    rcases List.mem_append.mp member with member | member
    · exact smooth a member
    · simp only [List.mem_cons,List.not_mem_nil,or_false] at member
      rcases member with rfl | rfl | rfl <;> trivial
  exact ⟨sent,_,t,calling,whole,queueShown (by decide) (by decide) shortQueued (by decide) calling returned joined'
    (by simp) save source whole
    smooth' (handler.trans free) idle' taken⟩

end JokeDse
