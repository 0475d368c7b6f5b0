import JokeDse.Server
import JokeDse.Stream
import JokeDse.Together

/-! The sessions of one dialog beside each other. Their reads are handled in turns and the dialog's thread
goes between, but each makes what it would make on a server of its own where its file operations end alike. -/
namespace JokeDse
open Runs Shares

/-! The steps of the dialog and its two threads. -/

def Server.busy (s : Server) : Option Nat :=
  match s.handler with
  | some (.parsing i ..) => some i
  | some (.finishing i _) => some i
  | _ => none

def Server.rx (s : Server) : Rx := (s.ctx Session.new).toRx

/-- What remains of a step for a server on which the session with the number `i` is the only one: the
steps of its own, and what the user chooses as m_strSavePath. -/
def Server.aloneStep (i : Nat) (s : Server) : ServerStep → List ServerStep
  | .start =>
    match s.handler with
    | some (.accepting false) => if s.sessions.length = i then [.accept false,.start] else []
    | _ => []
  | .read j data ops ec => if j = i then [.read 0 data ops ec] else []
  | .go => if s.busy = some i then [.go] else []
  | .finish => if s.busy = some i then [.finish] else []
  | .inject m_strSavePath _ => [.inject m_strSavePath []]
  | _ => []

def alone (env : Env) (i : Nat) : List ServerStep → Server → List ServerStep
  | [], _ => []
  | a :: rest, s =>
    match s.step env a with
    | none => []
    | some t => s.aloneStep i a ++ alone env i rest t

def Server.recorded (s s' : Server) (own : Nat → Own) (i : Nat) : Own :=
  if s.busy = some i then (own i).grown s.rx s'.rx else own i

def ledger (env : Env) : List ServerStep → Server → (Nat → Own) → Nat → Own
  | [], _, own => own
  | a :: rest, s, own =>
    match s.step env a with
    | none => own
    | some t => ledger env rest t (s.recorded t own)

def Handler.turn (i : Nat) : Handler → Option Handler
  | .accepting _ => none
  | .parsing j ops ec nFileSize place => if j = i then some (.parsing 0 ops ec nFileSize place.blind) else none
  | .finishing j ec => if j = i then some (.finishing 0 ec) else none

def Handler.blind : Handler → Handler
  | .parsing i ops ec nFileSize place => .parsing i ops ec nFileSize place.blind
  | handler => handler

structure Beside (i : Nat) (own : Own) (t s : Server) : Prop where
  ui : t.ui = .idle
  handler : t.handler.map Handler.blind = s.handler.bind (Handler.turn i)
  m_strSavePath : t.dialog.m_strSavePath = s.dialog.m_strSavePath
  there : ∀ part, s.sessions[i]? = some part → ∃ mine, t.sessions = [mine] ∧ mine.pBuffer = part.pBuffer ∧
    mine.reading = part.reading ∧ Sees own ⟨mine.session,t.dialog,t.disk⟩ ⟨part.session,s.dialog,s.disk⟩
  absent : s.sessions[i]? = none → t.sessions = [] ∧ t.disk.files = [] ∧ t.dialog.items = [] ∧ own = Own.none

structure Abreast (old : List SavedFile) (own : Nat → Own) (t : Nat → Server) (s : Server) : Prop where
  beside : ∀ i, Beside i (own i) (t i) s
  files : Parted (fun i => (own i).files) old.length s.disk.files.length
  items : Parted (fun i => (own i).items) 0 s.dialog.items.length
  more : old.length ≤ s.disk.files.length
  before : ∀ n < old.length, s.disk.files[n]? = old[n]?

section Steps
variable {env : Env} {old : List SavedFile} {own : Nat → Own} {t : Nat → Server} {s s' : Server} {i : Nat}

theorem compactAlike {nOffset : Int} {pBuffer : Buffer} {c : Ctx} {r : Conn} (c' : Ctx)
    (done : compact nOffset pBuffer c = .done () r) :
    ∃ r', compact nOffset pBuffer c' = .done () r' ∧ r'.pBuffer = r.pBuffer ∧ r'.toRx = c'.toRx := by
  unfold compact at done ⊢
  simp only at done ⊢
  split at done
  · rename_i more
    split at done
    · cases done
    · rename_i low
      cases done
      rw [if_pos more,if_neg low]
      exact ⟨_,rfl,rfl,rfl⟩
  · rename_i none
    cases done
    rw [if_neg none]
    exact ⟨_,rfl,rfl,rfl⟩

theorem Beside.frame {own : Own} {t : Server} (beside : Beside i own t s) (sessions : s'.sessions[i]? = s.sessions[i]?)
    (handler : s'.handler.bind (Handler.turn i) = s.handler.bind (Handler.turn i))
    (path : s'.dialog.m_strSavePath = s.dialog.m_strSavePath)
    (files : ∀ n ∈ own.files, s'.disk.files[n]? = s.disk.files[n]?)
    (items : ∀ n ∈ own.items, s'.dialog.items[n]? = s.dialog.items[n]?) : Beside i own t s' where
  ui := beside.ui
  handler := by rw [handler,beside.handler]
  m_strSavePath := by rw [path,beside.m_strSavePath]
  there part there := by
    obtain ⟨mine,same,pBuffer,reading,sees⟩ := beside.there part (sessions ▸ there)
    exact ⟨mine,same,pBuffer,reading,{sees with
      m_strSavePath := path.trans sees.m_strSavePath
      files := sees.files.keep files
      items := sees.items.keep items}⟩
  absent none := beside.absent (sessions ▸ none)

def Alongside (env : Env) (old : List SavedFile) (own : Nat → Own) (t : Nat → Server) (s : Server) (a : ServerStep)
    (s' : Server) : Prop :=
  ∃ t' : Nat → Server, (∀ i, follow (Server.step env) (s.aloneStep i a) (t i) = some (t' i)) ∧
    Abreast old (s.recorded s' own) t' s'

theorem recordedStill (own : Nat → Own) (files : s'.disk.files = s.disk.files) (items : s'.dialog.items = s.dialog.items) :
    s.recorded s' own = own := by
  funext i
  have same : s.rx.disk.files.length = s'.rx.disk.files.length := congrArg List.length files.symm
  have list : s.rx.dialog.items.length = s'.rx.dialog.items.length := congrArg List.length items.symm
  simp [Server.recorded,Own.grown,same,list]

theorem Abreast.still (apart : Abreast old own t s) {t' : Nat → Server} (files : s'.disk.files = s.disk.files)
    (items : s'.dialog.items = s.dialog.items) (beside : ∀ i, Beside i (own i) (t' i) s') :
    Abreast old (s.recorded s' own) t' s' := by
  rw [recordedStill own files items]
  exact ⟨beside,by rw [files]; exact apart.files,by rw [items]; exact apart.items,by rw [files]; exact apart.more,
    by rw [files]; exact apart.before⟩

theorem Abreast.besides (apart : Abreast old own t s) {a : ServerStep} (nothing : ∀ i, s.aloneStep i a = [])
    (disk : s'.disk = s.disk) (items : s'.dialog.items = s.dialog.items) (sessions : s'.sessions = s.sessions)
    (path : s'.dialog.m_strSavePath = s.dialog.m_strSavePath)
    (handler : ∀ i, s'.handler.bind (Handler.turn i) = s.handler.bind (Handler.turn i)) :
    Alongside env old own t s a s' := by
  refine ⟨t,fun i => by rw [nothing i]; rfl,apart.still (by rw [disk]) items fun i => ?_⟩
  exact (apart.beside i).frame (by rw [sessions]) (handler i) path (fun n _ => by rw [disk]) fun n _ => by rw [items]

theorem turnFree (free : s.handler.bind (Handler.turn i) = none) (beside : Beside i (own i) (t i) s) :
    (t i).handler = none := Option.map_eq_none_iff.mp (beside.handler.trans free)

theorem blindDone {o : Outcome Ctx Place} {p : Place} {c : Ctx} (done : blindly o = .done p c) :
    ∃ next, o = .done next c ∧ next.blind = p := by
  cases o <;> cases done
  exact ⟨_,rfl,rfl⟩

theorem blindThrown {o : Outcome Ctx Place} {c : Ctx} (thrown : blindly o = .thrown c) : o = .thrown c := by
  cases o <;> cases thrown
  rfl

theorem blindParsing {h : Option Handler} {j : Nat} {ops : FileOps} {ec : Bool} {nFileSize : Int} {place : Place}
    (same : h.map Handler.blind = some (.parsing j ops ec nFileSize place)) :
    ∃ place', h = some (.parsing j ops ec nFileSize place') ∧ place'.blind = place := by
  obtain ⟨handler,rfl,blind⟩ := Option.map_eq_some_iff.mp same
  cases handler <;> cases blind
  exact ⟨_,rfl,rfl⟩

theorem blindFinishing {h : Option Handler} {j : Nat} {ec : Bool}
    (same : h.map Handler.blind = some (.finishing j ec)) : h = some (.finishing j ec) := by
  obtain ⟨handler,rfl,blind⟩ := Option.map_eq_some_iff.mp same
  cases handler <;> cases blind
  rfl

theorem Abreast.started (apart : Abreast old own t s) (accepting : s.handler = some (.accepting false)) :
    Alongside env old own t s .start {s with sessions := s.sessions ++ [⟨Session.new,Buffer.new,true⟩], handler := none} := by
  let begun (t : Server) : Server :=
    {t with m_nClients := t.m_nClients + 1, sessions := t.sessions ++ [⟨Session.new,Buffer.new,true⟩], handler := none}
  have free : ∀ i, (t i).handler = none := by
    intro i
    exact turnFree (by rw [accepting]; rfl) (apart.beside i)
  refine ⟨fun i => if s.sessions.length = i then begun (t i) else t i,fun i => ?_,apart.still rfl rfl fun i => ?_⟩
  · simp only [Server.aloneStep,accepting]
    split
    · simp only [follow,Server.step,free i,Option.bind_some]
      rfl
    · rfl
  · have beside := apart.beside i
    split
    · rename_i here
      subst here
      obtain ⟨sessions,files,items,none⟩ := beside.absent (List.getElem?_eq_none (Nat.le_refl _))
      refine ⟨beside.ui,rfl,beside.m_strSavePath,fun part there => ?_,fun none => ?_⟩
      · rw [List.getElem?_concat_length] at there
        cases there
        refine ⟨⟨Session.new,Buffer.new,true⟩,by simp only [begun,sessions,List.nil_append],rfl,rfl,?_⟩
        rw [none]
        exact ⟨rfl,rfl,rfl,rfl,beside.m_strSavePath.symm,heldNone,heldNone,by simp only [begun,files]; exact showsNothing _,
          by simp only [begun,items]; exact showsNothing _,List.nodup_nil,List.nodup_nil⟩
      · simp at none
    · rename_i other
      refine beside.frame ?_ (by rw [accepting]; rfl) rfl (fun _ _ => rfl) fun _ _ => rfl
      rcases Nat.lt_or_gt_of_ne other with above | below
      · rw [List.getElem?_eq_none (Nat.le_of_lt above),List.getElem?_eq_none]
        rw [List.length_append]
        exact above
      · exact List.getElem?_append_left below

theorem Abreast.reads (apart : Abreast old own t s) {j : Nat} {data : Bytes} {ops : FileOps} {ec : Bool} {part : Part}
    {value : Bool} {pBuffer : Buffer} (free : s.handler = none) (there : s.sessions[j]? = some part)
    (reading : part.reading = true) (merged : memMerge (fun _ => true) part.pBuffer data = .returned value pBuffer) :
    Alongside env old own t s (.read j data ops ec) (s.called j ops ec part pBuffer) := by
  obtain ⟨inside,-⟩ := List.getElem?_eq_some_iff.mp there
  obtain ⟨mine,sessions,same,still,sees⟩ := (apart.beside j).there part there
  have taken : (t j).step env (.read 0 data ops ec) = some ((t j).called 0 ops ec mine pBuffer) := by
    have nobody : (t j).handler = none := turnFree (by rw [free]; rfl) (apart.beside j)
    simp only [Server.step,nobody,sessions,List.getElem?_cons_zero,still,reading,same,merged,
      Server.called]
  refine ⟨fun i => if j = i then (t j).called 0 ops ec mine pBuffer else t i,fun i => ?_,apart.still rfl rfl fun i => ?_⟩
  · simp only [Server.aloneStep]
    split
    · rename_i here
      subst here
      simp only [follow,taken,Option.bind_some]
    · rfl
  · have beside := apart.beside i
    split
    · rename_i here
      subst here
      refine ⟨beside.ui,?_,beside.m_strSavePath,fun part' there' => ?_,fun none => ?_⟩
      · have size : part.session.nFileSize = mine.session.nFileSize := sees.nFileSize
        simp only [Server.called,Option.map_some,Handler.blind,Option.bind_some,Handler.turn,if_true,size]
      · rw [calledPart there] at there'
        cases there'
        exact ⟨{mine with pBuffer},by simp only [Server.called,sessions,List.set_cons_zero],rfl,still,sees⟩
      · rw [calledPart there] at none
        cases none
    · rename_i other
      refine beside.frame (List.getElem?_set_ne other) ?_ rfl (fun _ _ => rfl) fun _ _ => rfl
      simp only [Server.called,free,Option.bind_some,Handler.turn,if_neg other,Option.bind_none]

def Server.ended (i : Nat) (ec : Bool) (s : Server) : Server :=
  if ec then
    {s with
      m_nClients := s.m_nClients - 1
      sessions := s.sessions.modify i fun part => {part with reading := false}
      handler := none}
  else {s with handler := none}

theorem stepFinish {ec : Bool} (finishing : s.handler = some (.finishing i ec)) :
    s.step env .finish = some (s.ended i ec) := by
  simp only [Server.step,finishing,Server.ended]

theorem endedSame (i : Nat) (ec : Bool) (s : Server) : (s.ended i ec).disk = s.disk ∧ (s.ended i ec).dialog = s.dialog ∧
    (s.ended i ec).handler = none ∧ (s.ended i ec).ui = s.ui := by
  cases ec <;> exact ⟨rfl,rfl,rfl,rfl⟩

theorem endedPart {part : Part} (ec : Bool) (there : s.sessions[i]? = some part) :
    (s.ended i ec).sessions[i]? = some {part with reading := part.reading && !ec} := by
  cases ec with
  | false => simp [Server.ended,there]
  | true => simp [Server.ended,there]

theorem Abreast.finishes (apart : Abreast old own t s) {j : Nat} {ec : Bool}
    (finishing : s.handler = some (.finishing j ec)) : Alongside env old own t s .finish (s.ended j ec) := by
  have busy : s.busy = some j := by simp only [Server.busy,finishing]
  obtain ⟨disk,dialog,free,-⟩ := endedSame j ec s
  refine ⟨fun i => if j = i then (t j).ended 0 ec else t i,fun i => ?_,
    apart.still (by rw [disk]) (by rw [dialog]) fun i => ?_⟩
  · simp only [Server.aloneStep,busy,Option.some.injEq]
    split
    · rename_i here
      subst here
      have mine : (t j).handler = some (.finishing 0 ec) := by
        refine blindFinishing ?_
        rw [(apart.beside j).handler,finishing]
        exact if_pos rfl
      rw [follow,stepFinish mine]
      rfl
    · rfl
  · have beside := apart.beside i
    split
    · rename_i here
      subst here
      obtain ⟨disk',dialog',free',ui'⟩ := endedSame 0 ec (t j)
      refine ⟨ui'.trans beside.ui,by rw [free',free]; rfl,by rw [dialog',dialog]; exact beside.m_strSavePath,
        fun part there => ?_,fun gone => ?_⟩
      · cases found : s.sessions[j]? with
        | none =>
          have absent : (s.ended j ec).sessions[j]? = none := by
            cases ec <;> simp [Server.ended,found]
          rw [absent] at there
          cases there
        | some part' =>
          rw [endedPart ec found] at there
          cases there
          obtain ⟨mine,sessions,same,still,sees⟩ := beside.there part' found
          refine ⟨{mine with reading := mine.reading && !ec},?_,same,by rw [still],by rwa [disk,disk',dialog,dialog']⟩
          cases ec <;> simp [Server.ended,sessions]
      · have absent : s.sessions[j]? = none := by
          cases ec <;> simpa [Server.ended] using gone
        obtain ⟨sessions,files,items,nothing⟩ := beside.absent absent
        rw [disk',dialog']
        refine ⟨?_,files,items,nothing⟩
        cases ec <;> simp [Server.ended,sessions]
    · rename_i other
      refine beside.frame ?_ ?_ (by rw [dialog]) (fun _ _ => by rw [disk]) fun _ _ => by rw [dialog]
      · cases ec with
        | false => rfl
        | true => exact List.getElem?_modify_ne _ _ other
      · rw [free,finishing]
        exact (if_neg other).symm

theorem Abreast.injects (apart : Abreast old own t s) {m_strSavePath m_strSourcePath : CString}
    (taken : s.step env (.inject m_strSavePath m_strSourcePath) = some s') :
    Alongside env old own t s (.inject m_strSavePath m_strSourcePath) s' := by
  let chosen (t : Server) : Server := {t with dialog := {t.dialog with m_strSavePath}}
  have fields : s'.disk = s.disk ∧ s'.dialog = {s.dialog with m_strSavePath} ∧ s'.sessions = s.sessions ∧
      s'.handler = s.handler := by
    simp only [Server.step] at taken
    split at taken
    · split at taken <;> cases taken <;> exact ⟨rfl,rfl,rfl,rfl⟩
    · cases taken
  obtain ⟨disk,dialog,sessions,handler⟩ := fields
  refine ⟨fun i => chosen (t i),fun i => ?_,apart.still (by rw [disk]) (by rw [dialog]) fun i => ?_⟩
  · have taken : (t i).step env (.inject m_strSavePath []) = some (chosen (t i)) := by
      rw [Server.step,if_pos (apart.beside i).ui,if_pos (.inl rfl)]
    simp only [Server.aloneStep,follow,taken,Option.bind_some]
  · have beside := apart.beside i
    refine ⟨beside.ui,by rw [handler]; exact beside.handler,by rw [dialog],fun part there => ?_,fun none => ?_⟩
    · obtain ⟨mine,same,pBuffer,reading,sees⟩ := beside.there part (sessions ▸ there)
      refine ⟨mine,same,pBuffer,reading,?_⟩
      rw [disk,dialog]
      exact {sees with m_strSavePath := rfl}
    · exact beside.absent (sessions ▸ none)

theorem Abreast.handled (apart : Abreast old own t s) {j : Nat} {part mine : Part} (pBuffer : Buffer) {c c' : Ctx}
    {next next' : Option Handler} (busy : s.busy = some j) (there : s.sessions[j]? = some part)
    (sessions : (t j).sessions = [mine]) (reading : mine.reading = part.reading)
    (follows : Mirrors (own j) ⟨part.session,s.dialog,s.disk⟩ c'.toRx c.toRx)
    (taken : (t j).step env .go = some {(t j).put 0 {mine with pBuffer} c' with handler := next'})
    (turned : next'.map Handler.blind = next.bind (Handler.turn j))
    (others : ∀ i, j ≠ i → s.handler.bind (Handler.turn i) = none ∧ next.bind (Handler.turn i) = none) :
    Alongside env old own t s .go {s.put j {part with pBuffer} c with handler := next} := by
  have grown : s.recorded {s.put j {part with pBuffer} c with handler := next} own =
      Function.update own j ((own j).grown ⟨part.session,s.dialog,s.disk⟩ c.toRx) := by
    funext i
    simp only [Server.recorded,busy,Option.some.injEq]
    by_cases here : j = i
    · subst here
      rw [if_pos rfl,Function.update_self]
      rfl
    · rw [if_neg here,Function.update_of_ne (Ne.symm here)]
  have filesMore : s.disk.files.length ≤ c.disk.files.length := follows.filesMore
  have itemsMore : s.dialog.items.length ≤ c.dialog.items.length := follows.itemsMore
  refine ⟨fun i => if j = i then {(t j).put 0 {mine with pBuffer} c' with handler := next'} else t i,fun i => ?_,?_⟩
  · simp only [Server.aloneStep,busy,Option.some.injEq]
    split
    · rename_i here
      subst here
      simp only [follow,taken,Option.bind_some]
    · rfl
  · rw [grown]
    refine ⟨fun i => ?_,?_,?_,Nat.le_trans apart.more filesMore,fun n low => ?_⟩
    · have beside := apart.beside i
      split
      · rename_i here
        subst here
        rw [Function.update_self]
        obtain ⟨inside,-⟩ := List.getElem?_eq_some_iff.mp there
        have same : (s.put j {part with pBuffer} c).sessions[j]? = some {part with session := c.session, pBuffer} :=
          List.getElem?_set_self inside
        refine ⟨beside.ui,turned,follows.sees.m_strSavePath.symm,fun part' there' => ?_,fun gone => ?_⟩
        · cases same.symm.trans there'
          exact ⟨{mine with session := c'.session, pBuffer},by simp only [Server.put,sessions,List.set_cons_zero],rfl,reading,
            follows.sees⟩
        · cases same.symm.trans gone
      · rename_i other
        rw [Function.update_of_ne (Ne.symm other)]
        refine beside.frame (List.getElem?_set_ne other) ?_ follows.m_strSavePath (fun n member => ?_) fun n member => ?_
        · rw [(others i other).1]
          exact (others i other).2
        · exact follows.files n (apart.files.inside i n member).2 fun mine => other (apart.files.apart mine member)
        · exact follows.items n (apart.items.inside i n member).2 fun mine => other (apart.items.apart mine member)
    · have parted := apart.files.grow apart.more j (c.disk.files.length - s.disk.files.length)
      rw [Nat.add_sub_cancel' filesMore] at parted
      have files := Function.comp_update Own.files own j ((own j).grown ⟨part.session,s.dialog,s.disk⟩ c.toRx)
      exact (congrArg (fun own => Parted own old.length c.disk.files.length) files).mpr parted
    · have parted := apart.items.grow (Nat.zero_le _) j (c.dialog.items.length - s.dialog.items.length)
      rw [Nat.add_sub_cancel' itemsMore] at parted
      have items := Function.comp_update Own.items own j ((own j).grown ⟨part.session,s.dialog,s.disk⟩ c.toRx)
      exact (congrArg (fun own => Parted own 0 c.dialog.items.length) items).mpr parted
    · have more := apart.more
      rw [← apart.before n low]
      refine follows.files n (Nat.lt_of_lt_of_le low more) fun mine => ?_
      have from_ := (apart.files.inside j n mine).1
      omega

theorem Abreast.goes (apart : Abreast old own t s) {j : Nat} {ops : FileOps} {ec : Bool} {nFileSize : Int} {place : Place}
    {part : Part} (handler : s.handler = some (.parsing j ops ec nFileSize place)) (there : s.sessions[j]? = some part)
    (taken : s.parse env j ops ec nFileSize place part = some s') : Alongside env old own t s .go s' := by
  have busy : s.busy = some j := by simp only [Server.busy,handler]
  obtain ⟨mine,sessions,same,reading,sees⟩ := (apart.beside j).there part there
  obtain ⟨place',here,blind⟩ : ∃ place', (t j).handler = some (.parsing 0 ops ec nFileSize place') ∧
      place'.blind = place.blind := by
    refine blindParsing ?_
    rw [(apart.beside j).handler,handler]
    exact if_pos rfl
  have alone' : (t j).step env .go = (t j).parse env 0 ops ec nFileSize place' mine :=
    stepGo env here (by rw [sessions]; rfl)
  have parsing : ∀ i, j ≠ i → ∀ place, Option.bind (some (Handler.parsing j ops ec nFileSize place)) (Handler.turn i) =
      none := fun i other _ => if_neg other
  have finishing : ∀ i, j ≠ i → Option.bind (some (Handler.finishing j ec)) (Handler.turn i) = none :=
    fun i other => if_neg other
  have turnedParsing : ∀ place, Option.bind (some (Handler.parsing j ops ec nFileSize place)) (Handler.turn j) =
      some (.parsing 0 ops ec nFileSize place.blind) := fun _ => if_pos rfl
  have turnedFinishing : Option.bind (some (Handler.finishing j ec)) (Handler.turn j) = some (.finishing 0 ec) :=
    if_pos rfl
  cases left : place.left with
  | true =>
    cases place with
    | leave nOffset =>
      obtain rfl : place' = .leave nOffset := by
        cases place' <;> cases blind
        rfl
      simp only [Server.parse] at taken alone'
      split at taken
      · rename_i c done
        cases taken
        obtain ⟨c',done',pBuffer,rx⟩ := compactAlike ((t j).ctx mine.session) done
        have follows : Mirrors (own j) ⟨part.session,s.dialog,s.disk⟩ c'.toRx c.toRx := by
          rw [rx,compactStill done]
          exact sees.mirrors
        rw [same,done'] at alone'
        simp only [pBuffer] at alone'
        refine apart.handled c.pBuffer busy there sessions reading follows alone' ?_ fun i other => ?_
        · rw [turnedFinishing]
          rfl
        · rw [handler]
          exact ⟨parsing i other _,finishing i other⟩
      · cases taken
    | _ => cases left
  | false =>
    have left' : place'.left = false := by
      rcases blindSame blind with rfl | ⟨_,_,_,rfl,-⟩
      · exact left
      · rfl
    rw [parseGoes left] at taken
    rw [parseGoes left'] at alone'
    have together : Together (own j) ⟨part.session,s.dialog,s.disk⟩
        (blindly (go env ops part.pBuffer.bytes place' ((t j).ctx mine.session)))
        (blindly (go env ops part.pBuffer.bytes place (s.ctx part.session))) := togetherGo env ops blind sees.mirrors
    rw [same] at alone'
    generalize go env ops part.pBuffer.bytes place (s.ctx part.session) = o at taken together
    cases o with
    | done next c =>
      obtain ⟨c',done,follows⟩ := together
      obtain ⟨next',done,blind'⟩ := blindDone done
      rw [done,Server.parsed] at alone'
      cases taken
      have still : mine = {mine with pBuffer := part.pBuffer} := same ▸ rfl
      rw [still] at alone'
      refine apart.handled part.pBuffer busy there sessions reading follows alone' ?_ fun i other => ?_
      · rw [turnedParsing,← blind']
        rfl
      · rw [handler]
        exact ⟨parsing i other _,parsing i other _⟩
    | thrown c =>
      obtain ⟨c',done,follows⟩ := together
      rw [blindThrown done,Server.parsed] at alone'
      cases taken
      have still : mine = {mine with pBuffer := part.pBuffer} := same ▸ rfl
      rw [still] at alone'
      have caught' : Mirrors (own j) ⟨part.session,s.dialog,s.disk⟩ (caught nFileSize part.pBuffer.bytes.length c').toRx
        (caught nFileSize part.pBuffer.bytes.length c).toRx := follows
      refine apart.handled part.pBuffer busy there sessions reading caught' alone' ?_ fun i other => ?_
      · rw [turnedFinishing]
        rfl
      · rw [handler]
        exact ⟨parsing i other _,finishing i other⟩
    | stopped why c => cases taken

theorem stepAlongside {a : ServerStep} (taken : s.step env a = some s') (apart : Abreast old own t s) :
    Alongside env old own t s a s' := by
  cases a with
  | accept ec =>
    cases stepTook taken with
    | accept free => exact apart.besides (fun _ => rfl) rfl rfl rfl rfl fun i => by rw [free]; rfl
  | start =>
    cases stepTook taken with
    | failed accepting =>
      exact apart.besides (fun _ => by simp only [Server.aloneStep,accepting]) rfl rfl rfl rfl fun i => by
        rw [accepting]
        rfl
    | started accepting => exact apart.started accepting
  | read j data ops ec =>
    simp only [Server.step] at taken
    split at taken
    · rename_i part free there
      split at taken
      · rename_i value pBuffer reading merged
        cases taken
        exact apart.reads free there reading merged
      · cases taken
    · cases taken
  | go =>
    simp only [Server.step] at taken
    split at taken
    · rename_i j ops ec nFileSize place handler
      obtain ⟨part,there,taken⟩ := Option.bind_eq_some_iff.mp taken
      exact apart.goes handler there taken
    · cases taken
  | finish =>
    cases finishing : s.handler with
    | none => simp [Server.step,finishing] at taken
    | some handler =>
      cases handler with
      | finishing j ec =>
        rw [stepFinish finishing] at taken
        cases taken
        exact apart.finishes finishing
      | accepting ec => simp [Server.step,finishing] at taken
      | parsing j ops ec nFileSize place => simp [Server.step,finishing] at taken
  | onTimer =>
    cases stepTook taken with
    | onTimer idle unlocked => exact apart.besides (fun _ => rfl) rfl rfl rfl rfl fun _ => rfl
  | insert =>
    cases stepTook taken with
    | insert swapped => exact apart.besides (fun _ => rfl) rfl rfl rfl rfl fun _ => rfl
  | setItemCount =>
    cases stepTook taken with
    | shown inserted low => exact apart.besides (fun _ => rfl) rfl rfl rfl rfl fun _ => rfl
    | unchanged inserted => exact apart.besides (fun _ => rfl) rfl rfl rfl rfl fun _ => rfl
  | inject m_strSavePath m_strSourcePath => exact apart.injects taken
  | zeroSaved =>
    cases stepTook taken with
    | zeroSaved cleared => exact apart.besides (fun _ => rfl) rfl rfl rfl rfl fun _ => rfl
  | restart =>
    cases stepTook taken with
    | restart zeroed => exact apart.besides (fun _ => rfl) rfl rfl rfl rfl fun _ => rfl

theorem runAlongside {acts : List ServerStep} (run : follow (Server.step env) acts s = some s')
    (apart : Abreast old own t s) :
    ∃ t' : Nat → Server, (∀ i, follow (Server.step env) (alone env i acts s) (t i) = some (t' i)) ∧
      Abreast old (ledger env acts s own) t' s' := by
  induction acts generalizing own t s with
  | nil =>
    cases run
    exact ⟨t,fun _ => rfl,apart⟩
  | cons a acts ih =>
    obtain ⟨next,taken,rest⟩ := followCons run
    obtain ⟨t₁,steps,now⟩ := stepAlongside taken apart
    obtain ⟨t₂,runs,last⟩ := ih rest now
    refine ⟨t₂,fun i => ?_,?_⟩
    · simp only [alone,taken,followAppend,steps i,Option.bind_some,runs i]
    · simp only [ledger,taken]
      exact last

theorem startAbreast (m_strSavePath : CString) (disk : Disk) :
    Abreast disk.files (fun _ => Own.none) (fun _ => Server.start m_strSavePath ⟨[],[]⟩) (Server.start m_strSavePath disk) where
  beside _ := ⟨rfl,rfl,rfl,fun part there => by simp [Server.start] at there,fun _ => ⟨rfl,rfl,rfl,rfl⟩⟩
  files := partedNothing _
  items := partedNothing 0
  more := Nat.le_refl _
  before _ _ := rfl

end Steps

/-- The number lists `own` tell for every session which files and items it made; these, the session's members and its
buffer are what a server with an empty record and no other session holds after the same reads, given that its file
operations end as they did here. -/
structure Separate (env : Env) (m_strSavePath : CString) (disk : Disk) (acts : List ServerStep) (own : Nat → Own)
    (s : Server) : Prop where
  sessions : ∀ i part, s.sessions[i]? = some part → ∃ t mine,
    follow (Server.step env) (alone env i acts (Server.start m_strSavePath disk)) (Server.start m_strSavePath ⟨[],[]⟩) =
      some t ∧ t.sessions = [mine] ∧ t.handler.map Handler.blind = s.handler.bind (Handler.turn i) ∧
    mine.pBuffer = part.pBuffer ∧
    mine.reading = part.reading ∧ Sees (own i) ⟨mine.session,t.dialog,t.disk⟩ ⟨part.session,s.dialog,s.disk⟩
  absent : ∀ i, s.sessions[i]? = none → own i = Own.none
  files : Parted (fun i => (own i).files) disk.files.length s.disk.files.length
  items : Parted (fun i => (own i).items) 0 s.dialog.items.length
  more : disk.files.length ≤ s.disk.files.length
  before : ∀ n < disk.files.length, s.disk.files[n]? = disk.files[n]?

def madeBy (env : Env) (m_strSavePath : CString) (disk : Disk) (acts : List ServerStep) : Nat → Own :=
  ledger env acts (Server.start m_strSavePath disk) fun _ => Own.none

theorem sessionsApart {env : Env} {acts : List ServerStep} {m_strSavePath : CString} {disk : Disk} {s : Server}
    (run : follow (Server.step env) acts (Server.start m_strSavePath disk) = some s) :
    Separate env m_strSavePath disk acts (madeBy env m_strSavePath disk acts) s := by
  obtain ⟨t,runs,apart⟩ := runAlongside run (startAbreast m_strSavePath disk)
  refine ⟨fun i part there => ?_,fun i none => ((apart.beside i).absent none).2.2.2,apart.files,apart.items,apart.more,
    apart.before⟩
  have beside := apart.beside i
  obtain ⟨mine,sessions,pBuffer,reading,sees⟩ := beside.there part there
  exact ⟨t i,mine,runs i,sessions,beside.handler,pBuffer,reading,sees⟩

end JokeDse
