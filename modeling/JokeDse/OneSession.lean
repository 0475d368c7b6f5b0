import JokeDse.Apart

/-! What one session of a dialog holds after its reads, whatever the others and the dialog's thread do
between them: what run makes of the same octets. -/
namespace JokeDse
open Framing Runs

def readsOf (i : Nat) (acts : List ServerStep) : List Bytes :=
  acts.filterMap fun
    | .read j data _ _ => if j = i then some data else none
    | _ => none

/-- No file operation fails, a read brings what max_length allows, and nobody chooses another
m_strSavePath. -/
def ServerStep.Smooth : ServerStep → Prop
  | .read _ data ops _ => ops = allSucceed ∧ data.length ≤ 8192
  | .inject _ _ => False
  | _ => True

def ServerStep.Handles : ServerStep → Prop
  | .read i data ops _ => i = 0 ∧ ops = allSucceed ∧ data.length ≤ 8192
  | .go | .finish => True
  | _ => False

section Shape
variable {env : Env} {s t : Server} {i : Nat} {acts : List ServerStep}

theorem sessionsStay {a : ServerStep} (taken : s.step env a = some t) :
    t.sessions.length = s.sessions.length ∨
      a = .start ∧ s.handler = some (.accepting false) ∧ t.sessions.length = s.sessions.length + 1 := by
  cases stepTook taken with
  | started accepting => exact .inr ⟨rfl,accepting,by simp⟩
  | gone gone =>
    obtain ⟨pBuffer,sessions⟩ := gone.sessions
    exact .inl (by rw [sessions,List.length_set])
  | read pBuffer free there reading => exact .inl (by simp)
  | closed finishing => exact .inl (by simp)
  | _ => exact .inl rfl

theorem aloneStepHandles {a : ServerStep} (smooth : a.Smooth) (begun : i < s.sessions.length) :
    ∀ b ∈ s.aloneStep i a, b.Handles := by
  intro b member
  unfold Server.aloneStep at member
  cases a with
  | start =>
    simp only at member
    split at member
    · rw [if_neg (by omega)] at member
      cases member
    · cases member
  | read j data ops ec =>
    simp only at member
    split at member
    · rw [List.mem_singleton.mp member]
      exact ⟨rfl,smooth⟩
    · cases member
  | go =>
    simp only at member
    split at member
    · rw [List.mem_singleton.mp member]
      trivial
    · cases member
  | finish =>
    simp only at member
    split at member
    · rw [List.mem_singleton.mp member]
      trivial
    · cases member
  | inject m_strSavePath m_strSourcePath => exact smooth.elim
  | _ => cases member

theorem aloneHandles (run : follow (Server.step env) acts s = some t) (smooth : ∀ a ∈ acts, a.Smooth)
    (begun : i < s.sessions.length) : ∀ b ∈ alone env i acts s, b.Handles := by
  induction acts generalizing s with
  | nil =>
    intro b member
    cases member
  | cons a acts ih =>
    obtain ⟨next,taken,rest⟩ := followCons run
    have longer : i < next.sessions.length := by
      rcases sessionsStay taken with same | ⟨-,-,more⟩ <;> omega
    intro b member
    simp only [alone,taken] at member
    rcases List.mem_append.mp member with here | later
    · exact aloneStepHandles (smooth a List.mem_cons_self) begun b here
    · exact ih rest (fun a member => smooth a (List.mem_cons_of_mem _ member)) longer b later

theorem aloneBegins {u v : Server} (run : follow (Server.step env) acts s = some t) (smooth : ∀ a ∈ acts, a.Smooth)
    (free : u.handler = none) (nobody : u.sessions = [])
    (ran : follow (Server.step env) (alone env i acts s) u = some v) (somebody : v.sessions ≠ []) :
    ∃ rest, alone env i acts s = .accept false :: .start :: rest ∧ ∀ b ∈ rest, b.Handles := by
  induction acts generalizing s with
  | nil =>
    cases ran
    exact absurd nobody somebody
  | cons a acts ih =>
    obtain ⟨next,taken,rest⟩ := followCons run
    have later : ∀ a ∈ acts, a.Smooth := fun a member => smooth a (List.mem_cons_of_mem _ member)
    simp only [alone,taken] at ran ⊢
    -- A server with no session takes none of the steps of a read.
    have reads : ∀ b rest, b.Handles → follow (Server.step env) (b :: rest) u = some v → False := by
      intro b rest handles steps
      obtain ⟨u',step,-⟩ := followCons steps
      cases b with
      | read j data ops ec => simp [Server.step,free,nobody] at step
      | go => simp [Server.step,free] at step
      | finish => simp [Server.step,free] at step
      | _ => exact handles
    have own := smooth a List.mem_cons_self
    unfold Server.aloneStep at ran ⊢
    cases a with
    | start =>
      simp only at ran ⊢
      split
      · rename_i accepting
        simp only [accepting] at ran
        split
        · rename_i here
          rcases sessionsStay taken with same | ⟨-,-,more⟩
          · simp only [Server.step,accepting,Option.some.injEq] at taken
            subst taken
            simp at same
          · exact ⟨_,rfl,aloneHandles rest later (by omega)⟩
        · rename_i other
          rw [if_neg other] at ran
          exact ih rest later ran
      · rename_i handler
        split at ran
        · rename_i accepting
          exact absurd accepting handler
        · exact ih rest later ran
    | read j data ops ec =>
      simp only at ran ⊢
      split
      · rename_i here
        rw [if_pos here] at ran
        exact (reads (.read 0 data ops ec) _ ⟨rfl,own⟩ ran).elim
      · rename_i other
        rw [if_neg other] at ran
        exact ih rest later ran
    | go =>
      simp only at ran ⊢
      split
      · rename_i here
        rw [if_pos here] at ran
        exact (reads .go _ trivial ran).elim
      · rename_i other
        rw [if_neg other] at ran
        exact ih rest later ran
    | finish =>
      simp only at ran ⊢
      split
      · rename_i here
        rw [if_pos here] at ran
        exact (reads .finish _ trivial ran).elim
      · rename_i other
        rw [if_neg other] at ran
        exact ih rest later ran
    | inject m_strSavePath m_strSourcePath => exact own.elim
    | _ => exact ih rest later ran

theorem readsAppend (a b : List ServerStep) : readsOf i (a ++ b) = readsOf i a ++ readsOf i b :=
  List.filterMap_append

theorem readsAloneStep (a : ServerStep) : readsOf 0 (s.aloneStep i a) = readsOf i [a] := by
  unfold Server.aloneStep
  cases a with
  | start =>
    simp only
    split
    · split <;> rfl
    · rfl
  | read j data ops ec =>
    simp only
    split
    · rename_i here
      simp [readsOf,here]
    · rename_i other
      simp [readsOf,other]
  | go =>
    simp only
    split <;> rfl
  | finish =>
    simp only
    split <;> rfl
  | _ => rfl

theorem readsAlone (run : follow (Server.step env) acts s = some t) : readsOf 0 (alone env i acts s) = readsOf i acts := by
  induction acts generalizing s with
  | nil => rfl
  | cons a acts ih =>
    obtain ⟨next,taken,rest⟩ := followCons run
    simp only [alone,taken,readsAppend,readsAloneStep,ih rest]
    exact (readsAppend [a] acts).symm

end Shape

theorem goesRead (i n : Nat) : readsOf i (List.replicate n .go ++ [.finish]) = [] := by
  rw [readsAppend,readsOf,List.filterMap_replicate]
  rfl

/-! The handler of one read, step by step, is doRead. -/

section Handling
variable {env : Env} {s t : Server}

theorem goesAlike {n : Nat} {u : Server} {l : List ServerStep} (handles : ∀ b ∈ l, b.Handles)
    (once : follow (Server.step env) (List.replicate n .go ++ [.finish]) s = some u)
    (run : follow (Server.step env) l s = some t) (free : t.handler = none) :
    ∃ rest, l = List.replicate n .go ++ .finish :: rest ∧ follow (Server.step env) rest u = some t := by
  induction n generalizing s l with
  | zero =>
    obtain ⟨u',finished,done⟩ := followCons once
    cases done
    cases l with
    | nil =>
      cases run
      simp [Server.step,free] at finished
    | cons b l =>
      obtain ⟨next,taken,rest⟩ := followCons run
      have own := handles b List.mem_cons_self
      cases b with
      | finish =>
        cases finished.symm.trans taken
        exact ⟨l,rfl,rest⟩
      | read j data ops ec =>
        simp only [Server.step] at finished taken
        split at finished
        · rename_i finishing
          simp [finishing] at taken
        · cases finished
      | go =>
        simp only [Server.step] at finished taken
        split at finished
        · rename_i finishing
          simp [finishing] at taken
        · cases finished
      | _ => exact own.elim
  | succ n ih =>
    obtain ⟨u',gone,more⟩ := followCons once
    cases l with
    | nil =>
      cases run
      simp [Server.step,free] at gone
    | cons b l =>
      obtain ⟨next,taken,rest⟩ := followCons run
      have own := handles b List.mem_cons_self
      cases b with
      | go =>
        cases gone.symm.trans taken
        obtain ⟨rest',same,runs⟩ := ih (fun b member => handles b (List.mem_cons_of_mem _ member)) more rest
        exact ⟨rest',by rw [same]; rfl,runs⟩
      | read j data ops ec =>
        simp only [Server.step] at gone taken
        split at gone
        · rename_i parsing
          simp [parsing] at taken
        · cases gone
      | finish =>
        simp only [Server.step] at gone taken
        split at gone
        · rename_i parsing
          simp [parsing] at taken
        · cases gone
      | _ => exact own.elim

def Server.conn (part : Part) (s : Server) : Conn := ⟨s.ctx part.session,part.pBuffer⟩

theorem handlesDenote {r : Rx} (idle : r.Idle) {l : List ServerStep} (handles : ∀ b ∈ l, b.Handles) {part : Part}
    {read : Bytes} (free : s.handler = none) (only : s.sessions = [part]) (denotes : Denotes env r read [] (s.conn part))
    (room : Room 8192 (read ++ (readsOf 0 l).flatten))
    (admissible : ∀ f ∈ (decode fileFormat (read ++ (readsOf 0 l).flatten)).all, Admissible f)
    (run : follow (Server.step env) l s = some t) (ended : t.handler = none) :
    ∃ part', t.sessions = [part'] ∧ Denotes env r (read ++ (readsOf 0 l).flatten) [] (t.conn part') := by
  generalize size : l.length = m
  induction m using Nat.strong_induction_on generalizing l s part read with
  | _ m ih =>
    cases l with
    | nil =>
      cases run
      exact ⟨part,only,by simpa [readsOf] using denotes⟩
    | cons b l =>
      obtain ⟨next,taken,rest⟩ := followCons run
      have own := handles b List.mem_cons_self
      cases b with
      | read j data ops ec =>
        obtain ⟨rfl,rfl,short⟩ := own
        have there : s.sessions[0]? = some part := by rw [only]; rfl
        have reading : part.reading = true := by
          cases stepTook taken with
          | read pBuffer free there' reading =>
            cases there.symm.trans there'
            exact reading
        have brought : readsOf 0 (.read 0 data allSucceed ec :: l) = data :: readsOf 0 l := rfl
        rw [brought,List.flatten_cons,← List.append_assoc] at room admissible
        have fits := room read data (List.prefix_append _ _) short
        obtain ⟨c,done,now⟩ := readFeeds env data idle denotes
          (by rw [denotes.buffer,List.append_nil]; exact fits) (admissibleEarlier admissible)
        obtain ⟨n,once⟩ := readUninterrupted free there reading done
        obtain ⟨next',taken',goes⟩ := followCons once
        cases taken.symm.trans taken'
        have later : ∀ b ∈ l, b.Handles := fun b member => handles b (List.mem_cons_of_mem _ member)
        obtain ⟨rest',same,runs⟩ := goesAlike later goes rest ended
        have reads' : readsOf 0 l = readsOf 0 rest' := by
          have split : List.replicate n ServerStep.go ++ .finish :: rest' = List.replicate n .go ++ [.finish] ++ rest' := by simp
          rw [same,split,readsAppend,goesRead]
          rfl
        have shorter : rest'.length < m := by
          have total := congrArg List.length same
          simp only [List.length_cons,List.length_append,List.length_replicate] at total size
          omega
        have only' : ∃ part', (s.readDone 0 ec part c).sessions = [part'] ∧ part'.session = c.session ∧
            part'.pBuffer = c.pBuffer := by
          cases ec with
          | false =>
            exact ⟨{part with session := c.session, pBuffer := c.pBuffer},by simp [Server.readDone,Server.put,only],rfl,rfl⟩
          | true =>
            exact ⟨⟨c.session,c.pBuffer,false⟩,by simp [Server.readDone,Server.put,only],rfl,rfl⟩
        obtain ⟨part',sessions,session,pBuffer⟩ := only'
        have free' : (s.readDone 0 ec part c).handler = none := by cases ec <;> rfl
        have conn : (s.readDone 0 ec part c).conn part' = c := by
          unfold Server.conn
          rw [session,pBuffer]
          cases ec <;> rfl
        rw [List.nil_append] at now
        rw [reads'] at room admissible
        obtain ⟨part'',sessions',last⟩ := ih rest'.length shorter (fun b member => later b (by rw [same]; simp [member])) free'
          sessions (by rw [conn]; exact now) room admissible runs rfl
        refine ⟨part'',sessions',?_⟩
        rw [brought,List.flatten_cons,← List.append_assoc,reads']
        exact last
      | go => simp [Server.step,free] at taken
      | finish => simp [Server.step,free] at taken
      | _ => exact own.elim

end Handling

/-! Every session of a server holds what its own stream says. -/

def savedAs (env : Env) (m_strSavePath : CString) (f : Frame fileFormat) : SavedFile :=
  ⟨m_strSavePath ++ env.unicodeString (fileName f),f.body⟩

def itemFor (env : Env) (m_strSavePath : CString) (nStatus : Bool) (f : Frame fileFormat) : FileItem where
  strSourceFile := env.unicodeString (fileName f)
  strDestFile := m_strSavePath ++ env.unicodeString (fileName f)
  nFileSize := f.head.nFileSize
  nRecved := BitVec.ofNat 32 f.body.length
  nStatus := nStatus

structure Collected (env : Env) (m_strSavePath : CString) (own : Own) (stream : Bytes) (part : Part) (s : Server) : Prop where
  files : own.files.map (fun n => s.disk.files[n]?) =
    (decode fileFormat stream).all.map fun f => some (savedAs env m_strSavePath f)
  items : own.items.map (fun n => s.dialog.items[n]?) =
    (decode fileFormat stream).frames.map (fun f => some (itemFor env m_strSavePath true f)) ++
      (decode fileFormat stream).current.toList.map fun f => some (itemFor env m_strSavePath false f)
  pBuffer : part.pBuffer.bytes = (decode fileFormat stream).pending

section Sessions
variable {env : Env} {acts : List ServerStep} {m_strSavePath : CString} {disk : Disk} {s : Server} {i : Nat} {part : Part}

def startDialog (m_strSavePath : CString) : Dialog := ⟨m_strSavePath,0,0,0,0,[],[]⟩

theorem aloneDenotes (run : follow (Server.step env) acts (Server.start m_strSavePath disk) = some s)
    (smooth : ∀ a ∈ acts, a.Smooth) (there : s.sessions[i]? = some part) (unhandled : s.busy ≠ some i)
    (room : Room 8192 (readsOf i acts).flatten)
    (admissible : ∀ f ∈ (decode fileFormat (readsOf i acts).flatten).all, Admissible f) :
    ∃ c : Conn, Denotes env (Rx.start (startDialog m_strSavePath) ⟨[],[]⟩) (readsOf i acts).flatten [] c ∧
      c.pBuffer = part.pBuffer ∧ Sees (madeBy env m_strSavePath disk acts i) c.toRx ⟨part.session,s.dialog,s.disk⟩ := by
  obtain ⟨t,mine,ran,sessions,handler,pBuffer,-,sees⟩ := (sessionsApart run).sessions i part there
  obtain ⟨rest,begins,handles⟩ := aloneBegins run smooth rfl rfl ran (by rw [sessions]; simp)
  have reads : readsOf 0 rest = readsOf i acts := by
    rw [← readsAlone run,begins]
    rfl
  have free : t.handler = none := by
    refine Option.map_eq_none_iff.mp (handler.trans ?_)
    cases now : s.handler with
    | none => rfl
    | some h =>
      cases h with
      | accepting ec => rfl
      | parsing j ops ec nFileSize place =>
        exact if_neg fun same => unhandled (by simp only [Server.busy,now,same])
      | finishing j ec => exact if_neg fun same => unhandled (by simp only [Server.busy,now,same])
  rw [begins] at ran
  have start := startDenotes env (startDialog m_strSavePath) ⟨[],[]⟩
  have only : ([⟨Session.new,Buffer.new,true⟩] : List Part) = [⟨Session.new,Buffer.new,true⟩] := rfl
  rw [← reads] at room admissible ⊢
  obtain ⟨part',sessions',denotes⟩ := handlesDenote (Rx.startIdle (startDialog m_strSavePath) ⟨[],[]⟩) handles
    rfl only start room admissible ran free
  rw [sessions] at sessions'
  cases sessions'
  exact ⟨t.conn mine,denotes,pBuffer,sees⟩

theorem sessionsFilled (run : follow (Server.step env) acts (Server.start m_strSavePath disk) = some s)
    (smooth : ∀ a ∈ acts, a.Smooth) (there : s.sessions[i]? = some part) (unhandled : s.busy ≠ some i)
    (room : Room 8192 (readsOf i acts).flatten)
    (admissible : ∀ f ∈ (decode fileFormat (readsOf i acts).flatten).all, Admissible f) :
    Collected env m_strSavePath (madeBy env m_strSavePath disk acts i) (readsOf i acts).flatten part s := by
  obtain ⟨c,denotes,pBuffer,sees⟩ := aloneDenotes run smooth there unhandled room admissible
  have files := Rx.imageFiles env (Rx.start (startDialog m_strSavePath) ⟨[],[]⟩) (decode fileFormat (readsOf i acts).flatten)
  have items := Rx.imageItems env (Rx.start (startDialog m_strSavePath) ⟨[],[]⟩) (decode fileFormat (readsOf i acts).flatten)
  rw [← denotes.members] at files items
  refine ⟨?_,?_,?_⟩
  · rw [sees.files,files,Rx.start,List.nil_append,List.map_map]
    rfl
  · rw [sees.items,items,Rx.start,startDialog,List.nil_append,List.map_append,List.map_map,List.map_map]
    rfl
  · rw [← pBuffer,denotes.buffer,List.append_nil]

theorem oneRead (env : Env) (m_strSavePath : CString) (disk : Disk) {data : Bytes} (short : data.length ≤ 8192)
    (each : ∀ f ∈ (decode fileFormat data).all, Admissible f) :
    ∃ acts part s, follow (Server.step env) acts (Server.start m_strSavePath disk) = some s ∧ (∀ a ∈ acts, a.Smooth) ∧
      readsOf 0 acts = [data] ∧ s.sessions = [part] ∧ s.handler = none ∧ s.ui = .idle := by
  let begun : Server := {Server.start m_strSavePath disk with
    m_nClients := 1, sessions := [⟨Session.new,Buffer.new,true⟩], handler := none}
  have accepted : follow (Server.step env) [.accept false,.start] (Server.start m_strSavePath disk) = some begun := rfl
  obtain ⟨c,done,-⟩ := readFeeds env data (Rx.startIdle (startDialog m_strSavePath) disk)
    (startDenotes env (startDialog m_strSavePath) disk) (by simp [Conn.new,Buffer.new]; omega) each
  have there : begun.sessions[0]? = some ⟨Session.new,Buffer.new,true⟩ := rfl
  have free : begun.handler = none := rfl
  have conn : Conn.new (startDialog m_strSavePath) disk = ⟨begun.ctx Session.new,Buffer.new⟩ := rfl
  rw [conn] at done
  obtain ⟨n,ran⟩ := @readUninterrupted env allSucceed begun 0 false _ data c free there rfl done
  refine ⟨[.accept false,.start] ++ .read 0 data allSucceed false :: (List.replicate n .go ++ [.finish]),
    ⟨c.session,c.pBuffer,true⟩,begun.readDone 0 false ⟨Session.new,Buffer.new,true⟩ c,?_,?_,?_,rfl,rfl,rfl⟩
  · rw [followAppend,accepted,Option.bind_some,ran]
  · intro a member
    simp only [List.mem_append,List.mem_cons,List.mem_replicate,List.not_mem_nil,or_false] at member
    rcases member with (rfl | rfl) | rfl | ⟨-,rfl⟩ | rfl
    · trivial
    · trivial
    · exact ⟨rfl,short⟩
    · trivial
    · trivial
  · have brought : ∀ l, readsOf 0 ([.accept false,.start] ++ .read 0 data allSucceed false :: l) = data :: readsOf 0 l :=
      fun _ => rfl
    rw [brought,goesRead]

end Sessions

theorem sessionsFilledShort : ∃ acts part s,
    follow (Server.step plainEnv) acts (Server.start plainDialog.m_strSavePath emptyDisk) = some s ∧
    s.sessions[0]? = some part ∧ Collected plainEnv plainDialog.m_strSavePath
      (madeBy plainEnv plainDialog.m_strSavePath emptyDisk acts 0) (readsOf 0 acts).flatten part s := by
  have short : shortFrame.symbols.length < 8192 := by rw [shortFrameLength]; decide
  obtain ⟨acts,part,s,run,smooth,reads,sessions,free,-⟩ := oneRead plainEnv plainDialog.m_strSavePath emptyDisk
    (Nat.le_of_lt short) shortFrameDeclares.admissible
  have there : s.sessions[0]? = some part := by rw [sessions]; rfl
  have stream : (readsOf 0 acts).flatten = shortFrame.symbols := by rw [reads]; simp
  exact ⟨acts,part,s,run,there,sessionsFilled run smooth there (by simp [Server.busy,free])
    (by rw [stream]; exact roomShort (by omega) 8192) (by rw [stream]; exact shortFrameDeclares.admissible)⟩

end JokeDse
