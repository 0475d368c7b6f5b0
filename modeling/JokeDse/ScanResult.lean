import JokeDse.Scan

/-! What a search leaves behind: the accepted files of the tree in their order, and how many entries were
found and filtered. -/
namespace JokeDse

structure Entry where
  above : List CString
  strFile : CString
  length : Option (BitVec 64)
  deriving DecidableEq, Repr

namespace Entry
variable (rejected : CString → Bool)

def reached (e : Entry) : Bool := e.above.all fun p => !rejected p

def queued (e : Entry) : Bool := e.length.isSome && e.reached rejected && !rejected e.strFile

def filtered (e : Entry) : Bool := e.reached rejected && rejected e.strFile

def entered (e : Entry) : Bool := e.length.isNone && e.reached rejected && !rejected e.strFile

def size (e : Entry) : Nat := (e.length.getD 0).toNat

end Entry

def Listing.all : (above : List CString) → (strRoot : CString) → Listing → List Entry
  | _, _, .last => []
  | above, strRoot, .dots behind => behind.all above strRoot
  | above, strRoot, .file name length behind =>
    ⟨above,getFilePath strRoot name,some length⟩ :: behind.all above strRoot
  | above, strRoot, .directory name entries behind =>
    let strFile := getFilePath strRoot name
    ⟨above,strFile,none⟩ :: (entries.all (above ++ [strFile]) strFile ++ behind.all above strRoot)

structure Scanned (rejected : CString → Bool) (m_nDirLength : Nat) (es : List Entry) (s s' : Scan) : Prop where
  m_strFilter : s'.m_strFilter = s.m_strFilter
  m_FileListtoSend : s'.m_FileListtoSend =
    s.m_FileListtoSend ++ (es.filter (Entry.queued rejected)).map fun e => relativeFile m_nDirLength e.strFile
  m_nFoundFiles : s'.m_nFoundFiles = s.m_nFoundFiles + BitVec.ofNat 32 (es.countP (Entry.queued rejected))
  m_nFiltedFiles : s'.m_nFiltedFiles = s.m_nFiltedFiles + BitVec.ofNat 32 (es.countP (Entry.filtered rejected))
  m_nTotalFileSize : s'.m_nTotalFileSize =
    s.m_nTotalFileSize + BitVec.ofNat 64 ((es.filter (Entry.queued rejected)).map Entry.size).sum

section Rules
variable {rejected : CString → Bool} {m_nDirLength : Nat} {es fs : List Entry} {s s' s'' : Scan}

theorem Scanned.trans (first : Scanned rejected m_nDirLength es s s') (second : Scanned rejected m_nDirLength fs s' s'') :
    Scanned rejected m_nDirLength (es ++ fs) s s'' where
  m_strFilter := second.m_strFilter.trans first.m_strFilter
  m_FileListtoSend := by
    rw [second.m_FileListtoSend,first.m_FileListtoSend,List.filter_append,List.map_append,List.append_assoc]
  m_nFoundFiles := by
    rw [second.m_nFoundFiles,first.m_nFoundFiles,List.countP_append,BitVec.ofNat_add,BitVec.add_assoc]
  m_nFiltedFiles := by
    rw [second.m_nFiltedFiles,first.m_nFiltedFiles,List.countP_append,BitVec.ofNat_add,BitVec.add_assoc]
  m_nTotalFileSize := by
    rw [second.m_nTotalFileSize,first.m_nTotalFileSize,List.filter_append,List.map_append,List.sum_append,
      BitVec.ofNat_add,BitVec.add_assoc]

theorem Scanned.nothing (same : s'.m_strFilter = s.m_strFilter ∧ s'.m_FileListtoSend = s.m_FileListtoSend ∧
      s'.m_nFoundFiles = s.m_nFoundFiles ∧ s'.m_nFiltedFiles = s.m_nFiltedFiles ∧
      s'.m_nTotalFileSize = s.m_nTotalFileSize)
    (unreached : ∀ e ∈ es, e.reached rejected = false) : Scanned rejected m_nDirLength es s s' := by
  obtain ⟨m_strFilter,m_FileListtoSend,m_nFoundFiles,m_nFiltedFiles,m_nTotalFileSize⟩ := same
  have queued : es.filter (Entry.queued rejected) = [] := by
    rw [List.filter_eq_nil_iff]
    intro e member
    simp [Entry.queued,unreached e member]
  have count : es.countP (Entry.queued rejected) = 0 := by
    rw [List.countP_eq_length_filter,queued,List.length_nil]
  have filtered : es.countP (Entry.filtered rejected) = 0 := by
    rw [List.countP_eq_zero]
    intro e member
    simp [Entry.filtered,unreached e member]
  exact ⟨m_strFilter,by simp [m_FileListtoSend,queued],by simp [m_nFoundFiles,count],
    by simp [m_nFiltedFiles,filtered],by simp [m_nTotalFileSize,queued]⟩

def Enterable (rejected : CString → Bool) (m_nDirLength : Nat) (es : List Entry) : Prop :=
  ∀ e ∈ es, e.entered rejected = true → m_nDirLength ≤ e.strFile.length + 1

theorem enterableAppend : Enterable rejected m_nDirLength (es ++ fs) ↔
    Enterable rejected m_nDirLength es ∧ Enterable rejected m_nDirLength fs := by
  simp only [Enterable,List.mem_append,or_imp,forall_and]

theorem enterableOne {e : Entry} : Enterable rejected m_nDirLength [e] ↔
    (e.entered rejected = true → m_nDirLength ≤ e.strFile.length + 1) := by
  simp only [Enterable,List.mem_singleton,forall_eq]

inductive ScanEnds (rejected : CString → Bool) (m_nDirLength : Nat) (es : List Entry) (s : Scan) :
    Outcome Scan Unit → Prop where
  | scanned {after : Scan} (open_ : Enterable rejected m_nDirLength es)
      (scanned : Scanned rejected m_nDirLength es s after) : ScanEnds rejected m_nDirLength es s (.done () after)
  | thrown {after : Scan} (short : ¬ Enterable rejected m_nDirLength es) :
      ScanEnds rejected m_nDirLength es s (.thrown after)

theorem ScanEnds.after {outcome : Outcome Scan Unit} (first : Scanned rejected m_nDirLength es s s')
    (enterable : Enterable rejected m_nDirLength es) (rest : ScanEnds rejected m_nDirLength fs s' outcome) :
    ScanEnds rejected m_nDirLength (es ++ fs) s outcome := by
  cases rest with
  | scanned open_ scanned => exact .scanned (enterableAppend.mpr ⟨enterable,open_⟩) (first.trans scanned)
  | thrown short => exact .thrown fun enterable => short (enterableAppend.mp enterable).2

theorem ScanEnds.bind {outcome : Outcome Scan Unit} {next : Unit → Scan → Outcome Scan Unit}
    (first : ScanEnds rejected m_nDirLength es s outcome)
    (rest : ∀ s', Scanned rejected m_nDirLength es s s' → ScanEnds rejected m_nDirLength fs s' (next () s')) :
    ScanEnds rejected m_nDirLength (es ++ fs) s (outcome.bind next) := by
  cases first with
  | scanned open_ scanned => exact .after scanned open_ (rest _ scanned)
  | thrown short => exact .thrown fun enterable => short (enterableAppend.mp enterable).1

theorem Scanned.filter {e : Entry} (filtered : e.filtered rejected = true) :
    Scanned rejected m_nDirLength [e] s s.filter := by
  have queued : e.queued rejected = false := by
    simp only [Entry.filtered,Bool.and_eq_true] at filtered
    simp [Entry.queued,filtered.2]
  constructor <;> simp [Scan.filter,queued,filtered]

theorem Scanned.find {e : Entry} {length : BitVec 64} (file : e.length = some length)
    (reached : e.reached rejected = true) (accepted : rejected e.strFile = false) :
    Scanned rejected m_nDirLength [e] s (s.find m_nDirLength e.strFile length) := by
  have queued : e.queued rejected = true := by simp [Entry.queued,file,reached,accepted]
  have filtered : e.filtered rejected = false := by simp [Entry.filtered,accepted]
  constructor <;> simp [Scan.find,relativeFile,queued,filtered,Entry.size,file]

end Rules

section Loop
variable (w : Shell) (m_nDirLength : Nat)

def never : Nat → Bool := fun _ => false

theorem upperAgain (s : CString) : w.makeUpper (w.makeUpper s) = w.makeUpper s := by
  simp [Shell.makeUpper,w.upperTwice]

def advanced (s : Scan) : Scan := (s.wait never).2.findNextFile

theorem turnNever (s : Scan) (next : Scan → Outcome Scan Unit) : turn never true s next = next (advanced s) := rfl

variable {m_nDirLength}

theorem Scanned.advance {rejected : CString → Bool} (s : Scan) : Scanned rejected m_nDirLength [] s (advanced s) :=
  .nothing ⟨rfl,rfl,rfl,rfl,rfl⟩ (by simp)

theorem allAbove {above : List CString} {strRoot : CString} {entries : Listing} {e : Entry}
    (member : e ∈ entries.all above strRoot) : above <+: e.above := by
  induction entries generalizing above strRoot with
  | last => simp [Listing.all] at member
  | dots behind ih => exact ih member
  | file name length behind ih =>
    rcases List.mem_cons.mp member with rfl | member
    · exact List.prefix_rfl
    · exact ih member
  | directory name entries behind inner ih =>
    rcases List.mem_cons.mp member with rfl | member
    · exact List.prefix_rfl
    · rcases List.mem_append.mp member with member | member
      · exact (List.prefix_append _ _).trans (inner member)
      · exact ih member

theorem unreachedBelow {rejected : CString → Bool} {above : List CString} {strFile : CString} {entries : Listing}
    (reject : rejected strFile = true) : ∀ e ∈ entries.all (above ++ [strFile]) strFile, e.reached rejected = false := by
  intro e member
  have inside : strFile ∈ e.above := (allAbove member).subset (by simp)
  rw [Entry.reached,List.all_eq_false]
  exact ⟨strFile,inside,by simp [reject]⟩

theorem reachedUnder {rejected : CString → Bool} {e : Entry} (accepted : ∀ p ∈ e.above, rejected p = false) :
    e.reached rejected = true := by
  refine List.all_eq_true.mpr fun p member => ?_
  simp [accepted p member]

theorem filteredItself {rejected : CString → Bool} {e : Entry} (reached : e.reached rejected = true)
    (reject : rejected e.strFile = true) : e.filtered rejected = true := by
  simp [Entry.filtered,reached,reject]

theorem enterableUnreached {rejected : CString → Bool} {es : List Entry}
    (unreached : ∀ e ∈ es, e.reached rejected = false) : Enterable rejected m_nDirLength es := by
  intro e member entered
  simp [Entry.entered,unreached e member] at entered

section Ends
variable {filter : CString} {e : Entry} {es fs : List Entry} {s : Scan}

theorem ScanEnds.skips {outcome : Outcome Scan Unit} (reached : e.reached (rejects w filter) = true)
    (reject : rejects w filter e.strFile = true) (unreached : ∀ e ∈ es, e.reached (rejects w filter) = false)
    (rest : ScanEnds (rejects w filter) m_nDirLength fs s.filter outcome) :
    ScanEnds (rejects w filter) m_nDirLength (e :: (es ++ fs)) s outcome := by
  have open_ : Enterable (rejects w filter) m_nDirLength [e] := by
    rw [enterableOne]
    simp [Entry.entered,reject]
  have below : Scanned (rejects w filter) m_nDirLength es s.filter s.filter :=
    .nothing ⟨rfl,rfl,rfl,rfl,rfl⟩ unreached
  exact .after (.filter (filteredItself reached reject)) open_ (.after below (enterableUnreached unreached) rest)

theorem ScanEnds.finds {outcome : Outcome Scan Unit} {length : BitVec 64} (file : e.length = some length)
    (reached : e.reached (rejects w filter) = true) (accepted : rejects w filter e.strFile = false)
    (rest : ScanEnds (rejects w filter) m_nDirLength fs (s.find m_nDirLength e.strFile length) outcome) :
    ScanEnds (rejects w filter) m_nDirLength (e :: fs) s outcome := by
  have open_ : Enterable (rejects w filter) m_nDirLength [e] := by
    rw [enterableOne]
    simp [Entry.entered,file]
  exact .after (.find file reached accepted) open_ rest

theorem ScanEnds.opens {next : CString → Scan → Outcome Scan Unit} (upper : w.makeUpper filter = filter)
    (directory : e.length = none) (reached : e.reached (rejects w filter) = true)
    (accepted : rejects w filter e.strFile = false) (m_strFilter : s.m_strFilter = filter)
    (rest : ∀ s', s'.m_strFilter = filter →
      ScanEnds (rejects w filter) m_nDirLength fs s' (next e.strFile s')) :
    ScanEnds (rejects w filter) m_nDirLength (e :: fs) s ((openDirectory w m_nDirLength e.strFile s).bind next) := by
  have entered : e.entered (rejects w filter) = true := by simp [Entry.entered,directory,reached,accepted]
  rw [openDirectoryEnds]
  split
  · rename_i short
    refine .thrown fun enterable => ?_
    have long := enterable e (List.mem_cons_self ..) entered
    omega
  · rename_i long
    have open_ : Enterable (rejects w filter) m_nDirLength [e] := by
      rw [enterableOne]
      omega
    have queued : e.queued (rejects w filter) = false := by simp [Entry.queued,directory]
    have filtered : e.filtered (rejects w filter) = false := by simp [Entry.filtered,accepted]
    have nothing : Scanned (rejects w filter) m_nDirLength [e] s {s with m_strFilter := w.makeUpper s.m_strFilter} := by
      constructor <;> simp [queued,filtered,m_strFilter,upper]
    exact .after nothing open_ (rest _ (by simp only [m_strFilter,upper]))

end Ends

theorem accessLoopEnds {filter : CString} (upper : w.makeUpper filter = filter) (entries : Listing)
    {above : List CString} (strRoot : CString) {s : Scan} (m_strFilter : s.m_strFilter = filter)
    (reached : ∀ p ∈ above, rejects w filter p = false) :
    ScanEnds (rejects w filter) m_nDirLength (entries.all above strRoot) s
      (accessLoop w m_nDirLength never strRoot entries entries.more s) := by
  induction entries generalizing above strRoot s with
  | last => exact .scanned (by simp [Enterable,Listing.all]) (.nothing ⟨rfl,rfl,rfl,rfl,rfl⟩ (by simp [Listing.all]))
  | dots behind ih => exact .after (.advance s) (by simp [Enterable]) (ih strRoot m_strFilter reached)
  | file name length behind ih =>
    apply ScanEnds.after (.advance s) (by simp [Enterable])
    have same : (advanced s).m_strFilter = filter := m_strFilter
    have isReached : Entry.reached (rejects w filter) ⟨above,getFilePath strRoot name,some length⟩ = true :=
      reachedUnder reached
    simp only [accessLoop,Listing.more,turnNever,same]
    split
    · rename_i reject
      exact .skips w isReached reject (List.forall_mem_nil _) (ih strRoot same reached)
    · rename_i accept
      exact .finds w rfl isReached (Bool.eq_false_iff.mpr accept) (ih strRoot same reached)
  | directory name entries behind inner ih =>
    apply ScanEnds.after (.advance s) (by simp [Enterable])
    have same : (advanced s).m_strFilter = filter := m_strFilter
    have isReached : Entry.reached (rejects w filter) ⟨above,getFilePath strRoot name,none⟩ = true :=
      reachedUnder reached
    simp only [accessLoop,Listing.more,turnNever,same]
    split
    · rename_i reject
      exact .skips w isReached reject (unreachedBelow reject) (ih strRoot same reached)
    · rename_i accept
      have accepted : rejects w filter (getFilePath strRoot name) = false := Bool.eq_false_iff.mpr accept
      have reached' : ∀ p ∈ above ++ [getFilePath strRoot name], rejects w filter p = false := by
        intro p member
        rcases List.mem_append.mp member with member | member
        · exact reached p member
        · rw [List.mem_singleton.mp member]
          exact accepted
      refine .opens w upper rfl isReached accepted same fun s' same' => ?_
      refine (inner _ same' reached').bind fun s'' scanned => ?_
      exact ih strRoot (scanned.m_strFilter.trans same') reached

structure Countable (rejected : CString → Bool) (es : List Entry) : Prop where
  found : es.countP (Entry.queued rejected) < 2 ^ 32
  filtered : es.countP (Entry.filtered rejected) < 2 ^ 32
  size : ((es.filter (Entry.queued rejected)).map Entry.size).sum < 2 ^ 64

structure Searched (rejected : CString → Bool) (m_nDirLength : Nat) (es : List Entry) (s : Scan) : Prop where
  m_FileListtoSend : s.m_FileListtoSend =
    (es.filter (Entry.queued rejected)).map fun e => relativeFile m_nDirLength e.strFile
  m_nFoundFiles : s.m_nFoundFiles.toNat = s.m_FileListtoSend.length
  m_nTotalFileSize : s.m_nTotalFileSize.toNat = ((es.filter (Entry.queued rejected)).map Entry.size).sum
  m_nFiltedFiles : s.m_nFiltedFiles.toNat = es.countP (Entry.filtered rejected)

theorem countFits {width n : Nat} : (0 + BitVec.ofNat width n : BitVec width).toNat = n ↔ n < 2 ^ width := by
  have sum : (0 + BitVec.ofNat width n : BitVec width) = BitVec.ofNat width n := BitVec.zero_add _
  rw [sum,BitVec.toNat_ofNat]
  constructor
  · intro same
    rw [← same]
    exact Nat.mod_lt _ (Nat.two_pow_pos width)
  · exact Nat.mod_eq_of_lt

theorem searchedIff {rejected : CString → Bool} {es : List Entry} {szFilter : CString} {s : Scan}
    (scanned : Scanned rejected m_nDirLength es (Scan.new szFilter) s) :
    Searched rejected m_nDirLength es s ↔ Countable rejected es := by
  have queue := scanned.m_FileListtoSend
  have found := scanned.m_nFoundFiles
  have filtered := scanned.m_nFiltedFiles
  have size := scanned.m_nTotalFileSize
  simp only [Scan.new,List.nil_append] at queue found filtered size
  have length : s.m_FileListtoSend.length = es.countP (Entry.queued rejected) := by
    rw [queue,List.length_map,List.countP_eq_length_filter]
  constructor
  · rintro ⟨-,a,b,c⟩
    rw [found,length,countFits] at a
    rw [size,countFits] at b
    rw [filtered,countFits] at c
    exact ⟨a,c,b⟩
  · rintro ⟨a,c,b⟩
    exact ⟨queue,by rw [found,length]; exact countFits.mpr a,by rw [size]; exact countFits.mpr b,
      by rw [filtered]; exact countFits.mpr c⟩

def rejectedBy (szFilter strFile : CString) : Bool := rejects w (w.makeUpper szFilter) strFile

theorem findFilesEnds (szFilter strRoot : CString) (entries : Listing) {szSourcePath : CString}
    (given : szSourcePath ≠ []) :
    ScanEnds (rejectedBy w szFilter) szSourcePath.length (entries.all [] strRoot)
      (Scan.new (w.makeUpper szFilter)) (findFiles w never szSourcePath szFilter strRoot entries) := by
  have some : 0 < szSourcePath.length := List.length_pos_iff.mpr given
  have inside : ¬ szSourcePath.length < szSourcePath.length - 1 := by omega
  simp only [findFiles,if_pos some,accessDirectory,openDirectoryEnds,if_neg inside,Outcome.bindDone]
  exact accessLoopEnds w (upperAgain w szFilter) entries strRoot rfl (by simp)

theorem treeQueued (szFilter strRoot : CString) (entries : Listing) {szSourcePath : CString}
    (given : szSourcePath ≠ []) :
    (∃ s, findFiles w never szSourcePath szFilter strRoot entries = .done () s ∧
      Searched (rejectedBy w szFilter) szSourcePath.length (entries.all [] strRoot) s) ↔
    Enterable (rejectedBy w szFilter) szSourcePath.length (entries.all [] strRoot) ∧
      Countable (rejectedBy w szFilter) (entries.all [] strRoot) := by
  have ends := findFilesEnds w szFilter strRoot entries given
  constructor
  · rintro ⟨s,done,searched⟩
    rw [done] at ends
    cases ends with
    | scanned open_ scanned => exact ⟨open_,(searchedIff scanned).mp searched⟩
  · rintro ⟨open_,countable⟩
    generalize findFiles w never szSourcePath szFilter strRoot entries = outcome at ends ⊢
    cases ends with
    | @scanned s _ scanned => exact ⟨s,rfl,(searchedIff scanned).mpr countable⟩
    | thrown short => exact absurd open_ short

end Loop

instance (rejected : CString → Bool) (n : Nat) (es : List Entry) : Decidable (Enterable rejected n es) :=
  inferInstanceAs (Decidable (∀ e ∈ es, e.entered rejected = true → n ≤ e.strFile.length + 1))

theorem treeQueuedShort : ∃ s,
    findFiles asciiShell never sourceDirectory logFilter sourceDirectory sourceTree = .done () s ∧
    Searched (rejectedBy asciiShell logFilter) sourceDirectory.length (sourceTree.all [] sourceDirectory) s :=
  (treeQueued asciiShell logFilter sourceDirectory sourceTree (by decide)).mpr
    ⟨by decide +kernel,⟨by decide +kernel,by decide +kernel,by decide +kernel⟩⟩

-- With four backslashes behind it `D:\src` is longer than the path of its directory `a`.
def sourceSlashes : CString := sourceDirectory ++ chars ['\\','\\','\\','\\']

theorem directoryUnentered : ¬ ∃ s, findFiles asciiShell never sourceSlashes [] sourceDirectory sourceTree = .done () s ∧
    Searched (rejectedBy asciiShell []) sourceSlashes.length (sourceTree.all [] sourceDirectory) s := by
  rintro ⟨s,done,-⟩
  have thrown : ∃ s', findFiles asciiShell never sourceSlashes [] sourceDirectory sourceTree = .thrown s' := ⟨_,rfl⟩
  obtain ⟨s',thrown⟩ := thrown
  rw [thrown] at done
  cases done

end JokeDse
