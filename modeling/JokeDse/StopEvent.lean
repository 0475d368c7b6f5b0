import JokeDse.ScanResult

/-! The stop event during a search. The wait that reports it clears it and ends one loop; the loops around
that one wait again and hear nothing. -/
namespace JokeDse

def once (k : Nat) : Nat → Bool := (· == k)

def GoesOn (trace : List ScanStep) : Prop :=
  ∃ later earlier, trace = later ++ .waited true :: earlier ∧ ∃ step ∈ later, ∀ signalled, step ≠ .waited signalled

inductive Moment where
  | wait (left : Bool)
  | throws
  deriving DecidableEq, Repr

def Moment.isWait : Moment → Bool
  | wait _ => true
  | throws => false

def Moment.inside (more : Bool) : Moment → Moment
  | wait left => wait (left || more)
  | throws => throws

def Listing.moments (rejected : CString → Bool) (m_nDirLength : Nat) : CString → Listing → List Moment
  | _, .last => []
  | strRoot, .dots behind => .wait false :: behind.moments rejected m_nDirLength strRoot
  | strRoot, .file _ _ behind => .wait false :: behind.moments rejected m_nDirLength strRoot
  | strRoot, .directory name entries behind =>
    let strFile := getFilePath strRoot name
    let within :=
      if rejected strFile then []
      else if strFile.length < m_nDirLength - 1 then [.throws]
      else (entries.moments rejected m_nDirLength strFile).map (Moment.inside behind.more)
    .wait false :: (within ++ behind.moments rejected m_nDirLength strRoot)

def waits (ms : List Moment) : List Moment := ms.takeWhile Moment.isWait

section Waits
variable {ms ns : List Moment}

theorem waitsAll (all : ∀ m ∈ ms, m.isWait = true) : waits (ms ++ ns) = ms ++ waits ns :=
  List.takeWhile_append_of_pos all

theorem waitsSelf (all : ∀ m ∈ ms, m.isWait = true) : waits ms = ms := List.takeWhile_eq_self_iff.mpr all

theorem waitsPrefix : waits ms <+: waits (ms ++ ns) := by
  induction ms with
  | nil => exact List.nil_prefix
  | cons m ms ih =>
    cases isWait : m.isWait with
    | true =>
      simp only [waits,List.cons_append,List.takeWhile_cons,isWait,if_true]
      exact List.cons_prefix_cons.mpr ⟨rfl,ih⟩
    | false =>
      simp only [waits,List.cons_append,List.takeWhile_cons,isWait,Bool.false_eq_true,if_false]
      exact List.prefix_rfl

theorem insideWait (more : Bool) (m : Moment) : (m.inside more).isWait = m.isWait := by
  cases m <;> rfl

theorem waitsInside (more : Bool) : waits (ms.map (Moment.inside more)) = (waits ms).map (Moment.inside more) := by
  rw [waits,List.takeWhile_map]
  have same : Moment.isWait ∘ Moment.inside more = Moment.isWait := funext (insideWait more)
  rw [same,waits]

theorem waitsWithin {i : Nat} {m : Moment} (more : Bool) (there : (waits ms)[i]? = some m) :
    (waits (ms.map (Moment.inside more) ++ ns))[i]? = some (m.inside more) := by
  have mapped : (waits (ms.map (Moment.inside more)))[i]? = some (m.inside more) := by
    rw [waitsInside,List.getElem?_map,there]
    rfl
  obtain ⟨rest,same⟩ : waits (ms.map (Moment.inside more)) <+: waits (ms.map (Moment.inside more) ++ ns) := waitsPrefix
  have inside : i < (waits (ms.map (Moment.inside more))).length := (List.getElem?_eq_some_iff.mp mapped).1
  rw [← same,List.getElem?_append_left inside,mapped]

theorem waitsCut (some : ¬ ∀ m ∈ ms, m.isWait = true) : waits (ms ++ ns) = waits ms := by
  induction ms with
  | nil => simp at some
  | cons m ms ih =>
    cases isWait : m.isWait with
    | true =>
      have later : ¬ ∀ m ∈ ms, m.isWait = true := by simpa [isWait] using some
      have same := ih later
      simp only [waits] at same
      simp only [waits,List.cons_append,List.takeWhile_cons,isWait,if_true,same]
    | false => simp [waits,isWait]

theorem insideAll (more : Bool) : (∀ m ∈ ms.map (Moment.inside more), m.isWait = true) ↔ ∀ m ∈ ms, m.isWait = true := by
  simp [insideWait]

end Waits

/-- What a loop does that starts behind `before` waits, when the stop is set before wait `k`. `goes`: the loop
ends before the stop is reported; `stops`: the stop ends it, and no directory around it has entries left. -/
inductive StopEnds (filter : CString) (k before : Nat) (ms : List Moment) : Outcome Scan Unit → Prop where
  | goes {after : Scan} (all : ∀ m ∈ ms, m.isWait = true) (count : after.waits = before + ms.length)
      (early : after.waits ≤ k) (silent : .waited true ∉ after.trace) (m_strFilter : after.m_strFilter = filter) :
      StopEnds filter k before ms (.done () after)
  | throws {after : Scan} (some : ¬ ∀ m ∈ ms, m.isWait = true) (early : before + (waits ms).length ≤ k)
      (silent : .waited true ∉ after.trace) : StopEnds filter k before ms (.thrown after)
  | stops {after : Scan} {earlier : List ScanStep} (there : (waits ms)[k - before]? = some (.wait false))
      (last : after.trace = .waited true :: earlier) (silent : .waited true ∉ earlier) (late : k < after.waits) :
      StopEnds filter k before ms (.done () after)
  | misses {outcome : Outcome Scan Unit} (there : (waits ms)[k - before]? = some (.wait true))
      (on : GoesOn outcome.state.trace) : StopEnds filter k before ms outcome

section Stop
variable {filter : CString} {k before : Nat} {ms ns : List Moment} {s : Scan} {outcome : Outcome Scan Unit}

theorem StopEnds.after (all : ∀ m ∈ ms, m.isWait = true) (early : before + ms.length ≤ k)
    (rest : StopEnds filter k (before + ms.length) ns outcome) : StopEnds filter k before (ms ++ ns) outcome := by
  have split : waits (ms ++ ns) = ms ++ waits ns := waitsAll all
  have index : (ms ++ waits ns)[k - before]? = (waits ns)[k - (before + ms.length)]? := by
    rw [List.getElem?_append_right (by omega)]
    congr 1
    omega
  cases rest with
  | goes all' count early silent m_strFilter =>
    refine .goes ?_ ?_ early silent m_strFilter
    · intro m member
      exact (List.mem_append.mp member).elim (all m) (all' m)
    · rw [count,List.length_append,Nat.add_assoc]
  | throws some early silent =>
    refine .throws ?_ ?_ silent
    · exact fun every => some fun m member => every m (List.mem_append_right _ member)
    · rw [split,List.length_append,← Nat.add_assoc]
      exact early
  | stops there last silent late => exact .stops (by rw [split,index,there]) last silent late
  | misses there on => exact .misses (by rw [split,index,there]) on

theorem turnStops {next : Scan → Outcome Scan Unit} (m_strFilter : s.m_strFilter = filter)
    (silent : .waited true ∉ s.trace) (early : s.waits ≤ k)
    (rest : ∀ s', s'.m_strFilter = filter → .waited true ∉ s'.trace → s'.waits ≤ k →
      StopEnds filter k s'.waits ns (next s')) :
    StopEnds filter k s.waits (.wait false :: ns) (turn (once k) true s next) := by
  cases signalled : once k s.waits with
  | true =>
    have now : s.waits = k := by simpa [once] using signalled
    have here : (waits (.wait false :: ns))[k - s.waits]? = some (.wait false) := by
      rw [now,Nat.sub_self,waits,List.takeWhile_cons_of_pos rfl]
      rfl
    rw [turnSignalled next signalled]
    refine .stops here ?_ silent ?_
    · simp only [Scan.wait,signalled]
    · simp only [Scan.wait]
      omega
  | false =>
    have before : s.waits ≠ k := by
      rintro rfl
      simp [once] at signalled
    have all : ∀ m ∈ [Moment.wait false], m.isWait = true := by simp [Moment.isWait]
    have soon : s.waits + [Moment.wait false].length ≤ k := Nat.lt_of_le_of_ne early before
    rw [turnGoes next signalled]
    refine .after all soon (rest (s.wait (once k)).2.findNextFile m_strFilter ?_ soon)
    simp [Scan.findNextFile,Scan.wait,signalled,silent]

theorem GoesOn.later {t t' : List ScanStep} (on : GoesOn t) (suffix : t <:+ t') : GoesOn t' := by
  obtain ⟨later,earlier,rfl,step,member,acts⟩ := on
  obtain ⟨more,rfl⟩ := suffix
  exact ⟨more ++ later,earlier,by rw [List.append_assoc],step,List.mem_append_right _ member,acts⟩

theorem traceKept {hEventStop : Nat → Bool} {m_nDirLength : Nat} {paths : List CString} (t : List ScanStep) :
    ScanKeeps hEventStop m_nDirLength paths fun s => t <:+ s.trace where
  wait _ suffix := suffix.trans (List.suffix_cons _ _)
  findNextFile _ suffix := suffix.trans (List.suffix_cons _ _)
  filter _ suffix := suffix
  makeUpper _ _ suffix := suffix
  find _ _ _ _ suffix := suffix.trans (List.suffix_cons _ _)

theorem loopExamines {w : Shell} {m_nDirLength : Nat} {hEventStop : Nat → Bool} {strRoot : CString} {entries : Listing}
    (more : entries.more = true) (silent : hEventStop s.waits = false) :
    .examined :: .waited false :: s.trace <:+
      (accessLoop w m_nDirLength hEventStop strRoot entries entries.more s).state.trace := by
  have here : .examined :: .waited false :: s.trace <:+ (s.wait hEventStop).2.findNextFile.trace := by
    simp only [Scan.findNextFile,Scan.wait,silent]
    exact List.suffix_rfl
  have kept {paths : List CString} : ScanKeeps hEventStop m_nDirLength paths fun s' =>
      .examined :: .waited false :: s.trace <:+ s'.trace := traceKept _
  rw [more]
  cases entries with
  | last => cases more
  | dots behind =>
    rw [accessLoop,turnGoes _ silent]
    exact accessLoopKeeps kept here
  | file name length behind =>
    rw [accessLoop,turnGoes _ silent]
    cases reject : rejects w s.m_strFilter (getFilePath strRoot name) with
    | true =>
      simp only [Scan.wait,Scan.findNextFile,reject,if_true]
      exact accessLoopKeeps kept here
    | false =>
      simp only [Scan.wait,Scan.findNextFile,reject,Bool.false_eq_true,if_false]
      exact accessLoopKeeps kept (here.trans (List.suffix_cons _ _))
  | directory name entries behind =>
    rw [accessLoop,turnGoes _ silent]
    cases reject : rejects w s.m_strFilter (getFilePath strRoot name) with
    | true =>
      simp only [Scan.wait,Scan.findNextFile,reject,if_true]
      exact accessLoopKeeps kept here
    | false =>
      simp only [Scan.wait,Scan.findNextFile,reject,Bool.false_eq_true,if_false,openDirectoryEnds]
      split
      · exact here
      · rw [Outcome.bindDone]
        refine Outcome.bindKeeps ?_ fun _ _ here => accessLoopKeeps kept here
        exact accessLoopKeeps kept here

theorem loopGoesOn {w : Shell} {m_nDirLength : Nat} {strRoot : CString} {entries : Listing} {earlier : List ScanStep}
    (more : entries.more = true) (last : s.trace = .waited true :: earlier) (late : k < s.waits) :
    GoesOn (accessLoop w m_nDirLength (once k) strRoot entries entries.more s).state.trace := by
  have silent : once k s.waits = false := by
    simp only [once,beq_eq_false_iff_ne]
    omega
  have suffix : .examined :: .waited false :: s.trace <:+
      (accessLoop w m_nDirLength (once k) strRoot entries entries.more s).state.trace := loopExamines more silent
  refine GoesOn.later ⟨[.examined,.waited false],earlier,by rw [last]; rfl,.examined,List.mem_cons_self ..,?_⟩ suffix
  intro signalled same
  cases same

theorem StopEnds.enters {w : Shell} {m_nDirLength : Nat} {strRoot : CString} {behind : Listing}
    (sub : StopEnds filter k before ms outcome)
    (rest : ∀ after : Scan, after.m_strFilter = filter → .waited true ∉ after.trace → after.waits ≤ k →
      StopEnds filter k after.waits ns (accessLoop w m_nDirLength (once k) strRoot behind behind.more after)) :
    StopEnds filter k before (ms.map (Moment.inside behind.more) ++ ns)
      (outcome.bind fun _ s => accessLoop w m_nDirLength (once k) strRoot behind behind.more s) := by
  cases sub with
  | @goes after all count early silent m_strFilter =>
    have length : before + (ms.map (Moment.inside behind.more)).length = after.waits := by rw [count,List.length_map]
    refine .after ((insideAll _).mpr all) (length ▸ early) ?_
    rw [length]
    exact rest after m_strFilter silent early
  | throws some early silent =>
    have some' : ¬ ∀ m ∈ ms.map (Moment.inside behind.more), m.isWait = true := fun all => some ((insideAll _).mp all)
    refine .throws ?_ ?_ silent
    · exact fun every => some' fun m member => every m (List.mem_append_left _ member)
    · rw [waitsCut some',waitsInside,List.length_map]
      exact early
  | stops there last silent late =>
    have within : (waits (ms.map (Moment.inside behind.more) ++ ns))[k - before]? = some (.wait (false || behind.more)) :=
      waitsWithin behind.more there
    cases more : behind.more with
    | true =>
      rw [more] at within
      exact .misses within (more ▸ loopGoesOn more last late)
    | false =>
      have nothing : behind = .last := by
        cases behind with
        | last => rfl
        | dots | file | directory => cases more
      rw [more] at within
      subst nothing
      exact .stops within last silent late
  | misses there on =>
    refine .misses (waitsWithin behind.more there) (on.later ?_)
    exact Outcome.bindKeeps (I := fun s : Scan => outcome.state.trace <:+ s.trace) List.suffix_rfl
      fun _ s suffix => accessLoopKeeps (traceKept _) suffix

theorem loopStops (w : Shell) (m_nDirLength : Nat) (upper : w.makeUpper filter = filter)
    (entries : Listing) (strRoot : CString) (m_strFilter : s.m_strFilter = filter)
    (silent : .waited true ∉ s.trace) (early : s.waits ≤ k) :
    StopEnds filter k s.waits (entries.moments (rejects w filter) m_nDirLength strRoot)
      (accessLoop w m_nDirLength (once k) strRoot entries entries.more s) := by
  induction entries generalizing strRoot s with
  | last => exact .goes (by simp [Listing.moments]) rfl early silent m_strFilter
  | dots behind ih =>
    exact turnStops m_strFilter silent early fun s' same silent early => ih strRoot same silent early
  | file name length behind ih =>
    refine turnStops m_strFilter silent early fun s' same silent early => ?_
    cases reject : rejects w s'.m_strFilter (getFilePath strRoot name) with
    | true =>
      simp only [reject,if_true]
      exact ih (s := s'.filter) strRoot same silent early
    | false =>
      simp only [reject,Bool.false_eq_true,if_false]
      refine ih (s := s'.find m_nDirLength (getFilePath strRoot name) length) strRoot same ?_ early
      simpa [Scan.find] using silent
  | directory name entries behind inner ih =>
    refine turnStops m_strFilter silent early fun s' same silent early => ?_
    rw [same]
    cases reject : rejects w filter (getFilePath strRoot name) with
    | true =>
      simp only [reject,if_true,List.nil_append]
      exact ih (s := s'.filter) strRoot same silent early
    | false =>
      simp only [reject,Bool.false_eq_true,if_false,openDirectoryEnds]
      split
      · exact .throws (by simp [Moment.isWait]) (by simpa [waits,Moment.isWait] using early) silent
      · rw [Outcome.bindDone,same,upper]
        have sub := inner (s := {s' with m_strFilter := filter}) (getFilePath strRoot name) rfl silent early
        exact .enters sub fun after same silent early => ih strRoot same silent early

theorem silentEnds {t : List ScanStep} (silent : .waited true ∉ t) : ¬ GoesOn t := by
  rintro ⟨later,earlier,rfl,-⟩
  exact silent (List.mem_append_right _ (List.mem_cons_self ..))

theorem lastEnds {t : List ScanStep} (silent : .waited true ∉ t) : ¬ GoesOn (.waited true :: t) := by
  rintro ⟨later,earlier,split,step,member,acts⟩
  cases later with
  | nil => exact List.not_mem_nil member
  | cons first later =>
    obtain ⟨-,rest⟩ := List.cons_eq_cons.mp split
    rw [rest] at silent
    exact silent (List.mem_append_right _ (List.mem_cons_self ..))

theorem stopsIff (ends : StopEnds filter k 0 ms outcome) :
    ¬ GoesOn outcome.state.trace ↔ (waits ms)[k]? ≠ some (.wait true) := by
  cases ends with
  | goes all count early silent m_strFilter =>
    have behind : (waits ms)[k]? = none := by
      rw [waitsSelf all,List.getElem?_eq_none_iff]
      omega
    exact iff_of_true (silentEnds silent) (by simp [behind])
  | throws some early silent =>
    have behind : (waits ms)[k]? = none := by
      rw [List.getElem?_eq_none_iff]
      omega
    exact iff_of_true (silentEnds silent) (by simp [behind])
  | stops there last silent late =>
    have closed : (waits ms)[k]? ≠ some (.wait true) := by
      rw [Nat.sub_zero] at there
      rw [there]
      decide
    refine iff_of_true ?_ closed
    rw [Outcome.state,last]
    exact lastEnds silent
  | misses there on => exact iff_of_false (not_not.mpr on) (not_not.mpr there)

theorem stopEnds (w : Shell) (k : Nat) (szFilter strRoot : CString) (entries : Listing) {szSourcePath : CString}
    (given : szSourcePath ≠ []) :
    ¬ GoesOn (findFiles w (once k) szSourcePath szFilter strRoot entries).state.trace ↔
      (waits (entries.moments (rejectedBy w szFilter) szSourcePath.length strRoot))[k]? ≠ some (.wait true) := by
  have some : 0 < szSourcePath.length := List.length_pos_iff.mpr given
  have inside : ¬ szSourcePath.length < szSourcePath.length - 1 := by omega
  simp only [findFiles,if_pos some,accessDirectory,openDirectoryEnds,if_neg inside,Outcome.bindDone]
  exact stopsIff (loopStops (s := Scan.new (w.makeUpper szFilter)) w szSourcePath.length (upperAgain w szFilter)
    entries strRoot rfl List.not_mem_nil (Nat.zero_le k))

end Stop

theorem stopEndsShort :
    ¬ GoesOn (findFiles asciiShell (once 5) sourceDirectory logFilter sourceDirectory sourceTree).state.trace :=
  (stopEnds asciiShell 5 logFilter sourceDirectory sourceTree (by decide)).mpr (by decide +kernel)

theorem stopMissed :
    GoesOn (findFiles asciiShell (once 3) sourceDirectory logFilter sourceDirectory sourceTree).state.trace :=
  ⟨[.queued ⟨chars ['\\','y'],chars ['D',':','\\','s','r','c','\\','y']⟩,.examined,.waited false],
    [.examined,.waited false,.examined,.waited false,.examined,.waited false],by decide +kernel,.examined,
    by simp,by simp⟩

end JokeDse
