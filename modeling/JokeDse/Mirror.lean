import JokeDse.EndToEnd
import JokeDse.ScanResult
import JokeDse.SourcePath

/-! From the source directory to m_strSavePath: the search, the workers, the connections and the sessions
together leave the accepted files of the tree below m_strSavePath, each in the place it has in the tree. -/
namespace JokeDse
open Framing Runs

def Entry.below (strRoot : CString) (e : Entry) : CString := e.strFile.drop (strRoot.length + 1)

section Search
variable (w : Shell) (szFilter strRoot : CString) (entries : Listing)

theorem allBelow {above : List CString} {strRoot : CString} {entries : Listing} {e : Entry}
    (member : e ∈ entries.all above strRoot) : ∃ rel, e.strFile = getFilePath strRoot rel := by
  induction entries generalizing above strRoot with
  | last => simp [Listing.all] at member
  | dots behind ih => exact ih member
  | file name length behind ih =>
    rcases List.mem_cons.mp member with rfl | member
    · exact ⟨name,rfl⟩
    · exact ih member
  | directory name entries behind inner ih =>
    rcases List.mem_cons.mp member with rfl | member
    · exact ⟨name,rfl⟩
    · rcases List.mem_append.mp member with member | member
      · obtain ⟨rel,same⟩ := inner member
        exact ⟨getFilePath name rel,by rw [same,filePathAssoc]⟩
      · exact ih member

theorem belowRoot {above : List CString} {strRoot : CString} {entries : Listing} {e : Entry}
    (member : e ∈ entries.all above strRoot) : e.strFile = getFilePath strRoot (e.below strRoot) := by
  obtain ⟨rel,same⟩ := allBelow member
  have below : e.below strRoot = rel := by
    rw [Entry.below,same,getFilePath,← List.drop_drop,List.drop_left,List.drop_one,List.tail_cons]
  rw [below,same]

def accepted : List Entry := (entries.all [] strRoot).filter (Entry.queued (rejectedBy w szFilter))

theorem searchQueues {szSourcePath : CString} (given : szSourcePath ≠ []) (bare : szSourcePath.length = strRoot.length) :
    (findFiles w never szSourcePath szFilter strRoot entries).state.m_FileListtoSend =
      (accepted w szFilter strRoot entries).map fun e => ⟨backslash :: e.below strRoot,e.strFile⟩ := by
  have ends := findFilesEnds w szFilter strRoot entries given
  have enterable : Enterable (rejectedBy w szFilter) szSourcePath.length (entries.all [] strRoot) := by
    intro e member _
    rw [belowRoot member,bare,getFilePath,List.length_append]
    omega
  generalize findFiles w never szSourcePath szFilter strRoot entries = outcome at ends ⊢
  cases ends with
  | thrown short => exact absurd enterable short
  | @scanned after _ scanned =>
    show after.m_FileListtoSend = _
    rw [scanned.m_FileListtoSend,Scan.new,List.nil_append]
    refine List.map_congr_left fun e member => ?_
    have inside := belowRoot (List.mem_filter.mp member).1
    have cut := (cutsRoot strRoot (e.below strRoot) szSourcePath.length).mpr bare
    rw [← inside] at cut
    exact congrArg (FileInfo.mk · e.strFile) cut

end Search

section Places
variable {α : Type}

theorem rangeGet (l : List α) (other : α) : (List.range l.length).map (fun p => l.getD p other) = l := by
  apply List.ext_getElem (by simp)
  intro p inside _
  have below : p < l.length := by simpa using inside
  simp [List.getD_eq_getElem?_getD,List.getElem?_eq_getElem below]

theorem getMapped {β : Type} {l : List α} {p : Nat} (inside : p < l.length) (f : α → β) (other : α) (another : β) :
    (l.map f).getD p another = f (l.getD p other) := by
  simp [List.getD_eq_getElem?_getD,List.getElem?_eq_getElem inside]

end Places

section Mirror
variable {ι : Type} [DecidableEq ι]
variable {w : Shell} {szSourcePath szFilter strRoot : CString} {entries : Listing} {content : CString → Bytes}
variable {env : Env} {ansiString : CString → Bytes} {queue : List FileInfo} {world : Nat → Surroundings}
  {m_nSendFiles : ι → Uint} {calls : List (ι × Bool)} {sent : Senders ι} {order : List ι} {acts : List ServerStep}
  {m_strSavePath : CString} {disk : Disk} {s : Server}

theorem treeSaved (given : szSourcePath ≠ []) (bare : szSourcePath.length = strRoot.length)
    (searched : (findFiles w never szSourcePath szFilter strRoot entries).state.m_FileListtoSend = queue)
    (holds : ∀ p file, queue[p]? = some file → (world p).content = content file.strFile)
    (queued : Queued env ansiString queue world)
    (calling : follow Senders.step calls (Senders.start queue) = some sent)
    (returned : ∀ i, (sent.worker i).line = .returned)
    (joined : Joined ansiString queue world m_nSendFiles sent order acts s) (somebody : order ≠ [])
    (run : follow (Server.step env) acts (Server.start m_strSavePath disk) = some s)
    (smooth : ∀ a ∈ acts, a.Smooth) (free : s.handler = none) :
    ∃ saved kept, s.disk.files = disk.files ++ saved ∧
      saved.Perm (kept.map fun e => ⟨getFilePath m_strSavePath (e.below strRoot),content e.strFile⟩) ∧
      kept.Sublist (accepted w szFilter strRoot entries) ∧
      ((accepted w szFilter strRoot entries).filter fun e => !(content e.strFile).isEmpty).Sublist kept := by
  obtain ⟨⟨saved,files,perm⟩,-⟩ := queueSaved queued calling returned joined somebody run smooth free
  have same := searched.symm.trans (searchQueues w szFilter strRoot entries given bare)
  have length : queue.length = (accepted w szFilter strRoot entries).length := by rw [same,List.length_map]
  let at_ (p : Nat) : Entry := (accepted w szFilter strRoot entries).getD p ⟨[],[],none⟩
  have places : (List.range queue.length).map at_ = accepted w szFilter strRoot entries := by
    rw [length]
    exact rangeGet _ _
  have file : ∀ p < queue.length, queue.getD p ⟨[],[]⟩ = ⟨backslash :: (at_ p).below strRoot,(at_ p).strFile⟩ := by
    intro p inside
    rw [same]
    exact getMapped (length ▸ inside) _ _ _
  have bytes : ∀ p < queue.length, (world p).content = content (at_ p).strFile := by
    intro p inside
    have there := file p inside
    rw [List.getD_eq_getElem?_getD,List.getElem?_eq_getElem inside,Option.getD_some] at there
    rw [holds p _ (List.getElem?_eq_getElem inside),there]
  refine ⟨saved,((List.range queue.length).filter fun p => !lost world sent order p).map at_,files,?_,?_,?_⟩
  · rw [savedOf,List.map_map] at perm
    rw [List.map_map]
    refine perm.trans (List.Perm.of_eq (List.map_congr_left fun p member => ?_))
    have inside := List.mem_range.mp (List.mem_filter.mp member).1
    simp only [Function.comp,queuedAt,file p inside,bytes p inside]
    rfl
  · rw [← places]
    exact List.filter_sublist.map _
  · rw [← places,List.filter_map]
    refine List.Sublist.map _ ?_
    have full : (List.range queue.length).filter ((fun e => !(content e.strFile).isEmpty) ∘ at_) =
        (List.range queue.length).filter fun p => !(world p).content.isEmpty :=
      List.filter_congr fun p member => by rw [Function.comp,bytes p (List.mem_range.mp member)]
    rw [full]
    refine List.monotone_filter_right _ fun p some => ?_
    rw [Bool.not_eq_true'] at some ⊢
    rw [lost,some,Bool.false_and]

end Mirror

-- The drive C: with the file `a`.
def driveWithOne : Listing := .file (chars ['a']) 3 .last
def smallContent (_strFile : CString) : Bytes := [1,2,3]

theorem treeSavedShort : ∃ acts s,
    follow (Server.step plainEnv) acts (Server.start plainDialog.m_strSavePath emptyDisk) = some s ∧
    ∃ saved kept, s.disk.files = emptyDisk.files ++ saved ∧
      saved.Perm (kept.map fun e =>
        ⟨getFilePath plainDialog.m_strSavePath (Entry.below (chars ['C',':']) e),smallContent e.strFile⟩) ∧
      List.Sublist kept (accepted asciiShell [] (chars ['C',':']) driveWithOne) ∧
      ((accepted asciiShell [] (chars ['C',':']) driveWithOne).filter fun e =>
        !(smallContent e.strFile).isEmpty).Sublist kept := by
  obtain ⟨sent,acts,s,calling,returned,joined,run,smooth,free,-⟩ := shortRan
  have searched : (findFiles asciiShell never (chars ['C',':']) [] (chars ['C',':']) driveWithOne).state.m_FileListtoSend =
      [shortName] := by decide +kernel
  have holds : ∀ (p : Nat) file, [shortName][p]? = some file →
      (undisturbed [1,2,3]).content = smallContent file.strFile := fun _ _ _ => rfl
  exact ⟨acts,s,run,treeSaved (by decide) rfl searched holds shortQueued calling returned joined (by simp) run smooth free⟩

end JokeDse
