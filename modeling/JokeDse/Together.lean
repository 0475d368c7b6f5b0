import JokeDse.Handler
import JokeDse.Lib.Shares

/-! A session beside others, and the same session alone. All sessions of a dialog fill one record of
files and one list of items; what one of them does there depends on nothing but its own cells. -/
namespace JokeDse
open Shares

structure Own where
  files : List Nat
  items : List Nat

def Own.none : Own := ⟨[],[]⟩

def Own.grown (own : Own) (r r' : Rx) : Own where
  files := own.files ++ List.range' r.disk.files.length (r'.disk.files.length - r.disk.files.length)
  items := own.items ++ List.range' r.dialog.items.length (r'.dialog.items.length - r.dialog.items.length)

/-- What a session has and sees of the dialog and the disk: `a` where it is alone, `r` where others are. -/
structure Sees (own : Own) (a r : Rx) : Prop where
  szFilePath : r.session.szFilePath = a.session.szFilePath
  strFileName : r.session.strFileName = a.session.strFileName
  nFileSize : r.session.nFileSize = a.session.nFileSize
  nSavedLength : r.session.nSavedLength = a.session.nSavedLength
  m_strSavePath : r.dialog.m_strSavePath = a.dialog.m_strSavePath
  FileSave : Held own.files a.session.FileSave r.session.FileSave
  pFileItem : Held own.items a.session.pFileItem r.session.pFileItem
  files : Shows own.files r.disk.files a.disk.files
  items : Shows own.items r.dialog.items a.dialog.items
  filesOnce : own.files.Nodup
  itemsOnce : own.items.Nodup

structure Mirrors (own : Own) (r₀ a r : Rx) : Prop where
  sees : Sees (own.grown r₀ r) a r
  files : ∀ n < r₀.disk.files.length, n ∉ own.files → r.disk.files[n]? = r₀.disk.files[n]?
  items : ∀ n < r₀.dialog.items.length, n ∉ own.items → r.dialog.items[n]? = r₀.dialog.items[n]?
  filesMore : r₀.disk.files.length ≤ r.disk.files.length
  itemsMore : r₀.dialog.items.length ≤ r.dialog.items.length
  m_strSavePath : r.dialog.m_strSavePath = r₀.dialog.m_strSavePath

def Together {α : Type} (own : Own) (r₀ : Rx) (alone : Outcome Ctx α) : Outcome Ctx α → Prop
  | .done value c => ∃ c', alone = .done value c' ∧ Mirrors own r₀ c'.toRx c.toRx
  | .thrown c => ∃ c', alone = .thrown c' ∧ Mirrors own r₀ c'.toRx c.toRx
  | .stopped _ _ => True

section Rules
variable {own : Own} {r₀ : Rx} {α β : Type}

theorem Together.bind {o p : Outcome Ctx α} {next next' : α → Ctx → Outcome Ctx β} (first : Together own r₀ o p)
    (rest : ∀ value c c', Mirrors own r₀ c.toRx c'.toRx → Together own r₀ (next value c) (next' value c')) :
    Together own r₀ (o.bind next) (p.bind next') := by
  cases p with
  | done value c' =>
    obtain ⟨c,rfl,follows⟩ := first
    exact rest value c c' follows
  | thrown c' =>
    obtain ⟨c,rfl,follows⟩ := first
    exact ⟨c,rfl,follows⟩
  | stopped why c' => trivial

theorem Together.done (value : α) {c c' : Ctx} (follows : Mirrors own r₀ c.toRx c'.toRx) :
    Together own r₀ (.done value c) (.done value c') := ⟨c,rfl,follows⟩

theorem ownGrown (own : Own) (r : Rx) : own.grown r r = own := by
  simp [Own.grown]

theorem Sees.mirrors {a r : Rx} (sees : Sees own a r) : Mirrors own r a r where
  sees := by rwa [ownGrown]
  files _ _ _ := rfl
  items _ _ _ := rfl
  filesMore := Nat.le_refl _
  itemsMore := Nat.le_refl _
  m_strSavePath := rfl

theorem Mirrors.still {a r a' r' : Rx} (follows : Mirrors own r₀ a r) (disk : r'.disk.files = r.disk.files)
    (list : r'.dialog.items = r.dialog.items) (path : a'.dialog.m_strSavePath = a.dialog.m_strSavePath)
    (sees : Sees (own.grown r₀ r) a' r') : Mirrors own r₀ a' r' where
  sees := by
    have same : own.grown r₀ r' = own.grown r₀ r := by rw [Own.grown,disk,list,Own.grown]
    rwa [same]
  files := by rw [disk]; exact follows.files
  items := by rw [list]; exact follows.items
  filesMore := by rw [disk]; exact follows.filesMore
  itemsMore := by rw [list]; exact follows.itemsMore
  m_strSavePath := by rw [sees.m_strSavePath,path,← follows.sees.m_strSavePath,follows.m_strSavePath]

theorem grownOther {own : List Nat} {n m size more : Nat} (member : n ∈ own ++ List.range' size more) (low : m < size)
    (other : m ∉ own) : n ≠ m := by
  rintro rfl
  rcases List.mem_append.mp member with old | new
  · exact other old
  · have from_ := (List.mem_range'_1.mp new).1
    omega

theorem Mirrors.append {a r : Rx} (follows : Mirrors own r₀ a r) (data : Bytes) :
    Mirrors own r₀ (a.append data) (r.append data) := by
  have sees := follows.sees
  unfold Rx.append
  cases handle : r.session.FileSave with
  | none =>
    have held := sees.FileSave
    rw [handle] at held
    have none : a.session.FileSave = none := by
      have same := held.isSome
      simpa using same
    rw [none]
    exact follows
  | some n =>
    have held := sees.FileSave
    rw [handle] at held
    obtain ⟨k,mine,number⟩ := held.number
    rw [mine]
    have member : n ∈ (own.grown r₀ r).files := List.mem_of_getElem? number
    have same : own.grown r₀ {r with disk := {r.disk with
        files := r.disk.files.modify n fun f => {f with content := f.content ++ data}}} = own.grown r₀ r := by
      simp only [Own.grown,List.length_modify]
    refine ⟨?_,fun m low other => ?_,follows.items,?_,follows.itemsMore,follows.m_strSavePath⟩
    · rw [same]
      exact {sees with files := sees.files.change sees.filesOnce number _}
    · rw [← follows.files m low other]
      exact List.getElem?_modify_ne _ _ (grownOther member low other)
    · simp only [List.length_modify]
      exact follows.filesMore

theorem Mirrors.setItem {a r : Rx} (follows : Mirrors own r₀ a r) {k n : Nat}
    (number : (own.grown r₀ r).items[k]? = some n) (change : FileItem → FileItem) :
    Mirrors own r₀ (a.setItem k change) (r.setItem n change) := by
  have sees := follows.sees
  have member : n ∈ (own.grown r₀ r).items := List.mem_of_getElem? number
  have same : own.grown r₀ (r.setItem n change) = own.grown r₀ r := by
    simp only [Own.grown,Rx.setItem,List.length_modify]
  refine ⟨?_,follows.files,fun m low other => ?_,follows.filesMore,?_,follows.m_strSavePath⟩
  · rw [same]
    exact {sees with items := sees.items.change sees.itemsOnce number _}
  · rw [← follows.items m low other]
    exact List.getElem?_modify_ne _ _ (grownOther member low other)
  · simp only [Rx.setItem,List.length_modify]
    exact follows.itemsMore

theorem grownMore {own : List Nat} {first size : Nat} (low : first ≤ size) :
    own ++ List.range' first (size + 1 - first) = own ++ List.range' first (size - first) ++ [size] := by
  rw [Nat.sub_add_comm low,List.range'_1_concat,Nat.add_sub_cancel' low,List.append_assoc]

theorem grownOnce {own : List Nat} {size : Nat} (once : own.Nodup) (inside : ∀ n ∈ own, n < size) :
    (own ++ [size]).Nodup :=
  List.Nodup.append once (List.nodup_singleton _) (by
    simpa using fun member => Nat.lt_irrefl _ (inside size member))

theorem Mirrors.announce (env : Env) (h : FilebufHeader) (name : Bytes) {a r : Rx} (follows : Mirrors own r₀ a r) :
    Mirrors own r₀ (a.announce env h name) (r.announce env h name) := by
  have sees := follows.sees
  have dest : r.destFile env name = a.destFile env name := by
    rw [Rx.destFile,Rx.destFile,sees.m_strSavePath]
  have size : (r.announce env h name).dialog.items.length = r.dialog.items.length + 1 := by
    simp [Rx.announce]
  have items : (own.grown r₀ (r.announce env h name)).items = (own.grown r₀ r).items ++ [r.dialog.items.length] := by
    simp only [Own.grown,size]
    exact grownMore follows.itemsMore
  have files : (own.grown r₀ (r.announce env h name)).files = (own.grown r₀ r).files := rfl
  refine ⟨⟨rfl,dest,rfl,sees.nSavedLength,sees.m_strSavePath,?_,?_,?_,?_,?_,?_⟩,follows.files,fun m low other => ?_,
    follows.filesMore,?_,follows.m_strSavePath⟩
  · rw [files]
    exact sees.FileSave
  · rw [items]
    refine Held.some _ ?_
    rw [← sees.items.length]
    exact List.getElem?_concat_length
  · rw [files]
    exact sees.files
  · have made := sees.items.make (FileItem.new (env.unicodeString name) (r.destFile env name) (int h.nFileSize.toNat))
    rw [items]
    simp only [Rx.announce]
    rw [dest] at made ⊢
    exact made
  · rw [files]
    exact sees.filesOnce
  · rw [items]
    exact grownOnce sees.itemsOnce sees.items.inside
  · have more := follows.itemsMore
    simp only [Rx.announce]
    rw [List.getElem?_append_left (by omega)]
    exact follows.items m low other
  · rw [size]
    exact Nat.le_succ_of_le follows.itemsMore

theorem Mirrors.openFile (succeeds : Bool) {a r : Rx} (follows : Mirrors own r₀ a r) :
    Mirrors own r₀ (a.openFile succeeds) (r.openFile succeeds) := by
  have sees := follows.sees
  cases succeeds with
  | false => exact follows.still rfl rfl rfl {sees with FileSave := heldNone}
  | true =>
    have size : (r.openFile true).disk.files.length = r.disk.files.length + 1 := by
      simp [Rx.openFile]
    have files : (own.grown r₀ (r.openFile true)).files = (own.grown r₀ r).files ++ [r.disk.files.length] := by
      simp only [Own.grown,size]
      exact grownMore follows.filesMore
    have items : (own.grown r₀ (r.openFile true)).items = (own.grown r₀ r).items := rfl
    refine ⟨⟨sees.szFilePath,sees.strFileName,sees.nFileSize,sees.nSavedLength,sees.m_strSavePath,?_,?_,?_,?_,?_,?_⟩,
      fun m low other => ?_,follows.items,?_,follows.itemsMore,follows.m_strSavePath⟩
    · rw [files]
      refine Held.some _ ?_
      rw [← sees.files.length]
      exact List.getElem?_concat_length
    · rw [items]
      exact sees.pFileItem
    · have made := sees.files.make ⟨r.session.strFileName,[]⟩
      rw [files]
      simp only [Rx.openFile,if_true]
      rw [sees.strFileName] at made ⊢
      exact made
    · rw [items]
      exact sees.items
    · rw [files]
      exact grownOnce sees.filesOnce sees.files.inside
    · rw [items]
      exact sees.itemsOnce
    · have more := follows.filesMore
      simp only [Rx.openFile,if_true]
      rw [List.getElem?_append_left (by omega)]
      exact follows.files m low other
    · rw [size]
      exact Nat.le_succ_of_le follows.filesMore

end Rules

/-! The functions of the session. -/

section Functions
variable {own : Own} {r₀ : Rx} {pBuffer : Bytes} {c c' : Ctx}

theorem togetherItem (change : FileItem → FileItem) (follows : Mirrors own r₀ c.toRx c'.toRx) :
    Together own r₀ (withItem change c) (withItem change c') := by
  unfold withItem
  have held := follows.sees.pFileItem
  cases item : c'.session.pFileItem with
  | none => trivial
  | some n =>
    rw [item] at held
    obtain ⟨k,mine,number⟩ := held.number
    rw [mine]
    exact .done () (follows.setItem number change)

theorem togetherWrite (succeeds : Bool) (nOffset nToSave : Int) (follows : Mirrors own r₀ c.toRx c'.toRx) :
    Together own r₀ (write succeeds pBuffer nOffset nToSave c) (write succeeds pBuffer nOffset nToSave c') := by
  have opened : (c.note (.write nOffset (uint nToSave) pBuffer.length)).session.FileSave.isSome =
      (c'.note (.write nOffset (uint nToSave) pBuffer.length)).session.FileSave.isSome := follows.sees.FileSave.isSome
  simp only [write,opened]
  split
  · exact .done () follows
  · split
    · trivial
    · split
      · exact .done () (follows.append _)
      · exact ⟨_,rfl,follows⟩

theorem togetherReset (follows : Mirrors own r₀ c.toRx c'.toRx) :
    Mirrors own r₀ (c.on Rx.resetFile).toRx (c'.on Rx.resetFile).toRx :=
  follows.still rfl rfl rfl {follows.sees with szFilePath := rfl, nFileSize := rfl, nSavedLength := rfl}

theorem togetherRelease (follows : Mirrors own r₀ c.toRx c'.toRx) :
    Mirrors own r₀ (c.on Rx.releaseHandle).toRx (c'.on Rx.releaseHandle).toRx :=
  follows.still rfl rfl rfl {follows.sees with FileSave := heldNone}

theorem togetherSaved (nSavedLength : Int) (follows : Mirrors own r₀ c.toRx c'.toRx) :
    Mirrors own r₀ (c.on (Rx.setSaved nSavedLength)).toRx (c'.on (Rx.setSaved nSavedLength)).toRx :=
  follows.still rfl rfl rfl {follows.sees with nSavedLength := rfl}

theorem togetherCount (saved saved' : Int) (follows : Mirrors own r₀ c.toRx c'.toRx) :
    Mirrors own r₀ (c.on (Rx.setSavedFiles saved)).toRx (c'.on (Rx.setSavedFiles saved')).toRx :=
  follows.still rfl rfl rfl {follows.sees with}

theorem togetherRaise (h : FilebufHeader) (follows : Mirrors own r₀ c.toRx c'.toRx) :
    Mirrors own r₀ (c.on (Rx.raiseCounters h)).toRx (c'.on (Rx.raiseCounters h)).toRx :=
  follows.still rfl rfl rfl {follows.sees with}

theorem togetherClose (succeeds : Bool) (follows : Mirrors own r₀ c.toRx c'.toRx) :
    Together own r₀ (close succeeds (c.on Rx.resetFile)) (close succeeds (c'.on Rx.resetFile)) := by
  have opened : (c.on Rx.resetFile).session.FileSave.isSome = (c'.on Rx.resetFile).session.FileSave.isSome :=
    follows.sees.FileSave.isSome
  simp only [close,opened]
  split
  · exact ⟨_,rfl,togetherRelease (togetherReset follows)⟩
  · exact .done () (togetherRelease (togetherReset follows))

theorem togetherRest (ops : FileOps) (follows : Mirrors own r₀ c.toRx c'.toRx) :
    Together own r₀ (saveRest ops pBuffer c) (saveRest ops pBuffer c') := by
  have sees := follows.sees
  simp only [saveRest,sees.nFileSize,sees.nSavedLength]
  split
  · generalize (if (pBuffer.length : Int) ≤ _ then _ else _) = nToSave
    refine (togetherWrite _ _ _ follows).bind fun _ c c' follows => ?_
    have noted : Mirrors own r₀ (c.note (.offset 0 nToSave pBuffer.length)).toRx
      (c'.note (.offset 0 nToSave pBuffer.length)).toRx := follows
    simp only [noted.sees.nSavedLength]
    exact (togetherItem _ (togetherSaved _ noted)).bind fun _ c c' follows => .done _ follows
  · exact .done 0 follows

theorem togetherAccept (env : Env) (ops : FileOps) (k : Nat) (nOffset : Int) (h : FilebufHeader)
    (follows : Mirrors own r₀ c.toRx c'.toRx) :
    Together own r₀ (acceptHeader env ops k pBuffer nOffset h c) (acceptHeader env ops k pBuffer nOffset h c') := by
  unfold acceptHeader
  simp only
  split
  · trivial
  · rename_i szFilePath _
    exact .done () (((togetherRaise h follows).announce env h szFilePath).openFile _)

/-- Without the value that CloseFile has read of the common m_nSavedFiles. -/
def Place.blind : Place → Place
  | .count call _ => .count call 0
  | place => place

def blindly (o : Outcome Ctx Place) : Outcome Ctx Place := o.bind fun next c => .done next.blind c

theorem Together.blind {o p : Outcome Ctx Place} (together : Together own r₀ o p) :
    Together own r₀ (blindly o) (blindly p) := together.bind fun _ _ _ follows => .done _ follows

theorem blindSame {place place' : Place} (same : place'.blind = place.blind) :
    place' = place ∨ ∃ call saved saved', place' = .count call saved' ∧ place = .count call saved := by
  cases place <;> cases place' <;> first | exact .inl same | cases same
  exact .inr ⟨_,_,_,rfl,rfl⟩

theorem togetherGo (env : Env) (ops : FileOps) {place place' : Place} (same : place'.blind = place.blind)
    (follows : Mirrors own r₀ c.toRx c'.toRx) :
    Together own r₀ (blindly (go env ops pBuffer place' c)) (blindly (go env ops pBuffer place c')) := by
  have sees := follows.sees
  rcases blindSame same with rfl | ⟨call,saved,saved',rfl,rfl⟩
  · cases place' with
    | parser =>
      simp only [go,sees.nFileSize]
      split
      · refine ((togetherRest ops follows).bind fun nOffset c c' follows => ?_).blind
        rw [follows.sees.nSavedLength,follows.sees.nFileSize]
        exact .done _ follows
      · exact .done _ follows
    | round k nOffset =>
      simp only [go]
      split
      · split
        · trivial
        · split
          · have noted : Mirrors own r₀ (c.note (.slice nOffset sizeofFilebufHeader pBuffer.length)).toRx
              (c'.note (.slice nOffset sizeofFilebufHeader pBuffer.length)).toRx := follows
            exact ((togetherAccept env ops k nOffset _ noted).bind fun _ c c' follows => .done _ follows).blind
          · exact .done _ follows
      · exact .done _ follows
    | payload k nOffset pHeader =>
      simp only [go,sees.nFileSize]
      split
      · refine ((togetherWrite _ _ _ follows).bind fun _ c c' follows => ?_).blind
        refine (togetherItem _ (togetherSaved _ follows)).bind fun _ c c' follows => ?_
        have saved := follows.sees.nSavedLength
        have size := follows.sees.nFileSize
        simp only [Ctx.note,saved,size]
        exact .done _ follows
      · exact .done _ follows
    | close call =>
      simp only [go,blindly,Outcome.bindAssoc]
      exact (togetherClose _ follows).bind fun _ c c' follows => .done _ follows
    | count call saved => exact .done _ (togetherCount _ _ follows)
    | mark call =>
      refine ((togetherItem _ follows).bind fun _ c c' follows => ?_).blind
      refine .done _ ?_
      rwa [afterSame,afterSame]
    | leave nOffset => exact .done _ follows
  · exact .done _ (togetherCount _ _ follows)

end Functions

end JokeDse
