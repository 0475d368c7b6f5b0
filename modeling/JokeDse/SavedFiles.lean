import JokeDse.FileList

/-! m_nSavedFiles and the items it counts. CloseFile counts an item and then marks it, under m_csList; the
vectors that hold the item may have been cleared by then, and a new injection sets the counter to zero
without the lock, also between the two. -/
namespace JokeDse
open Runs

def Dialog.complete (d : Dialog) (p : Nat) : Bool := d.statuses[p]?.getD false

def Server.place (i : Nat) (s : Server) : Place :=
  match s.handler with
  | some (.parsing j _ _ _ place) => if j = i then place else .leave 0
  | _ => .leave 0

def Server.Owner (s : Server) (i p : Nat) : Prop :=
  ∃ part, s.sessions[i]? = some part ∧ Owns (s.place i) part.session ∧ part.session.pFileItem = some p

def Server.ResetFirst (s : Server) : Prop :=
  ∀ i part, s.sessions[i]? = some part → (s.place i).locked = true → part.session.nFileSize = 0

structure Owned (s : Server) : Prop where
  unfinished : ∀ i p, s.Owner i p → p < s.dialog.items.length ∧ s.dialog.complete p = false
  apart : ∀ i j p, s.Owner i p → s.Owner j p → i = j

section Owners
variable {env : Env} {s t : Server}

theorem lengthStatuses (d : Dialog) : d.statuses.length = d.items.length := List.length_map _

theorem completeNew {c c' : Ctx} (announced : Announced c c') : c'.dialog.complete = c.dialog.complete := by
  funext p
  rw [Dialog.complete,Dialog.complete,announced.statuses]
  rcases Nat.lt_trichotomy p c.dialog.statuses.length with old | new | beyond
  · rw [List.getElem?_append_left old]
  · rw [List.getElem?_append_right (Nat.le_of_eq new.symm),new,Nat.sub_self,List.getElem?_eq_none (Nat.le_refl _)]
    rfl
  · rw [List.getElem?_eq_none (by simp only [List.length_append,List.length_singleton]; omega),
      List.getElem?_eq_none (Nat.le_of_lt beyond)]

theorem completeBeyond {d : Dialog} {p : Nat} (beyond : d.items.length ≤ p) : d.complete p = false := by
  rw [Dialog.complete,List.getElem?_eq_none (lengthStatuses d ▸ beyond)]
  rfl

theorem completeOther {p q : Nat} {c c' : Ctx} (marks : Marks p c c') (other : q ≠ p) :
    c'.dialog.complete q = c.dialog.complete q := by
  rw [Dialog.complete,Dialog.complete,marks.statuses,List.getElem?_modify_ne _ _ (Ne.symm other)]

theorem completeMarked {p : Nat} {c c' : Ctx} (marks : Marks p c c') (inside : p < c.dialog.items.length) :
    c'.dialog.complete p = true := by
  have inside : p < c.dialog.statuses.length := by rwa [lengthStatuses]
  rw [Dialog.complete,marks.statuses,List.getElem?_modify_eq,List.getElem?_eq_getElem inside]
  rfl

theorem Owned.fewer (owned : Owned s) (owners : ∀ i p, t.Owner i p → s.Owner i p)
    (statuses : t.dialog.statuses = s.dialog.statuses) : Owned t where
  unfinished i p owner := by
    have length : t.dialog.items.length = s.dialog.items.length := by
      rw [← lengthStatuses,statuses,lengthStatuses]
    have here := owned.unfinished i p (owners i p owner)
    rwa [length,Dialog.complete,statuses]
  apart i j p one other := owned.apart i j p (owners i p one) (owners j p other)

theorem ownerSame (sessions : t.sessions = s.sessions) (handler : t.handler = s.handler) (i p : Nat)
    (owner : t.Owner i p) : s.Owner i p := by
  obtain ⟨part,there,owns,item⟩ := owner
  rw [Server.place,handler] at owns
  exact ⟨part,sessions ▸ there,owns,item⟩

theorem ownerIdle {i p : Nat} {part : Part} (there : s.sessions[i]? = some part) (size : part.session.nFileSize ≠ 0)
    (item : part.session.pFileItem = some p) : s.Owner i p := ⟨part,there,.inl size,item⟩

theorem ownerSize {i p : Nat} (owner : s.Owner i p) (outside : (s.place i).holding = false) :
    ∃ part, s.sessions[i]? = some part ∧ part.session.nFileSize ≠ 0 ∧ part.session.pFileItem = some p := by
  obtain ⟨part,there,owns,item⟩ := owner
  rcases owns with size | holding
  · exact ⟨part,there,size,item⟩
  · rw [outside] at holding
    contradiction

theorem setEntry {α : Type} {xs : List α} {i j : Nat} {x y : α} (there : (xs.set j x)[i]? = some y) :
    j = i ∧ x = y ∨ j ≠ i ∧ xs[i]? = some y := by
  rw [List.getElem?_set] at there
  split at there
  · split at there <;> cases there
    exact .inl ⟨‹j = i›,rfl⟩
  · exact .inr ⟨‹¬ j = i›,there⟩

theorem outsideOwners {a : ServerStep} (outside : a.outside = true) (took : Took s a t) (i p : Nat)
    (owner : t.Owner i p) : s.Owner i p := by
  cases took with
  | accept | failed | finished =>
    obtain ⟨part,there,size,item⟩ := ownerSize owner rfl
    exact ownerIdle there size item
  | started accepting =>
    obtain ⟨part,there,size,item⟩ := ownerSize owner rfl
    rcases Nat.lt_or_ge i s.sessions.length with old | new
    · rw [List.getElem?_append_left old] at there
      exact ownerIdle there size item
    · rw [List.getElem?_append_right new] at there
      have fresh := List.mem_singleton.mp (List.mem_of_getElem? there)
      rw [fresh] at size
      exact absurd rfl size
  | read pBuffer free there reading =>
    obtain ⟨part,inside,size,item⟩ := ownerSize owner (by unfold Server.place; simp only; split <;> rfl)
    rcases setEntry inside with ⟨rfl,rfl⟩ | ⟨-,inside⟩
    · exact ownerIdle there size item
    · exact ownerIdle inside size item
  | closed finishing =>
    obtain ⟨part,there,size,item⟩ := ownerSize owner rfl
    rw [List.getElem?_modify] at there
    obtain ⟨part',before,rfl⟩ := Option.map_eq_some_iff.mp there
    refine ownerIdle before ?_ ?_
    · split at size <;> exact size
    · split at item <;> exact item
  | _ => cases outside

section Go
variable {i : Nat} {place : Place} {part : Part} {c : Ctx}

theorem parsingPlace {ops : FileOps} {ec : Bool} {nFileSize : Int}
    (handler : s.handler = some (.parsing i ops ec nFileSize place)) :
    s.place i = place := by
  rw [Server.place,handler]
  exact if_pos rfl

theorem Gone.otherOwner (gone : Gone s t i place part c) {j p : Nat} (other : j ≠ i) (owner : t.Owner j p) :
    s.Owner j p := by
  have away : (t.place j).holding = false := by
    have effect := gone.effect
    unfold Server.place
    generalize t.handler = handler at effect
    cases effect <;> simp only [if_neg (Ne.symm other)] <;> rfl
  obtain ⟨part',there,size,item⟩ := ownerSize owner away
  obtain ⟨pBuffer,sessions⟩ := gone.sessions
  rw [sessions,List.getElem?_set_ne (Ne.symm other)] at there
  exact ownerIdle there size item

theorem Gone.ownSession (gone : Gone s t i place part c) {p : Nat} (owner : t.Owner i p) :
    Owns (t.place i) c.session ∧ c.session.pFileItem = some p := by
  obtain ⟨part',there,owns,item⟩ := owner
  obtain ⟨pBuffer,sessions⟩ := gone.sessions
  obtain ⟨inside,-⟩ := List.getElem?_eq_some_iff.mp gone.there
  rw [sessions,List.getElem?_set_self inside] at there
  cases there
  exact ⟨owns,item⟩

theorem Gone.stands (gone : Gone s t i place part c) : s.place i = place := by
  obtain ⟨ops,ec,nFileSize,handler⟩ := gone.handler
  exact parsingPlace handler

theorem Gone.ownOwner (gone : Gone s t i place part c) {p : Nat} (owns : Owns place part.session)
    (item : part.session.pFileItem = some p) : s.Owner i p := by
  exact ⟨part,gone.there,gone.stands.symm ▸ owns,item⟩

theorem Gone.quietOwner (gone : Gone s t i place part c) (quiet : Quiet (s.ctx part.session) c)
    (owns : ∀ session, Owns (t.place i) session → session.nFileSize ≠ 0 ∨ Owns place part.session) {j p : Nat}
    (owner : t.Owner j p) : s.Owner j p := by
  by_cases here : j = i
  · subst here
    obtain ⟨after,item⟩ := gone.ownSession owner
    refine gone.ownOwner ?_ (quiet.pFileItem.symm.trans item)
    rcases owns c.session after with size | before
    · exact .inl (quiet.nFileSize size)
    · exact before
  · exact gone.otherOwner here owner

theorem Owned.announces (owned : Owned s) (gone : Gone s t i place part c)
    (announced : Announced (s.ctx part.session) c) : Owned t := by
  have same : t.dialog.complete = s.dialog.complete := gone.dialog ▸ completeNew announced
  have length : t.dialog.items.length = s.dialog.items.length + 1 := gone.dialog ▸ announcedLength announced
  have mine {p : Nat} (owner : t.Owner i p) : p = s.dialog.items.length :=
    Option.some.inj ((gone.ownSession owner).2.symm.trans announced.pFileItem)
  have old {j p : Nat} (other : j ≠ i) (owner : t.Owner j p) : p < s.dialog.items.length :=
    (owned.unfinished j p (gone.otherOwner other owner)).1
  constructor
  · intro j p owner
    rw [same,length]
    by_cases here : j = i
    · subst here
      rw [mine owner]
      exact ⟨Nat.lt_succ_self _,completeBeyond (Nat.le_refl _)⟩
    · obtain ⟨inside,unfinished⟩ := owned.unfinished j p (gone.otherOwner here owner)
      exact ⟨Nat.lt_succ_of_lt inside,unfinished⟩
  · intro j k p one other
    by_cases first : j = i <;> by_cases second : k = i
    · rw [first,second]
    · exact absurd (mine (first ▸ one)) (Nat.ne_of_lt (old second other))
    · exact absurd (mine (second ▸ other)) (Nat.ne_of_lt (old first one))
    · exact owned.apart j k p (gone.otherOwner first one) (gone.otherOwner second other)

theorem Owned.unchanged (owned : Owned s) (gone : Gone s t i place part c)
    (statuses : c.dialog.statuses = s.dialog.statuses) (session : c.session = part.session)
    (holding : place.holding = true) : Owned t := by
  refine owned.fewer (fun j p owner => ?_) (gone.dialog ▸ statuses)
  by_cases here : j = i
  · subst here
    obtain ⟨-,item⟩ := gone.ownSession owner
    exact gone.ownOwner (.inr holding) (session ▸ item)
  · exact gone.otherOwner here owner

theorem Owned.marks (owned : Owned s) (gone : Gone s t i place part c) {p : Nat} (holding : place.holding = true)
    (free : (t.place i).holding = false) (ended : part.session.nFileSize = 0) (marks : Marks p (s.ctx part.session) c) :
    Owned t := by
  have length : t.dialog.items.length = s.dialog.items.length := gone.dialog ▸ marksLength marks
  have before : s.Owner i p := gone.ownOwner (.inr holding) marks.pFileItem
  have nothing {q : Nat} (owner : t.Owner i q) : False := by
    rcases (gone.ownSession owner).1 with size | held
    · exact size (marks.session ▸ ended)
    · rw [free] at held
      contradiction
  have old {j q : Nat} (owner : t.Owner j q) : j ≠ i ∧ s.Owner j q := by
    have other : j ≠ i := fun here => nothing (here ▸ owner)
    exact ⟨other,gone.otherOwner other owner⟩
  constructor
  · intro j q owner
    obtain ⟨other,owner⟩ := old owner
    have apart : q ≠ p := fun same => other (owned.apart j i p (same ▸ owner) before)
    obtain ⟨inside,unfinished⟩ := owned.unfinished j q owner
    have same : t.dialog.complete q = s.dialog.complete q := gone.dialog ▸ completeOther marks apart
    rw [length,same]
    exact ⟨inside,unfinished⟩
  · exact fun j k q one other => owned.apart j k q (old one).2 (old other).2

theorem ownedGo (owned : Owned s) (first : s.ResetFirst) (gone : Gone s t i place part c) : Owned t := by
  have effect := gone.effect
  generalize handler : t.handler = h at effect
  cases effect with
  | quiet quiet owns unlocked =>
    refine owned.fewer (fun j p owner => gone.quietOwner quiet (fun session after => ?_) owner)
      (gone.dialog ▸ quiet.statuses)
    rw [parsingPlace handler] at after
    exact after.imp id owns
  | loaded quiet ended =>
    exact owned.fewer (fun j p owner => gone.quietOwner quiet (fun _ _ => .inr (.inr rfl)) owner)
      (gone.dialog ▸ quiet.statuses)
  | finished quiet unlocked =>
    refine owned.fewer (fun j p owner => gone.quietOwner quiet (fun session after => ?_) owner)
      (gone.dialog ▸ quiet.statuses)
    rw [Server.place,handler] at after
    exact after.imp id fun held => by cases held
  | announced announced => exact owned.announces gone announced
  | counted counts => exact owned.unchanged gone counts.statuses counts.session rfl
  | marked marks free =>
    have ended := first i part gone.there (by rw [gone.stands]; rfl)
    exact owned.marks gone rfl (by rw [parsingPlace handler]; exact free) ended marks

theorem resetGo (first : s.ResetFirst) (gone : Gone s t i place part c) : t.ResetFirst := by
  intro j part' there locked
  have effect := gone.effect
  by_cases here : j = i
  · subst here
    obtain ⟨pBuffer,sessions⟩ := gone.sessions
    obtain ⟨inside,-⟩ := List.getElem?_eq_some_iff.mp gone.there
    rw [sessions,List.getElem?_set_self inside] at there
    cases there
    generalize handler : t.handler = h at effect
    cases effect with
    | quiet quiet owns unlocked =>
      rw [parsingPlace handler,unlocked.2] at locked
      contradiction
    | announced announced =>
      rw [parsingPlace handler] at locked
      cases locked
    | loaded quiet ended => exact ended
    | counted counts =>
      have ended := first j part gone.there (by rw [gone.stands]; rfl)
      exact (congrArg Session.nFileSize counts.session).trans ended
    | marked marks free =>
      rw [parsingPlace handler] at locked
      rw [lockedHolds locked] at free
      contradiction
    | finished quiet unlocked =>
      rw [Server.place,handler] at locked
      cases locked
  · have away : (t.place j).locked = false := by
      unfold Server.place
      generalize t.handler = handler at effect
      cases effect <;> simp only [if_neg (Ne.symm here)] <;> rfl
    rw [away] at locked
    contradiction

end Go

theorem outsideFree {a : ServerStep} (outside : a.outside = true) (took : Took s a t) (i : Nat) :
    (s.place i).locked = false ∧ (t.place i).locked = false := by
  cases took with
  | accept free => exact ⟨by rw [Server.place,free]; rfl,rfl⟩
  | failed accepting | started accepting => exact ⟨by rw [Server.place,accepting]; rfl,rfl⟩
  | read pBuffer free there reading =>
    exact ⟨by rw [Server.place,free]; rfl,by unfold Server.place; simp only; split <;> rfl⟩
  | closed finishing | finished finishing => exact ⟨by rw [Server.place,finishing]; rfl,rfl⟩
  | _ => cases outside

theorem resetStep {a : ServerStep} (first : s.ResetFirst) (took : Took s a t) : t.ResetFirst := by
  have outside (io : a.outside = true) : t.ResetFirst := by
    intro i part there locked
    rw [(outsideFree io took i).2] at locked
    contradiction
  cases took with
  | accept | failed | started | read | closed | finished => exact outside rfl
  | gone gone => exact resetGo first gone
  | onTimer | insert | shown | unchanged | asked | cleared | zeroSaved | restart => exact first

theorem ownedStep {a : ServerStep} (owned : Owned s) (first : s.ResetFirst) (took : Took s a t) : Owned t := by
  have outside (io : a.outside = true) : Owned t := by
    obtain ⟨-,dialog⟩ := outsideStill io took
    exact owned.fewer (outsideOwners io took) (by rw [dialog])
  cases took with
  | accept | failed | started | read | closed | finished => exact outside rfl
  | gone gone => exact ownedGo owned first gone
  -- The dialog's thread leaves the sessions and the items as they are.
  | onTimer | insert | shown | unchanged | asked | cleared | zeroSaved | restart =>
    exact owned.fewer (ownerSame rfl rfl) rfl

end Owners

theorem countCompleted {f g : Nat → Bool} {p : Nat} {xs : List Nat} (nodup : xs.Nodup) (member : p ∈ xs)
    (before : f p = false) (after : g p = true) (others : ∀ q, q ≠ p → g q = f q) :
    xs.countP g = xs.countP f + 1 := by
  induction xs with
  | nil => cases member
  | cons x xs ih =>
    obtain ⟨fresh,nodup⟩ := List.nodup_cons.mp nodup
    rcases List.mem_cons.mp member with rfl | member
    · have rest : xs.countP g = xs.countP f :=
        List.countP_congr fun q inside => by rw [others q fun same => fresh (same ▸ inside)]
      rw [List.countP_cons_of_pos after,List.countP_cons_of_neg (by rw [before]; decide),rest]
    · have other : g x = f x := others x fun same => fresh (same ▸ member)
      rw [List.countP_cons,List.countP_cons,other,ih nodup member]
      omega

def Server.counting (s : Server) : Option (Int × Option Nat) :=
  match s.handler with
  | some (.parsing i _ _ _ (.count _ saved)) => (s.sessions[i]?).map fun part => (saved,part.session.pFileItem)
  | _ => none

def Place.marks : Place → Bool
  | .mark _ => true
  | _ => false

def Server.marking (s : Server) : Option Nat :=
  match s.handler with
  | some (.parsing i _ _ _ place) => if place.marks then (s.sessions[i]?).bind fun part => part.session.pFileItem else none
  | _ => none

def Server.counted (s : Server) (p : Nat) : Bool := s.dialog.complete p || decide (s.marking = some p)

/-- Where the counter stays right: an item that CloseFile counts is still in one of the vectors, the int
has room for it and the reset has not written the counter since CloseFile has read it; and m_vecFileTemp
holds no counted item when the counter goes to zero. Behind the clear nothing is lost, the counter is set
right after it. -/
def SavedSafely (s : Server) : ServerStep → Prop
  | .go => ∀ count ∈ s.counting, s.ui = .cleared ∨ (∃ p ∈ s.listed, count.2 = some p) ∧
      count.1 = s.dialog.m_nSavedFiles ∧ s.dialog.m_nSavedFiles < 2147483647
  | .zeroSaved => ∀ p ∈ s.dialog.m_vecFileTemp, s.counted p = false
  | _ => True

instance (s : Server) : (a : ServerStep) → Decidable (SavedSafely s a)
  | .go => inferInstanceAs (Decidable (∀ count ∈ s.counting, s.ui = .cleared ∨ (∃ p ∈ s.listed, count.2 = some p) ∧
      count.1 = s.dialog.m_nSavedFiles ∧ s.dialog.m_nSavedFiles < 2147483647))
  | .zeroSaved => inferInstanceAs (Decidable (∀ p ∈ s.dialog.m_vecFileTemp, s.counted p = false))
  | .accept _ | .start | .read _ _ _ _ | .finish | .onTimer | .insert | .setItemCount | .inject _ _ | .restart =>
    isTrue True.intro

structure Counted (s : Server) : Prop where
  listed : Listed s
  owned : Owned s
  first : s.ResetFirst
  saved : s.ui ≠ .cleared → s.dialog.m_nSavedFiles = s.listed.countP s.counted

section Count
variable {env : Env} {s t : Server}

theorem listedSame (before : Listed s) (after : Listed t) (mark : t.mark = s.mark) (waiting : t.waiting = s.waiting)
    (length : t.dialog.items.length = s.dialog.items.length) : t.listed = s.listed := by
  rw [after.order,before.order,mark,waiting,length]

theorem marksLocked {place : Place} (unlocked : place.locked = false) : place.marks = false := by
  cases place <;> first | rfl | cases unlocked

theorem markingNone (unlocked : ∀ i, (s.place i).locked = false) : s.marking = none := by
  unfold Server.marking
  split
  · rename_i i _ _ _ place handler
    have outside := unlocked i
    rw [parsingPlace handler] at outside
    rw [marksLocked outside]
    rfl
  · rfl

theorem markingSame (sessions : t.sessions = s.sessions) (handler : t.handler = s.handler) : t.marking = s.marking := by
  unfold Server.marking
  rw [sessions,handler]

theorem countedNone (free : s.marking = none) : s.counted = s.dialog.complete := by
  funext p
  simp only [Server.counted,free,reduceCtorEq,decide_false,Bool.or_false]

section Go
variable {i : Nat} {place : Place} {part : Part} {c : Ctx}

theorem Gone.unmarked (gone : Gone s t i place part c) (away : place.marks = false) : s.marking = none := by
  obtain ⟨ops,ec,nFileSize,handler⟩ := gone.handler
  unfold Server.marking
  simp only [handler,away,Bool.false_eq_true,if_false]

theorem Gone.marking {ops : FileOps} {ec : Bool} {nFileSize : Int} {next : Place} (gone : Gone s t i place part c)
    (handler : t.handler = some (.parsing i ops ec nFileSize next)) :
    t.marking = if next.marks then c.session.pFileItem else none := by
  obtain ⟨pBuffer,sessions⟩ := gone.sessions
  obtain ⟨inside,-⟩ := List.getElem?_eq_some_iff.mp gone.there
  have there : t.sessions[i]? = some ⟨c.session,pBuffer,part.reading⟩ := by
    rw [sessions,List.getElem?_set_self inside]
  unfold Server.marking
  simp only [handler,there,Option.bind_some]

theorem Gone.marks {call : Closing} (gone : Gone s t i (.mark call) part c) : s.marking = part.session.pFileItem := by
  obtain ⟨ops,ec,nFileSize,handler⟩ := gone.handler
  unfold Server.marking
  simp only [handler,gone.there,Option.bind_some]
  rfl

theorem Gone.counting {call : Closing} {saved : Int} (gone : Gone s t i (.count call saved) part c) :
    s.counting = some (saved,part.session.pFileItem) := by
  obtain ⟨ops,ec,nFileSize,handler⟩ := gone.handler
  unfold Server.counting
  rw [handler]
  simp only [gone.there,Option.map_some]

end Go

theorem Counted.still (counted : Counted s) (listed : Listed t) (owned : Owned t) (first : t.ResetFirst)
    (mark : t.mark = s.mark) (waiting : t.waiting = s.waiting) (statuses : t.dialog.statuses = s.dialog.statuses)
    (marking : t.marking = s.marking) (m_nSavedFiles : t.dialog.m_nSavedFiles = s.dialog.m_nSavedFiles)
    (ui : t.ui ≠ .cleared → s.ui ≠ .cleared) : Counted t where
  listed := listed
  owned := owned
  first := first
  saved away := by
    have length : t.dialog.items.length = s.dialog.items.length := by
      rw [← lengthStatuses,statuses,lengthStatuses]
    have same : t.counted = s.counted := by
      funext p
      rw [Server.counted,Server.counted,Dialog.complete,Dialog.complete,statuses,marking]
    rw [m_nSavedFiles,same,listedSame counted.listed listed mark waiting length]
    exact counted.saved (ui away)

theorem countedStore {i : Nat} {call : Closing} {saved : Int} {part : Part} {c : Ctx} (counted : Counted s)
    (gone : Gone s t i (.count call saved) part c) (counts : Counts saved (s.ctx part.session) c)
    (handler : ∃ ops ec nFileSize, t.handler = some (.parsing i ops ec nFileSize (.mark call))) :
    t.listed = s.listed ∧ ∀ q, t.counted q = (s.counted q || decide (part.session.pFileItem = some q)) := by
  obtain ⟨ops,ec,nFileSize,handler⟩ := handler
  have dialog := gone.dialog
  have length : t.dialog.items.length = s.dialog.items.length := dialog ▸ countsLength counts
  have statuses : t.dialog.statuses = s.dialog.statuses := dialog ▸ counts.statuses
  have session : c.session = part.session := counts.session
  have now : t.marking = part.session.pFileItem := by
    rw [gone.marking handler,session]
    rfl
  have before : s.counted = s.dialog.complete := countedNone (gone.unmarked rfl)
  refine ⟨listedSame counted.listed (listedGo counted.listed gone) gone.still.mark gone.still.waiting length,fun q => ?_⟩
  rw [before,Server.counted,now,Dialog.complete,Dialog.complete,statuses]

theorem countedItem {i : Nat} {call : Closing} {saved : Int} {part : Part} {c : Ctx} {p : Nat} (counted : Counted s)
    (gone : Gone s t i (.count call saved) part c) (counts : Counts saved (s.ctx part.session) c)
    (handler : ∃ ops ec nFileSize, t.handler = some (.parsing i ops ec nFileSize (.mark call)))
    (item : part.session.pFileItem = some p) (member : p ∈ s.listed) :
    t.listed.countP t.counted = s.listed.countP s.counted + 1 := by
  obtain ⟨listed,more⟩ := countedStore counted gone counts handler
  obtain ⟨-,unfinished⟩ := counted.owned.unfinished i p (gone.ownOwner (.inr rfl) item)
  have before : s.counted p = false := by rwa [countedNone (gone.unmarked rfl)]
  rw [listed]
  refine countCompleted (counted.listed.all.imp Nat.ne_of_lt) member before ?_ fun q other => ?_
  · rw [more,item]
    simp only [decide_true,Bool.or_true]
  · have others : some p ≠ some q := fun same => other (Option.some.inj same).symm
    rw [more,item]
    simp only [others,decide_false,Bool.or_false]

theorem countedGo {i : Nat} {place : Place} {part : Part} {c : Ctx} (counted : Counted s)
    (safe : SavedSafely s .go) (gone : Gone s t i place part c) : Counted t := by
  have listed := listedGo counted.listed gone
  have owned := ownedGo counted.owned counted.first gone
  have first := resetGo counted.first gone
  have effect := gone.effect
  have still := gone.still
  have dialog := gone.dialog
  have ui : t.ui ≠ .cleared → s.ui ≠ .cleared := by rw [still.ui]; exact id
  generalize handler : t.handler = h at effect
  cases effect with
  | quiet quiet owns unlocked =>
    have before : s.marking = none := gone.unmarked (marksLocked unlocked.1)
    have after : t.marking = none := by
      rw [gone.marking handler,marksLocked unlocked.2]
      rfl
    exact counted.still listed owned first still.mark still.waiting (dialog ▸ quiet.statuses) (after.trans before.symm)
      (dialog ▸ quiet.m_nSavedFiles) ui
  | loaded quiet ended =>
    have before : s.marking = none := gone.unmarked rfl
    exact counted.still listed owned first still.mark still.waiting (dialog ▸ quiet.statuses)
      ((gone.marking handler).trans before.symm) (dialog ▸ quiet.m_nSavedFiles) ui
  | finished quiet unlocked =>
    have before : s.marking = none := gone.unmarked (marksLocked unlocked)
    have after : t.marking = none := by
      unfold Server.marking
      rw [handler]
    exact counted.still listed owned first still.mark still.waiting (dialog ▸ quiet.statuses) (after.trans before.symm)
      (dialog ▸ quiet.m_nSavedFiles) ui
  | announced announced =>
    have more : t.listed = s.listed ++ [s.dialog.items.length] :=
      announcedListed still (dialog ▸ announced.m_vecFileTemp)
    have complete : t.dialog.complete = s.dialog.complete := dialog ▸ completeNew announced
    have m_nSavedFiles : t.dialog.m_nSavedFiles = s.dialog.m_nSavedFiles := dialog ▸ announced.m_nSavedFiles
    have fresh : s.dialog.complete s.dialog.items.length = false := completeBeyond (Nat.le_refl _)
    have before : s.counted = s.dialog.complete := countedNone (gone.unmarked rfl)
    have after : t.counted = t.dialog.complete := countedNone (gone.marking handler)
    refine ⟨listed,owned,first,fun away => ?_⟩
    rw [m_nSavedFiles,more,after,complete,List.countP_append,List.countP_singleton,fresh,← before]
    exact counted.saved (ui away)
  | counted counts =>
    refine ⟨listed,owned,first,fun away => ?_⟩
    rcases safe _ gone.counting with cleared | ⟨⟨p,member,item⟩,loaded,room⟩
    · exact absurd cleared (ui away)
    · have before := counted.saved (ui away)
      simp only at loaded
      have m_nSavedFiles : t.dialog.m_nSavedFiles = int (_ + 1) := dialog ▸ counts.m_nSavedFiles
      rw [m_nSavedFiles,countedItem counted gone counts ⟨_,_,_,handler⟩ item member,loaded,intFits (by omega) (by omega),
        before]
      rfl
  | @marked _ _ _ call next p marks free =>
    refine ⟨listed,owned,first,fun away => ?_⟩
    have length : t.dialog.items.length = s.dialog.items.length := dialog ▸ marksLength marks
    have item : part.session.pFileItem = some p := marks.pFileItem
    obtain ⟨inside,-⟩ := counted.owned.unfinished i p (gone.ownOwner (.inr rfl) item)
    have before : s.marking = some p := gone.marks.trans item
    have after : t.marking = none := by
      have outside : next.locked = false := Bool.eq_false_iff.mpr fun locked => by
        rw [lockedHolds locked] at free
        contradiction
      rw [gone.marking handler,marksLocked outside]
      rfl
    have same : t.counted = s.counted := by
      rw [countedNone after]
      funext q
      by_cases here : q = p
      · have now : t.dialog.complete q = true := here ▸ dialog ▸ completeMarked marks inside
        simp only [Server.counted,before,here ▸ now,here,decide_true,Bool.or_true]
      · have others : some p ≠ some q := fun same => here (Option.some.inj same).symm
        have same : t.dialog.complete q = s.dialog.complete q := dialog ▸ completeOther marks here
        simp only [Server.counted,before,same,others,decide_false,Bool.or_false]
    have m_nSavedFiles : t.dialog.m_nSavedFiles = s.dialog.m_nSavedFiles := dialog ▸ marks.m_nSavedFiles
    rw [m_nSavedFiles,same,listedSame counted.listed listed still.mark still.waiting length]
    exact counted.saved (ui away)

theorem countedStep {a : ServerStep} (counted : Counted s) (safe : SavedSafely s a) (took : Took s a t) :
    Counted t := by
  have listed := listedStep counted.listed took
  have owned := ownedStep counted.owned counted.first took
  have first := resetStep counted.first took
  have outside (io : a.outside = true) : Counted t := by
    obtain ⟨still,dialog⟩ := outsideStill io took
    have before : s.marking = none := markingNone fun i => (outsideFree io took i).1
    have after : t.marking = none := markingNone fun i => (outsideFree io took i).2
    exact counted.still listed owned first still.mark still.waiting (by rw [dialog]) (after.trans before.symm)
      (by rw [dialog]) (by rw [still.ui]; exact id)
  cases took with
  | accept | failed | started | read | closed | finished => exact outside rfl
  | gone gone => exact countedGo counted safe gone
  | onTimer here | insert here | shown here | unchanged here | restart here =>
    exact counted.still listed owned first rfl rfl rfl (markingSame rfl rfl) rfl fun _ => by rw [here]; decide
  | asked => exact counted.still listed owned first rfl rfl rfl (markingSame rfl rfl) rfl id
  | cleared => exact ⟨listed,owned,first,fun away => absurd rfl away⟩
  | zeroSaved cleared =>
    refine ⟨listed,owned,first,fun _ => ?_⟩
    have empty : s.m_vecFileList = [] := counted.listed.cleared (.inl cleared)
    have nothing : s.vecTemp = [] := counted.listed.swapped (by rw [cleared]; decide)
    have none : s.listed.countP s.counted = 0 := by
      rw [Server.listed,empty,nothing,List.nil_append,List.nil_append,List.countP_eq_zero]
      exact fun p member => Bool.eq_false_iff.mp (safe p member)
    exact (congrArg Int.ofNat none).symm

def Server.Read (s : Server) : Prop :=
  ∀ count ∈ s.counting, 0 ≤ count.1 ∧ count.1 < 2147483648 ∧
    (s.dialog.m_nSavedFiles = count.1 ∨ s.dialog.m_nSavedFiles = 0)

theorem storesNext {saved : Int} {item : Option Nat} (taken : s.step env .go = some t)
    (counting : s.counting = some (saved,item)) : ∃ i call part c, Gone s t i (.count call saved) part c ∧
      Counts saved (s.ctx part.session) c ∧ part.session.pFileItem = item ∧
      ∃ ops ec nFileSize, t.handler = some (.parsing i ops ec nFileSize (.mark call)) := by
  obtain ⟨i,place,part,c,gone⟩ := stepGone taken
  obtain ⟨ops,ec,nFileSize,parsing⟩ := gone.handler
  unfold Server.counting at counting
  simp only [parsing] at counting
  split at counting
  · rename_i storing
    cases storing
    rw [gone.there] at counting
    cases counting
    have effect := gone.effect
    generalize handler : t.handler = h at effect
    cases effect with
    | quiet quiet owns unlocked => cases unlocked.1
    | finished quiet unlocked => cases unlocked
    | counted counts => exact ⟨i,_,part,c,gone,counts,rfl,_,_,_,rfl⟩
  · cases counting

theorem storedRight {saved : Int} {item : Option Nat} (counted : Counted s) (read : s.Read)
    (taken : s.step env .go = some t) (counting : s.counting = some (saved,item)) (away : t.ui ≠ .cleared)
    (same : t.dialog.m_nSavedFiles = t.listed.countP t.counted) :
    (∃ p ∈ s.listed, item = some p) ∧ saved = s.dialog.m_nSavedFiles ∧ s.dialog.m_nSavedFiles < 2147483647 := by
  obtain ⟨low,high,old⟩ := read _ counting
  simp only at low high old
  obtain ⟨i,call,part,c,gone,counts,rfl,handler⟩ := storesNext taken counting
  have before := counted.saved (gone.still.ui ▸ away)
  have stored : t.dialog.m_nSavedFiles = int (saved + 1) := gone.dialog ▸ counts.m_nSavedFiles
  rw [stored] at same
  have room : saved < 2147483647 := by
    by_contra full
    have most : saved = 2147483647 := by omega
    have wrapped : int (2147483647 + 1) = -2147483648 := by decide
    rw [most,wrapped] at same
    omega
  rw [intFits (by omega) (by omega)] at same
  have member : ∃ p ∈ s.listed, part.session.pFileItem = some p := by
    by_contra missing
    obtain ⟨listed,more⟩ := countedStore counted gone counts handler
    have unchanged : s.listed.countP t.counted = s.listed.countP s.counted := by
      refine List.countP_congr fun q inside => ?_
      have other : part.session.pFileItem ≠ some q := fun here => missing ⟨q,inside,here⟩
      rw [more,decide_eq_false other,Bool.or_false]
    rw [listed,unchanged] at same
    omega
  obtain ⟨p,inside,item⟩ := member
  rw [countedItem counted gone counts handler item inside] at same
  exact ⟨⟨p,inside,item⟩,by omega,by omega⟩

theorem savedExactly {a : ServerStep} (counted : Counted s) (read : s.Read) (taken : s.step env a = some t)
    (away : t.ui ≠ .cleared) : t.dialog.m_nSavedFiles = t.listed.countP t.counted ↔ SavedSafely s a := by
  refine ⟨fun same => ?_,fun safe => (countedStep counted safe (stepTook taken)).saved away⟩
  cases a with
  | go => exact fun _ counting => .inr (storedRight counted read taken counting away same)
  | zeroSaved =>
    cases stepTook taken
    intro p member
    have none : List.countP s.counted s.listed = 0 := Int.ofNat_inj.mp same.symm
    exact Bool.eq_false_iff.mpr (List.countP_eq_zero.mp none p
      (List.mem_append_right _ (List.mem_append_right _ member)))
  | _ => exact True.intro

theorem startCounted (m_strSavePath : CString) (disk : Disk) : Counted (Server.start m_strSavePath disk) where
  listed := startListed m_strSavePath disk
  owned := by
    have nobody {i p : Nat} (owner : (Server.start m_strSavePath disk).Owner i p) : False := by
      obtain ⟨part,there,_⟩ := owner
      cases there
    exact ⟨fun i p owner => (nobody owner).elim,fun i j p owner => (nobody owner).elim⟩
  first i part there := by cases there
  saved _ := rfl

/-- The counter and the items it counts: while the dialog's thread is neither between OnTimer's swap and its
insert nor between the reset's clear and m_nSavedFiles = 0, and CloseFile not between m_nSavedFiles++ and
nStatus = true; and otherwise with vecTemp and with the item that is about to be marked. -/
structure SavedCounted (s : Server) : Prop where
  settled : s.ui ≠ .swapped → s.ui ≠ .cleared → s.marking = none → s.dialog.m_nSavedFiles =
    (s.m_vecFileList.countP s.dialog.complete + s.dialog.m_vecFileTemp.countP s.dialog.complete : Nat)
  always : s.ui ≠ .cleared → s.dialog.m_nSavedFiles = (s.m_vecFileList.countP s.counted +
    (s.vecTemp.countP s.counted + s.dialog.m_vecFileTemp.countP s.counted) : Nat)

theorem savedCounted {m_strSavePath : CString} {disk : Disk} {acts : List ServerStep}
    (run : follow (Server.step env) acts (Server.start m_strSavePath disk) = some s)
    (safe : Meets (Server.step env) SavedSafely acts (Server.start m_strSavePath disk)) : SavedCounted s := by
  have counted : Counted s := meetsKeeps (I := Counted)
    (fun taken safe counted => countedStep counted safe (stepTook taken)) run safe (startCounted m_strSavePath disk)
  have all (away : s.ui ≠ .cleared) : s.dialog.m_nSavedFiles = (s.m_vecFileList.countP s.counted +
      (s.vecTemp.countP s.counted + s.dialog.m_vecFileTemp.countP s.counted) : Nat) := by
    rw [counted.saved away,Server.listed,List.countP_append,List.countP_append]
  refine ⟨fun between away unmarked => ?_,all⟩
  have nothing : s.vecTemp = [] := counted.listed.swapped between
  rw [all away,nothing,countedNone unmarked,List.countP_nil,Nat.zero_add]

end Count

-- A file arrives and is complete, and OnTimer puts it into the list.
def fileThenTick : List ServerStep :=
  [.accept false,.start,.read 0 shortFrame.symbols allSucceed false,.go,.go,.go,.go,.go,.go,.go,.go,.finish,
    .onTimer,.insert,.setItemCount]

theorem savedCountedShort :
    ∃ s, follow (Server.step plainEnv) fileThenTick (Server.start [0x44,0x3A] emptyDisk) = some s ∧ SavedCounted s := by
  have possible : (follow (Server.step plainEnv) fileThenTick (Server.start [0x44,0x3A] emptyDisk)).isSome = true := by
    decide +kernel
  obtain ⟨s,run⟩ := Option.isSome_iff_exists.mp possible
  exact ⟨s,run,savedCounted run (by decide +kernel)⟩

-- A file is complete and waits for OnTimer when a new injection is started.
def resetThenLook : List ServerStep :=
  [.accept false,.start,.read 0 shortFrame.symbols allSucceed false,.go,.go,.go,.go,.go,.go,.go,.go,.finish,
    .inject [0x44,0x3A] [0x43,0x3A],.zeroSaved,.restart]

theorem savedForgotten :
    ∃ s, follow (Server.step plainEnv) resetThenLook (Server.start [0x44,0x3A] emptyDisk) = some s ∧
      s.ui = .idle ∧ s.handler.isNone = true ∧ s.dialog.m_nSavedFiles = 0 ∧
      s.m_vecFileList.countP s.dialog.complete + s.dialog.m_vecFileTemp.countP s.dialog.complete = 1 := by
  have found : (follow (Server.step plainEnv) resetThenLook (Server.start [0x44,0x3A] emptyDisk)).any (fun s =>
      decide (s.ui = .idle ∧ s.handler.isNone = true ∧ s.dialog.m_nSavedFiles = 0 ∧
        s.m_vecFileList.countP s.dialog.complete + s.dialog.m_vecFileTemp.countP s.dialog.complete = 1)) = true := by
    decide +kernel
  obtain ⟨s,run,holds⟩ := (Option.any_eq_true _ _).mp found
  exact ⟨s,run,of_decide_eq_true holds⟩

end JokeDse
