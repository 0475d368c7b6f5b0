import JokeDse.Server
import JokeDse.Stream

/-! m_nClients: the handler of do_accept counts up before it looks at its error code, that of do_read
counts down after a read with an error, and a new injection sets the counter to zero. -/
namespace JokeDse
open Runs

namespace Server

def live (s : Server) : Nat := s.sessions.countP Part.reading

def arriving (s : Server) : Nat :=
  match s.handler with
  | some (.accepting _) => 1
  | _ => 0

end Server

/-- Where the counter stays right: accepts succeed and the counter has room, and a new injection begins
when no session is open and none is about to be. -/
def ClientsSafely (s : Server) : ServerStep → Prop
  | .accept ec => ec = false ∧ s.m_nClients.toNat + 1 < 4294967296
  | .restart => s.live + s.arriving = 0
  | _ => True

instance (s : Server) : (a : ServerStep) → Decidable (ClientsSafely s a)
  | .accept ec => inferInstanceAs (Decidable (ec = false ∧ s.m_nClients.toNat + 1 < 4294967296))
  | .restart => inferInstanceAs (Decidable (s.live + s.arriving = 0))
  | .start | .read _ _ _ _ | .go | .finish | .onTimer | .insert | .setItemCount | .inject _ _ | .zeroSaved =>
    isTrue True.intro

structure ClientsInv (s : Server) : Prop where
  count : s.m_nClients.toNat = s.live + s.arriving
  accepted : s.handler ≠ some (.accepting true)
  running : ∀ i, (∃ ops ec nFileSize place, s.handler = some (.parsing i ops ec nFileSize place)) ∨
    (∃ ec, s.handler = some (.finishing i ec)) → ∃ part, s.sessions[i]? = some part ∧ part.reading = true

section Step
variable {env : Env} {s t : Server}

theorem liveSet {i : Nat} {part : Part} (part' : Part) (there : s.sessions[i]? = some part) :
    (s.sessions.set i part').countP Part.reading + part.reading.toNat = s.live + part'.reading.toNat := by
  obtain ⟨inside,there⟩ := List.getElem?_eq_some_iff.mp there
  rw [List.countP_set inside,there,Server.live]
  cases here : part.reading with
  | true =>
    have one : 0 < s.sessions.countP Part.reading :=
      List.countP_pos_iff.mpr ⟨part,there ▸ List.getElem_mem inside,here⟩
    cases part'.reading <;> simp only [if_true,Bool.false_eq_true,if_false,Bool.toNat_true,Bool.toNat_false] <;> omega
  | false => cases part'.reading <;> rfl

theorem liveSame {i : Nat} {part part' : Part} (there : s.sessions[i]? = some part)
    (reading : part'.reading = part.reading) : (s.sessions.set i part').countP Part.reading = s.live := by
  have counted := liveSet part' there
  rw [reading] at counted
  exact Nat.add_right_cancel counted

theorem liveDrop {i : Nat} {part : Part} (there : s.sessions[i]? = some part) (reading : part.reading = true) :
    (s.sessions.modify i fun part => {part with reading := false}).countP Part.reading + 1 = s.live := by
  have counted := liveSet {part with reading := false} there
  rw [reading] at counted
  rw [List.modify_eq_set_getElem?,there]
  exact counted

theorem ClientsInv.parsing {i : Nat} {part : Part} (part' : Part) (there : s.sessions[i]? = some part)
    (alive : part.reading = true) (reading : part'.reading = part.reading)
    (sessions : t.sessions = s.sessions.set i part') (m_nClients : t.m_nClients = s.m_nClients)
    (before : s.m_nClients.toNat = s.live) (handler : (∃ ops ec nFileSize place,
      t.handler = some (.parsing i ops ec nFileSize place)) ∨ ∃ ec, t.handler = some (.finishing i ec)) :
    ClientsInv t := by
  have live : t.live = s.live := by rw [Server.live,sessions,liveSame there reading]
  obtain ⟨inside,-⟩ := List.getElem?_eq_some_iff.mp there
  have here : t.sessions[i]? = some part' := by rw [sessions,List.getElem?_set_self inside]
  have nobody : t.arriving = 0 := by
    rcases handler with ⟨_,_,_,_,handler⟩ | ⟨_,handler⟩ <;> rw [Server.arriving,handler]
  refine ⟨by rw [m_nClients,live,nobody,before]; rfl,fun accepting => ?_,fun j other => ⟨part',?_,reading.trans alive⟩⟩
  · rcases handler with ⟨_,_,_,_,handler⟩ | ⟨_,handler⟩ <;> rw [handler] at accepting <;> cases accepting
  · rcases handler with ⟨_,_,_,_,handler⟩ | ⟨_,handler⟩ <;> rw [handler] at other <;>
      rcases other with ⟨_,_,_,_,other⟩ | ⟨_,other⟩ <;> cases other <;> exact here

theorem ClientsInv.resting (rest : t.handler = none ∨ t.handler = some (.accepting false))
    (count : t.m_nClients.toNat = t.live + t.arriving) : ClientsInv t := by
  refine ⟨count,fun accepting => ?_,fun i handler => ?_⟩
  · rcases rest with rest | rest <;> rw [rest] at accepting <;> cases accepting
  · rcases rest with rest | rest <;> rw [rest] at handler <;>
      rcases handler with ⟨_,_,_,_,handler⟩ | ⟨_,handler⟩ <;> cases handler

theorem clientsStep {a : ServerStep} (inv : ClientsInv s) (safe : ClientsSafely s a) (took : Took s a t) :
    ClientsInv t := by
  have count := inv.count
  cases took with
  | accept free =>
    obtain ⟨rfl,room⟩ := safe
    have nobody : s.arriving = 0 := by rw [Server.arriving,free]
    have one : (1 : Uint).toNat = 1 := rfl
    have more : (s.m_nClients + 1).toNat = s.live + 1 := by
      rw [BitVec.toNat_add,one,Nat.mod_eq_of_lt room,count,nobody]
    exact .resting (.inr rfl) more
  | failed accepting => exact absurd accepting inv.accepted
  | started accepting =>
    rw [Server.arriving,accepting] at count
    have more : (s.sessions ++ [Part.mk Session.new Buffer.new true]).countP Part.reading = s.live + 1 := by
      rw [List.countP_append]
      rfl
    exact .resting (.inl rfl) (count.trans more.symm)
  | @read i data ops ec part pBuffer free there reading =>
    rw [Server.arriving,free] at count
    exact ClientsInv.parsing {part with pBuffer} there reading rfl rfl rfl count (.inl ⟨_,_,_,_,rfl⟩)
  | @gone _ i place part c gone =>
    obtain ⟨ops,ec,nFileSize,handler⟩ := gone.handler
    obtain ⟨pBuffer,sessions⟩ := gone.sessions
    obtain ⟨part',there,reading⟩ := inv.running i (.inl ⟨ops,ec,nFileSize,place,handler⟩)
    cases gone.there.symm.trans there
    rw [Server.arriving,handler] at count
    refine ClientsInv.parsing ⟨c.session,pBuffer,part.reading⟩ there reading rfl sessions gone.m_nClients count ?_
    have effect := gone.effect
    generalize t.handler = handler at effect
    cases effect with
    | finished quiet => exact .inr ⟨_,rfl⟩
    | _ => exact .inl ⟨_,_,_,_,rfl⟩
  | @closed i finishing =>
    obtain ⟨part,there,reading⟩ := inv.running i (.inr ⟨true,finishing⟩)
    rw [Server.arriving,finishing] at count
    have fewer := liveDrop there reading
    have lower : (s.m_nClients - 1).toNat = s.live - 1 := by
      rw [BitVec.toNat_sub_of_le (BitVec.le_def.mpr (by simp; omega)),count]
      rfl
    refine .resting (.inl rfl) (lower.trans ?_)
    rw [← fewer]
    rfl
  | finished finishing =>
    rw [Server.arriving,finishing] at count
    exact .resting (.inl rfl) count
  | onTimer | insert | shown | unchanged | asked | cleared | zeroSaved => exact ⟨count,inv.accepted,inv.running⟩
  | restart => exact ⟨safe.symm,inv.accepted,inv.running⟩

theorem startClients (m_strSavePath : CString) (disk : Disk) : ClientsInv (Server.start m_strSavePath disk) where
  count := rfl
  accepted accepting := by cases accepting
  running _ other := by rcases other with ⟨_,_,_,_,other⟩ | ⟨_,other⟩ <;> cases other

structure ClientsCounted (s : Server) : Prop where
  idle : s.handler = none → s.m_nClients.toNat = s.live
  always : s.m_nClients.toNat = s.live + s.arriving
  decrement : ∀ i, s.handler = some (.finishing i true) → s.m_nClients ≠ 0

theorem clientsCounted {m_strSavePath : CString} {disk : Disk} {acts : List ServerStep}
    (run : follow (Server.step env) acts (Server.start m_strSavePath disk) = some s)
    (safe : Meets (Server.step env) ClientsSafely acts (Server.start m_strSavePath disk)) : ClientsCounted s := by
  have inv : ClientsInv s := meetsKeeps (I := ClientsInv)
    (fun taken safe inv => clientsStep inv safe (stepTook taken)) run safe (startClients m_strSavePath disk)
  have count := inv.count
  refine ⟨fun free => ?_,count,fun i handler => ?_⟩
  · rwa [Server.arriving,free] at count
  · obtain ⟨part,there,reading⟩ := inv.running i (.inr ⟨true,handler⟩)
    have fewer := liveDrop there reading
    rintro zero
    rw [zero] at count
    have none : (0 : Uint).toNat = 0 := rfl
    omega

end Step

-- Two clients come and one of them leaves.
def comeAndGo : List ServerStep :=
  [.accept false,.start,.accept false,.start,.read 0 [] allSucceed true,.go,.go,.go,.finish]

theorem clientsCountedShort :
    ∃ s, follow (Server.step plainEnv) comeAndGo (Server.start [0x44,0x3A] emptyDisk) = some s ∧ ClientsCounted s := by
  have possible : (follow (Server.step plainEnv) comeAndGo (Server.start [0x44,0x3A] emptyDisk)).isSome = true := by
    decide +kernel
  obtain ⟨s,run⟩ := Option.isSome_iff_exists.mp possible
  exact ⟨s,run,clientsCounted run (by decide +kernel)⟩

-- A new injection while a client is connected, and the client leaves after it.
def resetThenLeave : List ServerStep :=
  [.accept false,.start,.inject [0x44,0x3A] [0x43,0x3A],.zeroSaved,.restart,
    .read 0 [] allSucceed true,.go,.go,.go,.finish]

theorem clientsMiscounted :
    (∃ s, follow (Server.step plainEnv) [.accept true,.start] (Server.start [0x44,0x3A] emptyDisk) = some s ∧
      s.handler = none ∧ s.m_nClients.toNat = 1 ∧ s.live = 0) ∧
    ∃ s, follow (Server.step plainEnv) resetThenLeave (Server.start [0x44,0x3A] emptyDisk) = some s ∧
      s.handler = none ∧ s.m_nClients.toNat = 4294967295 ∧ s.live = 0 := by
  refine ⟨⟨_,rfl,rfl,rfl,rfl⟩,?_⟩
  have found : (follow (Server.step plainEnv) resetThenLeave (Server.start [0x44,0x3A] emptyDisk)).any (fun s =>
      decide (s.handler.isNone = true ∧ s.m_nClients.toNat = 4294967295 ∧ s.live = 0)) = true := by
    decide +kernel
  obtain ⟨s,run,holds⟩ := (Option.any_eq_true _ _).mp found
  have holds := of_decide_eq_true holds
  exact ⟨s,run,Option.isNone_iff_eq_none.mp holds.1,holds.2⟩

end JokeDse
