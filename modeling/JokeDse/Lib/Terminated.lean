import JokeDse.Lib.Slots

/-! Texts in a block of cells that end before the first terminator, whatever stands behind it. Where a block has no
terminator they go on behind it, which is undefined (`none`). -/
namespace JokeDse.Terminated
open Slots (put)

variable {α : Type} [DecidableEq α] (nul : α)

def length (cells : List α) : Option Nat := cells.findIdx? (· == nul)

def text (cells : List α) : Option (List α) := (length nul cells).map cells.take

def append (cells source : List α) : Option (List α) := do
  let i ← length nul cells
  let s ← text nul source
  put i (s ++ [nul]) cells

variable {nul} {s t cells rest : List α}

theorem lengthBehind (clean : nul ∉ s) : length nul (s ++ cells) = (length nul cells).map (s.length + ·) := by
  have none : s.findIdx? (· == nul) = none := by
    rw [List.findIdx?_eq_none_iff]
    intro x member
    exact beq_eq_false_iff_ne.mpr fun same => clean (same ▸ member)
  rw [length,List.findIdx?_append,none,Option.none_or]
  simp only [length,Nat.add_comm]

theorem lengthHere (clean : nul ∉ s) : length nul (s ++ nul :: rest) = some s.length := by
  have first : length nul (nul :: rest) = some 0 := by
    simp [length,List.findIdx?_cons]
  rw [lengthBehind clean,first]
  rfl

theorem textBehind (clean : nul ∉ s) : text nul (s ++ cells) = (text nul cells).map (s ++ ·) := by
  rw [text,text,lengthBehind clean,Option.map_map,Option.map_map]
  refine congrArg (Option.map · _) (funext fun n => ?_)
  exact List.take_length_add_append n

theorem textHere (clean : nul ∉ s) : text nul (s ++ nul :: rest) = some s := by
  rw [text,lengthHere clean]
  exact congrArg some List.take_left

theorem textSome : text nul cells = some s ↔ nul ∉ s ∧ ∃ rest, cells = s ++ nul :: rest := by
  refine ⟨fun found => ?_,fun parts => ?_⟩
  · induction cells generalizing s with
    | nil => cases found
    | cons x cells ih =>
      by_cases ends : x = nul
      · have here : text nul ([] ++ nul :: cells) = some [] := textHere List.not_mem_nil
        rw [ends] at found
        cases here.symm.trans found
        exact ⟨List.not_mem_nil,cells,by rw [ends,List.nil_append]⟩
      · have clean : nul ∉ [x] := fun member => ends (List.mem_singleton.mp member).symm
        have later : text nul (x :: cells) = (text nul cells).map ([x] ++ ·) := textBehind clean
        obtain ⟨t,found',rfl⟩ := Option.map_eq_some_iff.mp (later.symm.trans found)
        obtain ⟨clean',rest,rfl⟩ := ih found'
        exact ⟨fun member => (List.mem_append.mp member).elim clean clean',rest,rfl⟩
  · obtain ⟨clean,rest,rfl⟩ := parts
    exact textHere clean

theorem textShorter (found : text nul cells = some s) : s.length < cells.length := by
  obtain ⟨-,rest,rfl⟩ := textSome.mp found
  rw [List.length_append,List.length_cons]
  omega

theorem textEmpty : text nul cells = some [] ↔ cells[0]? = some nul := by
  rw [textSome,and_iff_right List.not_mem_nil]
  cases cells with
  | nil => simp
  | cons x rest => simp

theorem appendHere (clean : nul ∉ s) (clean' : nul ∉ t) (more : List α) :
    append nul (s ++ nul :: rest) (t ++ nul :: more) =
      if t.length ≤ rest.length then some (s ++ (t ++ nul :: rest.drop t.length)) else none := by
  rw [append,lengthHere clean,textHere clean',Option.bind_eq_bind,Option.bind_some,Option.bind_eq_bind,Option.bind_some]
  split
  · rename_i room
    have old : nul :: rest = nul :: rest.take t.length ++ rest.drop t.length := by
      rw [List.cons_append,List.take_append_drop]
    have stores := @Slots.putHere _ s (nul :: rest.take t.length) (t ++ [nul]) (rest.drop t.length) s.length rfl
      (by simp [List.length_take_of_le room])
    rw [old,stores,List.append_assoc,List.singleton_append]
  · rename_i full
    rw [put,if_neg]
    simp only [List.length_append,List.length_cons,List.length_nil]
    omega

theorem appendStops (without : text nul cells = none) (source : List α) : append nul cells source = none := by
  have unended : length nul cells = none := Option.map_eq_none_iff.mp without
  rw [append,unended]
  rfl

end JokeDse.Terminated
