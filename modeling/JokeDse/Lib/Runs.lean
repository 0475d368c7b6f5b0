import Mathlib.Algebra.Order.Ring.Int
import Mathlib.Data.List.Basic

/-! Runs of a system whose parties take turns: a step says what an action makes of a state, or that the
action is not possible there, and an interleaving is a list of actions. -/
namespace JokeDse.Runs

variable {σ α : Type} {step : σ → α → Option σ}

def follow (step : σ → α → Option σ) : List α → σ → Option σ
  | [], s => some s
  | a :: rest, s => (step s a).bind (follow step rest)

theorem followAppend (acts more : List α) (s : σ) :
    follow step (acts ++ more) s = (follow step acts s).bind (follow step more) := by
  induction acts generalizing s with
  | nil => rfl
  | cons a acts ih =>
    cases taken : step s a with
    | none => simp [follow,taken]
    | some next => simp [follow,taken,ih]

theorem followCons {a : α} {rest : List α} {s t : σ} (run : follow step (a :: rest) s = some t) :
    ∃ next, step s a = some next ∧ follow step rest next = some t := Option.bind_eq_some_iff.mp run

theorem followRelates {R : σ → σ → Prop} (refl : ∀ s, R s s) (trans : ∀ {s t u}, R s t → R t u → R s u)
    (each : ∀ {s a t}, step s a = some t → R s t) {acts : List α} {s t : σ} (run : follow step acts s = some t) :
    R s t := by
  induction acts generalizing s with
  | nil =>
    cases run
    exact refl _
  | cons a acts ih =>
    obtain ⟨next,taken,rest⟩ := followCons run
    exact trans (each taken) (ih rest)

theorem followKeeps {I : σ → Prop} (keeps : ∀ {s a t}, step s a = some t → I s → I t) {acts : List α} {s t : σ}
    (run : follow step acts s = some t) (start : I s) : I t :=
  followRelates (R := fun s t => I s → I t) (fun _ => id) (fun first rest holds => rest (first holds)) keeps run start

def Meets (step : σ → α → Option σ) (condition : σ → α → Prop) : List α → σ → Prop
  | [], _ => True
  | a :: rest, s => condition s a ∧ ∀ t, step s a = some t → Meets step condition rest t

instance decidableMeets {condition : σ → α → Prop} [∀ s a, Decidable (condition s a)] :
    (acts : List α) → (s : σ) → Decidable (Meets step condition acts s)
  | [], _ => isTrue True.intro
  | a :: rest, s =>
    have : ∀ t, Decidable (Meets step condition rest t) := decidableMeets rest
    match taken : step s a with
    | none => decidable_of_iff (condition s a)
        ⟨fun here => ⟨here,fun _ same => by rw [taken] at same; cases same⟩,And.left⟩
    | some next => decidable_of_iff (condition s a ∧ Meets step condition rest next)
        ⟨fun both => ⟨both.1,fun t same => Option.some.inj (taken.symm.trans same) ▸ both.2⟩,
          fun both => ⟨both.1,both.2 next taken⟩⟩

theorem meetsAppend {condition : σ → α → Prop} {acts more : List α} {s t : σ}
    (meets : Meets step condition (acts ++ more) s) (run : follow step acts s = some t) :
    Meets step condition acts s ∧ Meets step condition more t := by
  induction acts generalizing s with
  | nil =>
    cases run
    exact ⟨True.intro,meets⟩
  | cons a acts ih =>
    obtain ⟨next,taken,rest⟩ := followCons run
    refine ⟨⟨meets.1,fun t same => ?_⟩,(ih (meets.2 next taken) rest).2⟩
    cases taken.symm.trans same
    exact (ih (meets.2 next taken) rest).1

theorem meetsKeeps {condition : σ → α → Prop} {I : σ → Prop}
    (keeps : ∀ {s a t}, step s a = some t → condition s a → I s → I t) {acts : List α} {s t : σ}
    (run : follow step acts s = some t) (meets : Meets step condition acts s) (start : I s) : I t := by
  induction acts generalizing s with
  | nil =>
    cases run
    exact start
  | cons a acts ih =>
    obtain ⟨next,taken,rest⟩ := followCons run
    exact ih rest (meets.2 next taken) (keeps taken meets.1 start)

end JokeDse.Runs
