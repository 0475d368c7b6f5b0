import JokeDse.Lib.Runs

/-! Runs that must come to an end. Some steps are idle; every other one makes a measure smaller. -/
namespace JokeDse.Runs

variable {σ α : Type} {step : σ → α → Option σ} {idle : σ → α → Bool} {I : σ → Prop} {measure : σ → Nat}

def moves (step : σ → α → Option σ) (idle : σ → α → Bool) : List α → σ → Nat
  | [], _ => 0
  | a :: rest, s => (if idle s a then 0 else 1) + (step s a).elim 0 (moves step idle rest)

def Falls (step : σ → α → Option σ) (idle : σ → α → Bool) (I : σ → Prop) (measure : σ → Nat) : Prop :=
  ∀ s a t, step s a = some t → I s → measure t + (if idle s a then 0 else 1) ≤ measure s

theorem movesBounded (keeps : ∀ {s a t}, step s a = some t → I s → I t) (falls : Falls step idle I measure)
    {acts : List α} {s t : σ} (run : follow step acts s = some t) (start : I s) :
    moves step idle acts s + measure t ≤ measure s := by
  induction acts generalizing s with
  | nil =>
    cases run
    simp [moves]
  | cons a acts ih =>
    obtain ⟨next,taken,rest⟩ := followCons run
    have later := ih rest (keeps taken start)
    have here := falls _ _ _ taken start
    rw [moves,taken,Option.elim_some]
    omega

theorem movesEnd {finished : σ → Prop} (keeps : ∀ {s a t}, step s a = some t → I s → I t)
    (falls : Falls step idle I measure)
    (onward : ∀ {s}, I s → ¬ finished s → ∃ a t, step s a = some t ∧ idle s a = false) {s : σ} (start : I s) :
    ∃ acts t, follow step acts s = some t ∧ finished t ∧ acts.length ≤ measure s := by
  induction size : measure s using Nat.strong_induction_on generalizing s with
  | _ m ih =>
    by_cases ended : finished s
    · exact ⟨[],s,rfl,ended,Nat.zero_le _⟩
    · obtain ⟨a,next,taken,moving⟩ := onward start ended
      have here := falls _ _ _ taken start
      rw [moving,if_neg Bool.false_ne_true] at here
      obtain ⟨acts,t,run,last,short⟩ := ih (measure next) (by omega) (keeps taken start) rfl
      refine ⟨a :: acts,t,by rw [follow,taken,Option.bind_some,run],last,?_⟩
      rw [List.length_cons]
      omega

end JokeDse.Runs
