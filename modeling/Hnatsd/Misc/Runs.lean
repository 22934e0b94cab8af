import Mathlib
/-!
# Runs of a transition function

A system whose threads act one at a time: `step s a` is the state after action `a`, or nothing when
the action is not possible in `s`. A run is a list of actions. Conditions on a run are conditions
on the state before each action.
-/

namespace Hnatsd.Misc

variable {σ α : Type} {step : σ → α → Option σ} {Guard : σ → α → Prop} {Inv : σ → Prop}

/-- The state after a list of actions, if all of them are possible. -/
def runFrom (step : σ → α → Option σ) : σ → List α → Option σ
  | s, [] => some s
  | s, a :: rest => (step s a).bind fun s => runFrom step s rest

theorem runFrom_append (s : σ) (as bs : List α) :
    runFrom step s (as ++ bs) = (runFrom step s as).bind fun s => runFrom step s bs := by
  induction as generalizing s with
  | nil => rfl
  | cons a rest ih =>
    simp only [List.cons_append, runFrom, Option.bind_assoc]
    exact Option.bind_congr fun s _ => ih s

/-- Every action of the run meets a condition in the state before it. -/
def Along (step : σ → α → Option σ) (Guard : σ → α → Prop) : σ → List α → Prop
  | _, [] => True
  | s, a :: rest => Guard s a ∧ ∀ s', step s a = some s' → Along step Guard s' rest

instance decidableAlong [∀ s a, Decidable (Guard s a)] (s : σ) :
    (as : List α) → Decidable (Along step Guard s as)
  | [] => isTrue trivial
  | a :: rest =>
      match stepped : step s a with
      | none => decidable_of_iff (Guard s a)
          ⟨fun guard => ⟨guard, fun s' eq => by rw [stepped] at eq; cases eq⟩, fun h => h.1⟩
      | some s' =>
          have := decidableAlong s' rest
          decidable_of_iff (Guard s a ∧ Along step Guard s' rest)
            ⟨fun ⟨guard, along⟩ => ⟨guard, fun s'' eq => by
                rw [stepped] at eq
                cases eq
                exact along⟩,
              fun h => ⟨h.1, h.2 s' stepped⟩⟩

/-- A condition on the actions alone. -/
theorem along_of_forall {s : σ} {as : List α} (all : ∀ a ∈ as, ∀ s, Guard s a) :
    Along step Guard s as := by
  induction as generalizing s with
  | nil => trivial
  | cons a rest ih =>
    exact ⟨all a List.mem_cons_self s,
      fun _ _ => ih fun b mem => all b (List.mem_cons_of_mem _ mem)⟩

theorem Along.and {Guard' : σ → α → Prop} {s : σ} {as : List α} (first : Along step Guard s as)
    (second : Along step Guard' s as) : Along step (fun s a => Guard s a ∧ Guard' s a) s as := by
  induction as generalizing s with
  | nil => trivial
  | cons a rest ih =>
    exact ⟨⟨first.1, second.1⟩,
      fun s' stepped => ih (first.2 s' stepped) (second.2 s' stepped)⟩

/-- An invariant that guarded actions keep holds at the end of every guarded run. -/
theorem invariant_of_along
    (keeps : ∀ s a s', Inv s → Guard s a → step s a = some s' → Inv s') {s s' : σ} {as : List α}
    (start : Inv s) (along : Along step Guard s as) (ran : runFrom step s as = some s') : Inv s' := by
  induction as generalizing s with
  | nil =>
    cases ran
    exact start
  | cons a rest ih =>
    obtain ⟨mid, stepped, ran⟩ := Option.bind_eq_some_iff.mp ran
    exact ih (keeps s a mid start along.1 stepped) (along.2 mid stepped) ran

/-- An invariant that all actions keep holds at the end of every run. -/
theorem invariant_of_run (keeps : ∀ s a s', Inv s → step s a = some s' → Inv s') {s s' : σ}
    {as : List α} (start : Inv s) (ran : runFrom step s as = some s') : Inv s' := by
  induction as generalizing s with
  | nil =>
    cases ran
    exact start
  | cons a rest ih =>
    obtain ⟨mid, stepped, ran⟩ := Option.bind_eq_some_iff.mp ran
    exact ih (keeps s a mid start stepped) ran

/-- A run that can be evaluated. -/
theorem exists_run {P : σ → Prop} [DecidablePred P] {s : σ} {as : List α}
    (holds : (runFrom step s as).any (fun s' => decide (P s')) = true) :
    ∃ s', runFrom step s as = some s' ∧ P s' := by
  obtain ⟨s', ran, found⟩ := (Option.any_eq_true ..).mp holds
  exact ⟨s', ran, of_decide_eq_true found⟩

/-- What follows from the final state of a run that can be evaluated. -/
theorem exists_run_imp {P Q : σ → Prop} [DecidablePred P] {s : σ} {as : List α}
    (implies : ∀ s', runFrom step s as = some s' → P s' → Q s')
    (holds : (runFrom step s as).any (fun s' => decide (P s')) = true) :
    ∃ s', runFrom step s as = some s' ∧ Q s' := by
  obtain ⟨s', ran, found⟩ := exists_run holds
  exact ⟨s', ran, implies s' ran found⟩

end Hnatsd.Misc
