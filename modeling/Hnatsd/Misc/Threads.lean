import Hnatsd.Misc.Runs

/-!
# Threads that share a state

Threads take turns, one lock region at a time. An idle thread starts on an operation; what is left of
it after a region is the thread's list of tasks. For an invariant it does not matter which thread has
a task: `Threaded.bag` forgets it, and the steps act on the shared state and the bag of pending
tasks.
-/

namespace Hnatsd.Misc

/-- The first region of an operation that a thread starts on, and the region of a task, each with the
tasks it leaves to do. `χ` chooses where a region leaves something open. -/
structure ThreadProgram (σ τ α χ : Type) where
  start : σ → Nat → α → Option (σ × List τ)
  run : σ → χ → τ → Option (σ × List τ)

/-- The shared state and what each thread still has to do. -/
structure Threaded (σ τ : Type) where
  shared : σ
  threads : List (List τ) := []

inductive ThreadAction (α χ : Type) where
  | spawn
  | start (t : Nat) (op : α)
  | run (t : Nat) (choice : χ)

/-- What a step is about: an operation that starts or a task that runs. -/
inductive Doing (α τ : Type) where
  | start (op : α)
  | run (task : τ)

/-- The tasks that a step takes out of the bag. -/
def Doing.taken {α τ : Type} : Doing α τ → List τ
  | .start _ => []
  | .run task => [task]

/-- A region by its shared state before and after it and the tasks it leaves to do. -/
inductive ThreadProgram.Region {σ τ α χ : Type} (P : ThreadProgram σ τ α χ) (r : σ) :
    Doing α τ → σ → List τ → Prop where
  | start {t : Nat} {op : α} {r' : σ} {tasks : List τ} (started : P.start r t op = some (r', tasks)) :
      Region P r (.start op) r' tasks
  | run {choice : χ} {task : τ} {r' : σ} {tasks : List τ}
      (ran : P.run r choice task = some (r', tasks)) : Region P r (.run task) r' tasks

/-- Tasks counted in a bag. -/
theorem countP_coe_add {τ : Type} (p : τ → Bool) (tasks : List τ) (others : Multiset τ) :
    (tasks + others : Multiset τ).countP (fun task => p task) =
      tasks.countP p + others.countP (fun task => p task) := by
  rw [Multiset.countP_add, Multiset.coe_countP]
  simp only [Bool.decide_eq_true]

namespace Threaded

variable {σ τ α χ : Type}

/-- What a step of the action would be about. -/
def doing (s : Threaded σ τ) : ThreadAction α χ → Option (Doing α τ)
  | .spawn => none
  | .start _ op => some (.start op)
  | .run t _ => ((s.threads[t]?).bind List.head?).map .run

/-- One step. -/
def step (P : ThreadProgram σ τ α χ) (s : Threaded σ τ) :
    ThreadAction α χ → Option (Threaded σ τ)
  | .spawn => some { s with threads := s.threads ++ [[]] }
  | .start t op =>
      match s.threads[t]? with
      | some [] =>
          (P.start s.shared t op).map fun (shared, tasks) => ⟨shared, s.threads.set t tasks⟩
      | _ => none
  | .run t choice =>
      match s.threads[t]? with
      | some (task :: rest) =>
          (P.run s.shared choice task).map fun (shared, tasks) =>
            ⟨shared, s.threads.set t (tasks ++ rest)⟩
      | _ => none

/-- Some thread has the task to do. -/
def Pends (s : Threaded σ τ) (task : τ) : Prop := task ∈ s.threads.flatten

/-- No thread has anything to do. -/
def Quiescent (s : Threaded σ τ) : Prop := s.threads.flatten = []

/-- The pending tasks. -/
def bag (s : Threaded σ τ) : Multiset τ := s.threads.flatten

instance [DecidableEq τ] (s : Threaded σ τ) (task : τ) : Decidable (s.Pends task) :=
  inferInstanceAs (Decidable (task ∈ s.threads.flatten))

instance [DecidableEq τ] (s : Threaded σ τ) : Decidable s.Quiescent :=
  inferInstanceAs (Decidable (s.threads.flatten = []))

theorem mem_bag {s : Threaded σ τ} {task : τ} : task ∈ s.bag ↔ s.Pends task := Multiset.mem_coe

theorem Quiescent.bag_eq {s : Threaded σ τ} (quiescent : s.Quiescent) : s.bag = 0 := by
  rw [bag, quiescent]
  rfl

section Steps

variable {P : ThreadProgram σ τ α χ} {s s' : Threaded σ τ} {a : ThreadAction α χ}

/-- One thread's tasks change, the others stay. -/
theorem flatten_set {threads : List (List τ)} {t : Nat} {old : List τ}
    (thread : threads[t]? = some old) (new : List τ) :
    ∃ others : Multiset τ, (threads.flatten : Multiset τ) = old + others ∧
      ((threads.set t new).flatten : Multiset τ) = new + others := by
  obtain ⟨bound, rfl⟩ := List.getElem?_eq_some_iff.mp thread
  obtain ⟨before, behind, eq, -, set⟩ := @List.exists_of_set _ t new threads bound
  have split (tasks : List τ) : ((before ++ tasks :: behind).flatten : Multiset τ) =
      tasks + (before.flatten + behind.flatten : Multiset τ) := by
    simp only [List.flatten_append, List.flatten_cons, ← Multiset.coe_add]
    exact add_left_comm _ _ _
  refine ⟨before.flatten + behind.flatten, ?_, ?_⟩
  · rw [← split, ← eq]
  · rw [← split, ← set]

/-- A step as it acts on the shared state and the bag. -/
inductive Moved (P : ThreadProgram σ τ α χ) (s : Threaded σ τ) (a : ThreadAction α χ)
    (s' : Threaded σ τ) : Prop where
  | spawn (shared : s'.shared = s.shared) (bag : s'.bag = s.bag)
  | region (d : Doing α τ) (doing : s.doing a = some d) (tasks : List τ) (others : Multiset τ)
      (region : P.Region s.shared d s'.shared tasks) (before : s.bag = d.taken + others)
      (bag : s'.bag = tasks + others)

theorem step_moved (stepped : s.step P a = some s') : s.Moved P a s' := by
  cases a with
  | spawn =>
    cases stepped
    refine .spawn rfl ?_
    simp [bag]
  | start t op =>
    simp only [step] at stepped
    split at stepped
    · rename_i idle
      obtain ⟨⟨shared, tasks⟩, started, rfl⟩ := Option.map_eq_some_iff.mp stepped
      obtain ⟨others, before, behind⟩ := flatten_set idle tasks
      exact .region (.start op) rfl tasks others (.start started) before behind
    · cases stepped
  | run t choice =>
    simp only [step] at stepped
    split at stepped
    · rename_i task rest running
      obtain ⟨⟨shared, tasks⟩, ran, rfl⟩ := Option.map_eq_some_iff.mp stepped
      obtain ⟨others, before, behind⟩ := flatten_set running (tasks ++ rest)
      have head : s.doing (.run t choice : ThreadAction α χ) = some (.run task) := by
        simp only [doing, running]
        rfl
      refine .region (.run task) head tasks (rest + others) (.run ran) ?_ ?_
      · exact before.trans (Multiset.cons_add task rest others)
      · rw [bag, behind, ← Multiset.coe_add, add_assoc]
    · cases stepped

end Steps

section Invariants

variable {P : ThreadProgram σ τ α χ} {Inv : σ → Multiset τ → Prop}
  {Guard : σ → Multiset τ → Doing α τ → Prop} {s s' : Threaded σ τ}
  {as : List (ThreadAction α χ)}

/-- A condition on what a step is about, in the state before it. -/
def Guarded (Guard : σ → Multiset τ → Doing α τ → Prop) (s : Threaded σ τ)
    (a : ThreadAction α χ) : Prop :=
  ∀ d ∈ s.doing a, Guard s.shared s.bag d

instance [∀ r bag d, Decidable (Guard r bag d)] (a : ThreadAction α χ) :
    Decidable (Guarded Guard s a) :=
  inferInstanceAs (Decidable (∀ d ∈ s.doing a, Guard s.shared s.bag d))

/-- An invariant of the shared state and the bag that every guarded region keeps holds at the end of
every guarded run. -/
theorem invariant_of_regions
    (keeps : ∀ r others d r' tasks, Guard r (d.taken + others) d → P.Region r d r' tasks →
      Inv r (d.taken + others) → Inv r' (tasks + others))
    (init : Inv s.shared s.bag) (along : Along (step P) (Guarded Guard) s as)
    (ran : runFrom (step P) s as = some s') : Inv s'.shared s'.bag := by
  refine @invariant_of_along _ _ _ _ (fun s => Inv s.shared s.bag) ?_ _ _ _ init along ran
  intro s a s' inv guard stepped
  cases step_moved stepped with
  | spawn shared bag =>
    rw [shared, bag]
    exact inv
  | region d doing tasks others region before bag =>
    have guard := guard d doing
    rw [before] at inv guard
    rw [bag]
    exact keeps _ _ _ _ _ guard region inv

/-- An invariant that every region keeps. -/
theorem invariant_of_all_regions
    (keeps : ∀ r others d r' tasks, P.Region r d r' tasks → Inv r (d.taken + others) →
      Inv r' (tasks + others))
    (init : Inv s.shared s.bag) (ran : runFrom (step P) s as = some s') :
    Inv s'.shared s'.bag := by
  refine @invariant_of_regions _ _ _ _ P Inv (fun _ _ _ => True) s s' as
    (fun r others d r' tasks _ => keeps r others d r' tasks) init ?_ ran
  exact along_of_forall fun _ _ _ _ _ => trivial

end Invariants

end Threaded

end Hnatsd.Misc
