import ApiLint.Batch

/-! A pool of workers that lints documents. The documents are handed in one by one, and the pool may
be at work before the last of them is. A worker that is free may start any task that waits, and
finishes it at any later time, while no more tasks are running than there are workers. Once all
documents are handed in, their answers are taken in the order in which they were handed in, each as
soon as it is there. -/
namespace ApiLint.Pool

/-- The number of documents that are linted at once where nothing else is said. -/
def defaultLimit : Int := 8

/-- The number of workers for a number of tasks: no more than tasks, and at least one. -/
def workers (limit : Int) (tasks : Nat) : Nat :=
  (max 1 (min limit tasks)).toNat

theorem workers_pos (limit : Int) (tasks : Nat) : 0 < workers limit tasks := by
  simp only [workers]
  omega

/-- How far a task has come. -/
inductive Progress (α : Type)
  | waiting
  | running
  | done (answer : α)
  deriving DecidableEq, Repr

/-- The tasks of a pool in the order in which they were handed in, and how far each has come. -/
abbrev State (τ α : Type) := List (τ × Progress α)

def isRunning {α : Type} : Progress α → Bool
  | .running => true
  | _ => false

def running {τ α : Type} (s : State τ α) : Nat :=
  s.countP fun entry => isRunning entry.2

/-- What a pool may do next: a free worker starts a task that waits, or a running task is finished
with what `work` makes of it. -/
inductive Step {τ α : Type} (work : τ → α) (count : Nat) : State τ α → State τ α → Prop
  | start (before after : State τ α) (task : τ) :
      running (before ++ (task, .waiting) :: after) < count →
      Step work count (before ++ (task, .waiting) :: after) (before ++ (task, .running) :: after)
  | finish (before after : State τ α) (task : τ) :
      Step work count (before ++ (task, .running) :: after)
        (before ++ (task, .done (work task)) :: after)

/-- How far a batch has come: the documents that are still to be handed in, the tasks in the pool
whose answers are still to be taken, and what came of those whose answers were taken. -/
structure Stage where
  ahead : List Text
  tasks : State Text (Except Failure Diagnosis)
  taken : Batch

namespace Stage

/-- Nothing is handed in yet. -/
def start (files : List Text) : Stage := ⟨files, [], {}⟩

/-- Whether all answers were taken. -/
def IsOver (s : Stage) : Prop := s.ahead = [] ∧ s.tasks = []

end Stage

/-- What may happen next to a batch: a document is handed in, the pool does something, or the first
answer that was not taken yet is taken. -/
inductive Move (lint : Text → Except Failure Diagnosis) (count : Nat) : Stage → Stage → Prop
  | handIn (file : Text) (ahead : List Text) (tasks : State Text (Except Failure Diagnosis))
      (taken : Batch) :
      Move lint count ⟨file :: ahead, tasks, taken⟩ ⟨ahead, tasks ++ [(file, .waiting)], taken⟩
  | work {tasks tasks' : State Text (Except Failure Diagnosis)} (ahead : List Text)
      (taken : Batch) :
      Step lint count tasks tasks' → Move lint count ⟨ahead, tasks, taken⟩ ⟨ahead, tasks', taken⟩
  | take (file : Text) (answer : Except Failure Diagnosis)
      (tasks : State Text (Except Failure Diagnosis)) (taken : Batch) :
      Move lint count ⟨[], (file, .done answer) :: tasks, taken⟩ ⟨[], tasks, taken.add file answer⟩

/-- What a batch may come to after a number of moves. -/
inductive Reaches (lint : Text → Except Failure Diagnosis) (count : Nat) :
    Nat → Stage → Stage → Prop
  | refl (s : Stage) : Reaches lint count 0 s s
  | move {n : Nat} {s t u : Stage} :
      Move lint count s t → Reaches lint count n t u → Reaches lint count (n + 1) s u

/-- What linting documents with a pool of at most `limit` workers may come to. -/
def MayEndIn (lint : Text → Except Failure Diagnosis) (limit : Int) (files : List Text)
    (b : Batch) : Prop :=
  ∃ n s, Reaches lint (workers limit files.length) n (.start files) s ∧ s.IsOver ∧ b = s.taken

end ApiLint.Pool
