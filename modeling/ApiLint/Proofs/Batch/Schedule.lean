import ApiLint.Batch.Pool

/-! A pool decides nothing. Documents may be handed in, started and finished in any order that the
pool allows, and their answers may be taken while others are still being worked out; `pool_settles`
says that what comes of the batch is what comes of linting the documents one after another, that
every schedule ends, and that no schedule gets stuck.

The invariant is `Sound`: the documents are those whose answers were taken, those in the pool and
those still ahead, in this order; what was taken is what linting the first of these one after
another gives; and an answer that waits in the pool is that of its own document. -/
namespace ApiLint

/-! ### What comes of a batch, document by document -/

namespace Batch

/-- The results of both and the failures of both, each in order. -/
def followedBy (b c : Batch) : Batch :=
  ⟨b.results ++ c.results, b.failures ++ c.failures⟩

/-- What came of one document. -/
def single (file : Text) (answer : Except Failure Diagnosis) : Batch :=
  Batch.add {} file answer

variable (lint : Text → Except Failure Diagnosis)

def succeeds (file : Text) : Bool :=
  (lint file).toOption.isSome

theorem run_eq (files : List Text) :
    run lint files =
      ⟨files.filterMap fun file => result? (file, lint file),
        files.filterMap fun file => failure? (file, lint file)⟩ := by
  simp only [run, collect_eq, List.filterMap_map, Function.comp_def]

theorem run_append (before after : List Text) :
    run lint (before ++ after) = (run lint before).followedBy (run lint after) := by
  simp only [run_eq, List.filterMap_append, followedBy]

theorem run_singleton (file : Text) : run lint [file] = single file (lint file) := by
  simp only [run, collect, List.map_cons, List.map_nil, List.foldl_cons, List.foldl_nil, single]

/-- A document more adds its own answer to what came of the documents before it. -/
theorem run_concat (files : List Text) (file : Text) :
    run lint (files ++ [file]) = (run lint files).add file (lint file) := by
  simp only [run, collect, List.map_append, List.foldl_append, List.map_cons, List.map_nil,
    List.foldl_cons, List.foldl_nil]

theorem names_results (files : List Text) :
    (run lint files).results.map (·.1) = files.filter (succeeds lint) := by
  rw [run_eq]
  induction files with
  | nil => rfl
  | cons file rest ih =>
    cases h : lint file <;> simp_all [result?, succeeds, Except.toOption]

theorem names_failures (files : List Text) :
    (run lint files).failures.map (·.1) = files.filter fun file => !succeeds lint file := by
  rw [run_eq]
  induction files with
  | nil => rfl
  | cons file rest ih =>
    cases h : lint file <;> simp_all [failure?, succeeds, Except.toOption]

/-- What a batch over some documents owes, whoever works on it. -/
structure Accounts (files : List Text) (b : Batch) : Prop where
  results : b.results = files.filterMap fun file =>
    match lint file with
    | .ok r => some (file, r)
    | .error _ => none
  failures : b.failures = files.filterMap fun file =>
    match lint file with
    | .ok _ => none
    | .error e => some (file, e)
  /-- Every occurrence of a document is in exactly one of the two lists. -/
  once : (b.results.map (·.1) ++ b.failures.map (·.1)).Perm files
  /-- What is there for a document is what its own answer says, whatever stands around it. -/
  apart : ∀ before file after, files = before ++ file :: after →
    b = (run lint before).followedBy ((single file (lint file)).followedBy (run lint after))

/-- Linting one after the other accounts for every file, by induction on the files. -/
theorem accounts_run (files : List Text) : Accounts lint files (run lint files) where
  results := by
    rw [run_eq]
    show files.filterMap _ = files.filterMap _
    congr 1
    funext file
    cases lint file <;> simp [result?, Except.toOption]
  failures := by
    rw [run_eq]
    rfl
  once := by
    rw [names_results, names_failures]
    exact List.filter_append_perm _ files
  apart := by
    intro before file after h
    obtain rfl := h
    rw [← List.singleton_append, run_append, run_append, run_singleton]

end Batch

namespace Pool

/-! ### One move -/

/-- The moves that a task in the pool still takes until its answer is taken. -/
def Progress.left {α : Type} : Progress α → Nat
  | .waiting => 3
  | .running => 2
  | .done _ => 1

/-- The moves that the tasks in a pool still take. -/
def leftIn {τ α : Type} : State τ α → Nat
  | [] => 0
  | task :: tasks => task.2.left + leftIn tasks

/-- The moves that a batch still takes. -/
def Stage.left (s : Stage) : Nat :=
  4 * s.ahead.length + leftIn s.tasks

section Tasks
variable {τ α : Type} {work : τ → α} {count : Nat} {s t : State τ α}

theorem leftIn_append (s t : State τ α) : leftIn (s ++ t) = leftIn s + leftIn t := by
  induction s with
  | nil => rw [List.nil_append, leftIn, Nat.zero_add]
  | cons task s ih => rw [List.cons_append, leftIn, leftIn, ih, Nat.add_assoc]

/-- The pool forgets no task and does not move it. -/
theorem Step.names (h : Step work count s t) : t.map (·.1) = s.map (·.1) := by
  cases h <;> simp only [List.map_append, List.map_cons]

/-- An answer that is new is what `work` makes of its task. -/
theorem Step.answers (h : Step work count s t) {task : τ} {answer : α}
    (hm : (task, .done answer) ∈ t) : (task, .done answer) ∈ s ∨ answer = work task := by
  cases h <;> simp only [List.mem_append, List.mem_cons, Prod.mk.injEq, reduceCtorEq, and_false,
    false_or, Progress.done.injEq] at hm ⊢
  · exact .inl hm
  · obtain hm | ⟨rfl, rfl⟩ | hm := hm
    · exact .inl (.inl hm)
    · exact .inr rfl
    · exact .inl (.inr hm)

theorem running_around (before after : State τ α) (task : τ) (progress : Progress α) :
    running (before ++ (task, progress) :: after) =
      running before + running after + if isRunning progress then 1 else 0 := by
  simp only [running, List.countP_append, List.countP_cons]
  omega

theorem Step.running_le (h : Step work count s t) (hs : running s ≤ count) :
    running t ≤ count := by
  cases h with
  | start before after task hfree =>
    rw [running_around] at hfree ⊢
    simp only [isRunning, Bool.false_eq_true, if_false, if_true] at hfree ⊢
    omega
  | finish before after task =>
    rw [running_around] at hs ⊢
    simp only [isRunning, Bool.false_eq_true, if_false, if_true] at hs ⊢
    omega

theorem Step.left (h : Step work count s t) : leftIn s = leftIn t + 1 := by
  cases h <;> simp only [leftIn_append, leftIn, Progress.left] <;> omega

/-- A pool with a task that is not done yet can go on. -/
theorem exists_step (hcount : 0 < count)
    (hs : ∃ task progress, (task, progress) ∈ s ∧ ∀ answer, progress ≠ .done answer) :
    ∃ t, Step work count s t := by
  by_cases hr : ∃ task, (task, Progress.running) ∈ s
  · obtain ⟨task, hm⟩ := hr
    obtain ⟨before, after, rfl⟩ := List.append_of_mem hm
    exact ⟨_, .finish before after task⟩
  · have hnone : running s = 0 := by
      rw [running, List.countP_eq_zero]
      intro entry hm
      obtain ⟨task, progress⟩ := entry
      cases progress with
      | running => exact absurd ⟨task, hm⟩ hr
      | waiting => simp [isRunning]
      | done answer => simp [isRunning]
    obtain ⟨task, progress, hm, hp⟩ := hs
    cases progress with
    | running => exact absurd ⟨task, hm⟩ hr
    | done answer => exact absurd rfl (hp answer)
    | waiting =>
      obtain ⟨before, after, rfl⟩ := List.append_of_mem hm
      exact ⟨_, .start before after task (by rw [hnone]; exact hcount)⟩

end Tasks

/-! ### The whole batch -/

variable {lint : Text → Except Failure Diagnosis} {count : Nat} {files : List Text}

/-- The invariant of every schedule over some documents. -/
structure Sound (lint : Text → Except Failure Diagnosis) (count : Nat) (files : List Text)
    (s : Stage) : Prop where
  order : ∃ settled, files = settled ++ s.tasks.map (·.1) ++ s.ahead ∧
    s.taken = Batch.run lint settled
  own : ∀ file answer, (file, .done answer) ∈ s.tasks → answer = lint file
  bounded : running s.tasks ≤ count

theorem sound_start : Sound lint count files (.start files) where
  order := ⟨[], by simp [Stage.start], rfl⟩
  own := by simp [Stage.start]
  bounded := by simp [Stage.start, running]

/-- A move keeps the invariant. -/
theorem sound_move {s t : Stage} (hs : Sound lint count files s) (h : Move lint count s t) :
    Sound lint count files t := by
  obtain ⟨⟨settled, hfiles, htaken⟩, hown, hbounded⟩ := hs
  cases h with
  | handIn file ahead tasks taken =>
    refine ⟨⟨settled, by simpa using hfiles, htaken⟩, fun f answer hm => ?_, ?_⟩
    · simp only [List.mem_append, List.mem_singleton, Prod.mk.injEq, reduceCtorEq, and_false,
        or_false] at hm
      exact hown f answer hm
    · simpa [running, List.countP_append, isRunning] using hbounded
  | work ahead taken hstep =>
    refine ⟨⟨settled, by rw [hstep.names]; exact hfiles, htaken⟩, fun f answer hm => ?_,
      hstep.running_le hbounded⟩
    obtain hm | rfl := hstep.answers hm
    · exact hown f answer hm
    · rfl
  | take file answer tasks taken =>
    have hanswer : answer = lint file := hown file answer List.mem_cons_self
    refine ⟨⟨settled ++ [file], by simpa using hfiles, ?_⟩,
      fun f a hm => hown f a (List.mem_cons_of_mem _ hm), ?_⟩
    · show taken.add file answer = _
      rw [Batch.run_concat, hanswer]
      exact congrArg (Batch.add · file (lint file)) htaken
    · simpa [running, isRunning] using hbounded

theorem sound_reaches {n : Nat} {s t : Stage} (h : Reaches lint count n s t)
    (hs : Sound lint count files s) : Sound lint count files t := by
  induction h with
  | refl s => exact hs
  | move hm _ ih => exact ih (sound_move hs hm)

/-- Each move is one of those that were left. -/
theorem left_move {s t : Stage} (h : Move lint count s t) : s.left = t.left + 1 := by
  cases h with
  | handIn file ahead tasks taken =>
    simp only [Stage.left, List.length_cons, leftIn_append, leftIn, Progress.left]
    omega
  | work ahead taken hstep =>
    simp only [Stage.left, hstep.left]
    omega
  | take file answer tasks taken =>
    simp only [Stage.left, leftIn, Progress.left]
    omega

theorem left_reaches {n : Nat} {s t : Stage} (h : Reaches lint count n s t) :
    s.left = n + t.left := by
  induction h with
  | refl s => omega
  | move hm _ ih =>
    have := left_move hm
    omega

/-- Unless it is over, a batch can go on: if nothing is to be handed in and the pool has nothing to
do, the first answer is there. -/
theorem exists_move (hcount : 0 < count) {s : Stage} (h : ¬s.IsOver) :
    ∃ t, Move lint count s t := by
  obtain ⟨ahead, tasks, taken⟩ := s
  cases ahead with
  | cons file ahead => exact ⟨_, .handIn file ahead tasks taken⟩
  | nil =>
    cases tasks with
    | nil => exact absurd ⟨rfl, rfl⟩ h
    | cons task tasks =>
      obtain ⟨file, progress⟩ := task
      by_cases hp : ∃ answer, progress = .done answer
      · obtain ⟨answer, rfl⟩ := hp
        exact ⟨_, .take file answer tasks taken⟩
      · obtain ⟨t, ht⟩ := exists_step hcount
          ⟨file, progress, List.mem_cons_self, fun answer he => hp ⟨answer, he⟩⟩
        exact ⟨_, .work [] taken ht⟩

/-- Every batch can be carried to its end. -/
theorem exists_over (hcount : 0 < count) (s : Stage) :
    ∃ n t, Reaches lint count n s t ∧ t.IsOver := by
  by_cases hover : s.IsOver
  · exact ⟨0, s, .refl s, hover⟩
  · obtain ⟨t, hmove⟩ := exists_move hcount hover
    have hleft := left_move hmove
    obtain ⟨n, u, hreach, hu⟩ := exists_over hcount t
    exact ⟨n + 1, u, .move hmove hreach, hu⟩
termination_by s.left
decreasing_by omega

/-- When a batch is over, its answers are those of linting one document after another. -/
theorem taken_of_over {n : Nat} {s : Stage} (h : Reaches lint count n (.start files) s)
    (hover : s.IsOver) : s.taken = Batch.run lint files := by
  obtain ⟨settled, hfiles, htaken⟩ := (sound_reaches h sound_start).order
  rw [hover.1, hover.2, List.map_nil, List.append_nil, List.append_nil] at hfiles
  rw [htaken, hfiles]

/-- **Whatever the pool does, what comes of a batch is what comes of linting its documents one after
another**: that, and nothing else, is what a batch may end in, and there each document has its own
answer, in the order in which the documents were named. On the way no more tasks are running than
there are workers, and a batch that is not over can go on, for four moves a document at most. -/
theorem pool_settles (lint : Text → Except Failure Diagnosis) (limit : Int) (files : List Text) :
    (∀ b, MayEndIn lint limit files b ↔ b = Batch.run lint files) ∧
      Batch.Accounts lint files (Batch.run lint files) ∧
      ∀ n s, Reaches lint (workers limit files.length) n (.start files) s →
        running s.tasks ≤ workers limit files.length ∧ n ≤ 4 * files.length ∧
          (s.IsOver ∨ ∃ t, Move lint (workers limit files.length) s t) := by
  have hcount := workers_pos limit files.length
  refine ⟨fun b => ⟨?_, ?_⟩, Batch.accounts_run lint files, fun n s h => ⟨?_, ?_, ?_⟩⟩
  · intro hgiven
    obtain ⟨n, s, h, hover, rfl⟩ := hgiven
    exact taken_of_over h hover
  · intro heq
    obtain rfl := heq
    obtain ⟨n, s, h, hover⟩ := exists_over hcount (.start files)
    exact ⟨n, s, h, hover, (taken_of_over h hover).symm⟩
  · exact (sound_reaches h sound_start).bounded
  · have hleft := left_reaches h
    simp only [Stage.left, Stage.start, leftIn, Nat.add_zero] at hleft
    omega
  · by_cases hover : s.IsOver
    · exact .inl hover
    · exact .inr (exists_move hcount hover)

end Pool

end ApiLint
