import ApiLint.Engine.Program

/-! A run of the rule engine, part by part. Each part says what it answers and what it leaves behind,
also where it fails; from these a whole run is put together (`run_session`). -/
namespace ApiLint

/-! ### Parts that follow each other -/

namespace Session

variable {α β : Type}

theorem run_bind (x : Session α) (f : α → Session β) (w : Workspace) :
    (x >>= f).run.run w =
      match x.run.run w with
      | (.ok a, w') => (f a).run.run w'
      | (.error e, w') => (.error e, w') := by
  rw [ExceptT.run_bind, StateT.run_bind]
  rcases x.run.run w with ⟨_ | _, w'⟩ <;> rfl

theorem run_get (w : Workspace) : (get : Session Workspace).run.run w = (.ok w, w) := rfl

theorem run_liftExcept (x : Except Failure α) (w : Workspace) :
    (liftExcept x : Session α).run.run w = (x, w) := by
  cases x <;> rfl

/-- What is done at the end is done whether or not there was a failure before it. -/
theorem run_finally (x : Session α) (change : Workspace → Workspace) (w : Workspace) :
    (tryFinally x (modify change : Session PUnit)).run.run w =
      ((x.run.run w).1, change (x.run.run w).2) := by
  -- The end depends on nothing but how `x` ends and on the workspace that it leaves.
  have hend : ∀ p : Except Failure α × Workspace,
      (tryFinally (fun _ => p : Session α) (modify change : Session PUnit)).run.run w =
        (p.1, change p.2) := by
    rintro ⟨_ | _, w'⟩ <;> rfl
  exact hend (x w)

end Session

/-! ### The parts of a run -/

namespace EngineSettings

variable {engine : EngineSettings} {program : Program} {scratch : Scratch} {config : Config}
  {d : Document} {i : Invocation} {ruleset : Value} {w : Workspace}

theorem run_start : (engine.start program d i).run.run w =
    (engine.reply d (program w.disk i), { w with invocations := w.invocations ++ [i] }) := by
  rw [start, Session.run_bind]
  exact Session.run_liftExcept _ _

theorem run_consult : (engine.consult program d i).run.run w =
    (engine.reply d (program w.disk i),
      { w with
        temporary := w.temporary.filter (·.1 ≠ i.rulesetFile.parent)
        invocations := w.invocations ++ [i] }) := by
  rw [consult, Session.run_bind]
  refine (Session.run_finally _ _ _).trans ?_
  rw [run_start, List.filter_cons_of_neg (by simp)]

theorem run_placeSource (h : w.disk.find i.source ≠ .error .nameTooLong) :
    (placeSource i).run.run w =
      (.ok (), { w with disk := w.disk.write i.source (Text.bytes i.contents) }) := by
  rw [placeSource, Session.run_bind, Session.run_get]
  dsimp only
  split
  · next heq => exact absurd heq h
  · rfl

/-- A run whose file has a name that is too long has not begun. -/
theorem run_placeSource_of_nameTooLong (h : w.disk.find i.source = .error .nameTooLong) :
    (placeSource i).run.run w = (.error (.file .nameTooLong i.source.text), w) := by
  rw [placeSource, Session.run_bind, Session.run_get]
  dsimp only
  rw [h]
  rfl

/-- Without a ruleset nothing is done. -/
theorem run_session_of_no_ruleset {e : Failure} (h : engine.rulesetFor config = .error e) :
    (engine.session program scratch config d).run.run w = (.error e, w) := by
  rw [session, Session.run_bind, h, Session.run_liftExcept]

theorem run_session_of_nameTooLong (hruleset : engine.rulesetFor config = .ok ruleset)
    (hname : w.disk.find (engine.invocation scratch w.disk d ruleset).source =
      .error .nameTooLong) :
    (engine.session program scratch config d).run.run w =
      (.error (.file .nameTooLong (engine.invocation scratch w.disk d ruleset).source.text), w) := by
  rw [session, Session.run_bind, hruleset, Session.run_liftExcept]
  dsimp only
  rw [Session.run_bind, Session.run_get]
  dsimp only
  rw [Session.run_bind, run_placeSource_of_nameTooLong hname]

/-- **A run of the rule engine.** The program is started once, and what it says is judged when both
of the files that it was given are gone. -/
theorem run_session (hruleset : engine.rulesetFor config = .ok ruleset)
    (hname : w.disk.find (engine.invocation scratch w.disk d ruleset).source ≠
      .error .nameTooLong) :
    (engine.session program scratch config d).run.run w =
      let i := engine.invocation scratch w.disk d ruleset
      let during := w.disk.write i.source (Text.bytes i.contents)
      (engine.judge Finding.key d (program during i),
        { disk := during.delete i.source
          temporary := w.temporary.filter (·.1 ≠ i.rulesetFile.parent)
          invocations := w.invocations ++ [i] }) := by
  rw [session, Session.run_bind, hruleset, Session.run_liftExcept]
  dsimp only
  rw [Session.run_bind, Session.run_get]
  dsimp only
  rw [Session.run_bind, run_placeSource hname]
  dsimp only
  rw [Session.run_bind, removeSource, Session.run_finally, run_consult]
  dsimp only
  rw [judge]
  cases engine.reply d _ with
  | error e => rfl
  | ok r => exact Session.run_liftExcept _ _

end EngineSettings

end ApiLint
