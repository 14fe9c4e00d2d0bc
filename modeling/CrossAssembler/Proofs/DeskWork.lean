import CrossAssembler.Command

/-!
# Commands on a desk

A desk is a plain value, and so is what a command makes of it: `Desk.perform` gives the outcome of
an effect and the desk that it leaves. The lemmas here say this for each kind of step, and
`perform_bind` for two steps in a row, so that a command is carried out by rewriting. A unit of a
suite leaves the desk alone, and what becomes of it depends on the files only (`perform_runUnit`).
-/

namespace CrossAssembler

namespace Desk

variable {α β : Type}

/-- The outcome of an effect on a desk, and the desk that it leaves. -/
def perform (desk : Desk) (effect : Effect Work α) : Except CommandError α × Desk :=
  effect.run desk

@[simp]
theorem perform_pure (desk : Desk) (a : α) :
    desk.perform (pure a : Effect Work α) = (.ok a, desk) := rfl

@[simp]
theorem perform_ofExcept (desk : Desk) (result : Except CommandError α) :
    desk.perform (Effect.ofExcept result) = (result, desk) := rfl

@[simp]
theorem perform_lift (desk : Desk) (work : Work α) :
    desk.perform (ExceptT.lift work) = (.ok (work desk).1, (work desk).2) := rfl

@[simp]
theorem perform_print (desk : Desk) (text : String) :
    desk.perform (Effect.print text) = (.ok (), { desk with printed := desk.printed ++ text }) :=
  rfl

theorem perform_attempt (desk : Desk) (step : Work (Except FileError α))
    (wrap : FileError → CommandError) :
    desk.perform (Effect.attempt step wrap) = ((step desk).1.mapError wrap, (step desk).2) := rfl

@[simp]
theorem perform_readText (desk : Desk) (path : String) :
    desk.perform (Effect.readText path) =
      ((desk.files.readText path).mapError (.read path), desk) :=
  perform_attempt ..

@[simp]
theorem perform_fileNames (desk : Desk) (path : String) (wrap : FileError → CommandError) :
    desk.perform (Effect.attempt (Host.fileNames path) wrap) =
      ((desk.files.fileNames path).mapError wrap, desk) :=
  perform_attempt ..

theorem perform_writeText_of_ok {desk : Desk} {path text : String} {files : FileTree}
    (h : desk.files.writeText path text = .ok files) :
    desk.perform (Effect.writeText path text) = (.ok (), { desk with files }) := by
  have hwork : Desk.writeText path text desk = (.ok (), { desk with files }) := by
    simp [Desk.writeText, h]
  refine (perform_attempt desk (Desk.writeText path text) _).trans ?_
  rw [hwork]
  rfl

/-- A write that fails leaves the desk as it is. -/
theorem perform_writeText_of_error {desk : Desk} {path text : String} {cause : FileError}
    (h : desk.files.writeText path text = .error cause) :
    desk.perform (Effect.writeText path text) = (.error (.write path cause), desk) := by
  have hwork : Desk.writeText path text desk = (.error cause, desk) := by
    simp [Desk.writeText, h]
  refine (perform_attempt desk (Desk.writeText path text) _).trans ?_
  rw [hwork]
  rfl

/-- The second of two steps works on what the first one leaves, and only if that did not fail. -/
@[simp]
theorem perform_bind (desk : Desk) (first : Effect Work α) (next : α → Effect Work β) :
    desk.perform (first >>= next) =
      match desk.perform first with
      | (.ok a, after) => after.perform (next a)
      | (.error e, after) => (.error e, after) := by
  show (ExceptT.bindCont next (desk.perform first).1 : Work _) (desk.perform first).2 = _
  rcases desk.perform first with ⟨_ | _, _⟩ <;> rfl

end Desk

/-! ## Units of a suite -/

/-- What becomes of a unit whose files lie in a tree. -/
def SuiteUnit.result (unit : SuiteUnit) (files : FileTree) : UnitResult := do
  let source ← (files.readText unit.source).mapError (.read unit.source)
  let expected ← (files.readText unit.expectation).mapError (.read unit.expectation)
  return Outcome.ofUnit source expected

theorem SuiteUnit.result_of_ok {unit : SuiteUnit} {files : FileTree} {source expected : String}
    (hsource : files.readText unit.source = .ok source)
    (hexpected : files.readText unit.expectation = .ok expected) :
    unit.result files = .ok (Outcome.ofUnit source expected) := by
  simp only [result, hsource, hexpected]
  rfl

namespace Desk

/-- To run a unit is to read its files and nothing else. -/
theorem perform_runUnit (desk : Desk) (unit : SuiteUnit) :
    desk.perform (Suite.runUnit unit) = (unit.result desk.files, desk) := by
  unfold Suite.runUnit SuiteUnit.result
  rw [perform_bind, perform_readText]
  cases desk.files.readText unit.source with
  | error cause => rfl
  | ok source =>
    show desk.perform (Effect.readText unit.expectation >>= _) = _
    rw [perform_bind, perform_readText]
    cases desk.files.readText unit.expectation <;> rfl

end Desk

end CrossAssembler
