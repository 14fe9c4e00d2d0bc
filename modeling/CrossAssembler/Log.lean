import CrossAssembler.Text

/-!
# The log of an assembly

While a source text is assembled, each step reports an `Event`: every statement that is read, every
pass of the layout, the detour around the reserved block, and every label that no jump uses. A
`Logged` computation carries the events it has reported, also when it fails.
-/

namespace CrossAssembler

/-- How much an event matters. -/
inductive Level where
  | debug
  | info
  | warn
  deriving DecidableEq, Repr

/-- The name of the level. -/
def Level.title : Level → String
  | .debug => "DEBUG"
  | .info => "INFO"
  | .warn => "WARN"

/-- What a step of the assembly reports. -/
inductive Event where
  /-- A statement is about to be read. -/
  | statement (line : Nat) (text : String)
  /-- The statements, placed one after the other, end at an address. -/
  | placed (count : Nat) (finish : Nat)
  /-- The code reaches the reserved block and is interrupted after a statement. -/
  | interrupted (finish : Nat) (count : Nat) (resume : Nat)
  /-- The statements, placed around the reserved block, end at an address. -/
  | corrected (count : Nat) (finish : Nat)
  /-- No jump uses a label. -/
  | unusedLabel (name : String)
  deriving DecidableEq, Repr

namespace Event

/-- The level of an event. -/
def level : Event → Level
  | .statement _ _ | .placed _ _ | .corrected _ _ => .debug
  | .interrupted _ _ _ => .info
  | .unusedLabel _ => .warn

/-- The text of an event. -/
def message : Event → String
  | .statement line text => s!"statement at line {line}: {text}"
  | .placed count finish => s!"layout: {count} statements end at {octal finish}"
  | .interrupted finish count resume =>
    s!"program reaches {octal finish}, jumping over the reserved block " ++
      s!"after statement {count} (at {octal resume})"
  | .corrected count finish =>
    s!"layout: corrected to {count} statements ending at {octal finish}"
  | .unusedLabel name => s!"Label {name} is never used"

end Event

/-- The outcome of a computation and the events it has reported, oldest first. -/
structure Logged (ε α : Type) where
  log : List Event
  result : Except ε α

namespace Logged

variable {ε ε' α β : Type}

/-- A computation that reports nothing. -/
def ofExcept (result : Except ε α) : Logged ε α := ⟨[], result⟩

/-- Reports events. -/
def report (events : List Event) : Logged ε Unit := ⟨events, .ok ()⟩

/-- Runs one computation after another; the second does not run if the first fails. -/
protected def bind (first : Logged ε α) (next : α → Logged ε β) : Logged ε β :=
  match first.result with
  | .error e => ⟨first.log, .error e⟩
  | .ok a =>
    let second := next a
    ⟨first.log ++ second.log, second.result⟩

instance : Monad (Logged ε) where
  pure a := ofExcept (.ok a)
  bind := Logged.bind

/-- The same computation with its error seen as another. -/
def mapError (f : ε → ε') (computation : Logged ε α) : Logged ε' α :=
  ⟨computation.log, computation.result.mapError f⟩

@[simp]
theorem result_ofExcept (result : Except ε α) : (ofExcept result).result = result := rfl

@[simp]
theorem result_report (events : List Event) : (report events : Logged ε Unit).result = .ok () := rfl

@[simp]
theorem result_pure (a : α) : (pure a : Logged ε α).result = .ok a := rfl

@[simp]
theorem result_bind (first : Logged ε α) (next : α → Logged ε β) :
    (first >>= next).result = first.result >>= fun a => (next a).result := by
  obtain ⟨log, result⟩ := first
  cases result <;> rfl

@[simp]
theorem result_mapError (f : ε → ε') (computation : Logged ε α) :
    (computation.mapError f).result = computation.result.mapError f := rfl

@[simp]
theorem log_mapError (f : ε → ε') (computation : Logged ε α) :
    (computation.mapError f).log = computation.log := rfl

theorem log_bind_of_ok {first : Logged ε α} {a : α} (h : first.result = .ok a)
    (next : α → Logged ε β) : (first >>= next).log = first.log ++ (next a).log := by
  obtain ⟨log, result⟩ := first
  subst h
  rfl

theorem log_bind_of_error {first : Logged ε α} {e : ε} (h : first.result = .error e)
    (next : α → Logged ε β) : (first >>= next).log = first.log := by
  obtain ⟨log, result⟩ := first
  subst h
  rfl

end Logged

end CrossAssembler
