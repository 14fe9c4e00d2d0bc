import CrossAssembler.Log
import CrossAssembler.Statement

/-!
# Laying out a program

`Layout.run` gives every fragment of a list of statements its place, leads the code around the
reserved block if it would reach it, and resolves the jumps. It fails at the first of these: a label
is defined twice, there is no place for the detour, the code does not fit in memory, a jump cannot
be resolved. `layOut` is its outcome without the log.

* Fragments are placed one after the other, each at the address where the one before it ends. Only
  their locations change.
* Code that would reach the reserved block is interrupted after the last statement that still leaves
  room for a jump before the block. The jump goes to a label right after the block, and the cells
  between the jump and the label are filled with operations that do nothing. The name of the label
  begins as a comment does, so no source text can define or use it.
* A jump is resolved to the location of the label with its target's name, which has to be the
  address of a cell; a label is used if a jump goes to it.
-/

namespace CrossAssembler

/-! ## Why a program cannot be laid out -/

/-- Why a list of statements has no place in memory. -/
inductive LayoutError where
  /-- A label name is defined a second time. -/
  | duplicateLabel (name : String)
  /-- A jump goes to a label that is not defined. -/
  | undefinedLabel (name : String)
  /-- The code reaches the reserved block, and already its first statement leaves no room for a
  jump over it. -/
  | noSafePoint
  /-- The code, or the label a jump goes to, lies beyond the memory. -/
  | programTooLarge (finish : Nat)
  deriving DecidableEq, Repr

namespace LayoutError

/-- All these errors are of one kind. -/
def kind (_ : LayoutError) : ErrorKind := .layoutError

/-- The message about the error. -/
def message : LayoutError → String
  | .duplicateLabel name =>
    s!"A label may only be defined once in a program. The label name {name} is repeated"
  | .undefinedLabel name => s!"Label {name} is not defined"
  | .noSafePoint =>
    "No statement ends early enough to place a jump over the display memory at " ++
      octal Memory.display
  | .programTooLarge finish =>
    s!"Program does not fit in memory (ends at {octal finish}, limit {octal Memory.size})"

end LayoutError

/-! ## Places in memory -/

/-- The fragment at an address. -/
def Fragment.placeAt (fragment : Fragment) (address : Nat) : Fragment :=
  { fragment with location := address }

namespace Layout

/-- Places fragments from an address on. -/
def placeFragments : Nat → List Fragment → List Fragment
  | _, [] => []
  | address, fragment :: fragments =>
    fragment.placeAt address :: placeFragments (address + fragment.cells) fragments

/-- Places statements from an address on. -/
def place : Nat → List Statement → List Statement
  | _, [] => []
  | address, statement :: statements =>
    { statement with fragments := placeFragments address statement.fragments } ::
      place (address + statement.cells) statements

/-- The number of cells that statements take together. -/
def extent : List Statement → Nat
  | [] => 0
  | statement :: statements => statement.cells + extent statements

/-- The address after statements that are placed from the start of the code. -/
def finish (statements : List Statement) : Nat := Memory.programStart + extent statements

/-! ## The detour around the reserved block -/

/-- The name of the label after the reserved block. -/
def skipLabel : String := "#skip_display"

/-- The number of leading statements, placed from an address on, that end where a jump over the
reserved block may start. -/
def safeCount : Nat → List Statement → Nat
  | _, [] => 0
  | address, statement :: statements =>
    if address + statement.cells ≤ Memory.safeJumpLimit then
      safeCount (address + statement.cells) statements + 1
    else 0

/-- The statement that jumps over the reserved block. -/
def skipJump : Statement :=
  .ofInstruction [spelling Mnemonic.goto, skipLabel] (.goto skipLabel)

/-- The statement that fills one cell. -/
def skipFiller : Statement := .ofInstruction [spelling Mnemonic.noop] .noop

/-- The statement that marks the first cell after the reserved block. -/
def skipTarget : Statement :=
  .ofInstruction [spelling Mnemonic.label, skipLabel] (.label skipLabel)

/-- The statements that lead from an address before the reserved block to the cell after it. -/
def skip (resume : Nat) : List Statement :=
  skipJump ::
    (List.replicate (Memory.reservedEnd - (resume + Memory.jumpCells)) skipFiller ++ [skipTarget])

/-- The statements with the detour after the first `count` of them, which end at `resume`. -/
def insertSkip (statements : List Statement) (count resume : Nat) : List Statement :=
  statements.take count ++ (skip resume ++ statements.drop count)

/-- How many statements come before the detour, and the address where they end. -/
def interruption (statements : List Statement) : Except LayoutError (Nat × Nat) :=
  match safeCount Memory.programStart statements with
  | 0 => .error .noSafePoint
  | count + 1 => .ok (count + 1, finish (statements.take (count + 1)))

/-! ## Labels and jumps -/

/-- The fragments of all statements in order. -/
def fragments (statements : List Statement) : List Fragment :=
  statements.flatMap Statement.fragments

/-- The names of the labels, in program order. -/
def labelNames (statements : List Statement) : List String :=
  (fragments statements).filterMap Fragment.labelName?

/-- The targets of the jumps, in program order. -/
def targets (statements : List Statement) : List String :=
  (fragments statements).filterMap Fragment.target?

/-- The labels with their locations, in program order. -/
def labelTable (statements : List Statement) : List (String × Nat) :=
  (fragments statements).filterMap fun fragment =>
    fragment.labelName?.map fun name => (name, fragment.location)

/-- The first name that is in `seen` or equal to an earlier one. -/
def firstRepeat? (seen : List String) : List String → Option String
  | [] => none
  | name :: names => if seen.contains name then some name else firstRepeat? (name :: seen) names

/-- Fails if a label is defined twice. -/
def checkLabels (statements : List Statement) : Except LayoutError Unit :=
  match firstRepeat? [] (labelNames statements) with
  | some name => .error (.duplicateLabel name)
  | none => .ok ()

/-- Gives a jump its destination. -/
def resolveFragment (table : List (String × Nat)) (fragment : Fragment) :
    Except LayoutError Fragment :=
  match fragment.content with
  | .jump kind target _ =>
    match table.lookup target with
    | none => .error (.undefinedLabel target)
    | some address =>
      if address < Memory.size then
        .ok { fragment with content := .jump kind target (some (UInt8.ofNat address)) }
      else .error (.programTooLarge address)
  | _ => .ok fragment

/-- Gives the jumps of a statement their destinations. -/
def resolveStatement (table : List (String × Nat)) (statement : Statement) :
    Except LayoutError Statement := do
  let fragments ← statement.fragments.mapM (resolveFragment table)
  .ok { statement with fragments }

/-- Marks a label as used if its name is one of the targets. -/
def markFragment (targets : List String) (fragment : Fragment) : Fragment :=
  match fragment.content with
  | .label name used =>
    { fragment with content := .label name (used || targets.contains name) }
  | _ => fragment

/-- Marks the labels of a statement. -/
def markStatement (targets : List String) (statement : Statement) : Statement :=
  { statement with fragments := statement.fragments.map (markFragment targets) }

/-- Resolves the jumps of placed statements, then marks the labels they go to. -/
def resolve (statements : List Statement) : Except LayoutError (List Statement) := do
  checkLabels statements
  let resolved ← statements.mapM (resolveStatement (labelTable statements))
  .ok (resolved.map (markStatement (targets statements)))

end Layout

/-! ## Laying out a program -/

/-- A finding about a program that does not keep it from being assembled. -/
inductive Diagnostic where
  /-- No jump goes to a label. -/
  | unusedLabel (name : String)
  deriving DecidableEq, Repr

namespace Diagnostic

/-- The label the finding is about. -/
def label : Diagnostic → String
  | .unusedLabel name => name

/-- The event that reports the finding. -/
def event : Diagnostic → Event
  | .unusedLabel name => .unusedLabel name

/-- The message about the finding. -/
def message (diagnostic : Diagnostic) : String := diagnostic.event.message

end Diagnostic

/-- A program in memory: its statements with those of the detour, placed and resolved, and what was
found about it. -/
structure Layout where
  statements : List Statement
  diagnostics : List Diagnostic
  deriving DecidableEq, Repr

namespace Layout

/-- The finding about one fragment. -/
def diagnose? (fragment : Fragment) : Option Diagnostic :=
  match fragment.content with
  | .label name false => some (.unusedLabel name)
  | _ => none

/-- The findings about resolved statements, in program order. -/
def diagnose (statements : List Statement) : List Diagnostic :=
  (fragments statements).filterMap diagnose?

/-- The statements with the detour in them. -/
def correct (source : List Statement) : Logged LayoutError (List Statement) := do
  let (count, resume) ← .ofExcept (interruption source)
  .report [.interrupted (finish source) count resume]
  let statements := insertSkip source count resume
  .report [.corrected statements.length (finish statements)]
  return statements

/-- The statements, with the detour if the code reaches the reserved block. -/
def route (source : List Statement) : Logged LayoutError (List Statement) :=
  if finish source < Memory.display then pure source else correct source

/-- Fails if the code ends beyond the memory. -/
def checkSize (statements : List Statement) : Except LayoutError Unit :=
  if finish statements ≤ Memory.size then .ok ()
  else .error (.programTooLarge (finish statements))

/-- Lays out a list of statements. -/
def run (source : List Statement) : Logged LayoutError Layout := do
  .ofExcept (checkLabels source)
  .report [.placed source.length (finish source)]
  let routed ← route source
  .ofExcept (checkSize routed)
  let statements ← .ofExcept (resolve (place Memory.programStart routed))
  let diagnostics := diagnose statements
  .report (diagnostics.map Diagnostic.event)
  return { statements, diagnostics }

end Layout

/-- The layout of a list of statements. -/
def layOut (source : List Statement) : Except LayoutError Layout := (Layout.run source).result

end CrossAssembler
