import CrossAssembler.Layout
import CrossAssembler.Output

/-!
# Programs

A program is a list of statements that grows at its end. Its layout is computed when it is first
asked for and kept until the next statement is added; a layout that fails is not kept. Each query
gives the answer and the program with what it has learnt.

A source text is read line by line into the statements of a program, and the first line that is no
statement ends the reading. The statements are then laid out. `Assembly.run` is the whole way from a
source text to its upload, with its log; `assemble` is its outcome.
-/

namespace CrossAssembler

/-! ## Programs -/

/-- A list of statements, with its layout if that is known. -/
structure Program where
  source : List Statement := []
  known : Option Layout := none
  deriving DecidableEq, Repr

namespace Program

/-- The program without statements. -/
def empty : Program := {}

/-- The program of a list of statements. -/
def ofStatements (source : List Statement) : Program := { source }

/-- Appends a statement. -/
def add (program : Program) (statement : Statement) : Program :=
  { source := program.source ++ [statement], known := none }

/-- The number of statements that were added. -/
def length (program : Program) : Nat := program.source.length

/-- Whether no statement was added. -/
def isEmpty (program : Program) : Bool := program.source.isEmpty

/-- The layout of the program. -/
def layout (program : Program) : Except LayoutError Layout × Program :=
  match program.known with
  | some layout => (.ok layout, program)
  | none =>
    match layOut program.source with
    | .ok layout => (.ok layout, { program with known := some layout })
    | .error e => (.error e, program)

/-- Something that the layout of a program answers. -/
def ask {α : Type} (program : Program) (answer : Layout → α) : Except LayoutError α × Program :=
  let (layout, program) := program.layout
  (layout.map answer, program)

/-- The laid-out statements. -/
def statements (program : Program) : Except LayoutError (List Statement) × Program :=
  program.ask Layout.statements

/-- The findings about the program. -/
def diagnostics (program : Program) : Except LayoutError (List Diagnostic) × Program :=
  program.ask Layout.diagnostics

/-- The memory image of the program. -/
def image (program : Program) : Except LayoutError (List UInt8) × Program :=
  program.ask fun layout => CrossAssembler.image layout.statements

/-- The upload of the program. -/
def upload (program : Program) (eot : Bool) : Except LayoutError String × Program :=
  program.ask fun layout => Upload.text layout.statements eot

/-- The listing of the program under a name. -/
def listing (program : Program) (name : String) : Except LayoutError String × Program :=
  program.ask fun layout => Listing.page name layout.statements

end Program

/-! ## Assembling a source text -/

/-- Why a source text cannot be assembled. -/
inductive AssemblyError where
  /-- A line is no statement. -/
  | parse (line : Nat) (statement : String) (cause : ParseError)
  /-- The statements cannot be laid out. -/
  | layout (cause : LayoutError)
  deriving DecidableEq, Repr

namespace AssemblyError

/-- The kind of the error. -/
def kind : AssemblyError → ErrorKind
  | .parse _ _ cause => cause.kind
  | .layout cause => cause.kind

/-- The message about the error. -/
def message : AssemblyError → String
  | .parse line statement cause =>
    s!"{cause.kind.title} error at line {line}\nStatement: {statement}\nError: {cause.message}"
  | .layout cause => s!"{cause.kind.title} error: {cause.message}"

end AssemblyError

namespace Assembly

/-- Reads one line. -/
def readLine (line : Nat) (tokens : List String) : Logged AssemblyError Statement := do
  let statement := Text.unwords tokens
  .report [.statement line statement]
  .ofExcept ((Statement.ofTokens tokens).mapError (.parse line statement))

/-- Reads numbered lines up to the first that is no statement. -/
def readLines : List (Nat × List String) → Logged AssemblyError (List Statement)
  | [] => return []
  | (line, tokens) :: rest => do
    let statement ← readLine line tokens
    let statements ← readLines rest
    return statement :: statements

/-- The statements of a source text. -/
def read (source : String) : Logged AssemblyError (List Statement) :=
  readLines (Token.numbered source)

/-- The upload of a source text. -/
def run (source : String) (eot : Bool) : Logged AssemblyError String := do
  let statements ← read source
  let layout ← (Layout.run statements).mapError .layout
  return Upload.text layout.statements eot

end Assembly

/-- The program of a source text. -/
def parse (source : String) : Except AssemblyError Program :=
  (Assembly.read source).result.map Program.ofStatements

/-- The upload of a source text. -/
def assemble (source : String) (eot : Bool) : Except AssemblyError String :=
  (Assembly.run source eot).result

end CrossAssembler
