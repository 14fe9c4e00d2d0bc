import CrossAssembler.Program

/-!
# Sessions

A session holds programs in named slots, which start out empty. A step works on one slot: it adds a
statement, which is written by tokens or taken from anywhere, replaces the program by that of a
source text, copies it to another slot, or asks it something. A step that fails answers its error
and leaves every program as it was.
-/

namespace CrossAssembler

/-- A question to a program. -/
inductive Query where
  | length
  | statements
  | diagnostics
  | image
  | upload (eot : Bool)
  | listing (name : String)
  deriving DecidableEq, Repr

/-- Something done to the program of a slot. -/
inductive Step where
  /-- Adds the statement of some tokens a number of times. -/
  | add (tokens : List String) (times : Nat)
  /-- Adds a statement a number of times, which may be one that was laid out before. -/
  | append (statement : Statement) (times : Nat)
  /-- Replaces the program by that of a source text. -/
  | read (source : String)
  /-- Copies the program to another slot. -/
  | copy (slot : String)
  /-- Asks the program. -/
  | ask (query : Query)
  deriving DecidableEq, Repr

/-- What a step answers. -/
inductive Answer where
  | length (length : Nat)
  | size (length : Nat) (isEmpty : Bool)
  | statements (statements : List Statement)
  | diagnostics (diagnostics : List Diagnostic)
  | image (bytes : List UInt8)
  | upload (text : String)
  | listing (page : String)
  | parseError (cause : ParseError)
  | layoutError (cause : LayoutError)
  | assemblyError (cause : AssemblyError)
  deriving DecidableEq, Repr

namespace Program

/-- Appends a statement a number of times. -/
def addTimes (program : Program) (statement : Statement) : Nat → Program
  | 0 => program
  | times + 1 => (program.add statement).addTimes statement times

/-- Turns what the layout of a program answers into an answer of the session. -/
def answer {α : Type} (shape : α → Answer) :
    Except LayoutError α × Program → Answer × Program
  | (.ok value, program) => (shape value, program)
  | (.error cause, program) => (.layoutError cause, program)

/-- Answers a question. -/
def query (program : Program) : Query → Answer × Program
  | .length => (.size program.length program.isEmpty, program)
  | .statements => answer .statements program.statements
  | .diagnostics => answer .diagnostics program.diagnostics
  | .image => answer .image program.image
  | .upload eot => answer .upload (program.upload eot)
  | .listing name => answer .listing (program.listing name)

end Program

/-- The programs of all slots. -/
structure Session where
  program : String → Program

namespace Session

/-- The session in which nothing has happened. -/
def start : Session := ⟨fun _ => .empty⟩

/-- Puts a program into a slot. -/
def put (session : Session) (slot : String) (program : Program) : Session :=
  ⟨fun name => if name = slot then program else session.program name⟩

/-- Adds a statement to the program of a slot. -/
def append (session : Session) (slot : String) (statement : Statement) (times : Nat) :
    Answer × Session :=
  let program := (session.program slot).addTimes statement times
  (.length program.length, session.put slot program)

/-- Does one step on a slot. -/
def step (session : Session) (slot : String) : Step → Answer × Session
  | .add _ 0 => (.length (session.program slot).length, session)
  | .add tokens (times + 1) =>
    match Statement.ofTokens tokens with
    | .error cause => (.parseError cause, session)
    | .ok statement => session.append slot statement (times + 1)
  | .append statement times => session.append slot statement times
  | .read source =>
    match parse source with
    | .error cause => (.assemblyError cause, session)
    | .ok program => (.length program.length, session.put slot program)
  | .copy target =>
    let program := session.program slot
    (.length program.length, session.put target program)
  | .ask query =>
    let (answer, program) := (session.program slot).query query
    (answer, session.put slot program)

/-- Does steps one after the other and collects their answers. -/
def run : Session → List (String × Step) → List Answer
  | _, [] => []
  | session, (slot, step) :: steps =>
    let (answer, session) := session.step slot step
    answer :: session.run steps

end Session

end CrossAssembler
