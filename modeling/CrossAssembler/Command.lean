import CrossAssembler.Suite

/-!
# Commands

A command runs on a host and ends with success, with failure, or with an error. Its exit code is
zero only for success; an error is shown on the error channel.

The command that assembles reads a source file, prints a warning for each finding, and then writes
what was asked for: the listing beside the source file, the upload to a file of its own, or, if
neither was asked for, the codes to the terminal.
-/

namespace CrossAssembler

/-! ## Assembling a file -/

/-- What to assemble and where to put it. -/
structure AsmOptions where
  /-- The source file. -/
  input : String
  /-- The file for the upload. -/
  output : Option String := none
  /-- Whether to write a listing. -/
  html : Bool := false
  /-- Whether to leave the end-of-transmission mark off the upload. -/
  noEot : Bool := false
  deriving DecidableEq, Repr

namespace Asm

/-- The extension of a listing. -/
def listingExtension : String := "html"

/-- The file for the listing of a source file. -/
def listingPath (input : String) : String := Path.addExtension input listingExtension

/-- The warning about a finding. -/
def warning (diagnostic : Diagnostic) : String :=
  Paint.yellow "WARNING" ++ ": " ++ diagnostic.message ++ "\n"

/-- The codes as they are shown on the terminal. -/
def shownCodes (statements : List Statement) : String :=
  "Resulting operating codes:\n" ++ Upload.text statements false

variable {m : Type → Type} [Monad m] [Host m]

/-- The program of a source file, not laid out yet. -/
def load (path : String) : Effect m Program := do
  let source ← Effect.readText path
  Effect.ofExcept ((parse source).mapError (.parse path))

/-- Writes the listing if it is wanted. -/
def writeListing (options : AsmOptions) (layout : Layout) : Effect m Unit :=
  if options.html then
    Effect.writeText (listingPath options.input) (Listing.page options.input layout.statements)
  else return ()

/-- Writes the upload to its file, or shows the codes if nothing was written. -/
def deliver (options : AsmOptions) (layout : Layout) : Effect m Unit :=
  match options.output with
  | some path => Effect.writeText path (Upload.text layout.statements (!options.noEot))
  | none => if options.html then return () else Effect.print (shownCodes layout.statements)

/-- Assembles a file. -/
def run (options : AsmOptions) : Effect m Bool := do
  let program ← load options.input
  let layout ← Effect.ofExcept (program.layout.1.mapError .layout)
  Effect.print (String.join (layout.diagnostics.map warning))
  writeListing options layout
  deliver options layout
  return true

end Asm

/-! ## Commands -/

/-- Something the program can be told to do. -/
inductive Command where
  | asm (options : AsmOptions)
  | suite (options : SuiteOptions)
  deriving DecidableEq, Repr

namespace Command

/-- Runs a command. -/
def run {m : Type → Type} [Monad m] [Host m] (command : Command) :
    m (Except CommandError Bool) :=
  match command with
  | .asm options => (Asm.run options).run
  | .suite options => (Suite.run options).run

/-- The exit code of a command. -/
def exitCode : Except CommandError Bool → UInt32
  | .ok true => 0
  | _ => 1

/-- What a command shows on the error channel. -/
def complaint : Except CommandError Bool → String
  | .ok _ => ""
  | .error e => Paint.red "error" ++ ": " ++ e.message ++ "\n"

end Command

end CrossAssembler
