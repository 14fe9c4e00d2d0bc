import CrossAssembler.Files
import CrossAssembler.Program

/-!
# Hosts

A `Host` has what a command needs from the system it runs on: reading and writing text files,
listing the files of a directory, and printing. A `Desk` is a host that is a plain value: a file
tree and the text that was printed.

An `Effect` is a computation on a host that may fail. Its steps are those of the host, with the
error of a file operation turned into one that says what could not be done. `Paint` writes texts in
the bold colours of a terminal.
-/

namespace CrossAssembler

/-! ## Hosts -/

/-- A system that commands run on. -/
class Host (m : Type → Type) where
  /-- The text of a file. -/
  readText : String → m (Except FileError String)
  /-- Writes a text to a file, which is made or replaced. -/
  writeText : String → String → m (Except FileError Unit)
  /-- The names of the files in a directory, in any order. -/
  fileNames : String → m (Except FileError (List String))
  /-- Prints a text. -/
  print : String → m Unit

/-- A file tree and what was printed. -/
structure Desk where
  files : FileTree
  printed : String := ""

namespace Desk

/-- A computation that works on a desk. -/
abbrev Work := StateM Desk

/-- Reads a file. -/
def readText (path : String) : Work (Except FileError String) := fun desk =>
  (desk.files.readText path, desk)

/-- Writes a file; a write that fails changes nothing. -/
def writeText (path text : String) : Work (Except FileError Unit) := fun desk =>
  match desk.files.writeText path text with
  | .ok files => (.ok (), { desk with files })
  | .error e => (.error e, desk)

/-- Lists the files of a directory. -/
def fileNames (path : String) : Work (Except FileError (List String)) := fun desk =>
  (desk.files.fileNames path, desk)

/-- Prints a text after what was printed before. -/
def print (text : String) : Work Unit := fun desk =>
  ((), { desk with printed := desk.printed ++ text })

instance : Host Work where
  readText := readText
  writeText := writeText
  fileNames := fileNames
  print := print

end Desk

/-! ## Why a command fails -/

/-- Why a command fails. -/
inductive CommandError where
  | read (path : String) (cause : FileError)
  | write (path : String) (cause : FileError)
  | parse (path : String) (cause : AssemblyError)
  | layout (cause : LayoutError)
  | openSuite (directory : String) (cause : FileError)
  | noUnit (name directory : String)
  deriving DecidableEq, Repr

/-- The message about the error. -/
def CommandError.message : CommandError → String
  | .read path cause => s!"Could not read {path}: {cause.message}"
  | .write path cause => s!"Could not write {path}: {cause.message}"
  | .parse path cause => s!"Could not assemble {path}: {cause.message}"
  | .layout cause => (AssemblyError.layout cause).message
  | .openSuite directory cause => s!"Could not open suite {directory}: {cause.message}"
  | .noUnit name directory => s!"No unit named '{name}' in {directory}"

/-! ## Effects -/

/-- A computation on a host that may fail. -/
abbrev Effect (m : Type → Type) := ExceptT CommandError m

namespace Effect

variable {m : Type → Type} [Monad m] [Host m] {α : Type}

/-- A step of the host whose error is wrapped. -/
def attempt (step : m (Except FileError α)) (wrap : FileError → CommandError) : Effect m α :=
  ExceptT.mk do
    let result ← step
    return result.mapError wrap

/-- The text of a file. -/
def readText (path : String) : Effect m String := attempt (Host.readText path) (.read path)

/-- Writes a text to a file. -/
def writeText (path text : String) : Effect m Unit :=
  attempt (Host.writeText path text) (.write path)

/-- Prints a text. -/
def print (text : String) : Effect m Unit := ExceptT.lift (Host.print text)

/-- A result that is known without the host. -/
def ofExcept (result : Except CommandError α) : Effect m α := ExceptT.mk (return result)

end Effect

/-! ## Bold colours -/

namespace Paint

/-- A text in bold, in the colour of a terminal's colour number. -/
def bold (colour text : String) : String := "\x1b[1;" ++ colour ++ "m" ++ text ++ "\x1b[0m"

/-- A failure. -/
def red (text : String) : String := bold "31" text

/-- A success. -/
def green (text : String) : String := bold "32" text

/-- A warning. -/
def yellow (text : String) : String := bold "33" text

end Paint

end CrossAssembler
