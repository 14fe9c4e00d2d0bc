import CrossAssembler.CommandLine

/-!
# The program

The commands on the real system. Under a name that ends in `asm` the program only assembles;
otherwise its first argument says what to do.
-/

namespace CrossAssembler

namespace FileError

/-- The error with the number and text that the system gives. Some operations give the number
negated, as a word of thirty-two bits. -/
def ofSystem (text : String) (code : UInt32) : FileError :=
  match if code < 0x80000000 then code.toNat else (0 - code).toNat with
  | 2 => .missing
  | 20 => .notDirectory
  | 21 => .isDirectory
  | 36 => .nameTooLong
  | number => .other text.capitalize number

/-- The error that a failing system operation stands for. -/
def ofError : IO.Error → FileError
  | .noFileOrDirectory _ code text | .interrupted _ code text => ofSystem text code
  | .alreadyExists _ code text | .invalidArgument _ code text | .permissionDenied _ code text
  | .resourceExhausted _ code text | .inappropriateType _ code text
  | .noSuchThing _ code text => ofSystem text code
  | .otherError code text | .resourceBusy code text | .resourceVanished code text
  | .unsupportedOperation code text | .hardwareFault code text
  | .unsatisfiedConstraints code text | .illegalOperation code text | .protocolError code text
  | .timeExpired code text => ofSystem text code
  | .unexpectedEof => ofSystem "Unexpected end of file" 0
  | .userError text => ofSystem text 0

end FileError

/-- A system operation with its error as a value. -/
def attemptSystem {α : Type} (operation : IO α) : IO (Except FileError α) := do
  try
    let value ← operation
    return .ok value
  catch e => return .error (.ofError e)

instance : Host IO where
  readText path := do
    match ← attemptSystem (IO.FS.readBinFile path) with
    | .error e => return .error e
    | .ok content =>
      match String.fromUTF8? content with
      | some text => return .ok text
      | none => return .error .notText
  writeText path text := attemptSystem (IO.FS.writeFile path text)
  fileNames path := attemptSystem do
    let entries ← (System.mkFilePath [path]).readDir
    let files ← entries.filterM fun entry => do
      return (← entry.path.symlinkMetadata).type == .file
    return files.toList.map (·.fileName)
  print text := do
    let out ← IO.getStdout
    out.putStr text
    out.flush

/-- What is shown when the command line is wrong. -/
def usage : String :=
  "usage: asm <in.kbs> [out] [--html] [--no-eot]\n" ++
    "       suite <suite_name> [root] [--only <unit>]"

end CrossAssembler

open CrossAssembler in
/-- Reads the command line, runs the command, and shows its error if it has one. -/
def main (arguments : List String) : IO UInt32 := do
  let name := (← IO.appPath).fileStem.getD ""
  let tool : CommandLine.Tool := if name.endsWith "asm" then .assembler else .full
  match CommandLine.command? tool arguments with
  | none =>
    IO.eprintln usage
    return 1
  | some command =>
    let result ← command.run
    IO.eprint (Command.complaint result)
    return Command.exitCode result
