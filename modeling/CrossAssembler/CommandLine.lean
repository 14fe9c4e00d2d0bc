import CrossAssembler.Command

/-!
# The command line

Arguments are read from left to right into switches, options with a value, and positional arguments;
after `--` everything is positional. An option takes its value from the same argument, after `=` or
right after its letter, or from the next argument. A switch, an option or a positional argument that
is not known, one that is given twice, and an option without its value make the whole command line
wrong.
-/

namespace CrossAssembler.CommandLine

/-- The switches and options that a command knows. -/
structure Grammar where
  /-- The names of the switches. -/
  switches : List String
  /-- The names of the options and their letters. -/
  options : List (String × Char)

/-- What the arguments say. -/
structure Arguments where
  switches : List String := []
  options : List (String × String) := []
  positionals : List String := []

namespace Arguments

/-- Adds a switch in front. -/
def addSwitch (name : String) (arguments : Arguments) : Arguments :=
  { arguments with switches := name :: arguments.switches }

/-- Adds the value of an option in front. -/
def addOption (name value : String) (arguments : Arguments) : Arguments :=
  { arguments with options := (name, value) :: arguments.options }

/-- Adds a positional argument in front. -/
def addPositional (value : String) (arguments : Arguments) : Arguments :=
  { arguments with positionals := value :: arguments.positionals }

/-- Whether no switch and no option is given twice. -/
def isSimple (arguments : Arguments) : Bool :=
  arguments.switches.eraseDups.length == arguments.switches.length &&
    (arguments.options.map Prod.fst).eraseDups.length == arguments.options.length

end Arguments

/-- How one argument is meant. -/
inductive Reading where
  /-- Everything after it is positional. -/
  | separator
  /-- A positional argument. -/
  | positional
  /-- A switch. -/
  | switch (name : String)
  /-- An option with its value. -/
  | option (name value : String)
  /-- An option whose value is the next argument. -/
  | pending (name : String)
  /-- Nothing that the command knows. -/
  | unknown

/-- The value of an option as it is written in the argument of the option. -/
def inlineValue (cs : List Char) : String := String.ofList (cs.dropWhile (· == '='))

/-- Whether an argument looks like a switch or an option. A lone hyphen does not. -/
def isDashed (argument : List Char) : Bool := argument.head? == some '-' && argument != ['-']

/-- Reads an argument that begins with two hyphens. A switch may be followed by `=` and a text,
which is not looked at. -/
def readLong (grammar : Grammar) (argument : List Char) : Reading :=
  let body := argument.dropWhile (· == '-')
  let name := String.ofList (body.takeWhile (· != '='))
  if grammar.options.any (·.1 == name) then
    match body.dropWhile (· != '=') with
    | [] => .pending name
    | _ :: value => .option name (inlineValue value)
  else if grammar.switches.contains name then .switch name
  else .unknown

/-- Reads an argument that begins with one hyphen. -/
def readShort (grammar : Grammar) (argument : List Char) : Reading :=
  match argument.dropWhile (· == '-') with
  | [] => .unknown
  | letter :: value =>
    match grammar.options.find? (·.2 == letter) with
    | none => .unknown
    | some (name, _) => if value.isEmpty then .pending name else .option name (inlineValue value)

/-- Reads one argument. -/
def readArgument (grammar : Grammar) (argument : String) : Reading :=
  match argument.toList with
  | ['-', '-'] => .separator
  | '-' :: '-' :: cs => readLong grammar ('-' :: '-' :: cs)
  | cs => if isDashed cs then readShort grammar cs else .positional

/-- Reads all arguments. -/
def scan (grammar : Grammar) : List String → Option Arguments
  | [] => some {}
  | argument :: rest =>
    match readArgument grammar argument with
    | .separator => some { positionals := rest }
    | .positional => (scan grammar rest).map (·.addPositional argument)
    | .switch name => (scan grammar rest).map (·.addSwitch name)
    | .option name value => (scan grammar rest).map (·.addOption name value)
    | .pending name =>
      match rest with
      | [] => none
      | value :: rest =>
        if isDashed value.toList then none
        else (scan grammar rest).map (·.addOption name value)
    | .unknown => none

/-- The arguments, if no switch and no option is given twice. -/
def read (grammar : Grammar) (arguments : List String) : Option Arguments :=
  (scan grammar arguments).filter (·.isSimple)

/-- The switches of `asm`. -/
def asmGrammar : Grammar := ⟨["html", "no-eot"], []⟩

/-- Reads the arguments of `asm`: the source file, and the file for the upload if there is one. -/
def asmOptions? (arguments : List String) : Option AsmOptions := do
  let arguments ← read asmGrammar arguments
  let html := arguments.switches.contains "html"
  let noEot := arguments.switches.contains "no-eot"
  match arguments.positionals with
  | [input] => some { input, html, noEot }
  | [input, output] => some { input, output := some output, html, noEot }
  | _ => none

/-- The option of `suite`. -/
def suiteGrammar : Grammar := ⟨[], [("only", 'o')]⟩

/-- Reads the arguments of `suite`: the name of the suite, and the directory of the suites if it is
not the default one. -/
def suiteOptions? (arguments : List String) : Option SuiteOptions := do
  let arguments ← read suiteGrammar arguments
  let only := arguments.options.lookup "only"
  match arguments.positionals with
  | [suite] => some { suite, root := Suite.defaultRoot, only }
  | [suite, root] => some { suite, root, only }
  | _ => none

/-- The two programs: one with subcommands, and one that only assembles. -/
inductive Tool where
  | full
  | assembler
  deriving DecidableEq, Repr

/-- Reads the command line of a program. -/
def command? : Tool → List String → Option Command
  | .assembler, arguments => .asm <$> asmOptions? arguments
  | .full, "asm" :: arguments => .asm <$> asmOptions? arguments
  | .full, "suite" :: arguments => .suite <$> suiteOptions? arguments
  | .full, _ => none

end CrossAssembler.CommandLine
