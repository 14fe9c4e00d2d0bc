import CrossAssembler.Host

/-!
# Test suites

A suite is a directory. Each file in it whose extension is that of a source file is a unit, named by
its stem, and its expectation is the file beside it with the same stem. The units run in the order
of their names, so the order in which a host lists the files does not show.

The expectation of a unit is the upload it assembles to, compared line by line, or `error:` and the
kind of error it fails with, in any mixture of capitals and small letters. A suite prints a heading,
one entry for each unit and a summary. The results stand in a column to the right of the longest
name, whose width is counted in bytes.
-/

namespace CrossAssembler

/-! ## Expectations and outcomes -/

/-- How a unit fares against its expectation. -/
inductive Outcome where
  | pass
  /-- The upload differs from the expected one, first in this line. -/
  | mismatch (line : Nat)
  /-- An upload was expected, but the assembly fails. -/
  | assemblyError (cause : AssemblyError)
  /-- The assembly fails as expected, but with an error of this kind. -/
  | wrongError (kind : ErrorKind)
  /-- An error was expected, but the assembly succeeds. -/
  | missingError
  deriving DecidableEq, Repr

namespace Outcome

/-- What an expectation of an error begins with. -/
def errorMark : List Char := "error:".toList

/-- The kind of error that an expectation names, if it expects one. -/
def expectedKind? (expected : String) : Option (List Char) :=
  let text := Text.trim expected.toList
  if errorMark.isPrefixOf text then some (Text.trim (text.drop errorMark.length)) else none

/-- The number of the first line, counted from one, in which two lists of lines differ. -/
def firstDifference? : List String → List String → Option Nat
  | [], [] => none
  | a :: as, b :: bs => if a = b then (firstDifference? as bs).map (· + 1) else some 1
  | _, _ => some 1

/-- Whether two texts agree up to the case of ASCII letters. -/
def sameAsciiLetters (a b : List Char) : Bool := a.map Char.toLower == b.map Char.toLower

/-- Compares what a source text assembles to with the expectation. -/
def judge (actual : Except AssemblyError String) (expected : String) : Outcome :=
  match actual, expectedKind? expected with
  | .ok text, none =>
    match firstDifference? (Text.lines text) (Text.lines expected) with
    | none => .pass
    | some line => .mismatch line
  | .ok _, some _ => .missingError
  | .error cause, none => .assemblyError cause
  | .error cause, some kind =>
    if sameAsciiLetters cause.kind.title.toList kind then .pass else .wrongError cause.kind

/-- The outcome of a unit. -/
def ofUnit (source expected : String) : Outcome := judge (assemble source true) expected

/-- Whether the unit passes. -/
def isPass (outcome : Outcome) : Bool := outcome == .pass

/-- A text whose lines after the first are indented by a tab. -/
def indent (text : String) : String :=
  String.ofList (text.toList.flatMap fun c => if c = '\n' then ['\n', '\t'] else [c])

/-- What is reported about the unit. -/
def message : Outcome → String
  | .pass => Paint.green "PASS"
  | .mismatch line => Paint.red "FAIL: OUTPUT MISMATCH" ++ " at line " ++ toString line
  | .assemblyError cause => Paint.red "FAIL: ASSEMBLY ERROR" ++ ":\n\t" ++ indent cause.message
  | .wrongError kind => Paint.red "FAIL: WRONG ERROR" ++ " (" ++ kind.title ++ " error)"
  | .missingError => Paint.red "FAIL: NO ERROR"

end Outcome

/-! ## The report of a suite -/

/-- What became of a unit; its files may not be readable. -/
abbrev UnitResult := Except CommandError Outcome

namespace UnitResult

/-- Whether the unit passes. A unit that cannot be read does not. -/
def isPass : UnitResult → Bool
  | .ok outcome => outcome.isPass
  | .error _ => false

/-- What is reported about the unit. -/
def message : UnitResult → String
  | .ok outcome => outcome.message
  | .error e => Paint.red "FAIL: IO ERROR" ++ ": " ++ e.message

end UnitResult

/-- The results of the units of a suite, by name. -/
structure Report where
  suite : String
  results : List (String × UnitResult)

namespace Report

/-- The width of the column of names. -/
def nameWidth (report : Report) : Nat :=
  (report.results.map fun (name, _) => name.utf8ByteSize).foldr max 0

/-- A text of one character repeated. -/
def fill (c : Char) (count : Nat) : String := String.ofList (List.replicate count c)

/-- The line above and below the entries. -/
def rule (report : Report) : String := fill '-' (report.nameWidth + 45) ++ "\n"

/-- A number, filled up on the left to two characters. -/
def paddedNumber (n : Nat) : String := String.ofList ((Nat.toDigits 10 n).leftpad 2 ' ')

/-- The entry of a unit. -/
def entry (width : Nat) (number : Nat) (name : String) (result : UnitResult) : String :=
  "Unit " ++ paddedNumber number ++ ": " ++ name ++ " " ++
    fill ' ' (width - name.utf8ByteSize) ++ result.message ++ "\n"

/-- The entries of all units. -/
def entries (report : Report) : List String :=
  (report.results.zipIdx 1).map fun ((name, result), number) =>
    entry report.nameWidth number name result

/-- The number of units. -/
def total (report : Report) : Nat := report.results.length

/-- The number of units that pass. -/
def passes (report : Report) : Nat := report.results.countP fun (_, result) => result.isPass

/-- Whether all units pass. -/
def success (report : Report) : Bool := report.passes == report.total

/-- The heading. -/
def heading (report : Report) : String :=
  s!"Running suite: '{report.suite}' ({report.total} units)\n"

/-- The summary. -/
def summary (report : Report) : String :=
  "Suite Result: " ++ (if report.success then Paint.green "SUCCESS" else Paint.red "FAILED") ++
    s!", {report.passes}/{report.total} passes\n"

/-- The report as it is printed. -/
def text (report : Report) : String :=
  report.heading ++ report.rule ++ String.join report.entries ++ report.rule ++ report.summary

end Report

/-! ## Running a suite -/

/-- Which suite to run. -/
structure SuiteOptions where
  /-- The name of the suite. -/
  suite : String
  /-- The directory that holds the suites. -/
  root : String
  /-- The one unit to run. -/
  only : Option String := none
  deriving DecidableEq, Repr

/-- A unit and its two files. -/
structure SuiteUnit where
  name : String
  source : String
  expectation : String
  deriving DecidableEq, Repr

namespace SuiteUnit

/-- The extension of a source file. -/
def sourceExtension : String := "kbs"

/-- The extension of an expectation. -/
def expectationExtension : String := "expected"

/-- The unit of a file in a directory, if the file is a source file. -/
def ofFile? (directory fileName : String) : Option SuiteUnit :=
  match Path.splitExtension? fileName with
  | none => none
  | some (stem, extension) =>
    if extension = sourceExtension then
      some
        { name := stem
          source := Path.join directory fileName
          expectation := Path.join directory (Path.withExtension stem expectationExtension) }
    else none

end SuiteUnit

namespace Suite

/-- The directory that holds the suites if no other is given. -/
def defaultRoot : String := "asm"

/-- The directory of a suite. -/
def directory (options : SuiteOptions) : String := Path.join options.root options.suite

/-- The units that are to run, in the order of their names. -/
def select (options : SuiteOptions) (units : List SuiteUnit) :
    Except CommandError (List SuiteUnit) :=
  match options.only with
  | none => .ok (units.mergeSort fun a b => a.name ≤ b.name)
  | some name =>
    match units.find? (·.name == name) with
    | some unit => .ok [unit]
    | none => .error (.noUnit name (directory options))

variable {m : Type → Type} [Monad m] [Host m]

/-- The units of a suite, in the order in which the host lists their files. -/
def units (options : SuiteOptions) : Effect m (List SuiteUnit) := do
  let names ← Effect.attempt (Host.fileNames (directory options)) (.openSuite (directory options))
  return names.filterMap (SuiteUnit.ofFile? (directory options))

/-- Runs a unit. -/
def runUnit (unit : SuiteUnit) : Effect m Outcome := do
  let source ← Effect.readText unit.source
  let expected ← Effect.readText unit.expectation
  return Outcome.ofUnit source expected

/-- Runs units one after the other. -/
def runUnits : List SuiteUnit → m (List (String × UnitResult))
  | [] => return []
  | unit :: units => do
    let result ← (runUnit unit).run
    let results ← runUnits units
    return (unit.name, result) :: results

/-- Runs a suite; the result is whether all its units pass. -/
def run (options : SuiteOptions) : Effect m Bool := do
  let units ← units options
  let selected ← Effect.ofExcept (select options units)
  let results ← ExceptT.lift (runUnits selected)
  let report : Report := { suite := options.suite, results }
  Effect.print report.text
  return report.success

end Suite

end CrossAssembler
