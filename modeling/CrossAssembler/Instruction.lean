import CrossAssembler.Machine

/-!
# Instructions

An `Instruction` is what one statement of a source text asks for, with every operand read. The first
token of a statement is its mnemonic; the connectors stand between its operands. Each mnemonic has a
usage line, which a complaint about the form of a statement quotes.

A list of tokens that is no instruction has a `ParseError`, with a kind and a message. The kinds are
those of all failures of the assembler: the name of the kind opens the message about a source text,
and a test unit that must fail names the kind it expects.
-/

namespace CrossAssembler

/-! ## Mnemonics and connectors -/

/-- The first word of a statement. -/
inductive Mnemonic where
  | label
  | assign
  | goto
  | syscall
  | memcopy
  | and
  | or
  | add
  | subtract
  | branch
  | halt
  | bitshift
  | noop
  | bytes
  deriving DecidableEq, Repr

namespace Mnemonic

instance : Vocabulary Mnemonic where
  members :=
    [.label, .assign, .goto, .syscall, .memcopy, .and, .or, .add, .subtract, .branch, .halt,
     .bitshift, .noop, .bytes]
  spelling
    | .label => "LABEL"
    | .assign => "LET"
    | .goto => "GOTO"
    | .syscall => "SYSCALL"
    | .memcopy => "MEMCOPY"
    | .and => "AND"
    | .or => "OR"
    | .add => "ADD"
    | .subtract => "SUBTRACT"
    | .branch => "IF"
    | .halt => "HALT"
    | .bitshift => "BITSHIFT"
    | .noop => "NOOP"
    | .bytes => "BYTES"

/-- The form of the statements that the mnemonic begins. -/
def usage : Mnemonic → String
  | .label => "LABEL name"
  | .assign => "LET register = [VALUEIN] value"
  | .goto => "GOTO label"
  | .syscall => "SYSCALL"
  | .memcopy => "MEMCOPY register TO [ADDRESSIN] address"
  | .and => "AND value"
  | .or => "OR value"
  | .add => "ADD register|value TO register"
  | .subtract => "SUBTRACT register|value FROM register"
  | .branch => "IF register ISZERO|NOTZERO|OVERFLOW GOTO label"
  | .halt => "HALT"
  | .bitshift => "BITSHIFT A|B LEFT|RIGHT [1-4]"
  | .noop => "NOOP"
  | .bytes => "BYTES value [value ...]"

end Mnemonic

/-- A word between the operands of a statement. -/
inductive Connector where
  | into
  | outOf
  | goto
  | valueIn
  | addressIn
  deriving DecidableEq, Repr

instance : Vocabulary Connector where
  members := [.into, .outOf, .goto, .valueIn, .addressIn]
  spelling
    | .into => "TO"
    | .outOf => "FROM"
    | .goto => "GOTO"
    | .valueIn => "VALUEIN"
    | .addressIn => "ADDRESSIN"

/-- The sign between a register and the value it is set to. It has no case to ignore. -/
def assignSign : String := "="

/-! ## Instructions -/

/-- The value that is added or subtracted. -/
inductive Operand where
  | literal (value : UInt8)
  | register (reg : Register)
  deriving DecidableEq, Repr

/-- The condition of a conditional jump. -/
inductive Test where
  | isZero
  | notZero
  | overflow
  deriving DecidableEq, Repr

instance : Vocabulary Test where
  members := [.isZero, .notZero, .overflow]
  spelling
    | .isZero => "ISZERO"
    | .notZero => "NOTZERO"
    | .overflow => "OVERFLOW"

/-- The direction of a shift. -/
inductive Direction where
  | left
  | right
  deriving DecidableEq, Repr

instance : Vocabulary Direction where
  members := [.left, .right]
  spelling
    | .left => "LEFT"
    | .right => "RIGHT"

/-- One instruction. Where an operand may be `indirect` it is the address of the value, or of the
cell that holds the target address. -/
inductive Instruction where
  | label (name : String)
  | assign (reg : Register) (value : UInt8) (indirect : Bool)
  | goto (target : String)
  | syscall
  | memcopy (reg : Register) (address : UInt8) (indirect : Bool)
  | and (value : UInt8)
  | or (value : UInt8)
  | add (source : Operand) (reg : Register)
  | subtract (source : Operand) (reg : Register)
  | branch (reg : Register) (test : Test) (target : String)
  | halt
  | bitshift (reg : Register) (direction : Direction) (count : Nat)
  | noop
  | bytes (values : List UInt8)
  deriving DecidableEq, Repr

/-! ## Kinds of errors -/

/-- What a failure is about. -/
inductive ErrorKind where
  /-- The form of a statement. -/
  | syntaxError
  /-- The size of a number. -/
  | rangeError
  /-- The name of a register or label. -/
  | nameError
  /-- The arrangement of a program in memory. -/
  | layoutError
  deriving DecidableEq, Repr

/-- The name of the kind. -/
def ErrorKind.title : ErrorKind → String
  | .syntaxError => "Syntax"
  | .rangeError => "Range"
  | .nameError => "Name"
  | .layoutError => "Layout"

/-! ## Why a statement is refused -/

/-- Why a list of tokens is no instruction. -/
inductive ParseError where
  /-- There is no token. -/
  | emptyStatement
  /-- The first token is no mnemonic. -/
  | undefinedKeyword (token : String)
  /-- The operands do not have the form that the mnemonic asks for. -/
  | malformed (mnemonic : Mnemonic)
  /-- A token in the place of a number is no numeral. -/
  | notNumeric (token : String)
  /-- A numeral does not denote a byte. -/
  | byteOutOfRange (token : String)
  /-- A shift is not by one to four places. -/
  | shiftCountOutOfRange (count : Int)
  /-- A token in the place of a register is no register. -/
  | badRegisterName (token : String)
  /-- The instruction does not exist for the register. -/
  | unsupportedRegister (mnemonic : Mnemonic) (reg : Register)
  /-- More than one token stands in the place of a label name. -/
  | labelNameHasSpaces (mnemonic : Mnemonic) (name : String)
  /-- A label name begins as a comment does. -/
  | reservedLabelName (name : String)
  deriving DecidableEq, Repr

namespace ParseError

/-- The kind of the error. -/
def kind : ParseError → ErrorKind
  | .emptyStatement | .undefinedKeyword _ | .malformed _ | .notNumeric _ => .syntaxError
  | .byteOutOfRange _ | .shiftCountOutOfRange _ => .rangeError
  | .badRegisterName _ | .unsupportedRegister _ _ | .labelNameHasSpaces _ _
  | .reservedLabelName _ => .nameError

/-- The message about the error. -/
def message : ParseError → String
  | .emptyStatement => "Empty statement"
  | .undefinedKeyword token => s!"Undefined keyword: {token}"
  | .malformed mnemonic => s!"{spelling mnemonic} requires the form '{mnemonic.usage}'"
  | .notNumeric token =>
    "Value must be a decimal, octal (leading 0) or hexadecimal (leading 0x) integer " ++
      s!"(found: {token})"
  | .byteOutOfRange token => s!"Byte value must be in range 0-0377 (found: {token})"
  | .shiftCountOutOfRange count => s!"BITSHIFT count must be in range 1-4 (found: {count})"
  | .badRegisterName token => s!"Variable name must be A, B, or X (found: {token})"
  | .unsupportedRegister mnemonic reg =>
    s!"{spelling mnemonic} does not support register {spelling reg}"
  | .labelNameHasSpaces mnemonic name =>
    s!"{spelling mnemonic} takes a single label name, " ++
      s!"and label names may not contain spaces (found: {name})"
  | .reservedLabelName name => s!"Label names may not start with '#' (found: {name})"

end ParseError

end CrossAssembler
