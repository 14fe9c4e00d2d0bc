import CrossAssembler.Instruction

/-!
# Reading instructions

`Instruction.parse` reads a list of tokens. Operands are read in a fixed order, so that a statement
with several faults has one determined error: the form of the statement comes first, except that the
words for the test of a conditional jump and for the direction of a shift are looked at after the
register; in `LET` the value is read before the register, elsewhere the operands are read from left
to right.
-/

namespace CrossAssembler

namespace Operand

/-- Reads an integer. One whose magnitude needs more than sixty-three bits is reported as out of
the range of a byte. -/
def readInteger (token : String) : Except ParseError Int :=
  match Numeral.value? token with
  | none => .error (.notNumeric token)
  | some value =>
    if value.natAbs < Numeral.magnitudeBound then .ok value else .error (.byteOutOfRange token)

/-- Reads a byte. -/
def readByte (token : String) : Except ParseError UInt8 := do
  let value ← readInteger token
  if 0 ≤ value ∧ value < 256 then .ok (UInt8.ofNat value.toNat)
  else .error (.byteOutOfRange token)

/-- Reads a register. -/
def readRegister (token : String) : Except ParseError Register :=
  match Keyword.find? Register token with
  | some reg => .ok reg
  | none => .error (.badRegisterName token)

/-- Reads an address, which may be one of the named cells. -/
def readAddress (token : String) : Except ParseError UInt8 :=
  match Keyword.find? Alias token with
  | some cell => .ok cell.address
  | none => readByte token

/-- Reads the operand of an addition or subtraction: a register, or else a byte. -/
def read (token : String) : Except ParseError Operand :=
  match Keyword.find? Register token with
  | some reg => .ok (.register reg)
  | none => .literal <$> readByte token

/-- Reads the name of a label. -/
def readLabel (token : String) : Except ParseError String :=
  if Token.opensComment token then .error (.reservedLabelName token) else .ok token

end Operand

namespace Instruction

open Operand Keyword

/-- An instruction without operands. -/
def parseBare (mnemonic : Mnemonic) (instruction : Instruction) :
    List String → Except ParseError Instruction
  | [] => .ok instruction
  | _ => .error (.malformed mnemonic)

/-- The one label name after `LABEL` or `GOTO`. -/
def parseLabel (mnemonic : Mnemonic) : List String → Except ParseError String
  | [] => .error (.malformed mnemonic)
  | [name] => readLabel name
  | names => .error (.labelNameHasSpaces mnemonic (Text.unwords names))

/-- The operands of `LET`. -/
def parseAssign : List String → Except ParseError Instruction
  | [reg, sign, value] =>
    if sign = assignSign then do
      let value ← readByte value
      let reg ← readRegister reg
      .ok (.assign reg value false)
    else .error (.malformed .assign)
  | [reg, sign, mode, value] =>
    if sign = assignSign ∧ spells mode Connector.valueIn then do
      let value ← readAddress value
      let reg ← readRegister reg
      .ok (.assign reg value true)
    else .error (.malformed .assign)
  | _ => .error (.malformed .assign)

/-- The operands of `MEMCOPY`. -/
def parseMemcopy : List String → Except ParseError Instruction
  | [reg, into, target] =>
    if spells into Connector.into then do
      let reg ← readRegister reg
      let address ← readAddress target
      .ok (.memcopy reg address false)
    else .error (.malformed .memcopy)
  | [reg, into, mode, target] =>
    if spells into Connector.into ∧ spells mode Connector.addressIn then do
      let reg ← readRegister reg
      let address ← readAddress target
      .ok (.memcopy reg address true)
    else .error (.malformed .memcopy)
  | _ => .error (.malformed .memcopy)

/-- The one byte after `AND` or `OR`. -/
def parseMask (mnemonic : Mnemonic) : List String → Except ParseError UInt8
  | [value] => readByte value
  | _ => .error (.malformed mnemonic)

/-- The operands of `ADD` and `SUBTRACT`, which differ in their connector. -/
def parseArithmetic (mnemonic : Mnemonic) (connector : Connector) :
    List String → Except ParseError (Operand × Register)
  | [source, word, reg] =>
    if spells word connector then do
      let source ← Operand.read source
      let reg ← readRegister reg
      .ok (source, reg)
    else .error (.malformed mnemonic)
  | _ => .error (.malformed mnemonic)

/-- The operands of `IF`. -/
def parseBranch : List String → Except ParseError Instruction
  | [reg, test, word, target] =>
    if spells word Connector.goto then do
      let reg ← readRegister reg
      match find? Test test with
      | none => .error (.malformed .branch)
      | some test =>
        let target ← readLabel target
        .ok (.branch reg test target)
    else .error (.malformed .branch)
  | _ => .error (.malformed .branch)

/-- The least and the greatest number of places of a shift. -/
def shiftCounts : Int × Int := (1, 4)

/-- The register, direction and count of a shift, whose form is right. -/
def parseShift (reg direction : String) (count : Option String) :
    Except ParseError Instruction := do
  let reg ← readRegister reg
  if reg = .x then .error (.unsupportedRegister .bitshift .x)
  else match find? Direction direction with
    | none => .error (.malformed .bitshift)
    | some direction =>
      let count ← count.elim (.ok shiftCounts.1) readInteger
      if shiftCounts.1 ≤ count ∧ count ≤ shiftCounts.2 then
        .ok (.bitshift reg direction count.toNat)
      else .error (.shiftCountOutOfRange count)

/-- The operands of `BITSHIFT`. -/
def parseBitshift : List String → Except ParseError Instruction
  | [reg, direction] => parseShift reg direction none
  | [reg, direction, count] => parseShift reg direction (some count)
  | _ => .error (.malformed .bitshift)

/-- The bytes after `BYTES`. -/
def parseBytes : List String → Except ParseError Instruction
  | [] => .error (.malformed .bytes)
  | tokens => .bytes <$> tokens.mapM readByte

/-- The operands of a mnemonic. -/
def parseOperands (tokens : List String) : Mnemonic → Except ParseError Instruction
  | .label => .label <$> parseLabel .label tokens
  | .assign => parseAssign tokens
  | .goto => .goto <$> parseLabel .goto tokens
  | .syscall => parseBare .syscall .syscall tokens
  | .memcopy => parseMemcopy tokens
  | .and => .and <$> parseMask .and tokens
  | .or => .or <$> parseMask .or tokens
  | .add => (fun (source, reg) => .add source reg) <$> parseArithmetic .add .into tokens
  | .subtract =>
    (fun (source, reg) => .subtract source reg) <$> parseArithmetic .subtract .outOf tokens
  | .branch => parseBranch tokens
  | .halt => parseBare .halt .halt tokens
  | .bitshift => parseBitshift tokens
  | .noop => parseBare .noop .noop tokens
  | .bytes => parseBytes tokens

/-- Reads the tokens of one statement. -/
def parse : List String → Except ParseError Instruction
  | [] => .error .emptyStatement
  | first :: tokens =>
    match find? Mnemonic first with
    | none => .error (.undefinedKeyword first)
    | some mnemonic => parseOperands tokens mnemonic

end Instruction

end CrossAssembler
