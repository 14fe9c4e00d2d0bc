import CrossAssembler.Instruction.Parse

/-!
# Statements and their code

An instruction becomes a few fragments: operation bytes, labels and jumps. A fragment has a place in
memory and takes some cells there: a byte one, a label none, a jump two. A label remembers whether a
jump uses it, a jump the address it was resolved to; until the program is laid out every fragment
lies at address zero, no label is used and no jump has a destination.

Every instruction has code, also one that no statement can ask for, such as a shift of register `X`
or a list of no bytes. A statement keeps the tokens it was written with beside the fragments of its
code.
-/

namespace CrossAssembler

/-! ## Fragments of code -/

/-- When a jump is taken. -/
inductive JumpKind where
  | unconditional
  | isZero (reg : Register)
  | notZero (reg : Register)
  | overflow (reg : Register)
  deriving DecidableEq, Repr

/-- The operation code of a jump. There is none for a jump on overflow: its first byte is the
address of the register's overflow flag. -/
def JumpKind.opcode : JumpKind → UInt8
  | .unconditional => Opcode.jump
  | .isZero reg => reg.select Opcode.isZero
  | .notZero reg => reg.select Opcode.notZero
  | .overflow reg => reg.overflowFlag

/-- What a fragment puts into memory. -/
inductive Content where
  | operation (value : UInt8)
  | label (name : String) (used : Bool)
  | jump (kind : JumpKind) (target : String) (destination : Option UInt8)
  deriving DecidableEq, Repr

/-- A piece of code at a place in memory. -/
structure Fragment where
  location : Nat
  content : Content
  deriving DecidableEq, Repr

namespace Fragment

/-- An operation byte that is not placed yet. -/
def operation (value : UInt8) : Fragment := ⟨0, .operation value⟩

/-- A label that is not placed yet. -/
def label (name : String) : Fragment := ⟨0, .label name false⟩

/-- A jump that is neither placed nor resolved yet. -/
def jump (kind : JumpKind) (target : String) : Fragment := ⟨0, .jump kind target none⟩

/-- The number of cells the fragment takes. -/
def cells (fragment : Fragment) : Nat :=
  match fragment.content with
  | .operation _ => 1
  | .label _ _ => 0
  | .jump _ _ _ => Memory.jumpCells

/-- The number of cells that fragments take together. -/
def totalCells : List Fragment → Nat
  | [] => 0
  | fragment :: fragments => fragment.cells + totalCells fragments

/-- The bytes of the fragment's cells. A jump that is not resolved goes to address zero. -/
def values (fragment : Fragment) : List UInt8 :=
  match fragment.content with
  | .operation value => [value]
  | .label _ _ => []
  | .jump kind _ destination => [kind.opcode, destination.getD 0]

/-- The addresses and bytes of the fragment's cells. -/
def placedValues (fragment : Fragment) : List (Nat × UInt8) :=
  fragment.values.zipIdx.map fun (value, offset) => (fragment.location + offset, value)

/-- The name of a label, if the fragment is one. -/
def labelName? (fragment : Fragment) : Option String :=
  match fragment.content with
  | .label name _ => some name
  | _ => none

/-- The target of a jump, if the fragment is one. -/
def target? (fragment : Fragment) : Option String :=
  match fragment.content with
  | .jump _ target _ => some target
  | _ => none

/-- The bytes of the fragment in octal, one to a line; a label has none. -/
def codes? (fragment : Fragment) : Option String :=
  match fragment.content with
  | .label _ _ => none
  | _ => some ("\n".intercalate (fragment.values.map fun value => octal value.toNat))

/-- The fragment with its place: address and byte of each cell, or the name of the label. -/
def display (fragment : Fragment) : String :=
  match fragment.content with
  | .label name _ => s!"(label {name})"
  | _ => "\n".intercalate
      (fragment.placedValues.map fun (address, value) => s!"{octal address}: {octal value.toNat}")

/-- A fragment has one byte for each of its cells. -/
theorem length_values (fragment : Fragment) : fragment.values.length = fragment.cells := by
  obtain ⟨location, content⟩ := fragment
  cases content <;> rfl

end Fragment

/-! ## The code of an instruction -/

namespace Instruction

/-- An operation code whose operand is taken as it stands or marked as indirect. -/
def withMode (base : UInt8) (indirect : Bool) : UInt8 :=
  if indirect then base + Opcode.indirect else base

/-- An operation with one operand byte. -/
def encodePair (opcode operand : UInt8) : List Fragment :=
  [.operation opcode, .operation operand]

/-- An addition or subtraction. -/
def encodeArithmetic (base : UInt8) (reg : Register) : Operand → List Fragment
  | .literal value => encodePair (withMode (reg.select base) false) value
  | .register source => encodePair (withMode (reg.select base) true) source.address

/-- A conditional jump. There is no jump on overflow: the flag is probed, and the jump after the
probe is skipped if the flag is clear. -/
def encodeBranch (reg : Register) (target : String) : Test → List Fragment
  | .isZero => [.jump (.isZero reg) target]
  | .notZero => [.jump (.notZero reg) target]
  | .overflow =>
    [.operation Opcode.overflowProbe, .operation (JumpKind.overflow reg).opcode,
     .jump .unconditional target]

/-- The operation code of a shift. A shift by four places has no count bits. -/
def shiftOpcode (reg : Register) (direction : Direction) (count : Nat) : UInt8 :=
  Opcode.shift
    + (if direction = .left then Opcode.shiftLeft else 0)
    + (if reg = .b then Opcode.shiftB else 0)
    + (if count < 4 then UInt8.ofNat count * Opcode.shiftCount else 0)

/-- The code of an instruction. -/
def encode : Instruction → List Fragment
  | .label name => [.label name]
  | .assign reg value indirect => encodePair (withMode (reg.select Opcode.load) indirect) value
  | .goto target => [.jump .unconditional target]
  | .syscall => [.operation Opcode.syscall]
  | .memcopy reg address indirect =>
    encodePair (withMode (reg.select Opcode.store) indirect) address
  | .and value => encodePair Opcode.and value
  | .or value => encodePair Opcode.or value
  | .add source reg => encodeArithmetic Opcode.add reg source
  | .subtract source reg => encodeArithmetic Opcode.subtract reg source
  | .branch reg test target => encodeBranch reg target test
  | .halt => [.operation Opcode.halt]
  | .bitshift reg direction count => [.operation (shiftOpcode reg direction count)]
  | .noop => [.operation Opcode.noop]
  | .bytes values => values.map .operation

end Instruction

/-! ## Statements -/

/-- One statement of a program. -/
structure Statement where
  tokens : List String
  fragments : List Fragment
  deriving DecidableEq, Repr

namespace Statement

/-- The statement of an instruction that is written with the given tokens. -/
def ofInstruction (tokens : List String) (instruction : Instruction) : Statement :=
  ⟨tokens, instruction.encode⟩

/-- The statement that a list of tokens writes. -/
def ofTokens (tokens : List String) : Except ParseError Statement :=
  ofInstruction tokens <$> Instruction.parse tokens

/-- The text of the statement, its tokens one space apart. -/
def text (statement : Statement) : String := Text.unwords statement.tokens

/-- The number of cells the statement takes. -/
def cells (statement : Statement) : Nat := Fragment.totalCells statement.fragments

end Statement

end CrossAssembler
