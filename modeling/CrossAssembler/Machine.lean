import CrossAssembler.Text

/-!
# The machine

The machine has 256 one-byte cells. The first three hold the registers `A`, `B` and `X`, the fourth
the program counter, and code starts right after them. The cells from `Memory.display` up to
`Memory.reservedEnd` drive the display lamps and keep the overflow flags of the registers, so no
code may lie there; the last cell reads the input switches.

* A `Register` has its place in memory, an overflow flag in the reserved block, and an offset that
  selects it inside an operation code.
* An `Alias` is a cell that source text may name where it wants an address: a register, the program
  counter `P`, the display lamps or the input switches.
* The operation codes are given in their form for register `A`, with the parts that are added to
  them. An operation that takes its operand from memory, or from a register, has `Opcode.indirect`
  added; a shift is `Opcode.shift` with its direction, register and count added.
-/

namespace CrossAssembler

/-! ## Memory -/

namespace Memory

/-- The number of cells. -/
def size : Nat := 0o400

/-- The address of the first cell of code. -/
def programStart : Nat := 0o4

/-- The address of the display lamps, the first cell of the reserved block. -/
def display : Nat := 0o200

/-- The address after the reserved block: the lamps and three overflow flags. -/
def reservedEnd : Nat := 0o204

/-- The address of the input switches. -/
def input : Nat := 0o377

/-- The cells a jump takes: its operation code and its destination. -/
def jumpCells : Nat := 2

/-- The last address at which a jump over the reserved block may start and still end before it. -/
def safeJumpLimit : Nat := 0o176

/-- The contents of the first four cells: the registers cleared, the program counter at the first
cell of code. -/
def header : List UInt8 := [0, 0, 0, 4]

/-- A jump that starts at the last safe address ends exactly where the reserved block begins. -/
theorem safeJumpLimit_add_jumpCells : safeJumpLimit + jumpCells = display := rfl

/-- The header fills the cells before the code. -/
theorem length_header : header.length = programStart := rfl

end Memory

/-! ## Registers -/

/-- A register of the machine. -/
inductive Register where
  | a
  | b
  | x
  deriving DecidableEq, Repr

namespace Register

instance : Vocabulary Register where
  members := [.a, .b, .x]
  spelling
    | .a => "A"
    | .b => "B"
    | .x => "X"

/-- What an operation code adds to its form for register `A` to name this register. -/
def offset : Register → UInt8
  | .a => 0o000
  | .b => 0o100
  | .x => 0o200

/-- The cell that holds the register. -/
def address : Register → UInt8
  | .a => 0o0
  | .b => 0o1
  | .x => 0o2

/-- The cell that holds the overflow flag of the register. -/
def overflowFlag : Register → UInt8
  | .a => 0o201
  | .b => 0o202
  | .x => 0o203

/-- The operation code `base`, given in its form for register `A`, for this register. -/
def select (reg : Register) (base : UInt8) : UInt8 := base + reg.offset

end Register

/-! ## Named addresses -/

/-- A cell with a name. -/
inductive Alias where
  | a
  | b
  | x
  | p
  | display
  | input
  deriving DecidableEq, Repr

namespace Alias

instance : Vocabulary Alias where
  members := [.a, .b, .x, .p, .display, .input]
  spelling
    | .a => "A"
    | .b => "B"
    | .x => "X"
    | .p => "P"
    | .display => "DISPLAY"
    | .input => "INPUT"

/-- The address that the name stands for. -/
def address : Alias → UInt8
  | .a => Register.a.address
  | .b => Register.b.address
  | .x => Register.x.address
  | .p => 0o3
  | .display => UInt8.ofNat Memory.display
  | .input => UInt8.ofNat Memory.input

end Alias

/-! ## Operation codes -/

namespace Opcode

/-- Stops the machine. -/
def halt : UInt8 := 0o000

/-- Adds the operand to a register. -/
def add : UInt8 := 0o003

/-- Subtracts the operand from a register. -/
def subtract : UInt8 := 0o013

/-- Loads a register. -/
def load : UInt8 := 0o023

/-- Stores a register. -/
def store : UInt8 := 0o034

/-- Jumps if a register is not zero. -/
def notZero : UInt8 := 0o043

/-- Jumps if a register is zero. -/
def isZero : UInt8 := 0o044

/-- Skips the next operation if the flag that follows is clear. -/
def overflowProbe : UInt8 := 0o212

/-- Does nothing. -/
def noop : UInt8 := 0o300

/-- Joins the operand to register `A` bit by bit. -/
def or : UInt8 := 0o303

/-- Masks register `A` with the operand. -/
def and : UInt8 := 0o323

/-- Jumps always. -/
def jump : UInt8 := 0o344

/-- Calls the system. -/
def syscall : UInt8 := 0o360

/-- Marks an operand that is the address of the value, or a register. -/
def indirect : UInt8 := 0o001

/-- Shifts register `A` right. -/
def shift : UInt8 := 0o001

/-- Turns a shift left. -/
def shiftLeft : UInt8 := 0o200

/-- Makes a shift one of register `B`. -/
def shiftB : UInt8 := 0o040

/-- One place of a shift by fewer than four places; a shift by four has no count bits. -/
def shiftCount : UInt8 := 0o010

end Opcode

end CrossAssembler
