import CrossAssembler.Proofs.Fallible
import CrossAssembler.Proofs.Keywords
import CrossAssembler.Proofs.NumeralValues

/-!
# The language of statements

`Denotes` gives the forms of a statement and the instruction that each one denotes: a constructor
for each form, with the words that stand in it. `Instruction.parse` reads this language and no
other (`parse_eq_ok_iff`).

Words are compared with keywords letter for letter (`Keyword.Is`), and the count of a shift is what
its numeral denotes (`Numeral.Denotes`). The operands have relations of their own: `IsName` for the
name of a label, `IsAddress` for an address and `IsSource` for what is added or subtracted, and
tables (`registers`, `cells`, `tests`, `directions`) for what is written as one keyword. The readers
of operands are these relations (`readRegister_eq_ok_iff`, `readAddress_eq_ok_iff`,
`read_eq_ok_iff`, `readLabel_eq_ok_iff`), and a mnemonic leads to the reader of its form
(`parse_of_is`).
-/

namespace CrossAssembler

open Fallible Keyword

namespace Operand

/-- The keywords of the registers. -/
def registers : List (String × Register) := [("A", .a), ("B", .b), ("X", .x)]

/-- The keywords of cells, with their addresses. -/
def cells : List (String × UInt8) :=
  [("A", 0), ("B", 1), ("X", 2), ("P", 3), ("DISPLAY", 128), ("INPUT", 255)]

/-- The token may be the name of a label. -/
def IsName (token : String) : Prop := token.toList.head? ≠ some '#'

/-- The token is an address: the keyword of a cell, or else a byte. -/
inductive IsAddress (token : String) (address : UInt8) : Prop where
  | cell (h : Names cells token address)
  | byte (hnot : ∀ other, ¬ Names cells token other) (h : readByte token = .ok address)

/-- The token is an operand of an addition or subtraction: a register, or else a byte. -/
inductive IsSource (token : String) : Operand → Prop where
  | register {reg : Register} (h : Names registers token reg) : IsSource token (.register reg)
  | literal {value : UInt8} (hnot : ∀ reg, ¬ Names registers token reg)
      (h : readByte token = .ok value) : IsSource token (.literal value)

/-! ## Readers of operands -/

theorem names_registers_iff {token : String} {reg : Register} :
    Names registers token reg ↔ find? Register token = some reg :=
  (names_members_iff (f := id)).trans ⟨fun ⟨_, h, hreg⟩ => hreg ▸ h, fun h => ⟨reg, h, rfl⟩⟩

theorem readRegister_eq_ok_iff {token : String} {reg : Register} :
    readRegister token = .ok reg ↔ Names registers token reg := by
  rw [names_registers_iff, readRegister]
  cases find? Register token <;> simp

theorem readAddress_eq_ok_iff {token : String} {address : UInt8} :
    readAddress token = .ok address ↔ IsAddress token address := by
  have hnames : ∀ value, Names cells token value ↔
      ∃ cell, find? Alias token = some cell ∧ cell.address = value :=
    fun _ => names_members_iff (f := Alias.address)
  have hnone : (∀ value, ¬ Names cells token value) ↔ find? Alias token = none :=
    forall_not_names_members_iff (f := Alias.address)
  unfold readAddress
  constructor
  · intro h
    split at h
    · rename_i cell hcell
      exact .cell ((hnames address).2 ⟨cell, hcell, Except.ok.inj h⟩)
    · rename_i hcell
      exact .byte (hnone.2 hcell) h
  · rintro (h | ⟨hnot, h⟩)
    · obtain ⟨cell, hcell, rfl⟩ := (hnames address).1 h
      rw [hcell]
    · rw [hnone.1 hnot]
      exact h

theorem read_eq_ok_iff {token : String} {operand : Operand} :
    Operand.read token = .ok operand ↔ IsSource token operand := by
  have hnone : (∀ reg, ¬ Names registers token reg) ↔ find? Register token = none :=
    forall_not_names_members_iff (f := id)
  unfold Operand.read
  constructor
  · intro h
    split at h
    · rename_i reg hreg
      cases h
      exact .register (names_registers_iff.2 hreg)
    · rename_i hreg
      obtain ⟨value, hvalue, rfl⟩ := map_eq_ok.1 h
      exact .literal (hnone.2 hreg) hvalue
  · rintro (h | ⟨hnot, h⟩)
    · rw [names_registers_iff.1 h]
    · rw [hnone.1 hnot]
      exact map_eq_ok.2 ⟨_, h, rfl⟩

theorem readLabel_eq_ok_iff {token name : String} :
    readLabel token = .ok name ↔ token = name ∧ IsName name := by
  have hopens : Token.opensComment token = true ↔ ¬ IsName token :=
    beq_iff_eq.trans Classical.not_not.symm
  unfold readLabel
  by_cases hname : IsName token
  · rw [if_neg (fun h => hopens.1 h hname), Except.ok.injEq]
    exact ⟨fun h => ⟨h, h ▸ hname⟩, And.left⟩
  · rw [if_pos (hopens.2 hname)]
    refine ⟨nofun, ?_⟩
    rintro ⟨rfl, h⟩
    exact absurd h hname

end Operand

namespace Instruction

open Operand

/-- The keywords of the tests. -/
def tests : List (String × Test) :=
  [("ISZERO", .isZero), ("NOTZERO", .notZero), ("OVERFLOW", .overflow)]

/-- The keywords of the directions. -/
def directions : List (String × Direction) := [("LEFT", .left), ("RIGHT", .right)]

/-- A statement that is written with some tokens denotes an instruction. -/
inductive Denotes : List String → Instruction → Prop where
  | label {word name : String} (hword : Is "LABEL" word) (hname : IsName name) :
      Denotes [word, name] (.label name)
  | goto {word name : String} (hword : Is "GOTO" word) (hname : IsName name) :
      Denotes [word, name] (.goto name)
  | syscall {word : String} (hword : Is "SYSCALL" word) : Denotes [word] .syscall
  | halt {word : String} (hword : Is "HALT" word) : Denotes [word] .halt
  | noop {word : String} (hword : Is "NOOP" word) : Denotes [word] .noop
  | assign {word left right : String} {reg : Register} {value : UInt8} (hword : Is "LET" word)
      (hreg : Names registers left reg) (hvalue : readByte right = .ok value) :
      Denotes [word, left, "=", right] (.assign reg value false)
  | assignIndirect {word left mode right : String} {reg : Register} {address : UInt8}
      (hword : Is "LET" word) (hmode : Is "VALUEIN" mode) (hreg : Names registers left reg)
      (haddress : IsAddress right address) :
      Denotes [word, left, "=", mode, right] (.assign reg address true)
  | memcopy {word left into right : String} {reg : Register} {address : UInt8}
      (hword : Is "MEMCOPY" word) (hinto : Is "TO" into) (hreg : Names registers left reg)
      (haddress : IsAddress right address) :
      Denotes [word, left, into, right] (.memcopy reg address false)
  | memcopyIndirect {word left into mode right : String} {reg : Register} {address : UInt8}
      (hword : Is "MEMCOPY" word) (hinto : Is "TO" into) (hmode : Is "ADDRESSIN" mode)
      (hreg : Names registers left reg) (haddress : IsAddress right address) :
      Denotes [word, left, into, mode, right] (.memcopy reg address true)
  | and {word operand : String} {value : UInt8} (hword : Is "AND" word)
      (hvalue : readByte operand = .ok value) : Denotes [word, operand] (.and value)
  | or {word operand : String} {value : UInt8} (hword : Is "OR" word)
      (hvalue : readByte operand = .ok value) : Denotes [word, operand] (.or value)
  | add {word left into right : String} {source : Operand} {reg : Register} (hword : Is "ADD" word)
      (hinto : Is "TO" into) (hsource : IsSource left source) (hreg : Names registers right reg) :
      Denotes [word, left, into, right] (.add source reg)
  | subtract {word left outOf right : String} {source : Operand} {reg : Register}
      (hword : Is "SUBTRACT" word) (houtOf : Is "FROM" outOf) (hsource : IsSource left source)
      (hreg : Names registers right reg) :
      Denotes [word, left, outOf, right] (.subtract source reg)
  | branch {word left middle goto name : String} {reg : Register} {test : Test}
      (hword : Is "IF" word) (hgoto : Is "GOTO" goto) (hreg : Names registers left reg)
      (htest : Names tests middle test) (hname : IsName name) :
      Denotes [word, left, middle, goto, name] (.branch reg test name)
  | bitshift {word left right : String} {reg : Register} {direction : Direction}
      (hword : Is "BITSHIFT" word) (hreg : Names registers left reg) (hx : reg ≠ .x)
      (hdirection : Names directions right direction) :
      Denotes [word, left, right] (.bitshift reg direction 1)
  | bitshiftBy {word left right numeral : String} {reg : Register} {direction : Direction}
      {count : Nat} (hword : Is "BITSHIFT" word) (hreg : Names registers left reg)
      (hx : reg ≠ .x) (hdirection : Names directions right direction)
      (hcount : Numeral.Denotes numeral.toList count) (hlow : 1 ≤ count)
      (hhigh : count ≤ 4) :
      Denotes [word, left, right, numeral] (.bitshift reg direction count)
  | bytes {word : String} {operands : List String} {values : List UInt8} (hword : Is "BYTES" word)
      (hne : operands ≠ [])
      (hvalues : List.Forall₂ (fun operand value => readByte operand = .ok value) operands values) :
      Denotes (word :: operands) (.bytes values)

theorem names_tests_iff {token : String} {test : Test} :
    Names tests token test ↔ find? Test token = some test :=
  (names_members_iff (f := id)).trans ⟨fun ⟨_, h, htest⟩ => htest ▸ h, fun h => ⟨test, h, rfl⟩⟩

theorem names_directions_iff {token : String} {direction : Direction} :
    Names directions token direction ↔ find? Direction token = some direction :=
  (names_members_iff (f := id)).trans
    ⟨fun ⟨_, h, hdirection⟩ => hdirection ▸ h, fun h => ⟨direction, h, rfl⟩⟩

/-! ## Readers of forms -/

theorem parseLabel_eq_ok_iff {mnemonic : Mnemonic} {tokens : List String} {name : String} :
    parseLabel mnemonic tokens = .ok name ↔ tokens = [name] ∧ IsName name := by
  unfold parseLabel
  split
  · simp
  · rw [readLabel_eq_ok_iff, List.cons.injEq, and_iff_left rfl]
  · rename_i hne
    refine ⟨nofun, ?_⟩
    rintro ⟨rfl, -⟩
    exact absurd rfl (hne name)

theorem parseBare_eq_ok_iff {mnemonic : Mnemonic} {bare instruction : Instruction}
    {tokens : List String} :
    parseBare mnemonic bare tokens = .ok instruction ↔ tokens = [] ∧ bare = instruction := by
  unfold parseBare
  split <;> simp_all

theorem parseMask_eq_ok_iff {mnemonic : Mnemonic} {tokens : List String} {value : UInt8} :
    parseMask mnemonic tokens = .ok value ↔
      ∃ operand, tokens = [operand] ∧ readByte operand = .ok value := by
  unfold parseMask
  split
  · simp
  · rename_i hne
    refine ⟨nofun, ?_⟩
    rintro ⟨operand, rfl, -⟩
    exact absurd rfl (hne operand)

theorem parseArithmetic_eq_ok_iff {mnemonic : Mnemonic} {connector : Connector}
    {tokens : List String} {source : Operand} {reg : Register} :
    parseArithmetic mnemonic connector tokens = .ok (source, reg) ↔
      ∃ left word right, tokens = [left, word, right] ∧ Is (spelling connector) word ∧
        IsSource left source ∧ Names registers right reg := by
  unfold parseArithmetic
  split
  · rename_i left word right
    simp only [guarded_eq_ok_iff, spells_iff, read_eq_ok_iff, readRegister_eq_ok_iff]
    constructor
    · rintro ⟨hword, _, _, hsource, hreg, h⟩
      cases h
      exact ⟨left, word, right, rfl, hword, hsource, hreg⟩
    · rintro ⟨_, _, _, h, hword, hsource, hreg⟩
      cases h
      exact ⟨hword, source, reg, hsource, hreg, rfl⟩
  · rename_i hne
    refine ⟨nofun, ?_⟩
    rintro ⟨left, word, right, rfl, -⟩
    exact absurd rfl (hne left word right)

/-- The number of places of a shift: one if it is not written, else what a numeral denotes. -/
inductive IsCount : Option String → Nat → Prop where
  | default : IsCount none 1
  | numeral {numeral : String} {count : Nat} (hcount : Numeral.Denotes numeral.toList count)
      (hlow : 1 ≤ count) (hhigh : count ≤ 4) : IsCount (some numeral) count

theorem isCount_iff {written : Option String} {count : Nat} : IsCount written count ↔
    written.elim (.ok shiftCounts.1) readInteger = .ok (count : Int) ∧
      shiftCounts.1 ≤ (count : Int) ∧ (count : Int) ≤ shiftCounts.2 := by
  have hlow : shiftCounts.1 ≤ (count : Int) ↔ 1 ≤ count := Int.ofNat_le
  have hhigh : (count : Int) ≤ shiftCounts.2 ↔ count ≤ 4 := Int.ofNat_le
  rw [hlow, hhigh]
  constructor
  · rintro (_ | ⟨hcount, hlow, hhigh⟩)
    · exact ⟨rfl, by decide, by decide⟩
    · have hbound : (count : Int).natAbs < Numeral.magnitudeBound := by
        rw [Int.natAbs_natCast, Numeral.magnitudeBound]
        omega
      exact ⟨readInteger_eq_ok_iff.2 ⟨hcount, hbound⟩, hlow, hhigh⟩
  · rintro ⟨hread, hlow, hhigh⟩
    cases written with
    | none =>
      obtain rfl : 1 = count := Int.ofNat_inj.1 (Except.ok.inj hread)
      exact .default
    | some numeral => exact .numeral (readInteger_eq_ok_iff.1 hread).1 hlow hhigh

theorem parseShift_eq_ok_iff {left right : String} {written : Option String}
    {instruction : Instruction} :
    parseShift left right written = .ok instruction ↔
      ∃ reg direction count, Names registers left reg ∧ reg ≠ .x ∧
        Names directions right direction ∧ IsCount written count ∧
        instruction = .bitshift reg direction count := by
  unfold parseShift
  constructor
  · intro h
    obtain ⟨reg, hreg, h⟩ := bind_eq_ok.1 h
    split at h
    · cases h
    · rename_i hx
      split at h
      · cases h
      · rename_i direction hdirection
        obtain ⟨value, hvalue, h⟩ := bind_eq_ok.1 h
        split at h
        · rename_i hrange
          cases h
          -- a count in the range is not negative
          obtain ⟨count, rfl⟩ := Int.eq_ofNat_of_zero_le (Int.le_trans (by decide) hrange.1)
          exact ⟨reg, direction, count, readRegister_eq_ok_iff.1 hreg, hx,
            names_directions_iff.2 hdirection, isCount_iff.2 ⟨hvalue, hrange⟩, rfl⟩
        · cases h
  · rintro ⟨reg, direction, count, hreg, hx, hdirection, hcount, rfl⟩
    obtain ⟨hread, hrange⟩ := isCount_iff.1 hcount
    refine bind_eq_ok.2 ⟨reg, readRegister_eq_ok_iff.2 hreg, ?_⟩
    rw [if_neg hx, names_directions_iff.1 hdirection]
    refine bind_eq_ok.2 ⟨count, hread, ?_⟩
    rw [if_pos hrange, Int.toNat_natCast]

/-! ## The two directions -/

section

variable {word : String} {tokens : List String} {instruction : Instruction}

theorem denotes_of_parseAssign (hword : Is "LET" word) (h : parseAssign tokens = .ok instruction) :
    Denotes (word :: tokens) instruction := by
  unfold parseAssign at h
  split at h
  · obtain ⟨rfl, value, reg, hvalue, hreg, rfl⟩ := guarded_eq_ok_iff.1 h
    exact .assign hword (readRegister_eq_ok_iff.1 hreg) hvalue
  · obtain ⟨⟨rfl, hmode⟩, address, reg, haddress, hreg, rfl⟩ := guarded_eq_ok_iff.1 h
    exact .assignIndirect hword (spells_iff.1 hmode) (readRegister_eq_ok_iff.1 hreg)
      (readAddress_eq_ok_iff.1 haddress)
  · cases h

theorem denotes_of_parseMemcopy (hword : Is "MEMCOPY" word)
    (h : parseMemcopy tokens = .ok instruction) : Denotes (word :: tokens) instruction := by
  unfold parseMemcopy at h
  split at h
  · obtain ⟨hinto, reg, address, hreg, haddress, rfl⟩ := guarded_eq_ok_iff.1 h
    exact .memcopy hword (spells_iff.1 hinto) (readRegister_eq_ok_iff.1 hreg)
      (readAddress_eq_ok_iff.1 haddress)
  · obtain ⟨⟨hinto, hmode⟩, reg, address, hreg, haddress, rfl⟩ := guarded_eq_ok_iff.1 h
    exact .memcopyIndirect hword (spells_iff.1 hinto) (spells_iff.1 hmode)
      (readRegister_eq_ok_iff.1 hreg) (readAddress_eq_ok_iff.1 haddress)
  · cases h

theorem denotes_of_parseBranch (hword : Is "IF" word) (h : parseBranch tokens = .ok instruction) :
    Denotes (word :: tokens) instruction := by
  unfold parseBranch at h
  split at h
  · split at h
    · rename_i hgoto
      obtain ⟨reg, hreg, h⟩ := bind_eq_ok.1 h
      split at h
      · cases h
      · rename_i test htest
        obtain ⟨name, hlabel, h⟩ := bind_eq_ok.1 h
        cases h
        obtain ⟨rfl, hname⟩ := readLabel_eq_ok_iff.1 hlabel
        exact .branch hword (spells_iff.1 hgoto) (readRegister_eq_ok_iff.1 hreg)
          (names_tests_iff.2 htest) hname
    · cases h
  · cases h

theorem denotes_of_parseBitshift (hword : Is "BITSHIFT" word)
    (h : parseBitshift tokens = .ok instruction) : Denotes (word :: tokens) instruction := by
  unfold parseBitshift at h
  split at h
  · obtain ⟨reg, direction, count, hreg, hx, hdirection, ⟨⟩, rfl⟩ := parseShift_eq_ok_iff.1 h
    exact .bitshift hword hreg hx hdirection
  · obtain ⟨reg, direction, count, hreg, hx, hdirection, hcount, rfl⟩ := parseShift_eq_ok_iff.1 h
    cases hcount with
    | numeral hcount hlow hhigh => exact .bitshiftBy hword hreg hx hdirection hcount hlow hhigh
  · cases h

theorem denotes_of_parseBytes (hword : Is "BYTES" word) (h : parseBytes tokens = .ok instruction) :
    Denotes (word :: tokens) instruction := by
  unfold parseBytes at h
  split at h
  · cases h
  · rename_i hne
    obtain ⟨values, hvalues, rfl⟩ := map_eq_ok.1 h
    exact .bytes hword hne (mapM_eq_ok_iff.1 hvalues)

theorem denotes_of_parseOperands {mnemonic : Mnemonic} (hword : Is (spelling mnemonic) word)
    (h : parseOperands tokens mnemonic = .ok instruction) :
    Denotes (word :: tokens) instruction := by
  cases mnemonic with
  | label =>
    obtain ⟨name, hlabel, rfl⟩ := map_eq_ok.1 h
    obtain ⟨rfl, hname⟩ := parseLabel_eq_ok_iff.1 hlabel
    exact .label hword hname
  | goto =>
    obtain ⟨name, hlabel, rfl⟩ := map_eq_ok.1 h
    obtain ⟨rfl, hname⟩ := parseLabel_eq_ok_iff.1 hlabel
    exact .goto hword hname
  | syscall =>
    obtain ⟨rfl, rfl⟩ := parseBare_eq_ok_iff.1 h
    exact .syscall hword
  | halt =>
    obtain ⟨rfl, rfl⟩ := parseBare_eq_ok_iff.1 h
    exact .halt hword
  | noop =>
    obtain ⟨rfl, rfl⟩ := parseBare_eq_ok_iff.1 h
    exact .noop hword
  | assign => exact denotes_of_parseAssign hword h
  | memcopy => exact denotes_of_parseMemcopy hword h
  | and =>
    obtain ⟨value, hvalue, rfl⟩ := map_eq_ok.1 h
    obtain ⟨operand, rfl, hvalue⟩ := parseMask_eq_ok_iff.1 hvalue
    exact .and hword hvalue
  | or =>
    obtain ⟨value, hvalue, rfl⟩ := map_eq_ok.1 h
    obtain ⟨operand, rfl, hvalue⟩ := parseMask_eq_ok_iff.1 hvalue
    exact .or hword hvalue
  | add =>
    obtain ⟨⟨source, reg⟩, hoperands, rfl⟩ := map_eq_ok.1 h
    obtain ⟨left, into, right, rfl, hinto, hsource, hreg⟩ := parseArithmetic_eq_ok_iff.1 hoperands
    exact .add hword hinto hsource hreg
  | subtract =>
    obtain ⟨⟨source, reg⟩, hoperands, rfl⟩ := map_eq_ok.1 h
    obtain ⟨left, outOf, right, rfl, houtOf, hsource, hreg⟩ :=
      parseArithmetic_eq_ok_iff.1 hoperands
    exact .subtract hword houtOf hsource hreg
  | branch => exact denotes_of_parseBranch hword h
  | bitshift => exact denotes_of_parseBitshift hword h
  | bytes => exact denotes_of_parseBytes hword h

end

/-- A mnemonic leads to the reader of its operands. -/
theorem parse_of_is {word : String} (mnemonic : Mnemonic) (h : Is (spelling mnemonic) word)
    (tokens : List String) : parse (word :: tokens) = parseOperands tokens mnemonic := by
  rw [parse, find?_eq_some_iff.2 h]

/-- What is read denotes the instruction. -/
theorem denotes_of_parse {tokens : List String} {instruction : Instruction}
    (h : parse tokens = .ok instruction) : Denotes tokens instruction := by
  unfold parse at h
  split at h
  · cases h
  · split at h
    · cases h
    · rename_i hword
      exact denotes_of_parseOperands (find?_eq_some_iff.1 hword) h

/-- What denotes an instruction is read. -/
theorem parse_of_denotes {tokens : List String} {instruction : Instruction}
    (h : Denotes tokens instruction) : parse tokens = .ok instruction := by
  cases h with
  | label hword hname =>
    rw [parse_of_is .label hword]
    exact map_eq_ok.2 ⟨_, parseLabel_eq_ok_iff.2 ⟨rfl, hname⟩, rfl⟩
  | goto hword hname =>
    rw [parse_of_is .goto hword]
    exact map_eq_ok.2 ⟨_, parseLabel_eq_ok_iff.2 ⟨rfl, hname⟩, rfl⟩
  | syscall hword => rw [parse_of_is .syscall hword]; rfl
  | halt hword => rw [parse_of_is .halt hword]; rfl
  | noop hword => rw [parse_of_is .noop hword]; rfl
  | assign hword hreg hvalue =>
    rw [parse_of_is .assign hword, parseOperands, parseAssign, guarded_eq_ok_iff]
    exact ⟨rfl, _, _, hvalue, readRegister_eq_ok_iff.2 hreg, rfl⟩
  | assignIndirect hword hmode hreg haddress =>
    rw [parse_of_is .assign hword]
    exact guarded_eq_ok_iff.2 ⟨⟨rfl, spells_iff.2 hmode⟩, _, _, readAddress_eq_ok_iff.2 haddress,
      readRegister_eq_ok_iff.2 hreg, rfl⟩
  | memcopy hword hinto hreg haddress =>
    rw [parse_of_is .memcopy hword]
    exact guarded_eq_ok_iff.2 ⟨spells_iff.2 hinto, _, _, readRegister_eq_ok_iff.2 hreg,
      readAddress_eq_ok_iff.2 haddress, rfl⟩
  | memcopyIndirect hword hinto hmode hreg haddress =>
    rw [parse_of_is .memcopy hword]
    exact guarded_eq_ok_iff.2 ⟨⟨spells_iff.2 hinto, spells_iff.2 hmode⟩, _, _,
      readRegister_eq_ok_iff.2 hreg, readAddress_eq_ok_iff.2 haddress, rfl⟩
  | and hword hvalue =>
    rw [parse_of_is .and hword]
    exact map_eq_ok.2 ⟨_, parseMask_eq_ok_iff.2 ⟨_, rfl, hvalue⟩, rfl⟩
  | or hword hvalue =>
    rw [parse_of_is .or hword]
    exact map_eq_ok.2 ⟨_, parseMask_eq_ok_iff.2 ⟨_, rfl, hvalue⟩, rfl⟩
  | add hword hinto hsource hreg =>
    rw [parse_of_is .add hword]
    exact map_eq_ok.2
      ⟨_, parseArithmetic_eq_ok_iff.2 ⟨_, _, _, rfl, hinto, hsource, hreg⟩, rfl⟩
  | subtract hword houtOf hsource hreg =>
    rw [parse_of_is .subtract hword]
    exact map_eq_ok.2
      ⟨_, parseArithmetic_eq_ok_iff.2 ⟨_, _, _, rfl, houtOf, hsource, hreg⟩, rfl⟩
  | branch hword hgoto hreg htest hname =>
    rw [parse_of_is .branch hword, parseOperands, parseBranch, if_pos (spells_iff.2 hgoto)]
    refine bind_eq_ok.2 ⟨_, readRegister_eq_ok_iff.2 hreg, ?_⟩
    rw [names_tests_iff.1 htest]
    exact bind_eq_ok.2 ⟨_, readLabel_eq_ok_iff.2 ⟨rfl, hname⟩, rfl⟩
  | bitshift hword hreg hx hdirection =>
    rw [parse_of_is .bitshift hword]
    exact parseShift_eq_ok_iff.2 ⟨_, _, _, hreg, hx, hdirection, .default, rfl⟩
  | bitshiftBy hword hreg hx hdirection hcount hlow hhigh =>
    rw [parse_of_is .bitshift hword]
    exact parseShift_eq_ok_iff.2
      ⟨_, _, _, hreg, hx, hdirection, .numeral hcount hlow hhigh, rfl⟩
  | bytes hword hne hvalues =>
    rw [parse_of_is .bytes hword, parseOperands]
    unfold parseBytes
    split
    · exact absurd rfl hne
    · exact map_eq_ok.2 ⟨_, mapM_eq_ok_iff.2 hvalues, rfl⟩

/-- **The language of statements.** A list of tokens is read as an instruction if and only if it has
the form of a statement that denotes the instruction. -/
theorem parse_eq_ok_iff (tokens : List String) (instruction : Instruction) :
    parse tokens = .ok instruction ↔ Denotes tokens instruction :=
  ⟨denotes_of_parse, parse_of_denotes⟩

end Instruction

end CrossAssembler
