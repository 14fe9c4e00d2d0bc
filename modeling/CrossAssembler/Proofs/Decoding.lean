import CrossAssembler.Proofs.Grammar
import CrossAssembler.Proofs.Tiling

/-!
# Reading code back

The first byte of an instruction's code says what the instruction is and how many bytes follow: no
two forms of instructions share an operation code (`nodup_opcodes`). So code can be read from its
start without knowing where it ends (`Instruction.readCode_code`), and two programs with the same
image are made of the same instructions (`image_uniquely_decodable`).

* `Form` is what an operation code says, and `readCode` reads one instruction off a list of bytes.
  What it reads is `Resolved`: the name of a label leaves no trace in code, only the address of a
  jump.
* `Statement.GeneratedFrom` says which instruction a laid-out statement comes from, and
  `Layout.exists_holdsCode` that each has one, with the instruction's code as its bytes.
-/

namespace CrossAssembler

open Keyword

/-! ## Forms of code -/

/-- An instruction as it stands in code: without names, and with the address if it is a jump. -/
structure Resolved where
  instruction : Instruction
  destination : Option UInt8
  deriving DecidableEq, Repr

/-- What an operation code says about its instruction. -/
inductive Form where
  | assign (reg : Register) (indirect : Bool)
  | memcopy (reg : Register) (indirect : Bool)
  | add (reg : Register) (fromRegister : Bool)
  | subtract (reg : Register) (fromRegister : Bool)
  | and
  | or
  | goto
  | isZero (reg : Register)
  | notZero (reg : Register)
  | overflow
  | syscall
  | halt
  | noop
  | bitshift (reg : Register) (direction : Direction) (count : Nat)
  deriving DecidableEq, Repr

namespace Form

/-- The operation code of a form. -/
def opcode : Form → UInt8
  | .assign reg indirect => Instruction.withMode (reg.select Opcode.load) indirect
  | .memcopy reg indirect => Instruction.withMode (reg.select Opcode.store) indirect
  | .add reg fromRegister => Instruction.withMode (reg.select Opcode.add) fromRegister
  | .subtract reg fromRegister => Instruction.withMode (reg.select Opcode.subtract) fromRegister
  | .and => Opcode.and
  | .or => Opcode.or
  | .goto => Opcode.jump
  | .isZero reg => reg.select Opcode.isZero
  | .notZero reg => reg.select Opcode.notZero
  | .overflow => Opcode.overflowProbe
  | .syscall => Opcode.syscall
  | .halt => Opcode.halt
  | .noop => Opcode.noop
  | .bitshift reg direction count => Instruction.shiftOpcode reg direction count

/-- The forms that name a register, except for the shifts. -/
def ofRegister (reg : Register) : List Form :=
  [.isZero reg, .notZero reg] ++ [false, true].flatMap fun mode =>
    [.assign reg mode, .memcopy reg mode, .add reg mode, .subtract reg mode]

/-- The forms of the shifts that can be written. -/
def shifts : List Form :=
  [Register.a, .b].flatMap fun reg => [Direction.left, .right].flatMap fun direction =>
    [1, 2, 3, 4].map (.bitshift reg direction)

/-- The forms of all instructions that can be written. -/
def all : List Form :=
  [.and, .or, .goto, .overflow, .syscall, .halt, .noop] ++
    [Register.a, .b, .x].flatMap ofRegister ++ shifts

theorem bitshift_mem_all {reg : Register} (hreg : reg ≠ .x) (direction : Direction) {count : Nat}
    (hlow : 1 ≤ count) (hhigh : count ≤ 4) : .bitshift reg direction count ∈ all := by
  have hreg : reg ∈ [Register.a, .b] := by cases reg <;> simp_all
  have hdirection : direction ∈ [Direction.left, .right] := by cases direction <;> decide
  have hcount : count ∈ [1, 2, 3, 4] := by simp only [List.mem_cons]; omega
  exact List.mem_append_right _ (List.mem_flatMap_of_mem hreg (List.mem_flatMap_of_mem hdirection
    (List.mem_map_of_mem hcount)))

/-- An operation code belongs to one form. -/
theorem nodup_opcodes : (all.map opcode).Nodup := by decide +kernel

/-- Reads the operand of an addition or subtraction. -/
def readSource (fromRegister : Bool) (byte : UInt8) : Option Operand :=
  if fromRegister then ([.a, .b, .x].find? fun reg => byte == reg.address).map .register
  else some (.literal byte)

/-- Reads the bytes that follow an operation code, and gives the bytes after those. -/
def read : Form → List UInt8 → Option (Resolved × List UInt8)
  | .assign reg indirect, value :: rest => some (⟨.assign reg value indirect, none⟩, rest)
  | .memcopy reg indirect, address :: rest => some (⟨.memcopy reg address indirect, none⟩, rest)
  | .add reg fromRegister, byte :: rest =>
    (readSource fromRegister byte).map fun source => (⟨.add source reg, none⟩, rest)
  | .subtract reg fromRegister, byte :: rest =>
    (readSource fromRegister byte).map fun source => (⟨.subtract source reg, none⟩, rest)
  | .and, value :: rest => some (⟨.and value, none⟩, rest)
  | .or, value :: rest => some (⟨.or value, none⟩, rest)
  | .goto, address :: rest => some (⟨.goto "", some address⟩, rest)
  | .isZero reg, address :: rest => some (⟨.branch reg .isZero "", some address⟩, rest)
  | .notZero reg, address :: rest => some (⟨.branch reg .notZero "", some address⟩, rest)
  -- the probe of a flag is followed by the code of a jump
  | .overflow, flag :: _ :: address :: rest =>
    ([Register.a, .b, .x].find? fun reg => flag == reg.overflowFlag).map fun reg =>
      (⟨.branch reg .overflow "", some address⟩, rest)
  | .syscall, rest => some (⟨.syscall, none⟩, rest)
  | .halt, rest => some (⟨.halt, none⟩, rest)
  | .noop, rest => some (⟨.noop, none⟩, rest)
  | .bitshift reg direction count, rest => some (⟨.bitshift reg direction count, none⟩, rest)
  | _, _ => none

end Form

/-- Reads the first instruction of code, and gives the code after it. -/
def readCode : List UInt8 → Option (Resolved × List UInt8)
  | [] => none
  | opcode :: bytes =>
    (Form.all.find? fun form => opcode == form.opcode).bind fun form => form.read bytes

theorem readCode_cons (form : Form) (h : form ∈ Form.all) (bytes : List UInt8) :
    readCode (form.opcode :: bytes) = form.read bytes := by
  rw [readCode, (List.find?_key_eq_some_iff Form.nodup_opcodes).2 ⟨h, rfl⟩, Option.bind_some]

/-! ## Code of instructions -/

/-- The bytes of a fragment, if a jump in it goes to an address. -/
def Fragment.valuesAt (destination : UInt8) (fragment : Fragment) : List UInt8 :=
  match fragment.content with
  | .jump kind _ _ => [kind.opcode, destination]
  | _ => fragment.values

namespace Instruction

/-- The instruction without the name of its target. -/
def unnamed : Instruction → Instruction
  | .goto _ => .goto ""
  | .branch reg test _ => .branch reg test ""
  | instruction => instruction

/-- The bytes of the instruction, if a jump in it goes to an address. -/
def code (instruction : Instruction) (destination : UInt8) : List UInt8 :=
  instruction.encode.flatMap (Fragment.valuesAt destination)

/-- The instruction as it stands in code, if a jump in it goes to an address. -/
def resolved (instruction : Instruction) (destination : UInt8) : Resolved :=
  ⟨instruction.unnamed, instruction.target?.map fun _ => destination⟩

/-- The instruction puts code of one of the forms into memory. -/
def HasForm : Instruction → Prop
  | .label _ | .bytes _ => False
  | .bitshift reg _ count => reg ≠ .x ∧ 1 ≤ count ∧ count ≤ 4
  | _ => True

/-- The code of an instruction is read back, whatever comes after it. -/
theorem readCode_code {instruction : Instruction} (h : instruction.HasForm) (destination : UInt8)
    (rest : List UInt8) : readCode (instruction.code destination ++ rest) =
      some (instruction.resolved destination, rest) := by
  cases instruction with
  | label => cases h
  | bytes => cases h
  | assign reg value indirect =>
    exact readCode_cons (.assign reg indirect) (by cases reg <;> cases indirect <;> decide) _
  | memcopy reg address indirect =>
    exact readCode_cons (.memcopy reg indirect) (by cases reg <;> cases indirect <;> decide) _
  | goto => exact readCode_cons .goto (by decide) _
  | syscall => exact readCode_cons .syscall (by decide) _
  | halt => exact readCode_cons .halt (by decide) _
  | noop => exact readCode_cons .noop (by decide) _
  | and => exact readCode_cons .and (by decide) _
  | or => exact readCode_cons .or (by decide) _
  | add source reg =>
    cases source with
    | literal value => exact readCode_cons (.add reg false) (by cases reg <;> decide) _
    | register source =>
      refine (readCode_cons (.add reg true) (by cases reg <;> decide) _).trans ?_
      cases source <;> rfl
  | subtract source reg =>
    cases source with
    | literal value => exact readCode_cons (.subtract reg false) (by cases reg <;> decide) _
    | register source =>
      refine (readCode_cons (.subtract reg true) (by cases reg <;> decide) _).trans ?_
      cases source <;> rfl
  | branch reg test target =>
    cases test with
    | isZero => exact readCode_cons (.isZero reg) (by cases reg <;> decide) _
    | notZero => exact readCode_cons (.notZero reg) (by cases reg <;> decide) _
    | overflow =>
      refine (readCode_cons .overflow (by decide) _).trans ?_
      cases reg <;> rfl
  | bitshift reg direction count =>
    obtain ⟨hreg, hlow, hhigh⟩ := h
    exact readCode_cons _ (Form.bitshift_mem_all hreg direction hlow hhigh) _

/-- An instruction that is read has a form, unless it is a label or made of bytes. -/
theorem hasForm_of_parse {tokens : List String} {instruction : Instruction}
    (h : parse tokens = .ok instruction) (hlabel : instruction.labelName? = none)
    (hbytes : ∀ values, instruction ≠ .bytes values) : instruction.HasForm := by
  cases denotes_of_parse h with
  | label => cases hlabel
  | bytes => exact absurd rfl (hbytes _)
  | bitshift _ _ hx => exact ⟨hx, by decide, by decide⟩
  | bitshiftBy _ _ hx _ _ hlow hhigh => exact ⟨hx, hlow, hhigh⟩
  | _ => trivial

end Instruction

/-! ## Laid-out statements -/

/-- The destination of a jump that is resolved. -/
def Fragment.destination? (fragment : Fragment) : Option UInt8 :=
  match fragment.content with
  | .jump _ _ destination => destination
  | _ => none

@[simp] theorem Fragment.labelName?_bare (fragment : Fragment) :
    fragment.bare.labelName? = fragment.labelName? := by
  obtain ⟨location, content⟩ := fragment
  cases content <;> rfl

namespace Statement

/-- The bytes of a laid-out statement. -/
def bytes (statement : Statement) : List UInt8 := statement.fragments.flatMap Fragment.values

/-- The destination of the jump in a laid-out statement. -/
def destination? (statement : Statement) : Option UInt8 :=
  (statement.fragments.filterMap Fragment.destination?).head?

/-- Whether the statement defines a label. -/
def isLabel (statement : Statement) : Bool :=
  !(statement.fragments.filterMap Fragment.labelName?).isEmpty

/-- The laid-out statement comes from an instruction: the one that its tokens write, or that of the
detour's jump or label, whose tokens write none. -/
inductive GeneratedFrom (laid : Statement) : Instruction → Prop where
  | written {instruction : Instruction} (hparse : Instruction.parse laid.tokens = .ok instruction)
      (hbare : laid.bare = .ofInstruction laid.tokens instruction) : GeneratedFrom laid instruction
  | skipJump (hbare : laid.bare = Layout.skipJump) : GeneratedFrom laid (.goto Layout.skipLabel)
  | skipTarget (hbare : laid.bare = Layout.skipTarget) :
      GeneratedFrom laid (.label Layout.skipLabel)

/-- The laid-out statement comes from an instruction, and holds its code with an address in the
place of its target. -/
structure HoldsCode (laid : Statement) (instruction : Instruction) (address : UInt8) : Prop where
  generated : laid.GeneratedFrom instruction
  bytes : laid.bytes = instruction.code address
  destination : laid.destination? = instruction.target?.map fun _ => address

/-- Two laid-out statements come from instructions that differ at most in the name of their target,
and a jump in them goes to the same address. -/
def SameInstruction (first second : Statement) : Prop :=
  ∃ instruction other, first.GeneratedFrom instruction ∧ second.GeneratedFrom other ∧
    instruction.unnamed = other.unnamed ∧ first.destination? = second.destination? ∧
    (instruction.target?.isSome → first.destination?.isSome)

theorem GeneratedFrom.bare_fragments {laid : Statement} {instruction : Instruction}
    (h : laid.GeneratedFrom instruction) :
    laid.fragments.map Fragment.bare = instruction.encode := by
  cases h with
  | written _ hbare => exact congrArg Statement.fragments hbare
  | skipJump hbare => exact congrArg Statement.fragments hbare
  | skipTarget hbare => exact congrArg Statement.fragments hbare

theorem GeneratedFrom.isLabel_eq {laid : Statement} {instruction : Instruction}
    (h : laid.GeneratedFrom instruction) : laid.isLabel = instruction.labelName?.isSome := by
  have hnames : laid.fragments.filterMap Fragment.labelName? = instruction.labelName?.toList := by
    rw [← Instruction.labelNames_encode, ← h.bare_fragments, List.filterMap_map]
    congr 1
    funext fragment
    exact (Fragment.labelName?_bare fragment).symm
  rw [isLabel, hnames]
  cases instruction.labelName? <;> rfl

theorem GeneratedFrom.hasForm {laid : Statement} {instruction : Instruction}
    (h : laid.GeneratedFrom instruction) (hlabel : laid.isLabel = false)
    (hbytes : ∀ values, instruction ≠ .bytes values) : instruction.HasForm := by
  rw [h.isLabel_eq, Option.isSome_eq_false_iff, Option.isNone_iff_eq_none] at hlabel
  cases h with
  | written hparse => exact Instruction.hasForm_of_parse hparse hlabel hbytes
  | skipJump => trivial
  | skipTarget => cases hlabel

/-- A label has no bytes. -/
theorem HoldsCode.bytes_eq_nil {laid : Statement} {instruction : Instruction} {address : UInt8}
    (h : laid.HoldsCode instruction address) (hlabel : laid.isLabel = true) : laid.bytes = [] := by
  rw [h.generated.isLabel_eq] at hlabel
  rw [h.bytes]
  cases instruction <;> first | rfl | cases hlabel

theorem HoldsCode.readCode_bytes {laid : Statement} {instruction : Instruction} {address : UInt8}
    (h : laid.HoldsCode instruction address) (hform : instruction.HasForm) (rest : List UInt8) :
    readCode (laid.bytes ++ rest) = some (instruction.resolved address, rest) := by
  rw [h.bytes]
  exact Instruction.readCode_code hform address rest

theorem HoldsCode.sameInstruction {first second : Statement} {instruction other : Instruction}
    {address address' : UInt8} (h₁ : first.HoldsCode instruction address)
    (h₂ : second.HoldsCode other address')
    (h : instruction.resolved address = other.resolved address') :
    SameInstruction first second := by
  obtain ⟨hunnamed, hdestination⟩ := Resolved.mk.inj h
  refine ⟨instruction, other, h₁.generated, h₂.generated, hunnamed, ?_, fun htarget => ?_⟩
  · rw [h₁.destination, h₂.destination, hdestination]
  · rw [h₁.destination, Option.isSome_map]
    exact htarget

end Statement

namespace Layout

open Statement

section

variable {table : List (String × Nat)} {targets : List String} {address : UInt8}

theorem values_settleFragment {fragment : Fragment} (h : ∀ target, fragment.target? = some target →
    (table.lookup target).map UInt8.ofNat = some address) :
    (settleFragment table targets fragment).values = fragment.valuesAt address := by
  obtain ⟨location, content⟩ := fragment
  cases content with
  | operation value => rfl
  | label name used => rfl
  | jump kind target destination =>
    have hlookup := h target rfl
    simp only [settleFragment, aimFragment, hlookup]
    rfl

theorem destination?_settleFragment {fragment : Fragment}
    (h : ∀ target, fragment.target? = some target →
      (table.lookup target).map UInt8.ofNat = some address) :
    (settleFragment table targets fragment).destination? =
      fragment.target?.map fun _ => address := by
  obtain ⟨location, content⟩ := fragment
  cases content with
  | operation value => rfl
  | label name used => rfl
  | jump kind target destination => exact h target rfl

variable {instruction : Instruction} (h : ∀ target, instruction.target? = some target →
  (table.lookup target).map UInt8.ofNat = some address)

include h

theorem lookup_of_mem_placeFragments {start : Nat} {fragment : Fragment}
    (hf : fragment ∈ placeFragments start instruction.encode) {target : String}
    (ht : fragment.target? = some target) :
    (table.lookup target).map UInt8.ofNat = some address := by
  have hmem : target ∈ (placeFragments start instruction.encode).filterMap Fragment.target? :=
    List.mem_filterMap.2 ⟨fragment, hf, ht⟩
  rw [filterMap_placeFragments Fragment.target?_placeAt, Instruction.targets_encode,
    Option.mem_toList] at hmem
  exact h target hmem

/-- A statement that is placed and settled holds the code of its instruction. -/
theorem bytes_settleStatement (tokens : List String) (start : Nat) :
    (settleStatement table targets ⟨tokens, placeFragments start instruction.encode⟩).bytes =
      instruction.code address := by
  rw [bytes, fragments_settleStatement, List.flatMap_map, Instruction.code]
  calc (placeFragments start instruction.encode).flatMap
        (fun fragment => (settleFragment table targets fragment).values)
      = (placeFragments start instruction.encode).flatMap (Fragment.valuesAt address) :=
        List.flatMap_congr fun fragment hf =>
          values_settleFragment fun _ ht => lookup_of_mem_placeFragments h hf ht
    _ = instruction.encode.flatMap (Fragment.valuesAt address) := by
        rw [List.flatMap_def, map_placeFragments fun _ _ => rfl, ← List.flatMap_def]

theorem destination?_settleStatement (tokens : List String) (start : Nat) :
    (settleStatement table targets ⟨tokens, placeFragments start instruction.encode⟩).destination? =
      instruction.target?.map fun _ => address := by
  have hdestinations : ((placeFragments start instruction.encode).map
      (settleFragment table targets)).filterMap Fragment.destination? =
        instruction.target?.toList.map fun _ => address := by
    rw [← Instruction.targets_encode, ← filterMap_placeFragments Fragment.target?_placeAt start,
      List.filterMap_map, List.map_filterMap]
    exact List.filterMap_congr fun fragment hf =>
      destination?_settleFragment fun _ ht => lookup_of_mem_placeFragments h hf ht
  rw [destination?, fragments_settleStatement, hdestinations]
  cases instruction.target? <;> rfl

end

/-- A statement on the code's way has one instruction, from which its laid-out form comes. -/
theorem exists_generatedFrom {source : List Statement} (hs : Written source) {statement : Statement}
    (h : statement ∈ source ∨ statement ∈ [skipJump, skipFiller, skipTarget]) :
    ∃ instruction, statement = .ofInstruction statement.tokens instruction ∧
      (∀ values, instruction = .bytes values → statement ∈ source ∧
        Instruction.parse statement.tokens = .ok (.bytes values)) ∧
      ∀ laid : Statement, laid.bare = statement → laid.GeneratedFrom instruction := by
  simp only [List.mem_cons, List.not_mem_nil, or_false] at h
  rcases h with h | rfl | rfl | rfl
  · obtain ⟨tokens, instruction, hparse, rfl⟩ := hs.exists_instruction h
    refine ⟨instruction, rfl, ?_, fun laid hbare => ?_⟩
    · rintro values rfl
      exact ⟨h, hparse⟩
    · have htokens : laid.tokens = tokens := congrArg Statement.tokens hbare
      exact .written (htokens ▸ hparse) (htokens ▸ hbare)
  · exact ⟨.goto skipLabel, rfl, nofun, fun laid hbare => .skipJump hbare⟩
  · refine ⟨.noop, rfl, nofun, fun laid hbare => ?_⟩
    have htokens : laid.tokens = ["NOOP"] := congrArg Statement.tokens hbare
    exact .written (by rw [htokens]; rfl) (by rw [htokens, hbare]; rfl)
  · exact ⟨.label skipLabel, rfl, nofun, fun laid hbare => .skipTarget hbare⟩

/-- The target of an instruction on the code's way is resolved to an address. -/
theorem exists_address {statements : List Statement} {table : List (String × Nat)}
    (h : ∀ target ∈ targets statements, ∃ address, table.lookup target = some address)
    {tokens : List String} {instruction : Instruction}
    (hs : .ofInstruction tokens instruction ∈ statements) :
    ∃ address : UInt8, ∀ target, instruction.target? = some target →
      (table.lookup target).map UInt8.ofNat = some address := by
  cases htarget : instruction.target? with
  | none => exact ⟨0, nofun⟩
  | some target =>
    have hmem : target ∈ targets statements := by
      rw [targets, fragments, List.filterMap_flatMap]
      refine List.mem_flatMap.2 ⟨_, hs, ?_⟩
      rw [Statement.ofInstruction, Instruction.targets_encode, htarget]
      exact List.mem_singleton_self target
    obtain ⟨address, hlookup⟩ := h target hmem
    refine ⟨UInt8.ofNat address, ?_⟩
    rintro _ ⟨⟩
    rw [hlookup, Option.map_some]

/-- Each statement of a layout holds the code of an instruction. -/
theorem exists_holdsCode {source : List Statement} (hs : Written source) {layout : Layout}
    (h : layOut source = .ok layout) {laid : Statement} (hl : laid ∈ layout.statements) :
    ∃ instruction address, laid.HoldsCode instruction address ∧
      ∀ values, instruction = .bytes values → ∃ statement ∈ source,
        Instruction.parse statement.tokens = .ok (.bytes values) := by
  obtain ⟨routed, hroute, -, -, hresolved, hsettle⟩ := exists_routed h
  rw [hsettle, settle, List.mem_map] at hl
  obtain ⟨placed, hp, rfl⟩ := hl
  obtain ⟨statement, hstatement, start, rfl⟩ := exists_of_mem_place hp
  obtain ⟨instruction, heq, hbytes, hgenerated⟩ :=
    exists_generatedFrom hs (mem_route hroute hstatement)
  have hbare : statement.bare = statement := by
    rw [heq, Statement.bare, Statement.ofInstruction, Instruction.bare_encode]
  obtain ⟨address, haddress⟩ := exists_address
    (fun target ht => (hresolved target ht).imp fun _ => And.left) (heq ▸ hstatement)
  refine ⟨instruction, address, ⟨hgenerated _ ?_, ?_, ?_⟩, fun values hvalues => ?_⟩
  · rw [bare_settleStatement_place, hbare]
  · rw [heq]
    exact bytes_settleStatement haddress _ _
  · rw [heq]
    exact destination?_settleStatement haddress _ _
  · exact ⟨statement, hbytes values hvalues⟩

end Layout

/-! ## Equal images -/

open Layout Statement

/-- Code is read in one way: statements with the same bytes come from the same instructions. -/
theorem forall₂_sameInstruction {first second : List Statement}
    (h₁ : ∀ laid ∈ first, ∃ instruction address, laid.HoldsCode instruction address ∧
      instruction.HasForm)
    (h₂ : ∀ laid ∈ second, ∃ instruction address, laid.HoldsCode instruction address ∧
      instruction.HasForm)
    (h : first.flatMap bytes = second.flatMap bytes) :
    List.Forall₂ SameInstruction first second := by
  induction first generalizing second with
  | nil =>
    cases second with
    | nil => exact .nil
    | cons laid second =>
      obtain ⟨instruction, address, hcode, hform⟩ := h₂ laid (List.mem_cons_self ..)
      have hsome := hcode.readCode_bytes hform (second.flatMap bytes)
      rw [← List.flatMap_cons, ← h] at hsome
      cases hsome
  | cons laid first ih =>
    obtain ⟨instruction, address, hcode, hform⟩ := h₁ laid (List.mem_cons_self ..)
    have hsome := hcode.readCode_bytes hform (first.flatMap bytes)
    rw [← List.flatMap_cons, h] at hsome
    cases second with
    | nil => cases hsome
    | cons other second =>
      obtain ⟨instruction', address', hcode', hform'⟩ := h₂ other (List.mem_cons_self ..)
      rw [List.flatMap_cons, hcode'.readCode_bytes hform', Option.some.injEq,
        Prod.mk.injEq] at hsome
      obtain ⟨hresolved, hrest⟩ := hsome
      exact .cons (hcode.sameInstruction hcode' hresolved.symm)
        (ih (fun laid hl => h₁ laid (List.mem_cons_of_mem _ hl))
          (fun laid hl => h₂ laid (List.mem_cons_of_mem _ hl)) hrest.symm)

/-- None of the statements is one of bytes. -/
def WithoutBytes (statements : List Statement) : Prop :=
  ∀ statement ∈ statements, ∀ values, Instruction.parse statement.tokens ≠ .ok (.bytes values)

/-- The statements that are no labels. -/
def unlabelled (statements : List Statement) : List Statement :=
  statements.filter fun statement => !statement.isLabel

theorem flatMap_bytes_unlabelled {statements : List Statement}
    (h : ∀ laid ∈ statements, laid.isLabel = true → laid.bytes = []) :
    (unlabelled statements).flatMap bytes = statements.flatMap bytes := by
  induction statements with
  | nil => rfl
  | cons laid statements ih =>
    have hrest := ih fun other ho => h other (List.mem_cons_of_mem _ ho)
    rw [List.flatMap_cons, ← hrest]
    cases hlabel : laid.isLabel with
    | false => simp [unlabelled, hlabel]
    | true => simp [unlabelled, hlabel, h laid (List.mem_cons_self ..) hlabel]

section

variable {source : List Statement} (hs : Written source) {layout : Layout}
  (h : layOut source = .ok layout)

include hs h

theorem exists_hasForm (hdata : WithoutBytes source) {laid : Statement}
    (hl : laid ∈ unlabelled layout.statements) :
    ∃ instruction address, laid.HoldsCode instruction address ∧ instruction.HasForm := by
  obtain ⟨hl, hlabel⟩ := List.mem_filter.1 hl
  obtain ⟨instruction, address, hcode, hbytes⟩ := exists_holdsCode hs h hl
  refine ⟨instruction, address, hcode, hcode.generated.hasForm (Bool.not_eq_true' _ ▸ hlabel) ?_⟩
  rintro values rfl
  obtain ⟨statement, hstatement, hparse⟩ := hbytes values rfl
  exact hdata statement hstatement values hparse

/-- The labels of a layout leave no trace in its image. -/
theorem image_eq_unlabelled :
    image layout.statements = Memory.header ++ (unlabelled layout.statements).flatMap bytes := by
  rw [image, List.flatMap_assoc, flatMap_bytes_unlabelled fun laid hl hlabel => ?_]
  · rfl
  · obtain ⟨_, _, hcode, -⟩ := exists_holdsCode hs h hl
    exact hcode.bytes_eq_nil hlabel

end

/-- **Code can be read back.** If two programs of written statements, none of them one of bytes,
have the same image, then their laid-out statements other than labels are as many, and at each
position they come from the same instruction; jumps count as the same if they go to the same
address. -/
theorem image_uniquely_decodable {first second : List Statement} (hs₁ : Written first)
    (hs₂ : Written second) (hdata₁ : WithoutBytes first) (hdata₂ : WithoutBytes second)
    {laid₁ laid₂ : List Statement} (h₁ : (first.foldl Program.add .empty).statements.1 = .ok laid₁)
    (h₂ : (second.foldl Program.add .empty).statements.1 = .ok laid₂)
    (himage : (first.foldl Program.add .empty).image.1 =
      (second.foldl Program.add .empty).image.1) :
    (unlabelled laid₁).length = (unlabelled laid₂).length ∧
      List.Forall₂ SameInstruction (unlabelled laid₁) (unlabelled laid₂) := by
  rw [Program.foldl_add_empty] at h₁ h₂
  rw [Program.foldl_add_empty, Program.foldl_add_empty] at himage
  obtain ⟨layout₁, hlayout₁, rfl⟩ := Program.statements_ofStatements_eq_ok_iff.1 h₁
  obtain ⟨layout₂, hlayout₂, rfl⟩ := Program.statements_ofStatements_eq_ok_iff.1 h₂
  rw [Program.image_ofStatements hlayout₁, Program.image_ofStatements hlayout₂,
    Except.ok.injEq, image_eq_unlabelled hs₁ hlayout₁, image_eq_unlabelled hs₂ hlayout₂] at himage
  have hsame := forall₂_sameInstruction (fun laid hl => exists_hasForm hs₁ hlayout₁ hdata₁ hl)
    (fun laid hl => exists_hasForm hs₂ hlayout₂ hdata₂ hl) (List.append_cancel_left himage)
  exact ⟨hsame.length_eq, hsame⟩

/-- The program `crossing` with another name for its label, without the label that no jump goes to,
and with its words spelled differently. -/
def crossingRespelled : List Statement :=
  .ofInstruction ["goto", "finish"] (.goto "finish") ::
    (List.replicate 120 skipFiller ++
      [.ofInstruction ["Let", "a", "=", "0x01"] (.assign .a 1 false),
       .ofInstruction ["Label", "finish"] (.label "finish")])

theorem exists_parse_of_mem_crossing {statement : Statement}
    (hs : statement ∈ crossing ++ crossingRespelled) :
    ∃ instruction, Instruction.parse statement.tokens = .ok instruction ∧
      statement = .ofInstruction statement.tokens instruction ∧
      ∀ values, instruction ≠ .bytes values := by
  simp only [crossing, crossingRespelled, List.mem_cons, List.mem_append, List.mem_replicate,
    List.not_mem_nil, or_false] at hs
  rcases hs with (rfl | ⟨-, rfl⟩ | rfl | rfl | rfl) | rfl | ⟨-, rfl⟩ | rfl | rfl
  all_goals exact ⟨_, rfl, rfl, fun _ h => by cases h⟩

theorem written_of_sublist_crossing {statements : List Statement}
    (h : ∀ statement ∈ statements, statement ∈ crossing ++ crossingRespelled) :
    Written statements ∧ WithoutBytes statements := by
  refine ⟨fun statement hs => ?_, fun statement hs values hvalues => ?_⟩
  · obtain ⟨instruction, hparse, heq, -⟩ := exists_parse_of_mem_crossing (h statement hs)
    exact ⟨statement.tokens, Fallible.map_eq_ok.2 ⟨instruction, hparse, heq.symm⟩⟩
  · obtain ⟨instruction, hparse, -, hnot⟩ := exists_parse_of_mem_crossing (h statement hs)
    exact hnot values (Except.ok.inj (hparse.symm.trans hvalues))

theorem exists_layOut_crossingRespelled : ∃ layout, layOut crossingRespelled = .ok layout :=
  Fallible.exists_eq_ok (by decide +kernel)

theorem image_uniquely_decodable_crossing : ∃ laid₁ laid₂,
    (crossing.foldl Program.add .empty).statements.1 = .ok laid₁ ∧
      (crossingRespelled.foldl Program.add .empty).statements.1 = .ok laid₂ ∧
      (crossing.foldl Program.add .empty).image.1 =
        (crossingRespelled.foldl Program.add .empty).image.1 ∧
      List.Forall₂ SameInstruction (unlabelled laid₁) (unlabelled laid₂) := by
  obtain ⟨layout₁, hlayout₁⟩ := exists_layOut_crossing
  obtain ⟨layout₂, hlayout₂⟩ := exists_layOut_crossingRespelled
  have h₁ := Program.statements_foldl_add hlayout₁
  have h₂ := Program.statements_foldl_add hlayout₂
  have himage : (crossing.foldl Program.add .empty).image.1 =
      (crossingRespelled.foldl Program.add .empty).image.1 := by
    have hbytes : (layOut crossing).toOption.map (fun layout => image layout.statements) =
        (layOut crossingRespelled).toOption.map fun layout => image layout.statements := by
      decide +kernel
    rw [hlayout₁, hlayout₂] at hbytes
    rw [Program.foldl_add_empty, Program.foldl_add_empty, Program.image_ofStatements hlayout₁,
      Program.image_ofStatements hlayout₂]
    exact congrArg Except.ok (Option.some.inj hbytes)
  obtain ⟨hs₁, hdata₁⟩ := written_of_sublist_crossing fun _ hs => List.mem_append_left _ hs
  obtain ⟨hs₂, hdata₂⟩ := written_of_sublist_crossing fun _ hs => List.mem_append_right _ hs
  exact ⟨_, _, h₁, h₂, himage,
    (image_uniquely_decodable hs₁ hs₂ hdata₁ hdata₂ h₁ h₂ himage).2⟩

end CrossAssembler
