import CrossAssembler.Layout
import CrossAssembler.Proofs.Grammar
import CrossAssembler.Proofs.Placement

/-!
# Statements that were written

`Written` says of statements that each is that of some tokens. Two things follow. Such statements
are bare: nothing in them is placed, used or resolved yet (`Written.bare_of_mem`). And no name in
them begins as a comment does (`Written.opensComment_label`, `Written.opensComment_target`), so the
label of the detour is not among them (`Written.skipLabel_notMem_labelNames`,
`Written.skipLabel_notMem_targets`).
-/

namespace CrossAssembler

open Fallible Token

namespace Instruction

/-- The label that the instruction defines. -/
def labelName? : Instruction → Option String
  | .label name => some name
  | _ => none

/-- The label that the instruction goes to. -/
def target? : Instruction → Option String
  | .goto target | .branch _ _ target => some target
  | _ => none

/-- The label that the instruction defines or goes to. -/
def name? (instruction : Instruction) : Option String :=
  instruction.labelName?.or instruction.target?

/-- No name in an instruction that is read begins as a comment does. -/
theorem opensComment_parse {tokens : List String} {instruction : Instruction} {name : String}
    (h : parse tokens = .ok instruction) (hn : instruction.name? = some name) :
    opensComment name = false := by
  have hname : Operand.IsName name := by
    cases denotes_of_parse h with
    | label _ hname | goto _ hname | branch _ _ _ _ hname =>
      cases hn
      exact hname
    | _ => cases hn
  exact beq_eq_false_iff_ne.2 hname

/-! ## Their code -/

theorem bare_encode (instruction : Instruction) :
    instruction.encode.map Fragment.bare = instruction.encode := by
  cases instruction with
  | add source reg => cases source <;> rfl
  | subtract source reg => cases source <;> rfl
  | branch reg test target => cases test <;> rfl
  | bytes values => simp only [encode, List.map_map]; rfl
  | _ => rfl

theorem filterMap_operation {α : Type} {f : Fragment → Option α}
    (hf : ∀ value, f (.operation value) = none) (values : List UInt8) :
    (values.map Fragment.operation).filterMap f = [] := by
  induction values with
  | nil => rfl
  | cons value values ih => rw [List.map_cons, List.filterMap_cons_none (hf value), ih]

theorem labelNames_encode (instruction : Instruction) :
    instruction.encode.filterMap Fragment.labelName? = instruction.labelName?.toList := by
  cases instruction with
  | add source reg => cases source <;> rfl
  | subtract source reg => cases source <;> rfl
  | branch reg test target => cases test <;> rfl
  | bytes values => exact filterMap_operation (fun _ => rfl) values
  | _ => rfl

theorem targets_encode (instruction : Instruction) :
    instruction.encode.filterMap Fragment.target? = instruction.target?.toList := by
  cases instruction with
  | add source reg => cases source <;> rfl
  | subtract source reg => cases source <;> rfl
  | branch reg test target => cases test <;> rfl
  | bytes values => exact filterMap_operation (fun _ => rfl) values
  | _ => rfl

theorem name?_of_labelName? {instruction : Instruction} {name : String}
    (h : instruction.labelName? = some name) : instruction.name? = some name := by
  rw [name?, h, Option.some_or]

theorem name?_of_target? {instruction : Instruction} {name : String}
    (h : instruction.target? = some name) : instruction.name? = some name := by
  cases instruction <;> first | exact h | cases h

end Instruction

/-- Each of the statements is that of some tokens. -/
def Written (statements : List Statement) : Prop :=
  ∀ statement ∈ statements, ∃ tokens, Statement.ofTokens tokens = .ok statement

namespace Written

open Layout

variable {statements : List Statement}

theorem exists_instruction (h : Written statements) {statement : Statement}
    (hs : statement ∈ statements) :
    ∃ tokens instruction, Instruction.parse tokens = .ok instruction ∧
      statement = .ofInstruction tokens instruction := by
  obtain ⟨tokens, ht⟩ := h statement hs
  obtain ⟨instruction, hi, rfl⟩ := map_eq_ok.1 ht
  exact ⟨tokens, instruction, hi, rfl⟩

theorem take (h : Written statements) (k : Nat) : Written (statements.take k) :=
  fun statement hs => h statement (List.mem_of_mem_take hs)

theorem drop (h : Written statements) (k : Nat) : Written (statements.drop k) :=
  fun statement hs => h statement (List.mem_of_mem_drop hs)

theorem append (h : Written statements) {more : List Statement} (hmore : Written more) :
    Written (statements ++ more) := by
  intro statement hs
  rcases List.mem_append.1 hs with hs | hs
  · exact h statement hs
  · exact hmore statement hs

/-- A written statement is not laid out in any part. -/
theorem bare_of_mem (h : Written statements) {statement : Statement} (hs : statement ∈ statements) :
    statement.bare = statement := by
  obtain ⟨tokens, instruction, -, rfl⟩ := h.exists_instruction hs
  rw [Statement.bare, Statement.ofInstruction, Instruction.bare_encode]

/-- A name in written statements is the name in one of their instructions. -/
theorem exists_name? (h : Written statements) {name : String}
    (hn : name ∈ labelNames statements ∨ name ∈ targets statements) :
    ∃ tokens instruction, Instruction.parse tokens = .ok instruction ∧
      .ofInstruction tokens instruction ∈ statements ∧ instruction.name? = some name := by
  rcases hn with hn | hn
  · rw [labelNames, fragments, List.filterMap_flatMap, List.mem_flatMap] at hn
    obtain ⟨statement, hs, hn⟩ := hn
    obtain ⟨tokens, instruction, hi, rfl⟩ := h.exists_instruction hs
    rw [Statement.ofInstruction, Instruction.labelNames_encode, Option.mem_toList] at hn
    exact ⟨tokens, instruction, hi, hs, Instruction.name?_of_labelName? hn⟩
  · rw [targets, fragments, List.filterMap_flatMap, List.mem_flatMap] at hn
    obtain ⟨statement, hs, hn⟩ := hn
    obtain ⟨tokens, instruction, hi, rfl⟩ := h.exists_instruction hs
    rw [Statement.ofInstruction, Instruction.targets_encode, Option.mem_toList] at hn
    exact ⟨tokens, instruction, hi, hs, Instruction.name?_of_target? hn⟩

theorem opensComment_label (h : Written statements) {name : String}
    (hn : name ∈ labelNames statements) : opensComment name = false := by
  obtain ⟨tokens, instruction, hi, -, hname⟩ := h.exists_name? (.inl hn)
  exact Instruction.opensComment_parse hi hname

theorem opensComment_target (h : Written statements) {name : String}
    (hn : name ∈ targets statements) : opensComment name = false := by
  obtain ⟨tokens, instruction, hi, -, hname⟩ := h.exists_name? (.inr hn)
  exact Instruction.opensComment_parse hi hname

theorem opensComment_skipLabel : opensComment skipLabel = true := by decide

/-- No written statement defines the label of the detour. -/
theorem skipLabel_notMem_labelNames (h : Written statements) : skipLabel ∉ labelNames statements :=
  fun hn => Bool.false_ne_true ((h.opensComment_label hn).symm.trans opensComment_skipLabel)

/-- No written statement goes to the label of the detour. -/
theorem skipLabel_notMem_targets (h : Written statements) : skipLabel ∉ targets statements :=
  fun hn => Bool.false_ne_true ((h.opensComment_target hn).symm.trans opensComment_skipLabel)

end Written

end CrossAssembler
