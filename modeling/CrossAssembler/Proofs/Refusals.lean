import CrossAssembler.Proofs.Grammar

/-!
# Why a statement is refused

A statement that is refused has the defect that the error names, and a statement with a defect is
refused (`parse_names_defect`).

* `places?` gives the places of the operands of each mnemonic, and `Place.Fits` says what may stand
  at a place. `Defect` says of each error which of the operands has to be wrong, and how.
* Each reader of an operand fails for what does not fit its place (`readRegister_eq_error_iff`,
  `readLabel_eq_error_iff`, and `NoByte` for the readers of numbers). From them it follows for each
  mnemonic that its errors name defects (`defect_of_parseOperands`).
* In a statement that is read all operands fit their places (`wellFormed_of_denotes`), and then
  there is no defect (`WellFormed.not_defect`).
-/

namespace CrossAssembler

open Fallible Keyword

/-! ## Readers of operands -/

namespace Keyword

/-- A token that names nothing in a table is none of its keywords. -/
theorem forall_not_names_iff {β : Type} {table : List (String × β)} {token : String} :
    (∀ value, ¬ Names table token value) ↔ ∀ word ∈ table.map Prod.fst, ¬ Is word token := by
  simp only [Names, List.mem_map, Prod.exists, exists_and_right, exists_eq_right]
  constructor
  · rintro h word ⟨value, hmem⟩ his
    exact h value ⟨word, hmem, his⟩
  · rintro h value ⟨word, hmem, his⟩
    exact h word ⟨value, hmem⟩ his

end Keyword

namespace Operand

/-- The error says in what way the token denotes no byte. -/
inductive NoByte (token : String) : ParseError → Prop where
  | notNumeric (h : ∀ value, ¬ Numeral.Denotes token.toList value) :
      NoByte token (.notNumeric token)
  | outOfRange {value : Int} (hvalue : Numeral.Denotes token.toList value)
      (h : ¬ (0 ≤ value ∧ value ≤ 255)) : NoByte token (.byteOutOfRange token)

section

variable {token : String} {e : ParseError}

theorem NoByte.not_denotes (h : NoByte token e) {value : Int}
    (hvalue : Numeral.Denotes token.toList value) : ¬ (0 ≤ value ∧ value ≤ 255) := by
  cases h with
  | notNumeric h => exact absurd hvalue (h value)
  | outOfRange hother h =>
    rw [← Numeral.value?_eq_some_iff] at hvalue hother
    rwa [Option.some.inj (hvalue.symm.trans hother)]

theorem noByte_of_readInteger (h : readInteger token = .error e) : NoByte token e := by
  unfold readInteger at h
  split at h
  · rename_i hnone
    cases h
    exact .notNumeric (Numeral.value?_eq_none_iff.1 hnone)
  · rename_i value hvalue
    split at h
    · cases h
    · rename_i hlarge
      cases h
      refine .outOfRange (Numeral.value?_eq_some_iff.1 hvalue) fun hrange => hlarge ?_
      rw [Numeral.magnitudeBound]
      omega

theorem noByte_of_readByte (h : readByte token = .error e) : NoByte token e := by
  rw [readByte_eq] at h
  split at h
  · rename_i hnone
    cases h
    exact .notNumeric (Numeral.value?_eq_none_iff.1 hnone)
  · rename_i value hvalue
    split at h
    · cases h
    · rename_i hrange
      cases h
      exact .outOfRange (Numeral.value?_eq_some_iff.1 hvalue) hrange

theorem noByte_of_readAddress (h : readAddress token = .error e) :
    (∀ word ∈ cells.map Prod.fst, ¬ Is word token) ∧ NoByte token e := by
  unfold readAddress at h
  split at h
  · cases h
  · rename_i hcell
    have hnone : ∀ address, ¬ Names cells token address :=
      (forall_not_names_members_iff (f := Alias.address)).2 hcell
    exact ⟨forall_not_names_iff.1 hnone, noByte_of_readByte h⟩

theorem noByte_of_read (h : Operand.read token = .error e) :
    (∀ word ∈ registers.map Prod.fst, ¬ Is word token) ∧ NoByte token e := by
  unfold Operand.read at h
  split at h
  · cases h
  · rename_i hreg
    have hnone : ∀ reg, ¬ Names registers token reg :=
      (forall_not_names_members_iff (f := id)).2 hreg
    exact ⟨forall_not_names_iff.1 hnone, noByte_of_readByte (map_eq_error.1 h)⟩

theorem readRegister_eq_error_iff : readRegister token = .error e ↔
    .badRegisterName token = e ∧ ∀ reg, ¬ Names registers token reg := by
  have hnone : (∀ reg, ¬ Names registers token reg) ↔ find? Register token = none :=
    forall_not_names_members_iff (f := id)
  rw [hnone, readRegister]
  cases find? Register token <;> simp

theorem readLabel_eq_error_iff :
    readLabel token = .error e ↔ .reservedLabelName token = e ∧ ¬ IsName token := by
  have hopens : Token.opensComment token = true ↔ ¬ IsName token :=
    beq_iff_eq.trans Classical.not_not.symm
  rw [← hopens, readLabel]
  cases Token.opensComment token <;> simp

end

end Operand

/-! ## Places of operands -/

namespace Instruction

open Operand

/-- What a place of a statement is for. -/
inductive Place where
  /-- A register. -/
  | register
  /-- A number, or else one of some keywords. -/
  | number (others : List String)
  /-- The name of a label. -/
  | label
  /-- One of some keywords. -/
  | word (words : List String)
  /-- The sign of an assignment. -/
  | sign

namespace Place

/-- The token may stand at the place. -/
def Fits : Place → String → Prop
  | .register, token => ∃ reg, Names registers token reg
  | .number others, token => (∃ word ∈ others, Is word token) ∨
      ∃ value, Numeral.Denotes token.toList value ∧ 0 ≤ value ∧ value ≤ 255
  | .label, token => IsName token
  | .word words, token => ∃ word ∈ words, Is word token
  | .sign, token => token = "="

/-- The place is for a fixed word or sign, and not for an operand that is read. -/
def IsFixed : Place → Prop
  | .word _ | .sign => True
  | _ => False

end Place

/-- The places of the operands of a mnemonic, if it takes that many. -/
def places? : Mnemonic → Nat → Option (List Place)
  | .label, 1 | .goto, 1 => some [.label]
  | .syscall, 0 | .halt, 0 | .noop, 0 => some []
  | .assign, 3 => some [.register, .sign, .number []]
  | .assign, 4 => some [.register, .sign, .word ["VALUEIN"], .number (cells.map Prod.fst)]
  | .memcopy, 3 => some [.register, .word ["TO"], .number (cells.map Prod.fst)]
  | .memcopy, 4 =>
    some [.register, .word ["TO"], .word ["ADDRESSIN"], .number (cells.map Prod.fst)]
  | .and, 1 | .or, 1 => some [.number []]
  | .add, 3 => some [.number (registers.map Prod.fst), .word ["TO"], .register]
  | .subtract, 3 => some [.number (registers.map Prod.fst), .word ["FROM"], .register]
  | .branch, 4 => some [.register, .word (tests.map Prod.fst), .word ["GOTO"], .label]
  | .bitshift, 2 => some [.register, .word (directions.map Prod.fst)]
  | .bitshift, 3 => some [.register, .word (directions.map Prod.fst), .number []]
  | .bytes, n + 1 => some (List.replicate (n + 1) (.number []))
  | _, _ => none

/-- The token is the operand at a place of a mnemonic's form. -/
def Stands (mnemonic : Mnemonic) (operands : List String) (place : Place) (token : String) : Prop :=
  ∃ places, places? mnemonic operands.length = some places ∧ (place, token) ∈ places.zip operands

/-- The operands of a mnemonic have the defect that an error names. -/
def Defect (mnemonic : Mnemonic) (operands : List String) : ParseError → Prop
  | .emptyStatement | .undefinedKeyword _ => False
  | .malformed named => named = mnemonic ∧ (places? mnemonic operands.length = none ∨
      ∃ place token, Stands mnemonic operands place token ∧ place.IsFixed ∧ ¬ place.Fits token)
  | .notNumeric token => ∃ others, Stands mnemonic operands (.number others) token ∧
      (∀ word ∈ others, ¬ Is word token) ∧ ∀ value, ¬ Numeral.Denotes token.toList value
  | .byteOutOfRange token => ∃ others, Stands mnemonic operands (.number others) token ∧
      (∀ word ∈ others, ¬ Is word token) ∧
      ∃ value, Numeral.Denotes token.toList value ∧ ¬ (0 ≤ value ∧ value ≤ 255)
  | .shiftCountOutOfRange count => mnemonic = .bitshift ∧ ∃ token, operands[2]? = some token ∧
      Numeral.Denotes token.toList count ∧ ¬ (1 ≤ count ∧ count ≤ 4)
  | .badRegisterName token => Stands mnemonic operands .register token ∧
      ∀ reg, ¬ Names registers token reg
  | .unsupportedRegister named reg => named = mnemonic ∧ mnemonic = .bitshift ∧ reg = .x ∧
      ∃ token, operands[0]? = some token ∧ Names registers token .x
  | .labelNameHasSpaces named name => named = mnemonic ∧
      (mnemonic = .label ∨ mnemonic = .goto) ∧ 2 ≤ operands.length ∧ name = Text.unwords operands
  | .reservedLabelName name => Stands mnemonic operands .label name ∧ ¬ IsName name

/-- The statement that is written with some tokens has the defect that an error names. -/
def HasDefect : List String → ParseError → Prop
  | [], e => e = .emptyStatement
  | word :: operands, e =>
    (e = .undefinedKeyword word ∧ ∀ mnemonic : Mnemonic, ¬ Is (spelling mnemonic) word) ∨
      ∃ mnemonic : Mnemonic, Is (spelling mnemonic) word ∧ Defect mnemonic operands e

/-! ## Errors name defects -/

section

variable {mnemonic : Mnemonic} {operands : List String} {token : String} {e : ParseError}

theorem stands_at (index : Nat) {places : List Place} {place : Place}
    (hplaces : places? mnemonic operands.length = some places)
    (hplace : places[index]? = some place) (htoken : operands[index]? = some token) :
    Stands mnemonic operands place token :=
  ⟨places, hplaces, List.mem_of_getElem? (List.getElem?_zip_eq_some.2 ⟨hplace, htoken⟩)⟩

theorem defect_of_noByte {others : List String}
    (hs : Stands mnemonic operands (.number others) token)
    (hothers : ∀ word ∈ others, ¬ Is word token) (h : NoByte token e) :
    Defect mnemonic operands e := by
  cases h with
  | notNumeric h => exact ⟨others, hs, hothers, h⟩
  | outOfRange hvalue h => exact ⟨others, hs, hothers, _, hvalue, h⟩

theorem defect_of_readByte (hs : Stands mnemonic operands (.number []) token)
    (h : readByte token = .error e) : Defect mnemonic operands e :=
  defect_of_noByte hs (List.forall_mem_nil _) (noByte_of_readByte h)

theorem defect_of_readAddress (hs : Stands mnemonic operands (.number (cells.map Prod.fst)) token)
    (h : readAddress token = .error e) : Defect mnemonic operands e :=
  defect_of_noByte hs (noByte_of_readAddress h).1 (noByte_of_readAddress h).2

theorem defect_of_read (hs : Stands mnemonic operands (.number (registers.map Prod.fst)) token)
    (h : Operand.read token = .error e) : Defect mnemonic operands e :=
  defect_of_noByte hs (noByte_of_read h).1 (noByte_of_read h).2

theorem defect_of_readRegister (hs : Stands mnemonic operands .register token)
    (h : readRegister token = .error e) : Defect mnemonic operands e := by
  obtain ⟨rfl, hnot⟩ := readRegister_eq_error_iff.1 h
  exact ⟨hs, hnot⟩

theorem defect_of_readLabel (hs : Stands mnemonic operands .label token)
    (h : readLabel token = .error e) : Defect mnemonic operands e := by
  obtain ⟨rfl, hnot⟩ := readLabel_eq_error_iff.1 h
  exact ⟨hs, hnot⟩

theorem defect_of_count (h : places? mnemonic operands.length = none) :
    Defect mnemonic operands (.malformed mnemonic) :=
  ⟨rfl, .inl h⟩

theorem defect_of_fixed (place : Place) (hs : Stands mnemonic operands place token)
    (hfixed : place.IsFixed) (h : ¬ place.Fits token) :
    Defect mnemonic operands (.malformed mnemonic) :=
  ⟨rfl, .inr ⟨place, token, hs, hfixed, h⟩⟩

theorem defect_of_connector (connector : Connector)
    (hs : Stands mnemonic operands (.word [spelling connector]) token)
    (h : ¬ spells token connector = true) : Defect mnemonic operands (.malformed mnemonic) := by
  refine defect_of_fixed _ hs trivial fun hfits => h ?_
  obtain ⟨word, hword, his⟩ := hfits
  rw [List.mem_singleton.1 hword] at his
  exact spells_iff.2 his

/-- A token that is no member of a vocabulary fits no place that lists its keywords. -/
theorem defect_of_find? {β : Type} [Vocabulary β] [Lawful β] (table : List (String × β))
    (htable : table = (Vocabulary.members : List β).map fun member => (spelling member, member))
    (hs : Stands mnemonic operands (.word (table.map Prod.fst)) token)
    (h : find? β token = none) : Defect mnemonic operands (.malformed mnemonic) := by
  refine defect_of_fixed _ hs trivial fun hfits => ?_
  obtain ⟨word, hword, his⟩ := hfits
  have hnone : ∀ member, ¬ Names table token member := by
    rw [htable]
    exact (forall_not_names_members_iff (f := id)).2 h
  exact forall_not_names_iff.1 hnone word hword his

/-! ### The forms of the mnemonics -/

theorem defect_of_parseBare {bare : Instruction}
    (hnone : ∀ n, places? mnemonic (n + 1) = none)
    (h : parseBare mnemonic bare operands = .error e) : Defect mnemonic operands e := by
  cases operands with
  | nil => cases h
  | cons first rest =>
    cases h
    exact defect_of_count (hnone rest.length)

theorem defect_of_parseLabel (hm : mnemonic = .label ∨ mnemonic = .goto)
    (h : parseLabel mnemonic operands = .error e) : Defect mnemonic operands e := by
  have hnone : places? mnemonic 0 = none := by rcases hm with rfl | rfl <;> rfl
  have hone : places? mnemonic 1 = some [.label] := by rcases hm with rfl | rfl <;> rfl
  match operands with
  | [] =>
    cases h
    exact defect_of_count hnone
  | [name] => exact defect_of_readLabel (stands_at 0 hone rfl rfl) h
  | first :: second :: rest =>
    cases h
    exact ⟨rfl, hm, Nat.le_add_left 2 rest.length, rfl⟩

theorem defect_of_parseMask (hm : mnemonic = .and ∨ mnemonic = .or)
    (h : parseMask mnemonic operands = .error e) : Defect mnemonic operands e := by
  have hone : places? mnemonic 1 = some [.number []] := by rcases hm with rfl | rfl <;> rfl
  match operands with
  | [value] => exact defect_of_readByte (stands_at 0 hone rfl rfl) h
  | [] | _ :: _ :: _ =>
    cases h
    exact defect_of_count (by rcases hm with rfl | rfl <;> rfl)

theorem defect_of_parseAssign (h : parseAssign operands = .error e) :
    Defect .assign operands e := by
  match operands with
  | [reg, sign, value] =>
    rcases guarded_eq_error_iff.1 h with ⟨hsign, rfl⟩ | ⟨-, hvalue | ⟨-, hreg⟩⟩
    · exact defect_of_fixed .sign (stands_at 1 rfl rfl rfl) trivial hsign
    · exact defect_of_readByte (stands_at 2 rfl rfl rfl) hvalue
    · exact defect_of_readRegister (stands_at 0 rfl rfl rfl) hreg
  | [reg, sign, mode, value] =>
    rcases guarded_eq_error_iff.1 h with ⟨hwords, rfl⟩ | ⟨-, hvalue | ⟨-, hreg⟩⟩
    · by_cases hsign : sign = assignSign
      · exact defect_of_connector .valueIn (stands_at 2 rfl rfl rfl)
          fun hmode => hwords ⟨hsign, hmode⟩
      · exact defect_of_fixed .sign (stands_at 1 rfl rfl rfl) trivial hsign
    · exact defect_of_readAddress (stands_at 3 rfl rfl rfl) hvalue
    · exact defect_of_readRegister (stands_at 0 rfl rfl rfl) hreg
  | [] | [_] | [_, _] | _ :: _ :: _ :: _ :: _ :: _ =>
    cases h
    exact defect_of_count rfl

theorem defect_of_parseMemcopy (h : parseMemcopy operands = .error e) :
    Defect .memcopy operands e := by
  match operands with
  | [reg, into, target] =>
    rcases guarded_eq_error_iff.1 h with ⟨hinto, rfl⟩ | ⟨-, hreg | ⟨-, haddress⟩⟩
    · exact defect_of_connector .into (stands_at 1 rfl rfl rfl) hinto
    · exact defect_of_readRegister (stands_at 0 rfl rfl rfl) hreg
    · exact defect_of_readAddress (stands_at 2 rfl rfl rfl) haddress
  | [reg, into, mode, target] =>
    rcases guarded_eq_error_iff.1 h with ⟨hwords, rfl⟩ | ⟨-, hreg | ⟨-, haddress⟩⟩
    · by_cases hinto : spells into Connector.into = true
      · exact defect_of_connector .addressIn (stands_at 2 rfl rfl rfl)
          fun hmode => hwords ⟨hinto, hmode⟩
      · exact defect_of_connector .into (stands_at 1 rfl rfl rfl) hinto
    · exact defect_of_readRegister (stands_at 0 rfl rfl rfl) hreg
    · exact defect_of_readAddress (stands_at 3 rfl rfl rfl) haddress
  | [] | [_] | [_, _] | _ :: _ :: _ :: _ :: _ :: _ =>
    cases h
    exact defect_of_count rfl

theorem defect_of_parseArithmetic {connector : Connector}
    (hm : mnemonic = .add ∨ mnemonic = .subtract)
    (hthree : places? mnemonic 3 =
      some [.number (registers.map Prod.fst), .word [spelling connector], .register])
    (h : parseArithmetic mnemonic connector operands = .error e) :
    Defect mnemonic operands e := by
  match operands with
  | [source, word, reg] =>
    rcases guarded_eq_error_iff.1 h with ⟨hword, rfl⟩ | ⟨-, hsource | ⟨-, hreg⟩⟩
    · exact defect_of_connector _ (stands_at 1 hthree rfl rfl) hword
    · exact defect_of_read (stands_at 0 hthree rfl rfl) hsource
    · exact defect_of_readRegister (stands_at 2 hthree rfl rfl) hreg
  | [] | [_] | [_, _] | _ :: _ :: _ :: _ :: _ =>
    cases h
    exact defect_of_count (by rcases hm with rfl | rfl <;> rfl)

theorem defect_of_parseBranch (h : parseBranch operands = .error e) :
    Defect .branch operands e := by
  match operands with
  | [reg, test, word, target] =>
    rw [parseBranch] at h
    split at h
    · rcases bind_eq_error.1 h with hreg | ⟨reg, -, h⟩
      · exact defect_of_readRegister (stands_at 0 rfl rfl rfl) hreg
      · split at h
        · rename_i htest
          cases h
          exact defect_of_find? tests rfl (stands_at 1 rfl rfl rfl) htest
        · rcases bind_eq_error.1 h with hlabel | ⟨name, -, h⟩
          · exact defect_of_readLabel (stands_at 3 rfl rfl rfl) hlabel
          · cases h
    · rename_i hword
      cases h
      exact defect_of_connector .goto (stands_at 2 rfl rfl rfl) hword
  | [] | [_] | [_, _] | [_, _, _] | _ :: _ :: _ :: _ :: _ :: _ =>
    cases h
    exact defect_of_count rfl

/-- The error of a shift is about its register, its direction or its count. -/
theorem defect_of_parseShift {reg direction : String} (count : Option String)
    (h : parseShift reg direction count = .error e) :
    Defect .bitshift (reg :: direction :: count.toList) e := by
  obtain ⟨places, hplaces, hreg, hdirection, hcount⟩ : ∃ places,
      places? .bitshift (reg :: direction :: count.toList).length = some places ∧
      places[0]? = some .register ∧ places[1]? = some (.word (directions.map Prod.fst)) ∧
      (count.isSome → places[2]? = some (.number [])) := by
    cases count with
    | none => exact ⟨_, rfl, rfl, rfl, fun hsome => by cases hsome⟩
    | some token => exact ⟨_, rfl, rfl, rfl, fun _ => rfl⟩
  rcases bind_eq_error.1 h with hread | ⟨register, hread, h⟩
  · exact defect_of_readRegister (stands_at 0 hplaces hreg rfl) hread
  split at h
  · rename_i hx
    cases h
    exact ⟨rfl, rfl, rfl, reg, rfl, hx ▸ readRegister_eq_ok_iff.1 hread⟩
  split at h
  · rename_i hnone
    cases h
    exact defect_of_find? directions rfl
      (stands_at 1 hplaces hdirection rfl) hnone
  · cases count with
    | none => cases h
    | some token =>
      rcases bind_eq_error.1 h with hread | ⟨value, hread, h⟩
      · exact defect_of_noByte (stands_at 2 hplaces (hcount rfl) rfl) (List.forall_mem_nil _)
          (noByte_of_readInteger hread)
      · split at h
        · cases h
        · rename_i hrange
          cases h
          exact ⟨rfl, token, rfl, (readInteger_eq_ok_iff.1 hread).1, hrange⟩

theorem defect_of_parseBitshift (h : parseBitshift operands = .error e) :
    Defect .bitshift operands e := by
  match operands with
  | [reg, direction] => exact defect_of_parseShift none h
  | [reg, direction, count] => exact defect_of_parseShift (some count) h
  | [] | [_] | _ :: _ :: _ :: _ :: _ =>
    cases h
    exact defect_of_count rfl

theorem defect_of_parseBytes (h : parseBytes operands = .error e) : Defect .bytes operands e := by
  cases operands with
  | nil =>
    cases h
    exact defect_of_count rfl
  | cons first rest =>
    obtain ⟨before, token, after, hsplit, -, hread⟩ :=
      exists_of_mapM_eq_error (map_eq_error.1 h)
    have hlength : before.length < rest.length + 1 := by
      have := congrArg List.length hsplit
      simp at this
      omega
    refine defect_of_readByte (stands_at before.length rfl ?_ ?_) hread
    · rw [List.getElem?_replicate, if_pos hlength]
    · rw [hsplit]
      simp

/-- An error about operands names a defect of theirs. -/
theorem defect_of_parseOperands (h : parseOperands operands mnemonic = .error e) :
    Defect mnemonic operands e := by
  cases mnemonic with
  | label => exact defect_of_parseLabel (.inl rfl) (map_eq_error.1 h)
  | goto => exact defect_of_parseLabel (.inr rfl) (map_eq_error.1 h)
  | syscall | halt | noop => exact defect_of_parseBare (fun _ => rfl) h
  | assign => exact defect_of_parseAssign h
  | memcopy => exact defect_of_parseMemcopy h
  | and => exact defect_of_parseMask (.inl rfl) (map_eq_error.1 h)
  | or => exact defect_of_parseMask (.inr rfl) (map_eq_error.1 h)
  | add => exact defect_of_parseArithmetic (.inl rfl) rfl (map_eq_error.1 h)
  | subtract => exact defect_of_parseArithmetic (.inr rfl) rfl (map_eq_error.1 h)
  | branch => exact defect_of_parseBranch h
  | bitshift => exact defect_of_parseBitshift h
  | bytes => exact defect_of_parseBytes h

end

/-- An error names a defect of the statement. -/
theorem hasDefect_of_parse {tokens : List String} {e : ParseError} (h : parse tokens = .error e) :
    HasDefect tokens e := by
  cases tokens with
  | nil =>
    cases h
    exact rfl
  | cons word operands =>
    rw [parse] at h
    split at h
    · rename_i hnone
      cases h
      refine .inl ⟨rfl, fun mnemonic his => ?_⟩
      rw [find?_eq_some_iff.2 his] at hnone
      cases hnone
    · rename_i mnemonic hword
      exact .inr ⟨mnemonic, find?_eq_some_iff.1 hword, defect_of_parseOperands h⟩

/-! ## Defects are reported -/

/-- The operands of a mnemonic fit their places, and those of a shift are in its range. -/
structure WellFormed (mnemonic : Mnemonic) (operands : List String) : Prop where
  fits : ∃ places, places? mnemonic operands.length = some places ∧
    List.Forall₂ Place.Fits places operands
  register : mnemonic = .bitshift → ∀ token, operands[0]? = some token →
    ¬ Names registers token .x
  count : mnemonic = .bitshift → ∀ token, operands[2]? = some token →
    ∃ value, Numeral.Denotes token.toList value ∧ 1 ≤ value ∧ value ≤ 4

theorem WellFormed.fits_of_stands {mnemonic : Mnemonic} {operands : List String}
    (h : WellFormed mnemonic operands) {place : Place} {token : String}
    (hs : Stands mnemonic operands place token) : place.Fits token := by
  obtain ⟨places, hplaces, hfits⟩ := h.fits
  obtain ⟨others, hothers, hmem⟩ := hs
  obtain rfl := Option.some.inj (hplaces.symm.trans hothers)
  exact (List.forall₂_iff_zip.1 hfits).2 hmem

/-- In a well-formed statement no error finds anything. -/
theorem WellFormed.not_defect {mnemonic : Mnemonic} {operands : List String}
    (h : WellFormed mnemonic operands) (e : ParseError) : ¬ Defect mnemonic operands e := by
  obtain ⟨places, hplaces, -⟩ := h.fits
  cases e with
  | emptyStatement => exact id
  | undefinedKeyword token => exact id
  | malformed named =>
    rintro ⟨-, hnone | ⟨place, token, hs, -, hnot⟩⟩
    · rw [hplaces] at hnone
      cases hnone
    · exact hnot (h.fits_of_stands hs)
  | notNumeric token =>
    rintro ⟨others, hs, hothers, hnot⟩
    rcases h.fits_of_stands hs with ⟨word, hword, his⟩ | ⟨value, hvalue, -⟩
    · exact hothers word hword his
    · exact hnot value hvalue
  | byteOutOfRange token =>
    rintro ⟨others, hs, hothers, value, hvalue, hrange⟩
    rcases h.fits_of_stands hs with ⟨word, hword, his⟩ | ⟨other, hother, hfits⟩
    · exact hothers word hword his
    · exact (NoByte.outOfRange hvalue hrange).not_denotes hother hfits
  | shiftCountOutOfRange count =>
    rintro ⟨hm, token, htoken, hvalue, hrange⟩
    obtain ⟨value, hother, hfits⟩ := h.count hm token htoken
    rw [← Numeral.value?_eq_some_iff] at hvalue hother
    obtain rfl := Option.some.inj (hvalue.symm.trans hother)
    exact hrange hfits
  | badRegisterName token =>
    rintro ⟨hs, hnot⟩
    obtain ⟨reg, hreg⟩ := h.fits_of_stands hs
    exact hnot reg hreg
  | unsupportedRegister named reg =>
    rintro ⟨-, hm, -, token, htoken, hx⟩
    exact h.register hm token htoken hx
  | labelNameHasSpaces named name =>
    rintro ⟨-, hm, hlength, -⟩
    have hnone : places? mnemonic operands.length = none := by
      obtain ⟨n, hn⟩ := Nat.exists_eq_add_of_le' hlength
      rw [hn]
      rcases hm with rfl | rfl <;> rfl
    rw [hplaces] at hnone
    cases hnone
  | reservedLabelName name =>
    rintro ⟨hs, hnot⟩
    exact hnot (h.fits_of_stands hs)

section

variable {token : String}

theorem exists_word_of_names {β : Type} {table : List (String × β)} {value : β}
    (h : Names table token value) : ∃ word ∈ table.map Prod.fst, Is word token := by
  obtain ⟨word, hmem, his⟩ := h
  exact ⟨word, List.mem_map_of_mem (f := Prod.fst) hmem, his⟩

theorem fits_of_readByte {value : UInt8} (others : List String) (h : readByte token = .ok value) :
    (Place.number others).Fits token := by
  have hvalue := value.toNat_lt
  exact .inr ⟨value.toNat, readByte_eq_ok_iff.1 h, by omega, by omega⟩

theorem fits_of_isAddress {address : UInt8} (h : IsAddress token address) :
    (Place.number (cells.map Prod.fst)).Fits token := by
  cases h with
  | cell h => exact .inl (exists_word_of_names h)
  | byte hnot h => exact fits_of_readByte _ h

theorem fits_of_isSource {source : Operand} (h : IsSource token source) :
    (Place.number (registers.map Prod.fst)).Fits token := by
  cases h with
  | register h => exact .inl (exists_word_of_names h)
  | literal hnot h => exact fits_of_readByte _ h

theorem fits_of_is {word : String} (h : Is word token) : (Place.word [word]).Fits token :=
  ⟨word, List.mem_singleton_self word, h⟩

theorem forall₂_fits_bytes {operands : List String} {values : List UInt8}
    (h : List.Forall₂ (fun operand value => readByte operand = .ok value) operands values) :
    List.Forall₂ Place.Fits (List.replicate operands.length (.number [])) operands := by
  induction h with
  | nil => exact .nil
  | cons hvalue _ ih => exact .cons (fits_of_readByte _ hvalue) ih

theorem not_names_x {reg : Register} (h : Names registers token reg) (hx : reg ≠ .x) :
    ¬ Names registers token .x := by
  intro hother
  rw [names_registers_iff] at h hother
  exact hx (Option.some.inj (h.symm.trans hother))

end

theorem wellFormed_of_fits {mnemonic : Mnemonic} {operands : List String} {places : List Place}
    (hm : mnemonic ≠ .bitshift) (hplaces : places? mnemonic operands.length = some places)
    (hfits : List.Forall₂ Place.Fits places operands) : WellFormed mnemonic operands :=
  ⟨⟨places, hplaces, hfits⟩, fun h => absurd h hm, fun h => absurd h hm⟩

/-- A statement that denotes an instruction is well-formed. -/
theorem wellFormed_of_denotes {word : String} {operands : List String} {instruction : Instruction}
    (h : Denotes (word :: operands) instruction) :
    ∃ mnemonic : Mnemonic, Is (spelling mnemonic) word ∧ WellFormed mnemonic operands := by
  cases h with
  | label hword hname =>
    exact ⟨.label, hword, wellFormed_of_fits (by decide) rfl (.cons hname .nil)⟩
  | goto hword hname =>
    exact ⟨.goto, hword, wellFormed_of_fits (by decide) rfl (.cons hname .nil)⟩
  | syscall hword => exact ⟨.syscall, hword, wellFormed_of_fits (by decide) rfl .nil⟩
  | halt hword => exact ⟨.halt, hword, wellFormed_of_fits (by decide) rfl .nil⟩
  | noop hword => exact ⟨.noop, hword, wellFormed_of_fits (by decide) rfl .nil⟩
  | assign hword hreg hvalue =>
    exact ⟨.assign, hword, wellFormed_of_fits (by decide) rfl
      (.cons ⟨_, hreg⟩ (.cons rfl (.cons (fits_of_readByte _ hvalue) .nil)))⟩
  | assignIndirect hword hmode hreg haddress =>
    exact ⟨.assign, hword, wellFormed_of_fits (by decide) rfl
      (.cons ⟨_, hreg⟩ (.cons rfl (.cons (fits_of_is hmode)
        (.cons (fits_of_isAddress haddress) .nil))))⟩
  | memcopy hword hinto hreg haddress =>
    exact ⟨.memcopy, hword, wellFormed_of_fits (by decide) rfl
      (.cons ⟨_, hreg⟩ (.cons (fits_of_is hinto) (.cons (fits_of_isAddress haddress) .nil)))⟩
  | memcopyIndirect hword hinto hmode hreg haddress =>
    exact ⟨.memcopy, hword, wellFormed_of_fits (by decide) rfl
      (.cons ⟨_, hreg⟩ (.cons (fits_of_is hinto) (.cons (fits_of_is hmode)
        (.cons (fits_of_isAddress haddress) .nil))))⟩
  | and hword hvalue =>
    exact ⟨.and, hword, wellFormed_of_fits (by decide) rfl (.cons (fits_of_readByte _ hvalue) .nil)⟩
  | or hword hvalue =>
    exact ⟨.or, hword, wellFormed_of_fits (by decide) rfl (.cons (fits_of_readByte _ hvalue) .nil)⟩
  | add hword hinto hsource hreg =>
    exact ⟨.add, hword, wellFormed_of_fits (by decide) rfl
      (.cons (fits_of_isSource hsource) (.cons (fits_of_is hinto) (.cons ⟨_, hreg⟩ .nil)))⟩
  | subtract hword houtOf hsource hreg =>
    exact ⟨.subtract, hword, wellFormed_of_fits (by decide) rfl
      (.cons (fits_of_isSource hsource) (.cons (fits_of_is houtOf) (.cons ⟨_, hreg⟩ .nil)))⟩
  | branch hword hgoto hreg htest hname =>
    exact ⟨.branch, hword, wellFormed_of_fits (by decide) rfl
      (.cons ⟨_, hreg⟩ (.cons (exists_word_of_names htest) (.cons (fits_of_is hgoto)
        (.cons hname .nil))))⟩
  | bitshift hword hreg hx hdirection =>
    refine ⟨.bitshift, hword, ⟨_, rfl, .cons ⟨_, hreg⟩ (.cons (exists_word_of_names hdirection)
      .nil)⟩, fun _ => ?_, fun _ => ?_⟩
    · rintro _ ⟨⟩
      exact not_names_x hreg hx
    · rintro _ ⟨⟩
  | bitshiftBy hword hreg hx hdirection hcount hlow hhigh =>
    refine ⟨.bitshift, hword, ⟨_, rfl, .cons ⟨_, hreg⟩ (.cons (exists_word_of_names hdirection)
      (.cons (.inr ⟨_, hcount, by omega, by omega⟩) .nil))⟩, fun _ => ?_, fun _ => ?_⟩
    · rintro _ ⟨⟩
      exact not_names_x hreg hx
    · rintro _ ⟨⟩
      exact ⟨_, hcount, by omega, by omega⟩
  | bytes hword hne hvalues =>
    have hplaces : places? .bytes operands.length =
        some (List.replicate operands.length (.number [])) := by
      cases operands with
      | nil => exact absurd rfl hne
      | cons first rest => rfl
    exact ⟨.bytes, hword, wellFormed_of_fits (by decide) hplaces (forall₂_fits_bytes hvalues)⟩

/-- A statement with a defect does not denote anything. -/
theorem HasDefect.not_denotes {tokens : List String} {e : ParseError} (h : HasDefect tokens e)
    (instruction : Instruction) : ¬ Denotes tokens instruction := by
  intro hdenotes
  cases tokens with
  | nil => cases hdenotes
  | cons word operands =>
    obtain ⟨mnemonic, hword, hformed⟩ := wellFormed_of_denotes hdenotes
    rcases h with ⟨-, hnone⟩ | ⟨other, hother, hdefect⟩
    · exact hnone mnemonic hword
    · rw [← find?_eq_some_iff] at hword hother
      obtain rfl := Option.some.inj (hword.symm.trans hother)
      exact hformed.not_defect e hdefect

/-- **Errors name defects that are there.** A statement that is refused has the defect that its
error names, and a statement that has a defect is refused. -/
theorem parse_names_defect (tokens : List String) :
    (∀ e, parse tokens = .error e → HasDefect tokens e) ∧
    ∀ e, HasDefect tokens e → ∃ reported, parse tokens = .error reported := by
  refine ⟨fun e h => hasDefect_of_parse h, fun e h => ?_⟩
  cases hparse : parse tokens with
  | error reported => exact ⟨reported, rfl⟩
  | ok instruction => exact absurd (denotes_of_parse hparse) (h.not_denotes instruction)

/-- Statements with several faults, of which the one that is read first is named. -/
theorem parse_names_defect_first :
    (parse ["LET", "Q", "=", "300"] = .error (.byteOutOfRange "300") ∧
      HasDefect ["LET", "Q", "=", "300"] (.byteOutOfRange "300")) ∧
    (parse ["if", "Y", "NEVER", "goto", "#top"] = .error (.badRegisterName "Y") ∧
      HasDefect ["if", "Y", "NEVER", "goto", "#top"] (.badRegisterName "Y")) ∧
    (parse ["BitShift", "B", "LEFT", "-5"] = .error (.shiftCountOutOfRange (-5)) ∧
      HasDefect ["BitShift", "B", "LEFT", "-5"] (.shiftCountOutOfRange (-5))) ∧
    HasDefect ["ADD", "1", "TO", "P"] (.badRegisterName "P") ∧
      ∃ reported, parse ["ADD", "1", "TO", "P"] = .error reported := by
  have hvalue : parse ["LET", "Q", "=", "300"] = .error (.byteOutOfRange "300") := rfl
  have hreg : parse ["if", "Y", "NEVER", "goto", "#top"] = .error (.badRegisterName "Y") := rfl
  have hcount : parse ["BitShift", "B", "LEFT", "-5"] = .error (.shiftCountOutOfRange (-5)) := rfl
  have hcounter : HasDefect ["ADD", "1", "TO", "P"] (.badRegisterName "P") :=
    .inr ⟨.add, .refl _, stands_at 2 rfl rfl rfl, (readRegister_eq_error_iff.1 rfl).2⟩
  exact ⟨⟨hvalue, (parse_names_defect _).1 _ hvalue⟩, ⟨hreg, (parse_names_defect _).1 _ hreg⟩,
    ⟨hcount, (parse_names_defect _).1 _ hcount⟩, hcounter, (parse_names_defect _).2 _ hcounter⟩

end Instruction

end CrossAssembler
