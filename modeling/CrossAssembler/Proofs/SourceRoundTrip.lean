import CrossAssembler.Proofs.FirstBadLine
import CrossAssembler.Proofs.GapCorrection
import CrossAssembler.Proofs.Tiling
import CrossAssembler.Proofs.UploadImage

/-!
# Source texts made from what was read or assembled

Two texts are source texts that say the same again.

* The statements of a program, each written on a line with its tokens one space apart
  (`Statement.render`), are read as the same program (`parse_render`): what separates lines and
  tokens is no part of a token (`Statement.Legible`), and no token opens a comment.
* The lines of an upload behind its header, each written after `BYTES`, are assembled to the same
  upload, if that ends before the reserved block (`assemble_upload_lines`). Such lines give
  statements of one byte (`byteStatement`), which lie in the memory in a row
  (`layOut_byteStatements`).
-/

namespace CrossAssembler

open Layout

/-! ## Statements written out -/

namespace Statement

/-- The statements one to a line, with a line feed between neighbours. -/
def render (statements : List Statement) : String := "\n".intercalate (statements.map text)

/-- The statement has tokens, and each may be the token of a line. -/
structure Legible (statement : Statement) : Prop where
  ne_nil : statement.tokens ≠ []
  isToken : ∀ token ∈ statement.tokens, Token.IsToken token

theorem tokens_eq_of_ofTokens {tokens : List String} {statement : Statement}
    (h : ofTokens tokens = .ok statement) : statement.tokens = tokens := by
  obtain ⟨instruction, -, rfl⟩ := Fallible.map_eq_ok.1 h
  rfl

section

variable {statements : List Statement} (h : ∀ statement ∈ statements, statement.Legible)

include h

theorem lines_render : Text.lines (render statements) = statements.map text := by
  apply Text.lines_intercalate
  · intro line hline
    obtain ⟨statement, hs, rfl⟩ := List.mem_map.1 hline
    exact Token.unbroken_unwords (h statement hs).isToken
  · intro line hline
    obtain ⟨statement, hs, rfl⟩ := List.mem_map.1 hline
    exact Token.unwords_ne_empty (h statement hs).isToken (h statement hs).ne_nil

/-- Legible statements that are written out have their tokens. -/
theorem tokens_render :
    ((Text.lines (render statements)).map Token.ofLine).filter (fun tokens => !tokens.isEmpty) =
      statements.map tokens := by
  have htokens : ∀ statement ∈ statements, Token.ofLine statement.text = statement.tokens :=
    fun statement hs => Token.ofLine_unwords (h statement hs).isToken
  have hne : ∀ words ∈ statements.map Statement.tokens, (!words.isEmpty) = true := by
    intro words hw
    obtain ⟨statement, hs, rfl⟩ := List.mem_map.1 hw
    simpa using (h statement hs).ne_nil
  rw [lines_render h, List.map_map]
  have hmap : statements.map (Token.ofLine ∘ text) = statements.map tokens :=
    List.map_congr_left htokens
  rw [hmap, List.filter_eq_self.2 hne]

end

end Statement

namespace Assembly

section

variable {source : String} {statements : List Statement}
  (h : (read source).result = .ok statements)

include h

theorem tokens_of_read :
    ((Text.lines source).map Token.ofLine).filter (fun tokens => !tokens.isEmpty) =
      statements.map Statement.tokens := by
  rw [← List.forall₂_eq_eq_eq, List.forall₂_map_right_iff]
  exact (read_eq_ok_iff.1 h).imp fun _ _ hs => (Statement.tokens_eq_of_ofTokens hs).symm

/-- The statements that are read are those of their tokens. -/
theorem ofTokens_of_read : ∀ statement ∈ statements,
    Statement.ofTokens statement.tokens = .ok statement := by
  have hlines := read_eq_ok_iff.1 h
  rw [tokens_of_read h, List.forall₂_map_left_iff, List.forall₂_same] at hlines
  exact hlines

theorem legible_of_read : ∀ statement ∈ statements, statement.Legible := by
  intro statement hs
  have hmem := List.mem_map_of_mem (f := Statement.tokens) hs
  rw [← tokens_of_read h, List.mem_filter, List.mem_map] at hmem
  obtain ⟨⟨line, -, hline⟩, hne⟩ := hmem
  refine ⟨by simpa using hne, fun token ht => ?_⟩
  rw [← hline] at ht
  exact Token.isToken_of_mem_ofLine ht

end

end Assembly

/-- **Statements that are written out are read as the same program.** The statements of a program
that was read from a source text, each written on a line with its tokens one space apart, are a
source text of the same program: it has the same statements with the same tokens and code, and so
answers every question as the program does. -/
theorem parse_render {source : String} {program : Program} (h : parse source = .ok program) :
    parse (Statement.render program.source) = .ok program := by
  obtain ⟨statements, hread, rfl⟩ := Fallible.map_eq_ok.1 h
  have hagain : (Assembly.read (Statement.render statements)).result = .ok statements := by
    rw [Assembly.read_eq_ok_iff, Statement.tokens_render (Assembly.legible_of_read hread),
      List.forall₂_map_left_iff, List.forall₂_same]
    exact Assembly.ofTokens_of_read hread
  exact Fallible.map_eq_ok.2 ⟨statements, hagain, rfl⟩

/-- A source text with blanks of several kinds, comments, a name that holds `#`, and lines that end
in different ways. -/
def tangled : String :=
  "\tLET A\u00a0=  1 # one\r\n\n  goto\u3000a#b\r\n# nothing here\nLABEL a#b\r"

theorem parse_render_tangled : ∃ program, parse tangled = .ok program ∧
    Statement.render program.source = "LET A = 1\ngoto a#b\nLABEL a#b" ∧
    parse "LET A = 1\ngoto a#b\nLABEL a#b" = .ok program := by
  have hrender : (parse tangled).toOption.map (fun program => Statement.render program.source) =
      some "LET A = 1\ngoto a#b\nLABEL a#b" := by
    decide +kernel
  obtain ⟨program, hprogram, htext⟩ := Option.map_eq_some_iff.1 hrender
  rw [Fallible.toOption_eq_some] at hprogram
  refine ⟨program, hprogram, htext, ?_⟩
  rw [← htext]
  exact parse_render hprogram

/-! ## Bytes written out -/

/-- The statement of one byte, written in octal. -/
def byteStatement (byte : UInt8) : Statement :=
  .ofInstruction ["BYTES", octal byte.toNat] (.bytes [byte])

theorem ofTokens_octal (byte : UInt8) :
    Statement.ofTokens ["BYTES", octal byte.toNat] = .ok (byteStatement byte) := by
  have hparse : Instruction.parse ["BYTES", octal byte.toNat] = .ok (.bytes [byte]) := by
    apply Instruction.parse_of_denotes
    exact .bytes (.refl _) (by simp) (.cons (Operand.readByte_octal byte) .nil)
  exact Fallible.map_eq_ok.2 ⟨_, hparse, rfl⟩

/-- A line with a byte has the tokens of the byte's statement. -/
theorem ofLine_bytes (byte : UInt8) :
    Token.ofLine ("BYTES " ++ octal byte.toNat) = ["BYTES", octal byte.toNat] := by
  have hline : "BYTES " ++ octal byte.toNat = Text.unwords ["BYTES", octal byte.toNat] := by
    simp [Text.unwords]
  have hbytes : Token.IsToken "BYTES" := by
    refine ⟨⟨by simp, ?_⟩, by decide⟩
    simp [Text.isBlank, Text.blankRanges]
  rw [hline, Token.ofLine_unwords]
  simp [hbytes, isToken_octal]

theorem read_byte_lines {source : String} {body : List UInt8}
    (h : Text.lines source = body.map fun byte => "BYTES " ++ octal byte.toNat) :
    (Assembly.read source).result = .ok (body.map byteStatement) := by
  have htokens : ((Text.lines source).map Token.ofLine).filter (fun tokens => !tokens.isEmpty) =
      body.map fun byte => ["BYTES", octal byte.toNat] := by
    simp only [h, List.map_map, Function.comp_def, ofLine_bytes]
    simp
  rw [Assembly.read_eq_ok_iff, htokens, List.forall₂_map_left_iff, List.forall₂_map_right_iff,
    List.forall₂_same]
  exact fun byte _ => ofTokens_octal byte

namespace Layout

theorem fragments_byteStatements (body : List UInt8) :
    fragments (body.map byteStatement) = body.map Fragment.operation := by
  induction body with
  | nil => rfl
  | cons byte body ih =>
    rw [List.map_cons, fragments_cons, ih]
    rfl

theorem finish_byteStatements (body : List UInt8) :
    finish (body.map byteStatement) = 4 + body.length := by
  have hvalues : (body.map Fragment.operation).flatMap Fragment.values = body := by
    induction body with
    | nil => rfl
    | cons byte body ih =>
      rw [List.map_cons, List.flatMap_cons, ih]
      rfl
  rw [finish, extent_eq_totalCells, fragments_byteStatements, ← Fragment.length_flatMap_values,
    hvalues]
  rfl

theorem flatMap_values_settled (table : List (String × Nat)) (targets : List String) (address : Nat)
    (body : List UInt8) :
    ((placeFragments address (body.map Fragment.operation)).map
      (settleFragment table targets)).flatMap Fragment.values = body := by
  induction body generalizing address with
  | nil => rfl
  | cons byte body ih =>
    rw [List.map_cons, placeFragments, List.map_cons, List.flatMap_cons, ih]
    rfl

/-- Statements of single bytes that end before the reserved block are laid out in a row. -/
theorem layOut_byteStatements {body : List UInt8} (h : 4 + body.length < 128) :
    ∃ layout, layOut (body.map byteStatement) = .ok layout ∧
      image layout.statements = Memory.header ++ body := by
  have hfinish := finish_byteStatements body
  have hlabels : labelNames (body.map byteStatement) = [] := by
    rw [labelNames, fragments_byteStatements, Instruction.filterMap_operation fun _ => rfl]
  have htargets : targets (body.map byteStatement) = [] := by
    rw [targets, fragments_byteStatements, Instruction.filterMap_operation fun _ => rfl]
  have hresolve : resolve (place Memory.programStart (body.map byteStatement)) =
      .ok (settle (place Memory.programStart (body.map byteStatement))) := by
    rw [resolve_eq_ok_iff, labelNames_place, targets_place, hlabels, htargets]
    simp
  have hroute : (route (body.map byteStatement)).result = .ok (body.map byteStatement) :=
    route_eq_ok_iff.2 (.inl ⟨by omega, rfl⟩)
  refine ⟨⟨settle (place Memory.programStart (body.map byteStatement)), diagnose _⟩,
    layOut_eq_ok_iff.2 ⟨by simp [hlabels], _, hroute, by omega, hresolve, rfl⟩, ?_⟩
  rw [image, ← fragments, settle, fragments_settle_place, fragments_byteStatements,
    flatMap_values_settled]

end Layout

/-- Lines with the bytes of a short image are assembled to the upload of the image. -/
theorem assemble_byte_lines {source : String} {body : List UInt8} (hshort : 4 + body.length < 128)
    (h : Text.lines source = body.map fun byte => "BYTES " ++ octal byte.toNat) (eot : Bool) :
    assemble source eot = .ok (Upload.octalText (Memory.header ++ body) eot) := by
  obtain ⟨layout, hlayout, himage⟩ := layOut_byteStatements hshort
  rw [assemble_eq_bind, read_byte_lines h, ← himage]
  exact Fallible.map_eq_ok.2 ⟨layout, Fallible.mapError_eq_ok.2 hlayout, rfl⟩

theorem exists_lines_bytes (body : List UInt8) : ∃ source,
    Text.lines source = body.map fun byte => "BYTES " ++ octal byte.toNat := by
  refine ⟨_, Text.lines_join_endLine fun line hline => ?_⟩
  obtain ⟨byte, -, rfl⟩ := List.mem_map.1 hline
  have hword : Text.Unbroken "BYTES " := by decide
  exact hword.append (isToken_octal byte.toNat).unbroken

/-- **An upload is assembled from its own lines.** Let a source text be assembled to an upload whose
image has fewer than 128 bytes. Take any source text that has a line `BYTES` with each line of the
upload behind its header, and no other lines; there are such texts. It is assembled to the same
upload. -/
theorem assemble_upload_lines {source text : String} {program : Program} {bytes : List UInt8}
    (htext : assemble source false = .ok text) (hprogram : parse source = .ok program)
    (hbytes : program.image.1 = .ok bytes) (hshort : bytes.length < 128) :
    (∃ again, Text.lines again = ((Text.lines text).drop 4).map fun line => "BYTES " ++ line) ∧
    ∀ again, Text.lines again = ((Text.lines text).drop 4).map (fun line => "BYTES " ++ line) →
      assemble again false = .ok text := by
  obtain ⟨statements, hread, rfl⟩ := Fallible.map_eq_ok.1 hprogram
  rw [Program.image, Program.ask_ofStatements] at hbytes
  obtain ⟨layout, hlayout, rfl⟩ := Fallible.map_eq_ok.1 hbytes
  have hupload : text = Upload.octalText (image layout.statements) false := by
    rw [assemble_eq_bind, hread] at htext
    obtain ⟨layout', hlayout', rfl⟩ := Fallible.map_eq_ok.1 htext
    rw [Fallible.mapError_eq_ok, hlayout] at hlayout'
    rw [Except.ok.inj hlayout']
  obtain ⟨body, hbody⟩ : ∃ body, image layout.statements = Memory.header ++ body := ⟨_, rfl⟩
  rw [hbody] at hupload hshort
  have hlines : ((Text.lines text).drop 4).map (fun line => "BYTES " ++ line) =
      body.map fun byte => "BYTES " ++ octal byte.toNat := by
    rw [hupload, Upload.lines_octalText, List.map_append,
      List.drop_left' (by rw [List.length_map]; rfl), List.map_map]
    rfl
  have hbound : 4 + body.length < 128 := by
    rwa [List.length_append] at hshort
  rw [hlines]
  refine ⟨exists_lines_bytes body, fun again hagain => ?_⟩
  rw [hupload]
  exact assemble_byte_lines hbound hagain false

/-- A source text with a jump back to a label, so that its upload holds an address. -/
def countdown : String := "LET A = 3\nLABEL again\nSUBTRACT 1 FROM A\nIF A NOTZERO GOTO again"

theorem assemble_upload_lines_countdown :
    assemble countdown false =
      .ok "0000\n0000\n0000\n0004\n0023\n0003\n0013\n0001\n0043\n0006\n" ∧
    assemble "BYTES 0023\nBYTES 0003\nBYTES 0013\nBYTES 0001\nBYTES 0043\nBYTES 0006" false =
      .ok "0000\n0000\n0000\n0004\n0023\n0003\n0013\n0001\n0043\n0006\n" := by
  have htext : assemble countdown false =
      .ok "0000\n0000\n0000\n0004\n0023\n0003\n0013\n0001\n0043\n0006\n" :=
    Fallible.toOption_eq_some.1 (by decide +kernel)
  have himage : (parse countdown).toOption.bind (fun program => program.image.1.toOption) =
      some [0, 0, 0, 4, 0o23, 3, 0o13, 1, 0o43, 6] := by
    decide +kernel
  obtain ⟨program, hprogram, hbytes⟩ := Option.bind_eq_some_iff.1 himage
  rw [Fallible.toOption_eq_some] at hprogram hbytes
  refine ⟨htext, ?_⟩
  apply (assemble_upload_lines htext hprogram hbytes (by decide)).2
  decide +kernel

end CrossAssembler
