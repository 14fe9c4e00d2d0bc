import CrossAssembler.Proofs.FirstBadLine
import CrossAssembler.Proofs.Lines

/-!
# Sources with a line feed between them

Two source texts with a line feed between them are read one after the other: the statements of the
first, then those of the second, whose lines are counted on behind those of the first
(`Assembly.read_joined`, `parse_joined`).

* The line feed ends each line of the first text that is still open. That may add an empty line, and
  takes a carriage return from the last one; the tokens and their numbers stay
  (`Token.numbered_newline`).
* The lines of the second text move by the line feeds before them (`Text.length_lines_newline`), and
  so do the numbers in its errors (`AssemblyError.moveLine`), while all else in an error stays.
-/

namespace CrossAssembler

/-! ## Lines and their numbers -/

namespace Text

theorem length_split (p : Char → Bool) (cs : List Char) :
    (split p cs).length = cs.countP p + 1 := by
  induction cs with
  | nil => rfl
  | cons c cs ih =>
    rw [split_cons, List.countP_cons]
    split
    · rw [List.length_cons, ih]
    · cases hpieces : split p cs with
      | nil => exact absurd hpieces (split_ne_nil p cs)
      | cons piece pieces =>
        rw [hpieces] at ih
        exact ih

/-- A text has as many line feeds as lines that they end, with one more for the last line. -/
theorem length_lines_newline (text : String) :
    (lines (text ++ "\n")).length = 1 + text.toList.count '\n' := by
  rw [lines_newline, List.length_map, length_split, Nat.add_comm]
  rfl

/-- A blank at the end belongs to no word. -/
theorem words_append_of_isBlank {c : Char} (h : isBlank c = true) (cs : List Char) :
    words (cs ++ [c]) = words cs := by
  rw [words_append_cons h]
  exact List.append_nil _

theorem words_dropReturn (cs : List Char) : words (dropReturn cs) = words cs := by
  unfold dropReturn
  split
  · rename_i hlast
    obtain ⟨front, rfl⟩ := List.getLast?_eq_some_iff.1 hlast
    rw [List.dropLast_concat, words_append_of_isBlank isBlank_return]
  · rfl

end Text

namespace Token

open Text

theorem ofLine_dropReturn (cs : List Char) :
    ofLine (String.ofList (dropReturn cs)) = ofLine (String.ofList cs) := by
  rw [ofLine, ofLine, String.toList_ofList, String.toList_ofList, words_dropReturn]

/-- The lines that have tokens, each with its number, counted from `start`. -/
def numberedFrom (start : Nat) (lines : List String) : List (Nat × List String) :=
  ((lines.zipIdx start).map fun (line, number) => (number, ofLine line)).filter
    fun (_, tokens) => !tokens.isEmpty

theorem numberedFrom_cons (start : Nat) (line : String) (lines : List String) :
    numberedFrom start (line :: lines) =
      (if (ofLine line).isEmpty then [] else [(start, ofLine line)]) ++
        numberedFrom (start + 1) lines := by
  simp only [numberedFrom, List.zipIdx_cons, List.map_cons, List.filter_cons]
  cases (ofLine line).isEmpty <;> rfl

theorem numberedFrom_append (start : Nat) (first second : List String) :
    numberedFrom start (first ++ second) =
      numberedFrom start first ++ numberedFrom (start + first.length) second := by
  rw [numberedFrom, List.zipIdx_append, List.map_append, List.filter_append, numberedFrom,
    numberedFrom]

/-- Lines that are counted from a later number have later numbers. -/
theorem numberedFrom_add (start distance : Nat) (lines : List String) :
    numberedFrom (start + distance) lines =
      (numberedFrom start lines).map (Prod.map (· + distance) id) := by
  induction lines generalizing start with
  | nil => rfl
  | cons line lines ih =>
    rw [numberedFrom_cons, numberedFrom_cons, Nat.add_right_comm, ih, List.map_append]
    cases (ofLine line).isEmpty <;> rfl

/-- It makes no difference to the tokens whether the last line is ended or left open. -/
theorem numberedFrom_closeLines {pieces : List (List Char)} (h : pieces ≠ []) (start : Nat) :
    numberedFrom start ((closeLines pieces).map String.ofList) =
      numberedFrom start (pieces.map fun piece => String.ofList (dropReturn piece)) := by
  induction pieces generalizing start with
  | nil => exact absurd rfl h
  | cons piece pieces ih =>
    cases pieces with
    | nil =>
      rw [closeLines, List.map_singleton, numberedFrom_cons, ofLine_dropReturn]
      cases piece with
      | nil => rfl
      | cons c cs => exact numberedFrom_cons start _ []
    | cons next pieces =>
      rw [closeLines, List.map_cons, List.map_cons, numberedFrom_cons, numberedFrom_cons,
        ih (List.cons_ne_nil _ _)]
      simp

theorem numbered_newline (text : String) : numbered (text ++ "\n") = numbered text := by
  have hlines : numbered (text ++ "\n") = numberedFrom 1 (lines (text ++ "\n")) := rfl
  rw [hlines, lines_newline, ← numberedFrom_closeLines (split_ne_nil _ _)]
  rfl

/-- The lines with tokens are those of the first text, and those of the second counted on. -/
theorem numbered_joined (first second : String) :
    numbered (first ++ "\n" ++ second) = numbered first ++
      (numbered second).map (Prod.map (· + (1 + first.toList.count '\n')) id) := by
  have hlines : numbered (first ++ "\n" ++ second) =
      numberedFrom 1 (lines (first ++ "\n" ++ second)) := rfl
  rw [hlines, lines_append_newline_append, numberedFrom_append, numberedFrom_add,
    length_lines_newline, ← numbered_newline first]
  rfl

end Token

/-! ## Reading -/

/-- The error with another number of its line. -/
def AssemblyError.moveLine (move : Nat → Nat) : AssemblyError → AssemblyError
  | .parse line statement cause => .parse (move line) statement cause
  | .layout cause => .layout cause

namespace Assembly

open Token (numbered numbered_joined)

theorem result_readLine_move (move : Nat → Nat) (number : Nat) (tokens : List String) :
    (readLine (move number) tokens).result =
      (readLine number tokens).result.mapError (.moveLine move) := by
  rw [result_readLine, result_readLine]
  cases Statement.ofTokens tokens <;> rfl

/-- Lines with other numbers are read alike, and an error names the other number. -/
theorem mapM_readLine_move (move : Nat → Nat) (lines : List (Nat × List String)) :
    (lines.map (Prod.map move id)).mapM (fun line => (readLine line.1 line.2).result) =
      (lines.mapM fun line => (readLine line.1 line.2).result).mapError (.moveLine move) := by
  rw [← Fallible.mapM_mapError, List.mapM_map]
  congr 1
  funext line
  exact result_readLine_move move line.1 line.2

/-- Joined texts are read one after the other, and lines of the second are counted on. -/
theorem read_joined (first second : String) : (read (first ++ "\n" ++ second)).result = (do
    let statements ← (read first).result
    let more ← (read second).result.mapError (.moveLine (· + (1 + first.toList.count '\n')))
    .ok (statements ++ more)) := by
  rw [result_read, numbered_joined, List.mapM_append, mapM_readLine_move, ← result_read,
    ← result_read]
  rfl

end Assembly

/-- **Reading is compositional in the lines.** Take two texts with a line feed between them. If the
first cannot be read, the whole fails with the same error. If both can be read, the whole is the
program of the statements of the first followed by those of the second. If only the second cannot be
read, the whole fails with the same cause and the same statement, at a line that is greater by one
more than the number of line feeds in the first. -/
theorem parse_joined (first second : String) :
    (∀ e, parse first = .error e → parse (first ++ "\n" ++ second) = .error e) ∧
    (∀ program more, parse first = .ok program → parse second = .ok more →
      parse (first ++ "\n" ++ second) = .ok (.ofStatements (program.source ++ more.source))) ∧
    ∀ program e, parse first = .ok program → parse second = .error e →
      ∃ line statement cause, e = .parse line statement cause ∧
        parse (first ++ "\n" ++ second) =
          .error (.parse (line + (1 + first.toList.count '\n')) statement cause) := by
  have hjoined : parse (first ++ "\n" ++ second) =
      (Assembly.read (first ++ "\n" ++ second)).result.map Program.ofStatements := rfl
  rw [Assembly.read_joined] at hjoined
  refine ⟨fun e h => ?_, fun program more h hmore => ?_, fun program e h he => ?_⟩
  · have hread : (Assembly.read first).result = .error e := Fallible.map_eq_error.1 h
    rw [hjoined, hread]
    rfl
  · obtain ⟨statements, hread, rfl⟩ := Fallible.map_eq_ok.1 h
    obtain ⟨others, hreadMore, rfl⟩ := Fallible.map_eq_ok.1 hmore
    rw [hjoined, hread, hreadMore]
    rfl
  · obtain ⟨statements, hread, rfl⟩ := Fallible.map_eq_ok.1 h
    have hfails : (Assembly.read second).result = .error e := Fallible.map_eq_error.1 he
    obtain ⟨line, tokens, cause, -, -, -, rfl⟩ := Assembly.exists_of_read_eq_error hfails
    refine ⟨line, _, cause, rfl, ?_⟩
    rw [hjoined, hread, hfails]
    rfl

/-- A text that ends in an empty line and a carriage return. -/
def openEnded : String := "NOOP\n\r"

theorem parse_joined_openEnded : ∃ program cause, parse openEnded = .ok program ∧
    parse (openEnded ++ "\n" ++ "HALT\n") =
      .ok (.ofStatements (program.source ++ [.ofInstruction ["HALT"] .halt])) ∧
    parse "# two\nLET Q = 2" = .error (.parse 2 "LET Q = 2" cause) ∧
    parse (openEnded ++ "\n" ++ "# two\nLET Q = 2") = .error (.parse 4 "LET Q = 2" cause) := by
  obtain ⟨program, hprogram⟩ : ∃ program, parse openEnded = .ok program := ⟨_, rfl⟩
  have hhalt : parse "HALT\n" = .ok (.ofStatements [.ofInstruction ["HALT"] .halt]) := rfl
  have hfails : parse "# two\nLET Q = 2" =
      .error (.parse 2 "LET Q = 2" (.badRegisterName "Q")) := rfl
  obtain ⟨-, hboth, -⟩ := parse_joined openEnded "HALT\n"
  obtain ⟨-, -, hlate⟩ := parse_joined openEnded "# two\nLET Q = 2"
  obtain ⟨line, statement, cause, heq, hwhole⟩ := hlate program _ hprogram hfails
  cases heq
  exact ⟨program, _, hprogram, hboth program _ hprogram hhalt, hfails, hwhole⟩

end CrossAssembler
