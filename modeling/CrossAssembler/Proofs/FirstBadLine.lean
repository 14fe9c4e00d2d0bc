import CrossAssembler.Program
import CrossAssembler.Proofs.Fallible
import CrossAssembler.Proofs.UploadImage
import Mathlib.Order.Bounds.Basic

/-!
# The first bad line

Assembling a source text fails at its first bad line: the first that has tokens which are no
instruction. Nothing that comes after it matters, and the layout is only tried on a text without bad
lines (`assemble_reports_first_bad_line`).

Lines are numbered from one, also those that give no statement because they are blank or hold a
comment only (`Token.ofLine_eq_nil_iff`). When these are dropped, each line with tokens has kept its
number (`Token.mem_numbered_iff`), and the numbers ascend (`Token.pairwise_numbered`). Hence the
first failure of the reading is that of the bad line with the least number.
-/

namespace CrossAssembler

/-! ## Lines without tokens -/

namespace Text

theorem words_cons_of_isBlank {c : Char} (h : isBlank c = true) (cs : List Char) :
    words (c :: cs) = words cs := by
  have hsplit : split isBlank (c :: cs) = [] :: split isBlank cs := if_pos h
  rw [words, hsplit, List.filter_cons_of_neg (by simp)]
  rfl

/-- A character that is not blank opens the first word. -/
theorem exists_words_cons {c : Char} (h : isBlank c = false) (cs : List Char) :
    ∃ word rest, words (c :: cs) = (c :: word) :: rest := by
  have hsplit : split isBlank (c :: cs) = consFirst c (split isBlank cs) :=
    if_neg (Bool.eq_false_iff.1 h)
  rw [words, hsplit]
  cases split isBlank cs with
  | nil => exact ⟨[], [], rfl⟩
  | cons piece pieces => exact ⟨piece, _, List.filter_cons_of_pos rfl⟩

end Text

namespace Token

/-- A line has no tokens if it is blank or its first character that is not blank opens a
comment. -/
theorem ofLine_eq_nil_iff (line : String) :
    ofLine line = [] ↔ ∀ c ∈ (line.toList.dropWhile Text.isBlank).head?, c = commentMark := by
  rw [ofLine]
  induction line.toList with
  | nil => exact iff_of_true rfl (by simp)
  | cons c cs ih =>
    cases hblank : Text.isBlank c with
    | true => rw [Text.words_cons_of_isBlank hblank, ih, List.dropWhile_cons_of_pos hblank]
    | false =>
      obtain ⟨word, rest, hwords⟩ := Text.exists_words_cons hblank cs
      rw [hwords, List.dropWhile_cons_of_neg (Bool.eq_false_iff.1 hblank), List.map_cons,
        List.takeWhile_cons]
      simp [opensComment]

/-- The tokens of the line with a number, counted from one. -/
def lineAt? (source : String) : Nat → Option (List String)
  | 0 => none
  | index + 1 => (Text.lines source)[index]?.map ofLine

/-- A line with tokens keeps its number. -/
theorem mem_numbered_iff {source : String} {number : Nat} {tokens : List String} :
    (number, tokens) ∈ numbered source ↔ lineAt? source number = some tokens ∧ tokens ≠ [] := by
  simp only [numbered, List.mem_filter, List.mem_map, Prod.exists, Prod.mk.injEq,
    List.mk_mem_zipIdx_iff_le_and_getElem?_sub, Bool.not_eq_true', List.isEmpty_eq_false_iff]
  refine and_congr_left fun _ => ?_
  cases number with
  | zero =>
    simp only [lineAt?, reduceCtorEq, iff_false]
    rintro ⟨line, _, ⟨hle, -⟩, rfl, -⟩
    omega
  | succ index =>
    rw [lineAt?, Option.map_eq_some_iff]
    constructor
    · rintro ⟨line, _, ⟨-, hline⟩, rfl, rfl⟩
      exact ⟨line, hline, rfl⟩
    · rintro ⟨line, hline, rfl⟩
      exact ⟨line, index + 1, ⟨by omega, hline⟩, rfl, rfl⟩

/-- The lines with tokens stand in the order of their numbers. -/
theorem pairwise_numbered (source : String) :
    (numbered source).Pairwise fun first second => first.1 < second.1 := by
  have hnumbers : ((Text.lines source).zipIdx 1).Pairwise
      fun first second => first.2 < second.2 := by
    rw [← List.pairwise_map, List.zipIdx_map_snd]
    exact List.pairwise_lt_range'
  apply List.Pairwise.filter
  exact List.pairwise_map.2 hnumbers

/-- The tokens of the lines that have some. -/
theorem map_snd_numbered (source : String) :
    (numbered source).map Prod.snd =
      ((Text.lines source).map ofLine).filter fun tokens => !tokens.isEmpty := by
  have hlines : (Text.lines source).map ofLine =
      ((Text.lines source).zipIdx 1).map (ofLine ∘ Prod.fst) := by
    rw [← List.map_map, List.zipIdx_map_fst]
  rw [hlines, numbered, List.filter_map, List.filter_map, List.map_map]
  rfl

end Token

/-! ## Reading -/

namespace Assembly

theorem result_readLine (number : Nat) (tokens : List String) :
    (readLine number tokens).result =
      (Statement.ofTokens tokens).mapError (.parse number (Text.unwords tokens)) := by
  simp only [readLine, Logged.result_bind, Logged.result_report, Logged.result_ofExcept]
  rfl

theorem readLine_eq_ok_iff {number : Nat} {tokens : List String} {statement : Statement} :
    (readLine number tokens).result = .ok statement ↔
      Statement.ofTokens tokens = .ok statement := by
  rw [result_readLine]
  exact Fallible.mapError_eq_ok

theorem readLine_eq_error_iff {number : Nat} {tokens : List String} {e : AssemblyError} :
    (readLine number tokens).result = .error e ↔ ∃ cause,
      Instruction.parse tokens = .error cause ∧ .parse number (Text.unwords tokens) cause = e := by
  rw [result_readLine, Fallible.mapError_eq_error]
  simp only [Statement.ofTokens, Fallible.map_eq_error]

theorem result_readLines (lines : List (Nat × List String)) :
    (readLines lines).result = lines.mapM fun line => (readLine line.1 line.2).result := by
  induction lines with
  | nil => rfl
  | cons line lines ih =>
    simp only [readLines, List.mapM_cons, Logged.result_bind, Logged.result_pure, ih]
    rfl

/-- The numbers of the lines whose tokens are no instruction. -/
def badLines (source : String) : Set Nat :=
  { number | ∃ tokens cause, Token.lineAt? source number = some tokens ∧ tokens ≠ [] ∧
    Instruction.parse tokens = .error cause }

theorem mem_badLines_iff {source : String} {number : Nat} :
    number ∈ badLines source ↔ ∃ tokens e, (number, tokens) ∈ Token.numbered source ∧
      (readLine number tokens).result = .error e := by
  simp only [badLines, Set.mem_ofPred_eq, Token.mem_numbered_iff, readLine_eq_error_iff]
  constructor
  · rintro ⟨tokens, cause, hline, hne, hparse⟩
    exact ⟨tokens, _, ⟨hline, hne⟩, cause, hparse, rfl⟩
  · rintro ⟨tokens, _, ⟨hline, hne⟩, cause, hparse, -⟩
    exact ⟨tokens, cause, hline, hne, hparse⟩

theorem result_read (source : String) : (read source).result =
    (Token.numbered source).mapM fun line => (readLine line.1 line.2).result :=
  result_readLines _

/-- Reading fails at the bad line with the least number. -/
theorem exists_of_read_eq_error {source : String} {e : AssemblyError}
    (h : (read source).result = .error e) : ∃ number tokens cause,
      IsLeast (badLines source) number ∧ Token.lineAt? source number = some tokens ∧
      Instruction.parse tokens = .error cause ∧
      e = .parse number (Text.unwords tokens) cause := by
  rw [result_read] at h
  obtain ⟨before, ⟨number, tokens⟩, after, hsplit, hbefore, herror⟩ :=
    Fallible.exists_of_mapM_eq_error h
  have hmem : (number, tokens) ∈ Token.numbered source := by
    rw [hsplit]
    exact List.mem_append_right _ List.mem_cons_self
  have hbad : number ∈ badLines source := mem_badLines_iff.2 ⟨tokens, e, hmem, herror⟩
  obtain ⟨cause, hparse, he⟩ := readLine_eq_error_iff.1 herror
  refine ⟨number, tokens, cause, ⟨hbad, ?_⟩, (Token.mem_numbered_iff.1 hmem).1, hparse, he.symm⟩
  -- a bad line is this one or stands behind it, where the numbers are greater
  intro other hother
  obtain ⟨otherTokens, otherError, hotherMem, hotherError⟩ := mem_badLines_iff.1 hother
  have hpairwise := Token.pairwise_numbered source
  rw [hsplit] at hotherMem hpairwise
  rcases List.mem_append.1 hotherMem with hin | hin
  · obtain ⟨statement, hok⟩ := hbefore _ hin
    exact absurd (hok.symm.trans hotherError) nofun
  · rcases List.mem_cons.1 hin with heq | hin
    · exact (congrArg Prod.fst heq).ge
    · have hlater := (List.pairwise_cons.1 (List.pairwise_append.1 hpairwise).2.1).1 _ hin
      exact Nat.le_of_lt hlater

/-- Reading succeeds if each line with tokens gives a statement. -/
theorem read_eq_ok_iff {source : String} {statements : List Statement} :
    (read source).result = .ok statements ↔
      List.Forall₂ (fun tokens statement => Statement.ofTokens tokens = .ok statement)
        (((Text.lines source).map Token.ofLine).filter fun tokens => !tokens.isEmpty)
        statements := by
  rw [result_read, Fallible.mapM_eq_ok_iff, ← Token.map_snd_numbered, List.forall₂_map_left_iff]
  simp only [readLine_eq_ok_iff]

/-- Reading succeeds only if no line is bad, and gives the statements of the lines with tokens. -/
theorem forall₂_of_read_eq_ok {source : String} {statements : List Statement}
    (h : (read source).result = .ok statements) : badLines source = ∅ ∧
      List.Forall₂ (fun tokens statement => Statement.ofTokens tokens = .ok statement)
        (((Text.lines source).map Token.ofLine).filter fun tokens => !tokens.isEmpty)
        statements := by
  refine ⟨?_, read_eq_ok_iff.1 h⟩
  rw [result_read] at h
  refine Set.eq_empty_of_forall_notMem fun number hnumber => ?_
  obtain ⟨tokens, e, hmem, herror⟩ := mem_badLines_iff.1 hnumber
  obtain ⟨statement, hok⟩ := Fallible.exists_eq_ok_of_mem h _ hmem
  exact absurd (hok.symm.trans herror) nofun

end Assembly

theorem assemble_eq_bind (source : String) (eot : Bool) :
    assemble source eot = (Assembly.read source).result >>= fun statements =>
      (fun layout => Upload.octalText (image layout.statements) eot) <$>
        (layOut statements).mapError .layout := by
  simp only [assemble, Assembly.run, Logged.result_bind, Logged.result_pure,
    Logged.result_mapError, Upload.text_eq_octalText]
  rfl

/-- **The first bad line is reported, and else only what the layout reports.** If a line of the
text has tokens that are no instruction, assembling gives the error of the first such line, with its
number counted from one and its tokens joined by single spaces, whatever else the text holds. If
there is none, the lines with tokens give statements in their order; assembling then fails with an
error of their layout, or gives the octal text of their image. The lines without tokens are those
that are blank or hold a comment only: they are counted, and give no statement. -/
theorem assemble_reports_first_bad_line (source : String) (eot : Bool) :
    ((Assembly.badLines source).Nonempty → ∃ number tokens cause,
      IsLeast (Assembly.badLines source) number ∧ Token.lineAt? source number = some tokens ∧
      Instruction.parse tokens = .error cause ∧
      assemble source eot = .error (.parse number (Text.unwords tokens) cause)) ∧
    (Assembly.badLines source = ∅ → ∃ statements,
      List.Forall₂ (fun tokens statement => Statement.ofTokens tokens = .ok statement)
        (((Text.lines source).map Token.ofLine).filter fun tokens => !tokens.isEmpty)
        statements ∧
      (∀ e, assemble source eot = .error (.layout e) ↔ layOut statements = .error e) ∧
      ∀ layout, layOut statements = .ok layout →
        assemble source eot = .ok (Upload.octalText (image layout.statements) eot)) ∧
    ∀ index line, (Text.lines source)[index]? = some line →
      (Token.lineAt? source (index + 1) = some [] ↔
        ∀ c ∈ (line.toList.dropWhile Text.isBlank).head?, c = Token.commentMark) := by
  refine ⟨fun hbad => ?_, fun hgood => ?_, fun index line hline => ?_⟩
  · cases hread : (Assembly.read source).result with
    | ok statements =>
      obtain ⟨hgood, -⟩ := Assembly.forall₂_of_read_eq_ok hread
      exact absurd hgood hbad.ne_empty
    | error e =>
      obtain ⟨number, tokens, cause, hleast, hline, hparse, rfl⟩ :=
        Assembly.exists_of_read_eq_error hread
      refine ⟨number, tokens, cause, hleast, hline, hparse, ?_⟩
      rw [assemble_eq_bind, hread]
      rfl
  · cases hread : (Assembly.read source).result with
    | ok statements =>
      have hassemble : assemble source eot =
          (fun layout => Upload.octalText (image layout.statements) eot) <$>
            (layOut statements).mapError .layout := by
        rw [assemble_eq_bind, hread]
        rfl
      refine ⟨statements, (Assembly.forall₂_of_read_eq_ok hread).2, fun e => ?_,
        fun layout hlayout => ?_⟩
      · rw [hassemble, Fallible.map_eq_error, Fallible.mapError_eq_error]
        simp
      · rw [hassemble, hlayout]
        rfl
    | error e =>
      obtain ⟨number, -, -, hleast, -⟩ := Assembly.exists_of_read_eq_error hread
      exact absurd hgood (Set.Nonempty.ne_empty ⟨number, hleast.1⟩)
  · rw [Token.lineAt?, hline, Option.map_some, Option.some.injEq, Token.ofLine_eq_nil_iff]

/-- A text with a comment, a blank line, a bad line, and a jump that leads nowhere. -/
def badFourth : String := "# title\n\nLET A = 1\nLET Q = 2\nGOTO nowhere\n"

theorem assemble_reports_first_bad_line_badFourth :
    IsLeast (Assembly.badLines badFourth) 4 ∧ Token.lineAt? badFourth 2 = some [] ∧
      ∃ cause, Instruction.parse ["LET", "Q", "=", "2"] = .error cause ∧
        assemble badFourth true = .error (.parse 4 "LET Q = 2" cause) := by
  obtain ⟨hbad, -, hblank⟩ := assemble_reports_first_bad_line badFourth true
  have hfourth : 4 ∈ Assembly.badLines badFourth := ⟨["LET", "Q", "=", "2"], _, rfl, nofun, rfl⟩
  obtain ⟨number, tokens, cause, hleast, hline, hparse, hassemble⟩ := hbad ⟨4, hfourth⟩
  have hrun : ∃ cause, assemble badFourth true = .error (.parse 4 "LET Q = 2" cause) := ⟨_, rfl⟩
  obtain ⟨_, hrun⟩ := hrun
  obtain ⟨rfl, -⟩ := AssemblyError.parse.inj (Except.error.inj (hassemble.symm.trans hrun))
  cases hline
  exact ⟨hleast, (hblank 1 "" rfl).2 nofun, cause, hparse, hassemble⟩

end CrossAssembler
