import CrossAssembler.Proofs.Refusals
import CrossAssembler.Proofs.SourceRoundTrip

/-!
# Names in source texts

The tokens of a source text have a character, hold no blank and do not begin as a comment does. The
name of a label is one of the tokens of its statement (`Instruction.mem_tokens_of_name?`), so the
same holds of it, and a source text is never refused for an empty statement or for a reserved name
(`source_names_are_plain`).
-/

namespace CrossAssembler

open Fallible Layout Token

namespace Instruction

/-- The name in an instruction is one of the tokens it is read from. -/
theorem mem_tokens_of_name? {tokens : List String} {instruction : Instruction} {name : String}
    (h : parse tokens = .ok instruction) (hn : instruction.name? = some name) : name ∈ tokens := by
  cases denotes_of_parse h with
  | label _ _ | goto _ _ | branch _ _ _ _ _ =>
    cases hn
    simp
  | _ => cases hn

/-- What stands at a place is one of the operands. -/
theorem Stands.mem {mnemonic : Mnemonic} {operands : List String} {place : Place} {token : String}
    (h : Stands mnemonic operands place token) : token ∈ operands := by
  obtain ⟨places, -, hmem⟩ := h
  exact (List.of_mem_zip hmem).2

/-- Tokens that do not begin as a comment does have no reserved name among them. -/
theorem HasDefect.ne_reservedLabelName {tokens : List String} {e : ParseError}
    (h : HasDefect tokens e) (hplain : ∀ token ∈ tokens, opensComment token = false)
    (name : String) : e ≠ .reservedLabelName name := by
  rintro rfl
  cases tokens with
  | nil => cases h
  | cons word operands =>
    rcases h with ⟨h, -⟩ | ⟨mnemonic, -, hstands, hname⟩
    · cases h
    · have hopens := hplain name (List.mem_cons_of_mem _ hstands.mem)
      exact hname (beq_eq_false_iff_ne.1 hopens)

theorem HasDefect.ne_emptyStatement {tokens : List String} {e : ParseError}
    (h : HasDefect tokens e) (hne : tokens ≠ []) : e ≠ .emptyStatement := by
  rintro rfl
  cases tokens with
  | nil => exact hne rfl
  | cons word operands =>
    rcases h with ⟨h, -⟩ | ⟨mnemonic, -, h⟩
    · cases h
    · exact h

end Instruction

namespace Token

theorem isToken_of_mem_numbered {source : String} {number : Nat} {tokens : List String}
    (h : (number, tokens) ∈ numbered source) : ∀ token ∈ tokens, IsToken token := by
  obtain ⟨hline, -⟩ := mem_numbered_iff.1 h
  cases number with
  | zero => cases hline
  | succ index =>
    obtain ⟨line, -, rfl⟩ := Option.map_eq_some_iff.1 hline
    exact fun token ht => isToken_of_mem_ofLine ht

end Token

/-- **The names in source texts are plain.** Take any source text. Each of its tokens has a
character, holds no blank and does not begin as a comment does. If the text cannot be read, then for
another cause than an empty statement or a reserved name. If it can, then each name of a label and
each target of a jump in its program is such a token too. -/
theorem source_names_are_plain (source : String) :
    (∀ number tokens, (number, tokens) ∈ numbered source → ∀ token ∈ tokens, IsToken token) ∧
    (∀ e, parse source = .error e → ∃ line statement cause, e = .parse line statement cause ∧
      cause ≠ .emptyStatement ∧ ∀ name, cause ≠ .reservedLabelName name) ∧
    ∀ program, parse source = .ok program → ∀ name,
      name ∈ labelNames program.source ∨ name ∈ targets program.source → IsToken name := by
  refine ⟨fun number tokens => isToken_of_mem_numbered, fun e h => ?_, fun program h name hn => ?_⟩
  · obtain ⟨number, tokens, cause, hleast, hline, hparse, rfl⟩ :=
      Assembly.exists_of_read_eq_error (map_eq_error.1 h)
    obtain ⟨others, -, hothers, hne, -⟩ := hleast.1
    obtain rfl := Option.some.inj (hline.symm.trans hothers)
    have hdefect := Instruction.hasDefect_of_parse hparse
    have htokens := isToken_of_mem_numbered (mem_numbered_iff.2 ⟨hline, hne⟩)
    exact ⟨number, _, cause, rfl, hdefect.ne_emptyStatement hne,
      hdefect.ne_reservedLabelName fun token ht => (htokens token ht).plain⟩
  · obtain ⟨statements, hread, rfl⟩ := map_eq_ok.1 h
    have hwritten : Written statements :=
      fun statement hs => ⟨_, Assembly.ofTokens_of_read hread statement hs⟩
    obtain ⟨tokens, instruction, hparse, hs, hname⟩ := hwritten.exists_name? hn
    exact (Assembly.legible_of_read hread _ hs).isToken name
      (Instruction.mem_tokens_of_name? hparse hname)

/-- A text with a reserved name in a comment, and a name that holds the mark of a comment. -/
def markInside : String := "LABEL a#b #skip_display\n\tGOTO\u2003a#b"

/-- The text can be read. With a reserved name behind `LABEL` it cannot, for want of a name. -/
theorem source_names_are_plain_markInside :
    ((2, ["GOTO", "a#b"]) ∈ numbered markInside ∧ IsToken "GOTO") ∧
    (∃ program, parse markInside = .ok program ∧ "a#b" ∈ targets program.source ∧
      IsToken "a#b") ∧
    ∃ cause, parse (markInside ++ "\nLABEL #skip_display") = .error (.parse 3 "LABEL" cause) ∧
      ∀ name, cause ≠ .reservedLabelName name := by
  have hlines : numbered markInside = [(1, ["LABEL", "a#b"]), (2, ["GOTO", "a#b"])] := rfl
  have hmem : (2, ["GOTO", "a#b"]) ∈ numbered markInside := by simp [hlines]
  obtain ⟨program, hprogram, htargets⟩ :
      ∃ program, parse markInside = .ok program ∧ targets program.source = ["a#b"] := ⟨_, rfl, rfl⟩
  have htarget : "a#b" ∈ targets program.source := by simp [htargets]
  have hfails : parse (markInside ++ "\nLABEL #skip_display") =
      .error (.parse 3 "LABEL" (.malformed .label)) := rfl
  obtain ⟨htokens, -, hnames⟩ := source_names_are_plain markInside
  obtain ⟨-, herror, -⟩ := source_names_are_plain (markInside ++ "\nLABEL #skip_display")
  obtain ⟨line, statement, cause, heq, -, hcause⟩ := herror _ hfails
  cases heq
  exact ⟨⟨hmem, htokens _ _ hmem _ (by simp)⟩, ⟨program, hprogram, htarget,
    hnames program hprogram _ (.inr htarget)⟩, _, hfails, hcause⟩

end CrossAssembler
