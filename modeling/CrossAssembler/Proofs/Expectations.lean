import CrossAssembler.Proofs.DeskWork
import CrossAssembler.Proofs.FileTrees
import Mathlib.Data.List.DropRight

/-!
# When a unit passes

An expectation is a text in a file. If it begins with `error:`, blanks apart, the unit has to fail
with an error of the kind that the rest names; otherwise its upload has to have the lines of the
expectation, one for one. `unit_passes_iff_expectation_met` says this of a unit that is run.

* `Text.IsCore` is a text without the blanks at its ends, and `Text.trim` finds it
  (`Text.trim_eq_iff`).
* `Outcome.ExpectsError` says what an expectation of an error looks like.
* `IsLongestCommonStart` is what two lists have in common at their front. The first line in which
  two uploads differ comes right behind it, also if one of them ends there
  (`Outcome.exists_firstDifference?`).
-/

namespace CrossAssembler

/-! ## Blanks at the ends of a text -/

namespace Text

/-- The text `middle` is `text` without the blanks at its two ends. -/
structure IsCore (text middle : List Char) : Prop where
  ends : ∃ front back, text = front ++ (middle ++ back) ∧ (∀ c ∈ front, isBlank c = true) ∧
    ∀ c ∈ back, isBlank c = true
  head : ∀ c, middle.head? = some c → isBlank c = false
  last : ∀ c, middle.getLast? = some c → isBlank c = false

theorem trim_eq_rdropWhile (text : List Char) :
    trim text = (text.dropWhile isBlank).rdropWhile isBlank := rfl

theorem isCore_trim (text : List Char) : IsCore text (trim text) := by
  have hprefix : trim text <+: text.dropWhile isBlank := List.rdropWhile_prefix _ _
  refine ⟨⟨text.takeWhile isBlank, (text.dropWhile isBlank).rtakeWhile isBlank, ?_, ?_, ?_⟩, ?_, ?_⟩
  · rw [trim_eq_rdropWhile, List.rdropWhile_append_rtakeWhile, List.takeWhile_append_dropWhile]
  · exact fun c hc => List.mem_takeWhile_imp hc
  · exact fun c hc => List.mem_rtakeWhile_imp hc
  · intro c hc
    obtain ⟨rest, hrest⟩ := hprefix
    have hhead : (text.dropWhile isBlank).head? = some c := by
      rw [← hrest, List.head?_append, hc]
      rfl
    have hnot := List.head?_dropWhile_not isBlank text
    simpa [hhead] using hnot
  · intro c hc
    have hne : trim text ≠ [] := by
      rintro hnil
      simp [hnil] at hc
    have hlast := List.rdropWhile_last_not isBlank (text.dropWhile isBlank) hne
    rw [List.getLast?_eq_getLast_of_ne_nil hne] at hc
    obtain rfl := Option.some.inj hc
    exact Bool.eq_false_iff.2 hlast

/-- Trimming finds the text between the blanks at the ends. -/
theorem trim_eq_iff {text middle : List Char} : trim text = middle ↔ IsCore text middle := by
  refine ⟨fun h => h ▸ isCore_trim text, fun h => ?_⟩
  obtain ⟨front, back, rfl, hfront, hback⟩ := h.ends
  rw [trim_eq_rdropWhile, List.dropWhile_append_of_pos hfront]
  cases hmiddle : middle with
  | nil =>
    rw [List.nil_append, List.dropWhile_eq_nil_iff.2 hback, List.rdropWhile_nil]
  | cons c rest =>
    have hhead : isBlank c = false := h.head c (by simp [hmiddle])
    rw [List.cons_append, List.dropWhile_cons_of_neg (by simp [hhead]), ← List.cons_append,
      ← hmiddle]
    -- seen from behind, the blanks of `back` come first
    rw [List.rdropWhile, List.reverse_append, List.dropWhile_append_of_pos (by simpa using hback)]
    have hself := (List.rdropWhile_eq_self_iff (p := isBlank) (l := middle)).2 fun hne => by
      simp [h.last _ (List.getLast?_eq_getLast_of_ne_nil hne)]
    exact hself

end Text

/-! ## The first line in which two texts differ -/

/-- The list `common` is the longest one that both `first` and `second` begin with. -/
structure IsLongestCommonStart {α : Type} (first second common : List α) : Prop where
  left : common <+: first
  right : common <+: second
  longest : ∀ other, other <+: first → other <+: second → other.length ≤ common.length

theorem IsLongestCommonStart.cons {α : Type} {first second common : List α}
    (h : IsLongestCommonStart first second common) (a : α) :
    IsLongestCommonStart (a :: first) (a :: second) (a :: common) := by
  refine ⟨by simpa using h.left, by simpa using h.right, fun other hfirst hsecond => ?_⟩
  cases other with
  | nil => simp
  | cons b other =>
    simp only [List.cons_prefix_cons] at hfirst hsecond
    have hle := h.longest other hfirst.2 hsecond.2
    simpa using hle

/-- Lists that differ in their heads, or of which only one is empty, have no common start. -/
theorem isLongestCommonStart_nil {α : Type} {first second : List α}
    (h : ∀ a, first.head? = some a → second.head? ≠ some a) :
    IsLongestCommonStart first second [] := by
  refine ⟨List.nil_prefix, List.nil_prefix, fun other hfirst hsecond => ?_⟩
  cases other with
  | nil => exact Nat.le_refl 0
  | cons a other =>
    obtain ⟨_, rfl⟩ := hfirst
    obtain ⟨_, rfl⟩ := hsecond
    exact absurd rfl (h a rfl)

namespace Outcome

theorem firstDifference?_eq_none_iff {first second : List String} :
    firstDifference? first second = none ↔ first = second := by
  induction first generalizing second with
  | nil => cases second <;> simp [firstDifference?]
  | cons a as ih =>
    cases second with
    | nil => simp [firstDifference?]
    | cons b bs =>
      by_cases h : a = b
      · simp [firstDifference?, h, ih]
      · simp [firstDifference?, h]

/-- The first line that differs is the one behind the longest common start. -/
theorem exists_firstDifference? {first second : List String} (h : first ≠ second) :
    ∃ common, IsLongestCommonStart first second common ∧
      firstDifference? first second = some (1 + common.length) := by
  induction first generalizing second with
  | nil =>
    cases second with
    | nil => exact absurd rfl h
    | cons b bs => exact ⟨[], isLongestCommonStart_nil nofun, rfl⟩
  | cons a as ih =>
    cases second with
    | nil => exact ⟨[], isLongestCommonStart_nil nofun, rfl⟩
    | cons b bs =>
      by_cases hab : a = b
      · subst hab
        have htails : as ≠ bs := by simpa using h
        obtain ⟨common, hcommon, hline⟩ := ih htails
        refine ⟨a :: common, hcommon.cons a, ?_⟩
        simp [firstDifference?, hline]
        omega
      · refine ⟨[], isLongestCommonStart_nil ?_, by simp [firstDifference?, hab]⟩
        simpa using Ne.symm hab

/-! ## Expectations -/

/-- An expectation of an error: blanks at the ends apart, the text is `error:` and a rest, and
`kind` is this rest without the blanks at its own ends. -/
def ExpectsError (expected : String) (kind : List Char) : Prop :=
  ∃ rest, Text.IsCore expected.toList ("error:".toList ++ rest) ∧ Text.IsCore rest kind

theorem expectedKind?_eq_some_iff {expected : String} {kind : List Char} :
    expectedKind? expected = some kind ↔ ExpectsError expected kind := by
  unfold expectedKind? ExpectsError
  simp only [← Text.trim_eq_iff]
  constructor
  · intro h
    split_ifs at h with hmark
    obtain ⟨rest, hrest⟩ := List.isPrefixOf_iff_prefix.1 hmark
    rw [← hrest, List.drop_left] at h
    exact ⟨rest, hrest.symm, Option.some.inj h⟩
  · rintro ⟨rest, hrest, rfl⟩
    have hmark : errorMark.isPrefixOf (Text.trim expected.toList) = true :=
      List.isPrefixOf_iff_prefix.2 ⟨rest, hrest.symm⟩
    have hdrop : (Text.trim expected.toList).drop errorMark.length = rest := by
      rw [hrest]
      exact List.drop_left
    rw [if_pos hmark, hdrop]

theorem expectedKind?_eq_none_iff {expected : String} :
    expectedKind? expected = none ↔ ∀ kind, ¬ ExpectsError expected kind := by
  simp only [← expectedKind?_eq_some_iff, Option.eq_none_iff_forall_ne_some, ne_eq]

theorem isPass_iff {outcome : Outcome} : outcome.isPass = true ↔ outcome = .pass := by
  simp [isPass]

theorem sameAsciiLetters_iff {a b : List Char} :
    sameAsciiLetters a b = true ↔ a.map Char.toLower = b.map Char.toLower := by
  simp [sameAsciiLetters]

theorem judge_of_expectsError {expected : String} {kind : List Char}
    (h : ExpectsError expected kind) (actual : Except AssemblyError String) :
    judge actual expected =
      match actual with
      | .ok _ => .missingError
      | .error cause =>
        if cause.kind.title.toList.map Char.toLower = kind.map Char.toLower then .pass
        else .wrongError cause.kind := by
  cases actual <;> simp [judge, expectedKind?_eq_some_iff.2 h, sameAsciiLetters_iff]

theorem judge_of_not_expectsError {expected : String} (h : ∀ kind, ¬ ExpectsError expected kind)
    (actual : Except AssemblyError String) : judge actual expected =
      match actual with
      | .ok text =>
        (firstDifference? (Text.lines text) (Text.lines expected)).elim .pass .mismatch
      | .error cause => .assemblyError cause := by
  cases actual with
  | error cause => simp [judge, expectedKind?_eq_none_iff.2 h]
  | ok text =>
    simp only [judge, expectedKind?_eq_none_iff.2 h]
    cases firstDifference? (Text.lines text) (Text.lines expected) <;> rfl

end Outcome

open Outcome

/-- **A unit passes if and only if its expectation is met.** Take a unit whose two files can be
read. If an error is expected, the unit passes exactly if the source text fails with an error of the
kind that is named, in capitals or small letters; it is reported if the kind is another one, or if
there is no error. If an upload is expected, the unit passes exactly if there is one and its lines
are those of the expectation. If they are not, the line that is reported follows the longest common
start of the two lists of lines. To run a unit changes nothing. -/
theorem unit_passes_iff_expectation_met {unit : SuiteUnit} {desk : Desk} {source expected : String}
    (hsource : desk.files.readText unit.source = .ok source)
    (hexpected : desk.files.readText unit.expectation = .ok expected) :
    ∃ outcome, desk.perform (Suite.runUnit unit) = (.ok outcome, desk) ∧
      (∀ kind, ExpectsError expected kind →
        (outcome.isPass = true ↔ ∃ cause, assemble source true = .error cause ∧
          cause.kind.title.toList.map Char.toLower = kind.map Char.toLower) ∧
        (∀ cause, assemble source true = .error cause →
          cause.kind.title.toList.map Char.toLower ≠ kind.map Char.toLower →
          outcome = .wrongError cause.kind) ∧
        ∀ text, assemble source true = .ok text → outcome = .missingError) ∧
      ((∀ kind, ¬ ExpectsError expected kind) →
        (outcome.isPass = true ↔ ∃ text, assemble source true = .ok text ∧
          Text.lines text = Text.lines expected) ∧
        (∀ text, assemble source true = .ok text → Text.lines text ≠ Text.lines expected →
          ∃ common, IsLongestCommonStart (Text.lines text) (Text.lines expected) common ∧
            outcome = .mismatch (1 + common.length)) ∧
        ∀ cause, assemble source true = .error cause → outcome = .assemblyError cause) := by
  refine ⟨ofUnit source expected, ?_, fun kind h => ?_, fun h => ?_⟩
  · rw [Desk.perform_runUnit, SuiteUnit.result_of_ok hsource hexpected]
  · rw [isPass_iff, ofUnit, judge_of_expectsError h]
    cases assemble source true with
    | ok text => simp
    | error cause =>
      by_cases hkind : cause.kind.title.toList.map Char.toLower = kind.map Char.toLower
      · simp [hkind]
      · simp [hkind]
  · rw [isPass_iff, ofUnit, judge_of_not_expectsError h]
    cases assemble source true with
    | error cause => simp
    | ok text =>
      by_cases hlines : Text.lines text = Text.lines expected
      · simp only [firstDifference?_eq_none_iff.2 hlines]
        simp [hlines]
      · obtain ⟨common, hcommon, hline⟩ := exists_firstDifference? hlines
        refine ⟨by simp [hline, hlines], fun other hother _ => ?_, nofun⟩
        obtain rfl := Except.ok.inj hother
        exact ⟨common, hcommon, by simp [hline]⟩

/-- Two units. The expectation of the first ends too early, with lines that end in different ways;
that of the second is an error. -/
def earlyEnd : Desk where
  files := ⟨[(["halt.kbs"], .ofText "HALT"),
    (["halt.expected"], .ofText "0000\r\n0000\n0000\n0004"),
    (["let.kbs"], .ofText "LET Q = 1\n"), (["let.expected"], .ofText "\u2003error:\tNAME \r\n")]⟩

theorem unit_passes_iff_expectation_met_earlyEnd :
    earlyEnd.perform (Suite.runUnit ⟨"halt", "halt.kbs", "halt.expected"⟩) =
      (.ok (.mismatch 5), earlyEnd) ∧
    earlyEnd.perform (Suite.runUnit ⟨"let", "let.kbs", "let.expected"⟩) =
      (.ok .pass, earlyEnd) := by
  have hread : ∀ name text, earlyEnd.files.locate name = .ok [name] →
      earlyEnd.files.node? [name] = some (.ofText text) →
      earlyEnd.files.readText name = .ok text := fun name text => FileTree.readText_of_node?
  constructor
  · have hnone : ∀ kind, ¬ ExpectsError "0000\r\n0000\n0000\n0004" kind :=
      expectedKind?_eq_none_iff.1 rfl
    have htext : assemble "HALT" true = .ok "0000\n0000\n0000\n0004\n0000\ns\n" := rfl
    obtain ⟨outcome, hrun, -, hupload⟩ := @unit_passes_iff_expectation_met
      ⟨"halt", "halt.kbs", "halt.expected"⟩ _ _ _ (hread "halt.kbs" "HALT" rfl rfl)
      (hread "halt.expected" "0000\r\n0000\n0000\n0004" rfl rfl)
    obtain ⟨common, hcommon, rfl⟩ := (hupload hnone).2.1 _ htext (by decide)
    have hge := hcommon.longest ["0000", "0000", "0000", "0004"] (by decide) (by decide)
    have hle : common.length ≤ 4 := hcommon.right.length_le
    have hlength : common.length = 4 := Nat.le_antisymm hle hge
    rw [hrun, hlength]
  · have hkind : ExpectsError "\u2003error:\tNAME \r\n" "NAME".toList :=
      expectedKind?_eq_some_iff.1 rfl
    have hcause : assemble "LET Q = 1\n" true =
      .error (.parse 1 "LET Q = 1" (.badRegisterName "Q")) := rfl
    obtain ⟨outcome, hrun, herror, -⟩ := @unit_passes_iff_expectation_met
      ⟨"let", "let.kbs", "let.expected"⟩ _ _ _ (hread "let.kbs" "LET Q = 1\n" rfl rfl)
      (hread "let.expected" "\u2003error:\tNAME \r\n" rfl rfl)
    have hpass := (herror _ hkind).1.2 ⟨_, hcause, by decide⟩
    rw [hrun, isPass_iff.1 hpass]

end CrossAssembler
