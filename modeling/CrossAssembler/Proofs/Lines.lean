import CrossAssembler.Output
import Mathlib.Data.List.TakeWhile

/-!
# Lines and words that are put together again

A text that is put together from lines has these lines, and a line that is put together from words
has these words, as long as no piece holds what separates the pieces:

* `lines_join_endLine` for lines that are each ended by a line feed, `lines_intercalate` for lines
  with a line feed between neighbours;
* `words_intercalate` for words with a space between neighbours. The words of any text are such
  (`isWord_of_mem_words`).

So the tokens of a line, written one space apart, are again the tokens of what is written
(`Token.ofLine_unwords`). Any two texts with a line feed between them have the lines of the one and
then those of the other (`lines_append_newline_append`).
-/

namespace CrossAssembler

namespace Text

/-! ## Pieces -/

theorem split_cons (p : Char → Bool) (c : Char) (cs : List Char) : split p (c :: cs) =
    if p c then [] :: split p cs else consFirst c (split p cs) :=
  rfl

/-- Cutting a text is the library's split of a list. -/
theorem split_eq_splitOnP (p : Char → Bool) (cs : List Char) : split p cs = cs.splitOnP p := by
  induction cs with
  | nil => rw [List.splitOnP_nil]; rfl
  | cons c cs ih =>
    have hne : split p cs ≠ [] := by simp [ih]
    rw [split_cons, List.splitOnP_cons_eq_if_modifyHead, ← ih]
    cases hpieces : split p cs with
    | nil => exact absurd hpieces hne
    | cons piece pieces => rfl

/-- No piece holds a separator. -/
theorem eq_false_of_mem_split {p : Char → Bool} {cs piece : List Char} (h : piece ∈ split p cs) :
    ∀ c ∈ piece, p c = false := by
  induction cs generalizing piece with
  | nil =>
    obtain rfl := List.mem_singleton.1 h
    simp
  | cons c cs ih =>
    rw [split_cons] at h
    split at h
    · rcases List.mem_cons.1 h with rfl | h
      · simp
      · exact ih h
    · rename_i hc
      cases hpieces : split p cs with
      | nil =>
        rw [hpieces] at h
        obtain rfl := List.mem_singleton.1 h
        simpa using hc
      | cons first pieces =>
        rw [hpieces] at h ih
        rcases List.mem_cons.1 h with rfl | h
        · have hfirst := ih List.mem_cons_self
          simpa [hc] using hfirst
        · exact ih (List.mem_cons_of_mem _ h)

/-! ## Lines -/

/-- The line holds neither a line feed nor a carriage return. -/
def Unbroken (line : String) : Prop := ∀ c ∈ line.toList, c ≠ '\n' ∧ c ≠ '\r'

instance (line : String) : Decidable (Unbroken line) :=
  List.decidableBAll (fun c => c ≠ '\n' ∧ c ≠ '\r') line.toList

theorem Unbroken.append {first second : String} (h₁ : Unbroken first) (h₂ : Unbroken second) :
    Unbroken (first ++ second) := by
  intro c hc
  rw [String.toList_append, List.mem_append] at hc
  rcases hc with hc | hc
  · exact h₁ c hc
  · exact h₂ c hc

theorem Unbroken.dropReturn {line : String} (h : Unbroken line) :
    dropReturn line.toList = line.toList := by
  rw [Text.dropReturn, if_neg]
  intro hlast
  exact (h '\r' (List.mem_of_getLast? hlast)).2 rfl

theorem split_append_cons {p : Char → Bool} {c : Char} (h : p c = true) (first second : List Char) :
    split p (first ++ c :: second) = split p first ++ split p second := by
  rw [split_eq_splitOnP, split_eq_splitOnP, split_eq_splitOnP, List.splitOnP_append_cons _ _ h]

theorem split_append_newline (first second : List Char) :
    split (· == '\n') (first ++ '\n' :: second) =
      split (· == '\n') first ++ split (· == '\n') second :=
  split_append_cons (p := (· == '\n')) (beq_self_eq_true _) first second

theorem split_ne_nil (p : Char → Bool) (cs : List Char) : split p cs ≠ [] := by
  rw [split_eq_splitOnP]
  simp

theorem closeLines_append (first : List (List Char)) {second : List (List Char)}
    (h : second ≠ []) :
    closeLines (first ++ second) = first.map dropReturn ++ closeLines second := by
  induction first with
  | nil => rfl
  | cons piece first ih =>
    cases hrest : first ++ second with
    | nil => exact absurd (List.append_eq_nil_iff.1 hrest).2 h
    | cons next rest =>
      rw [List.cons_append, hrest, closeLines, ← hrest, ih, List.map_cons, List.cons_append]
      simp

/-- All pieces of a text are lines if a line feed is put behind it. -/
theorem lines_newline (text : String) : lines (text ++ "\n") =
    (split (· == '\n') text.toList).map fun piece => String.ofList (dropReturn piece) := by
  have htext : (text ++ "\n").toList = text.toList ++ '\n' :: [] := by simp
  rw [lines, htext, split_append_newline,
    closeLines_append _ (split_ne_nil _ _), List.map_append, List.map_map]
  exact List.append_nil _

/-- The lines of two texts with a line feed between them. -/
theorem lines_append_newline_append (first second : String) :
    lines (first ++ "\n" ++ second) = lines (first ++ "\n") ++ lines second := by
  have htext : (first ++ "\n" ++ second).toList = first.toList ++ '\n' :: second.toList := by simp
  rw [lines_newline, lines, lines, htext, split_append_newline,
    closeLines_append _ (split_ne_nil _ _), List.map_append, List.map_map]
  rfl

/-- A line feed ends the first line. -/
theorem lines_append_newline {line : String} (h : Unbroken line) (rest : String) :
    lines (line ++ "\n" ++ rest) = line :: lines rest := by
  have hfeed : ∀ c ∈ line.toList, (c == '\n') = false := fun c hc => by simpa using (h c hc).1
  rw [lines_append_newline_append, lines_newline, split_eq_splitOnP,
    List.splitOnP_eq_singleton hfeed, List.map_singleton, h.dropReturn, String.ofList_toList]
  rfl

theorem lines_singleton {line : String} (h : Unbroken line) (hne : line ≠ "") :
    lines line = [line] := by
  have hfeed : ∀ c ∈ line.toList, (c == '\n') = false := fun c hc => by simpa using (h c hc).1
  rw [lines, split_eq_splitOnP, List.splitOnP_eq_singleton hfeed, closeLines,
    if_neg (by simpa using hne), List.map_singleton, String.ofList_toList]

/-- A text of lines, each ended by a line feed, has these lines. -/
theorem lines_join_endLine {texts : List String} (h : ∀ line ∈ texts, Unbroken line) :
    lines (String.join (texts.map Upload.endLine)) = texts := by
  induction texts with
  | nil => rfl
  | cons line texts ih =>
    rw [List.forall_mem_cons] at h
    rw [List.map_cons, String.join_cons, Upload.endLine, lines_append_newline h.1, ih h.2]

/-- A text of lines with a line feed between neighbours has these lines, if none is empty. -/
theorem lines_intercalate {texts : List String} (h : ∀ line ∈ texts, Unbroken line)
    (hne : ∀ line ∈ texts, line ≠ "") : lines ("\n".intercalate texts) = texts := by
  induction texts with
  | nil => rw [String.intercalate_nil]; rfl
  | cons line texts ih =>
    rw [List.forall_mem_cons] at h hne
    cases texts with
    | nil => rw [String.intercalate_singleton, lines_singleton h.1 hne.1]
    | cons next texts =>
      rw [String.intercalate_cons_cons, lines_append_newline h.1, ih h.2 hne.2]

/-! ## Words -/

/-- The characters make up a word. -/
structure IsWord (cs : List Char) : Prop where
  ne_nil : cs ≠ []
  not_blank : ∀ c ∈ cs, isBlank c = false

theorem isWord_of_mem_words {cs word : List Char} (h : word ∈ words cs) : IsWord word := by
  obtain ⟨hmem, hne⟩ := List.mem_filter.1 h
  exact ⟨by simpa using hne, eq_false_of_mem_split hmem⟩

/-- A blank separates the words in front of it from those behind it. -/
theorem words_append_cons {c : Char} (h : isBlank c = true) (first second : List Char) :
    words (first ++ c :: second) = words first ++ words second := by
  rw [words, split_append_cons h, List.filter_append]
  rfl

theorem words_singleton {word : List Char} (h : IsWord word) : words word = [word] := by
  rw [words, split_eq_splitOnP, List.splitOnP_eq_singleton h.not_blank,
    List.filter_cons_of_pos (by simpa using h.ne_nil), List.filter_nil]

/-- A space ends the first word. -/
theorem words_append_space {word : List Char} (h : IsWord word) (rest : List Char) :
    words (word ++ ' ' :: rest) = word :: words rest := by
  rw [words_append_cons rfl, words_singleton h, List.singleton_append]

theorem words_intercalate {pieces : List (List Char)} (h : ∀ word ∈ pieces, IsWord word) :
    words ([' '].intercalate pieces) = pieces := by
  induction pieces with
  | nil => rfl
  | cons word pieces ih =>
    rw [List.forall_mem_cons] at h
    cases pieces with
    | nil => rw [List.intercalate_singleton, words_singleton h.1]
    | cons next pieces =>
      rw [List.intercalate_cons_cons, List.append_assoc, List.singleton_append,
        words_append_space h.1, ih h.2]

end Text

/-! ## Tokens -/

namespace Token

open Text

/-- The word may be a token: it has a character, no blank, and does not open a comment. -/
structure IsToken (word : String) : Prop where
  isWord : IsWord word.toList
  plain : opensComment word = false

theorem isToken_of_mem_ofLine {line token : String} (h : token ∈ ofLine line) : IsToken token := by
  have hplain := List.mem_takeWhile_imp h
  obtain ⟨word, hword, rfl⟩ := List.mem_map.1 (List.takeWhile_subset _ h)
  refine ⟨?_, by simpa using hplain⟩
  rw [String.toList_ofList]
  exact isWord_of_mem_words hword

theorem IsToken.unbroken {token : String} (h : IsToken token) : Unbroken token := by
  intro c hc
  have hblank := h.isWord.not_blank c hc
  constructor
  · intro heq
    rw [heq, isBlank_newline] at hblank
    cases hblank
  · intro heq
    rw [heq, isBlank_return] at hblank
    cases hblank

theorem toList_unwords (tokens : List String) :
    (unwords tokens).toList = [' '].intercalate (tokens.map String.toList) := by
  rw [unwords, String.toList_intercalate]
  rfl

/-- Tokens that are written one space apart are the tokens of what is written. -/
theorem ofLine_unwords {tokens : List String} (h : ∀ token ∈ tokens, IsToken token) :
    ofLine (unwords tokens) = tokens := by
  have hwords : ∀ word ∈ tokens.map String.toList, IsWord word := by
    intro word hword
    obtain ⟨token, htoken, rfl⟩ := List.mem_map.1 hword
    exact (h token htoken).isWord
  have hall : ∀ token ∈ tokens, (!opensComment token) = true := fun token ht => by
    simpa using (h token ht).plain
  have hback : (tokens.map String.toList).map String.ofList = tokens := by simp
  rw [ofLine, toList_unwords, words_intercalate hwords, hback, List.takeWhile_eq_self_iff]
  exact hall

theorem unbroken_unwords {tokens : List String} (h : ∀ token ∈ tokens, IsToken token) :
    Unbroken (unwords tokens) := by
  rw [unwords]
  induction tokens with
  | nil =>
    rw [String.intercalate_nil]
    decide
  | cons token tokens ih =>
    rw [List.forall_mem_cons] at h
    cases tokens with
    | nil =>
      rw [String.intercalate_singleton]
      exact h.1.unbroken
    | cons next tokens =>
      have hspace : Unbroken " " := by decide
      rw [String.intercalate_cons_cons]
      exact (h.1.unbroken.append hspace).append (ih h.2)

theorem unwords_ne_empty {tokens : List String} (h : ∀ token ∈ tokens, IsToken token)
    (hne : tokens ≠ []) : unwords tokens ≠ "" := by
  intro hempty
  have htokens := ofLine_unwords h
  rw [hempty] at htokens
  exact hne htokens.symm

end Token

end CrossAssembler
