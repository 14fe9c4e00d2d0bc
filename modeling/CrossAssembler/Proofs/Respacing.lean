import CrossAssembler.Proofs.JoinedSources

/-!
# Comments and spacing

A source text may be edited in these ways without a change to what it assembles to: a comment is put
behind a line, the blanks between, before or after the words of a line are replaced by others, and a
line is inserted that is blank or holds a comment only (`Edit`). An error stays too, but for the
number of its line, which grows by the lines inserted in front of it (`assemble_edits`).

* What blanks do to the words around them follows from one equation (`Text.words_append_cons`).
* A text has the numbered tokens that its lines give. Hence a line may be replaced by one with the
  same tokens (`Token.numbered_congr`), and every edit other than an insertion does only that.
* A line without tokens only counts (`Token.numbered_insertLine`).
-/

namespace CrossAssembler

/-! ## Blanks around words -/

namespace Text

/-- The text is made of blanks other than line feeds. -/
def Spacing (gap : String) : Prop := ∀ c ∈ gap.toList, isBlank c = true ∧ c ≠ '\n'

instance (gap : String) : Decidable (Spacing gap) :=
  List.decidableBAll (fun c => isBlank c = true ∧ c ≠ '\n') gap.toList

/-- The text holds no line feed. -/
def OneLine (text : String) : Prop := '\n' ∉ text.toList

instance (text : String) : Decidable (OneLine text) :=
  inferInstanceAs (Decidable ('\n' ∉ text.toList))

theorem OneLine.append {first second : String} (h₁ : OneLine first) (h₂ : OneLine second) :
    OneLine (first ++ second) := by
  rw [OneLine, String.toList_append, List.mem_append]
  exact fun h => h.elim h₁ h₂

theorem Spacing.isBlank {gap : String} (h : Spacing gap) : ∀ c ∈ gap.toList, isBlank c = true :=
  fun c hc => (h c hc).1

theorem Spacing.oneLine {gap : String} (h : Spacing gap) : OneLine gap :=
  fun hc => (h _ hc).2 rfl

section

variable {gap : List Char}

theorem words_blanks_append (h : ∀ c ∈ gap, isBlank c = true) (cs : List Char) :
    words (gap ++ cs) = words cs := by
  induction gap with
  | nil => rfl
  | cons c gap ih =>
    rw [List.forall_mem_cons] at h
    rw [List.cons_append, words_cons_of_isBlank h.1, ih h.2]

/-- Blanks separate the words in front of them from those behind them. -/
theorem words_append_blanks_append (h : ∀ c ∈ gap, isBlank c = true) (hne : gap ≠ [])
    (first second : List Char) :
    words (first ++ gap ++ second) = words first ++ words second := by
  obtain ⟨c, rest, rfl⟩ := List.exists_cons_of_ne_nil hne
  rw [List.forall_mem_cons] at h
  rw [List.append_assoc, List.cons_append, words_append_cons h.1, words_blanks_append h.2]

theorem words_append_blanks (h : ∀ c ∈ gap, isBlank c = true) (cs : List Char) :
    words (cs ++ gap) = words cs := by
  by_cases hne : gap = []
  · rw [hne, List.append_nil]
  · have hwords := words_append_blanks_append h hne cs []
    rw [List.append_nil] at hwords
    exact hwords.trans (List.append_nil _)

end

/-! ## Where lines start and end -/

/-- A line starts behind the text. -/
def StartsLine (before : String) : Prop := before = "" ∨ ∃ text, before = text ++ "\n"

/-- A line ends in front of the text, where a carriage return may belong to the line's end. -/
def EndsLine (behind : String) : Prop :=
  behind = "" ∨ ∃ text, behind = "\n" ++ text ∨ behind = "\r\n" ++ text

/-- The text is empty or starts with a line feed. -/
def Feeds (back : String) : Prop := back = "" ∨ ∃ text, back = "\n" ++ text

/-- A text is cut where its last line starts. -/
theorem exists_startsLine_append (text : String) :
    ∃ front line, text = front ++ line ∧ StartsLine front ∧ OneLine line := by
  by_cases h : '\n' ∈ text.toList
  · -- the last line feed is the first one of the reversed text
    obtain ⟨line, front, hcut, hline⟩ := List.eq_append_cons_of_mem (List.mem_reverse.2 h)
    refine ⟨String.ofList front.reverse ++ "\n", String.ofList line.reverse, ?_,
      .inr ⟨_, rfl⟩, by simpa [OneLine] using hline⟩
    have htext : text.toList = front.reverse ++ '\n' :: line.reverse := by
      rw [← List.reverse_reverse text.toList, hcut]
      simp
    apply String.toList_injective
    simp [htext]
  · exact ⟨"", text, String.empty_append.symm, .inl rfl, h⟩

/-- A text is cut where its first line ends. -/
theorem exists_append_feeds (text : String) :
    ∃ line back, text = line ++ back ∧ OneLine line ∧ Feeds back := by
  by_cases h : '\n' ∈ text.toList
  · obtain ⟨line, back, hcut, hline⟩ := List.eq_append_cons_of_mem h
    refine ⟨String.ofList line, "\n" ++ String.ofList back, ?_, by simpa [OneLine] using hline,
      .inr ⟨_, rfl⟩⟩
    apply String.toList_injective
    simp [hcut]
  · exact ⟨text, "", String.append_empty.symm, h, .inl rfl⟩

/-- What ends a line is a line feed, or the end of the text, with spacing in front of it. -/
theorem EndsLine.exists_spacing {behind : String} (h : EndsLine behind) :
    ∃ tail back, behind = tail ++ back ∧ Spacing tail ∧ Feeds back := by
  rcases h with rfl | ⟨text, rfl | rfl⟩
  · exact ⟨"", "", rfl, by decide, .inl rfl⟩
  · exact ⟨"", "\n" ++ text, String.empty_append.symm, by decide, .inr ⟨text, rfl⟩⟩
  · refine ⟨"\r", "\n" ++ text, ?_, by decide, .inr ⟨text, rfl⟩⟩
    rw [← String.append_assoc]
    rfl

/-- The line is blank or holds a comment only. -/
def Idle (line : String) : Prop := ∃ gap, Spacing gap ∧
  (line = gap ∨ ∃ text, OneLine text ∧ line = gap ++ "#" ++ text)

theorem Idle.oneLine {line : String} (h : Idle line) : OneLine line := by
  obtain ⟨gap, hgap, rfl | ⟨text, htext, rfl⟩⟩ := h
  · exact hgap.oneLine
  · exact (hgap.oneLine.append (by decide)).append htext

end Text

/-! ## Tokens -/

namespace Token

open Text

section

variable {line other gap text before behind front back : String}

theorem ofLine_congr (h : words line.toList = words other.toList) : ofLine line = ofLine other := by
  rw [ofLine, h, ofLine]

theorem ofLine_append_spacing (hgap : Spacing gap) : ofLine (line ++ gap) = ofLine line := by
  apply ofLine_congr
  rw [String.toList_append, words_append_blanks hgap.isBlank]

/-- The first word of a comment ends the tokens, however the words go on. -/
theorem exists_words_comment (text : String) : ∃ word rest,
    words ("#" ++ text).toList = word :: rest ∧ opensComment (String.ofList word) = true := by
  obtain ⟨word, rest, hwords⟩ := exists_words_cons (c := '#') (by decide) text.toList
  refine ⟨'#' :: word, rest, ?_, ?_⟩
  · rw [← hwords, String.toList_append]
    rfl
  · rw [opensComment, String.toList_ofList]
    rfl

/-- A comment behind a line adds no token. -/
theorem ofLine_append_comment (hgap : Spacing gap) (hne : gap ≠ "") :
    ofLine (line ++ gap ++ "#" ++ text) = ofLine line := by
  obtain ⟨word, rest, hwords, hopens⟩ := exists_words_comment text
  have hcut : words (line ++ gap ++ "#" ++ text).toList = words line.toList ++ word :: rest := by
    rw [String.append_assoc, String.toList_append, String.toList_append,
      words_append_blanks_append hgap.isBlank (by simpa using hne), hwords]
  rw [ofLine, ofLine, hcut, List.map_append, List.map_cons, List.takeWhile_append]
  split
  · rename_i hall
    rw [List.takeWhile_cons_of_neg (by simpa using hopens), List.append_nil]
    exact ((List.takeWhile_sublist _).eq_of_length hall).symm
  · rfl

theorem ofLine_of_idle (h : Idle line) : ofLine line = [] := by
  obtain ⟨gap, hgap, rfl | ⟨text, -, rfl⟩⟩ := h
  · have htokens : ofLine ("" ++ line) = ofLine "" := ofLine_append_spacing hgap
    rw [String.empty_append] at htokens
    exact htokens
  · obtain ⟨word, rest, hwords, hopens⟩ := exists_words_comment text
    rw [ofLine, String.append_assoc, String.toList_append, words_blanks_append hgap.isBlank, hwords,
      List.map_cons, List.takeWhile_cons_of_neg (by simpa using hopens)]

/-! ## Numbered lines -/

theorem numbered_oneLine (h : OneLine line) :
    numbered line = if (ofLine line).isEmpty then [] else [(1, ofLine line)] := by
  have hpieces : split (· == '\n') line.toList = [line.toList] := by
    rw [split_eq_splitOnP]
    exact List.splitOnP_eq_singleton fun c hc => by simpa using ne_of_mem_of_not_mem hc h
  have hlines : numbered (line ++ "\n") = numberedFrom 1 (lines (line ++ "\n")) := rfl
  rw [← numbered_newline, hlines, lines_newline, hpieces, List.map_singleton, numberedFrom_cons,
    ofLine_dropReturn, String.ofList_toList]
  exact List.append_nil _

theorem numbered_of_idle (h : Idle line) : numbered line = [] := by
  rw [numbered_oneLine h.oneLine, ofLine_of_idle h]
  rfl

/-- A line may be replaced by one with the same tokens. -/
theorem numbered_congr (hfront : StartsLine front) (hback : Feeds back) (hline : OneLine line)
    (hother : OneLine other) (h : ofLine line = ofLine other) :
    numbered (front ++ line ++ back) = numbered (front ++ other ++ back) := by
  have hcount : (front ++ line).toList.count '\n' = (front ++ other).toList.count '\n' := by
    rw [String.toList_append, String.toList_append, List.count_append, List.count_append,
      List.count_eq_zero.2 hline, List.count_eq_zero.2 hother]
  have hopen : numbered (front ++ line) = numbered (front ++ other) := by
    rcases hfront with rfl | ⟨text, rfl⟩
    · rw [String.empty_append, String.empty_append, numbered_oneLine hline,
        numbered_oneLine hother, h]
    · rw [numbered_joined, numbered_joined, numbered_oneLine hline, numbered_oneLine hother, h]
  rcases hback with rfl | ⟨text, rfl⟩
  · rw [String.append_empty, String.append_empty, hopen]
  · rw [← String.append_assoc, ← String.append_assoc, numbered_joined, numbered_joined, hopen,
      hcount]

theorem numbered_append_comment (hgap : Spacing gap) (hne : gap ≠ "") (htext : OneLine text)
    (hends : EndsLine behind) :
    numbered (before ++ gap ++ "#" ++ text ++ behind) = numbered (before ++ behind) := by
  obtain ⟨front, line, rfl, hfront, hline⟩ := exists_startsLine_append before
  obtain ⟨tail, back, rfl, htail, hback⟩ := hends.exists_spacing
  have hedited : OneLine (line ++ gap ++ "#" ++ (text ++ tail)) :=
    ((hline.append hgap.oneLine).append (by decide)).append (htext.append htail.oneLine)
  have htokens : ofLine (line ++ gap ++ "#" ++ (text ++ tail)) = ofLine (line ++ tail) := by
    rw [ofLine_append_comment hgap hne, ofLine_append_spacing htail]
  have hnumbered :=
    numbered_congr hfront hback hedited (hline.append htail.oneLine) htokens
  simpa only [String.append_assoc] using hnumbered

/-- Spacing may be replaced by other spacing. Both are more than nothing unless a line starts or
ends there, so that words stay apart. -/
theorem numbered_respace (hgap : Spacing gap) (hother : Spacing other)
    (h : gap ≠ "" ∧ other ≠ "" ∨ StartsLine before ∨ EndsLine behind) :
    numbered (before ++ gap ++ behind) = numbered (before ++ other ++ behind) := by
  rcases h with ⟨hgapNe, hotherNe⟩ | hstarts | hends
  · obtain ⟨front, line, rfl, hfront, hline⟩ := exists_startsLine_append before
    obtain ⟨tail, back, rfl, htail, hback⟩ := exists_append_feeds behind
    have htokens : ofLine (line ++ gap ++ tail) = ofLine (line ++ other ++ tail) := by
      apply ofLine_congr
      simp only [String.toList_append]
      rw [words_append_blanks_append hgap.isBlank (by simpa using hgapNe),
        words_append_blanks_append hother.isBlank (by simpa using hotherNe)]
    have hnumbered := numbered_congr hfront hback ((hline.append hgap.oneLine).append htail)
      ((hline.append hother.oneLine).append htail) htokens
    simpa only [String.append_assoc] using hnumbered
  · obtain ⟨tail, back, rfl, htail, hback⟩ := exists_append_feeds behind
    have htokens : ofLine (gap ++ tail) = ofLine (other ++ tail) := by
      apply ofLine_congr
      rw [String.toList_append, String.toList_append, words_blanks_append hgap.isBlank,
        words_blanks_append hother.isBlank]
    have hnumbered := numbered_congr hstarts hback (hgap.oneLine.append htail)
      (hother.oneLine.append htail) htokens
    simpa only [String.append_assoc] using hnumbered
  · obtain ⟨front, line, rfl, hfront, hline⟩ := exists_startsLine_append before
    obtain ⟨tail, back, rfl, htail, hback⟩ := hends.exists_spacing
    have htokens : ofLine (line ++ gap ++ tail) = ofLine (line ++ other ++ tail) := by
      rw [ofLine_append_spacing htail, ofLine_append_spacing htail, ofLine_append_spacing hgap,
        ofLine_append_spacing hother]
    have hnumbered := numbered_congr hfront hback
      ((hline.append hgap.oneLine).append htail.oneLine)
      ((hline.append hother.oneLine).append htail.oneLine) htokens
    simpa only [String.append_assoc] using hnumbered

/-- The numbers of the lines of a text. -/
theorem number_of_mem_numbered {entry : Nat × List String} (h : entry ∈ numbered text) :
    1 ≤ entry.1 ∧ entry.1 ≤ 1 + text.toList.count '\n' := by
  obtain ⟨number, tokens⟩ := entry
  rw [← numbered_newline] at h
  obtain ⟨hline, -⟩ := mem_numbered_iff.1 h
  cases number with
  | zero => cases hline
  | succ index =>
    obtain ⟨line, hline, -⟩ := Option.map_eq_some_iff.1 hline
    obtain ⟨hlt, -⟩ := List.getElem?_eq_some_iff.1 hline
    rw [length_lines_newline] at hlt
    exact ⟨Nat.le_add_left 1 index, hlt⟩

/-- A line without tokens counts for the lines behind it, and makes no other difference. -/
theorem numbered_insertLine (hstarts : StartsLine before) (hline : Idle line) :
    numbered (before ++ line ++ "\n" ++ behind) = (numbered (before ++ behind)).map
      (Prod.map (fun n => n + if before.toList.count '\n' < n then 1 else 0) id) := by
  have hcount : line.toList.count '\n' = 0 := List.count_eq_zero.2 hline.oneLine
  have hbehind : numbered (line ++ "\n" ++ behind) =
      (numbered behind).map (Prod.map (· + 1) id) := by
    rw [numbered_joined, numbered_of_idle hline, hcount]
    rfl
  rcases hstarts with rfl | ⟨text, rfl⟩
  · rw [String.empty_append, String.empty_append, hbehind]
    refine List.map_congr_left fun entry hentry => ?_
    obtain ⟨hpos, -⟩ := number_of_mem_numbered hentry
    exact Prod.ext (congrArg (entry.1 + ·) (if_pos hpos).symm) rfl
  · have hfeeds : (text ++ "\n").toList.count '\n' = 1 + text.toList.count '\n' := by
      rw [String.toList_append, List.count_append, Nat.add_comm]
      rfl
    have hassoc : text ++ "\n" ++ line ++ "\n" ++ behind =
        text ++ "\n" ++ (line ++ "\n" ++ behind) := by
      simp only [String.append_assoc]
    rw [hassoc, numbered_joined text, hbehind, numbered_joined text, hfeeds, List.map_append,
      List.map_map, List.map_map]
    congr 1
    · symm
      refine (List.map_congr_left fun entry hentry => ?_).trans (List.map_id _)
      obtain ⟨-, hle⟩ := number_of_mem_numbered hentry
      exact Prod.ext (congrArg (entry.1 + ·) (if_neg (by omega))) rfl
    · refine List.map_congr_left fun entry hentry => ?_
      obtain ⟨hpos, -⟩ := number_of_mem_numbered hentry
      refine Prod.ext ?_ rfl
      simp only [Function.comp_apply, Prod.map_fst]
      rw [if_pos (by omega)]
      omega

theorem numbered_appendLine (hline : Idle line) :
    numbered (text ++ "\n" ++ line) = numbered text := by
  rw [numbered_joined, numbered_of_idle hline]
  exact List.append_nil _

end

end Token

/-! ## Edits -/

open Text (Spacing OneLine StartsLine EndsLine Idle)

/-- One edit of a source text. The function gives, for the number of a line of the text, how many
lines are inserted in front of it. -/
inductive Edit : String → (Nat → Nat) → String → Prop
  /-- A comment is put behind a line. -/
  | comment {before gap text behind : String} (spacing : Spacing gap) (ne : gap ≠ "")
      (oneLine : OneLine text) (ends : EndsLine behind) :
      Edit (before ++ behind) (fun _ => 0) (before ++ gap ++ "#" ++ text ++ behind)
  /-- The blanks between two words are replaced, and are still some. -/
  | between {before gap other behind : String} (spacing : Spacing gap) (ne : gap ≠ "")
      (otherSpacing : Spacing other) (otherNe : other ≠ "") :
      Edit (before ++ gap ++ behind) (fun _ => 0) (before ++ other ++ behind)
  /-- The blanks at the start of a line are replaced. -/
  | leading {before gap other behind : String} (spacing : Spacing gap)
      (otherSpacing : Spacing other) (starts : StartsLine before) :
      Edit (before ++ gap ++ behind) (fun _ => 0) (before ++ other ++ behind)
  /-- The blanks at the end of a line are replaced. -/
  | trailing {before gap other behind : String} (spacing : Spacing gap)
      (otherSpacing : Spacing other) (ends : EndsLine behind) :
      Edit (before ++ gap ++ behind) (fun _ => 0) (before ++ other ++ behind)
  /-- A line that is blank or holds a comment only is inserted. -/
  | insertLine {before line behind : String} (starts : StartsLine before) (idle : Idle line) :
      Edit (before ++ behind) (fun n => if before.toList.count '\n' < n then 1 else 0)
        (before ++ line ++ "\n" ++ behind)
  /-- Such a line is put behind a last line that is still open. -/
  | appendLine {source line : String} (idle : Idle line) :
      Edit source (fun _ => 0) (source ++ "\n" ++ line)

/-- Edits of a source text one after the other. The function gives, for the number of a line of the
text, how many lines are inserted in front of it by all of them. -/
inductive Edits : String → (Nat → Nat) → String → Prop
  | refl (source : String) : Edits source (fun _ => 0) source
  | step {source edited next : String} {inserted more : Nat → Nat}
      (edits : Edits source inserted edited) (edit : Edit edited more next) :
      Edits source (fun n => inserted n + more (n + inserted n)) next

open Token (numbered)

/-- An edit keeps the tokens of the lines, and moves their numbers by the lines inserted. -/
theorem Edit.numbered_eq {source edited : String} {inserted : Nat → Nat}
    (h : Edit source inserted edited) :
    numbered edited = (numbered source).map (Prod.map (fun n => n + inserted n) id) := by
  have hkeep : ∀ lines : List (Nat × List String),
      lines.map (Prod.map (fun n => n + (fun _ => 0) n) id) = lines := fun lines => List.map_id _
  cases h with
  | comment spacing ne oneLine ends =>
    rw [hkeep, Token.numbered_append_comment spacing ne oneLine ends]
  | between spacing ne otherSpacing otherNe =>
    rw [hkeep, Token.numbered_respace otherSpacing spacing (.inl ⟨otherNe, ne⟩)]
  | leading spacing otherSpacing starts =>
    rw [hkeep, Token.numbered_respace otherSpacing spacing (.inr (.inl starts))]
  | trailing spacing otherSpacing ends =>
    rw [hkeep, Token.numbered_respace otherSpacing spacing (.inr (.inr ends))]
  | insertLine starts idle => exact Token.numbered_insertLine starts idle
  | appendLine idle => rw [hkeep, Token.numbered_appendLine idle]

theorem Edits.numbered_eq {source edited : String} {inserted : Nat → Nat}
    (h : Edits source inserted edited) :
    numbered edited = (numbered source).map (Prod.map (fun n => n + inserted n) id) := by
  induction h with
  | refl => exact (List.map_id _).symm
  | step edits edit ih =>
    rw [edit.numbered_eq, ih, List.map_map, Prod.map_comp_map]
    congr 2
    funext n
    exact Nat.add_assoc _ _ _

/-- **Comments and spacing are insignificant.** After any edits that put comments behind lines,
replace the blanks between, before or after words, and insert lines that are blank or hold a comment
only, a source text assembles to what it assembled to before. If it could not be assembled, it fails
with the same error, in which only the number of the line differs, by the number of lines that were
inserted in front of it. -/
theorem assemble_edits {source edited : String} {inserted : Nat → Nat}
    (h : Edits source inserted edited) (eot : Bool) :
    assemble edited eot = (assemble source eot).mapError (.moveLine fun n => n + inserted n) := by
  have hread : (Assembly.read edited).result =
      (Assembly.read source).result.mapError (.moveLine fun n => n + inserted n) := by
    rw [Assembly.result_read, h.numbered_eq, Assembly.mapM_readLine_move, ← Assembly.result_read]
  rw [assemble_eq_bind, assemble_eq_bind, hread]
  cases (Assembly.read source).result with
  | error e => rfl
  | ok statements =>
    cases hlayout : layOut statements with
    | error e => simp [Except.mapError, bind, Except.bind, hlayout, AssemblyError.moveLine]
    | ok layout => simp [Except.mapError, bind, Except.bind, hlayout]

/-- A text whose second line is no statement. -/
def badSecond : String := "NOOP\r\nLET Q = 2"

/-- The text with a title, a comment before the end of the first line, and other blanks. -/
def badSecondEdited : String := "\u2003# title\nNOOP\t# start\r\n LET\u0085\x0bQ = 2"

theorem assemble_edits_badSecond : ∃ inserted cause,
    Edits badSecond inserted badSecondEdited ∧ inserted 2 = 1 ∧
    assemble badSecond true = .error (.parse 2 "LET Q = 2" cause) ∧
    assemble badSecondEdited true = .error (.parse 3 "LET Q = 2" cause) := by
  have hcomment : Edit badSecond _ "NOOP\t# start\r\nLET Q = 2" :=
    @Edit.comment "NOOP" "\t" " start" "\r\nLET Q = 2" (by decide) (by decide) (by decide)
      (.inr ⟨"LET Q = 2", .inr rfl⟩)
  have htitle : Edit "NOOP\t# start\r\nLET Q = 2" _ "\u2003# title\nNOOP\t# start\r\nLET Q = 2" :=
    @Edit.insertLine "" "\u2003# title" "NOOP\t# start\r\nLET Q = 2" (.inl rfl)
      ⟨"\u2003", by decide, .inr ⟨" title", by decide, rfl⟩⟩
  have hleading : Edit "\u2003# title\nNOOP\t# start\r\nLET Q = 2" _
      "\u2003# title\nNOOP\t# start\r\n LET Q = 2" :=
    @Edit.leading "\u2003# title\nNOOP\t# start\r\n" "" " " "LET Q = 2" (by decide) (by decide)
      (.inr ⟨"\u2003# title\nNOOP\t# start\r", rfl⟩)
  have hbetween : Edit "\u2003# title\nNOOP\t# start\r\n LET Q = 2" _ badSecondEdited :=
    @Edit.between "\u2003# title\nNOOP\t# start\r\n LET" " " "\u0085\x0b" "Q = 2" (by decide)
      (by decide) (by decide) (by decide)
  have hedits := ((((Edits.refl badSecond).step hcomment).step htitle).step hleading).step hbetween
  have hfails : assemble badSecond true =
      .error (.parse 2 "LET Q = 2" (.badRegisterName "Q")) := rfl
  refine ⟨_, _, hedits, rfl, hfails, ?_⟩
  rw [assemble_edits hedits, hfails]
  rfl

end CrossAssembler
