import CrossAssembler.Output
import CrossAssembler.Proofs.Markup
import CrossAssembler.Proofs.OctalNumerals

/-!
# Listings as markup

A listing is written line by line, and its elements begin in one line and end in another. Here it is
built from elements instead (`pageMarkup`), which gives the same text (`chars_pageMarkup`). No text
of a user gets in the way of a tag, since what is escaped holds no bracket, so the page can be read
(`wellFormed_pageMarkup`): `rowsOf` finds in it a row for each statement, with its number, its text
and the lines of its cells (`rowsOf_page`).
-/

namespace CrossAssembler.Listing

open Markup

/-! ## The elements of a page -/

/-- The bits of one octal digit. -/
def bitsMarkup (colour : String) (digits : List Char) : Markup :=
  enclose ("font color=\"#ffffff\" " ++ "style=\"background-color: " ++ colour ++ ";\"").toList
    (text ("&nbsp;".toList ++ (digits ++ "&nbsp;".toList)))

/-- Bits cut into groups of the given widths. -/
def groupMarkups : List (Nat × String) → List Char → List Markup
  | [], _ => []
  | (width, colour) :: groups, digits =>
    bitsMarkup colour (digits.take width) :: groupMarkups groups (digits.drop width)

/-- A byte in binary. -/
def binaryMarkup (value : UInt8) : Markup :=
  text " (".toList ++ (concat (groupMarkups digitColours (bits value)) ++ text ")".toList)

/-- The lines of a fragment. -/
def lineMarkups (fragment : Fragment) : List Markup :=
  match fragment.content with
  | .label _ _ => [text (octal fragment.location ++ ": " ++ escape fragment.display).toList]
  | _ => fragment.placedValues.map fun (address, value) =>
      text (octal address ++ ": " ++ octal value.toNat).toList ++ binaryMarkup value

/-- A cell of a row. -/
def cellMarkup (index : Nat) (inner : Markup) : Markup :=
  enclose ("td bgcolor=\"" ++ rowColour index ++ "\"").toList inner

/-- The line of a cell in the row of a statement. -/
def lineMarkup (index : Nat) (line : Markup) : Markup :=
  text "        ".toList ++ (enclose "tr".toList (cellMarkup index line) ++ text "\n".toList)

/-- The table of the lines of fragments. -/
def tableMarkup (index : Nat) (fragments : List Fragment) : Markup :=
  text "\n        ".toList ++ (enclose "table border=\"0\"".toList (text "\n".toList ++
    (concat ((fragments.flatMap lineMarkups).map (lineMarkup index)) ++
      text "        ".toList)) ++ text "\n      ".toList)

/-- The cells of the row of a statement: its number, its text and the table of its lines. -/
def cellsMarkup (index : Nat) (statement : Statement) : Markup :=
  text "\n      ".toList ++ (cellMarkup index (text (toString (index + 1)).toList) ++
    (text "\n      ".toList ++ (cellMarkup index (text (escape statement.text).toList) ++
      (text "\n      ".toList ++ (cellMarkup index (tableMarkup index statement.fragments) ++
        text "\n    ".toList)))))

/-- The row of a statement. -/
def rowMarkup (index : Nat) (statement : Statement) : Markup :=
  text "    ".toList ++ (enclose "tr".toList (cellsMarkup index statement) ++ text "\n".toList)

/-- The row with the headings. -/
def headingMarkup : Markup :=
  enclose "th".toList (text "Statement Number".toList) ++
    (enclose "th".toList (text "Statement".toList) ++
      enclose "th".toList (text "Memory Location, Op Codes, and Values".toList))

/-- The rows of a page. -/
def rowsMarkup (statements : List Statement) : Markup :=
  text "\n    ".toList ++ (enclose "tr".toList headingMarkup ++ (text "\n".toList ++
    (concat (statements.zipIdx.map fun (statement, index) => rowMarkup index statement) ++
      text "  ".toList)))

/-- The body of a page. -/
def bodyMarkup (name : String) (statements : List Statement) : Markup :=
  text "\n".toList ++ (enclose "h1".toList (text ("Operation Codes for " ++ escape name).toList) ++
    (text "\n  ".toList ++ (enclose "table border=\"1\"".toList (rowsMarkup statements) ++
      text "\n".toList)))

/-- The listing of laid-out statements under a name. -/
def pageMarkup (name : String) (statements : List Statement) : Markup :=
  enclose "html".toList (text "\n".toList ++
    (enclose "head".toList (enclose "title".toList (text (escape name).toList)) ++
      (text "\n".toList ++ (enclose "body".toList (bodyMarkup name statements) ++
        text "\n".toList)))) ++ text "\n".toList

/-! ## The text of a page -/

theorem nameOf_bits (colour : String) : nameOf ("font color=\"#ffffff\" " ++
    "style=\"background-color: " ++ colour ++ ";\"").toList = "font".toList := by
  have htag : ("font color=\"#ffffff\" " ++ "style=\"background-color: " ++ colour ++
      ";\"").toList = "font".toList ++ ' ' ::
        ("color=\"#ffffff\" style=\"background-color: " ++ colour ++ ";\"").toList := by simp
  rw [htag, nameOf_append (by simp)]

theorem chars_bitsMarkup (colour : String) (digits : List Char) :
    (bitsMarkup colour digits).chars = (colouredBits colour digits).toList := by
  rw [bitsMarkup, chars_enclose, chars_text, nameOf_bits]
  -- the equation of a definition with long texts in it takes long to make, so there is no `rw` here
  delta colouredBits
  simp

theorem chars_groupMarkups (groups : List (Nat × String)) (digits : List Char) :
    (groupMarkups groups digits).flatMap chars =
      (String.join (colourGroups groups digits)).toList := by
  induction groups generalizing digits with
  | nil => simp [groupMarkups, colourGroups]
  | cons group groups ih =>
    obtain ⟨width, colour⟩ := group
    rw [groupMarkups, colourGroups, List.flatMap_cons, ih, chars_bitsMarkup, String.join_cons,
      String.toList_append]

theorem chars_binaryMarkup (value : UInt8) :
    (binaryMarkup value).chars = (binary value).toList := by
  rw [binaryMarkup, chars_append, chars_append, chars_concat, chars_groupMarkups]
  delta binary
  simp

theorem map_source_lineMarkups (fragment : Fragment) :
    (lineMarkups fragment).map source = cellLines fragment := by
  unfold lineMarkups cellLines
  cases fragment.content with
  | label name used =>
    rw [List.map_singleton, source_eq_iff.2 (chars_text _)]
  | operation value | jump kind target destination =>
    rw [List.map_map]
    apply List.map_congr_left
    rintro ⟨address, value⟩ _
    refine source_eq_iff.2 ?_
    rw [chars_append, chars_text, chars_binaryMarkup, ← String.toList_append]

/-- The name of a cell's element, whatever its colour. -/
theorem nameOf_cell (colour : String) :
    nameOf ("td bgcolor=\"" ++ colour ++ "\"").toList = "td".toList := by
  have htag : ("td bgcolor=\"" ++ colour ++ "\"").toList =
      "td".toList ++ ' ' :: ("bgcolor=\"" ++ colour ++ "\"").toList := by simp
  rw [htag, nameOf_append (by simp)]

theorem chars_cellMarkup (index : Nat) (inner : Markup) : (cellMarkup index inner).chars =
    ("<td bgcolor=\"" ++ rowColour index ++ "\">").toList ++ (inner.chars ++ "</td>".toList) := by
  rw [cellMarkup, chars_enclose, nameOf_cell]
  simp

theorem chars_lineMarkup (index : Nat) (line : Markup) :
    (lineMarkup index line).chars = (cellRow (rowColour index) line.source ++ "\n").toList := by
  rw [lineMarkup, chars_append, chars_append, chars_enclose, chars_cellMarkup, source]
  delta cellRow
  simp [nameOf]

theorem flatMap_cellLines (fragments : List Fragment) :
    fragments.flatMap cellLines = (fragments.flatMap lineMarkups).map source := by
  rw [List.map_flatMap]
  simp only [map_source_lineMarkups]

theorem chars_linesMarkup (index : Nat) (fragments : List Fragment) :
    (concat ((fragments.flatMap lineMarkups).map (lineMarkup index))).chars =
      ((fragments.flatMap cellLines).map (cellRow (rowColour index))).flatMap
        fun line => (line ++ "\n").toList := by
  rw [chars_concat, flatMap_cellLines, List.map_map, List.flatMap_map, List.flatMap_map]
  simp only [chars_lineMarkup, Function.comp_apply]

theorem chars_rowMarkup (index : Nat) (statement : Statement) :
    (rowMarkup index statement).chars =
      (row index statement).flatMap fun line => (line ++ "\n").toList := by
  have hlines := chars_linesMarkup index statement.fragments
  delta row
  simp only [rowMarkup, cellsMarkup, tableMarkup, chars_append, chars_text, chars_enclose,
    chars_cellMarkup, hlines, List.flatMap_append]
  -- what is left are the fixed texts around the lines
  generalize List.flatMap _ (List.map _ _) = cells
  simp [nameOf]

theorem toList_heading : ("    <tr><th>Statement Number</th><th>Statement</th>" ++
    "<th>Memory Location, Op Codes, and Values</th></tr>").toList =
      "    <tr>".toList ++ (headingMarkup.chars ++ "</tr>".toList) := by
  simp [headingMarkup, nameOf]

theorem chars_rowsMarkup (statements : List Statement) : (rowsMarkup statements).chars =
    "\n    <tr>".toList ++ (headingMarkup.chars ++ ("</tr>\n".toList ++
      ((statements.zipIdx.flatMap fun (statement, index) => row index statement).flatMap
        (fun line => (line ++ "\n").toList) ++ "  ".toList))) := by
  rw [rowsMarkup, chars_append, chars_append, chars_append, chars_append, chars_enclose,
    chars_concat, List.flatMap_map, List.flatMap_assoc]
  simp only [chars_rowMarkup]
  generalize List.flatMap _ statements.zipIdx = rows
  simp [nameOf]

/-- The listing is the text of its elements. -/
theorem chars_pageMarkup (name : String) (statements : List Statement) :
    (pageMarkup name statements).chars = (page name statements).toList := by
  delta page pageLines
  rw [String.toList_join, List.flatMap_map]
  have hline : ∀ line : String, (line ++ "\n").toList = line.toList ++ ['\n'] := by simp
  simp only [pageMarkup, bodyMarkup, chars_append, chars_text, chars_enclose, chars_rowsMarkup,
    List.flatMap_append, List.flatMap_cons, List.flatMap_nil, hline, toList_heading,
    -String.reduceAppend]
  generalize List.flatMap _ (List.flatMap _ statements.zipIdx) = rows
  simp [nameOf]

/-! ## Pages are well-formed -/

/-- Brackets and ampersands are replaced by entities, and no other characters. -/
theorem escapeChar_cases (c : Char) :
    c = '&' ∧ escapeChar c = "&amp;".toList ∨ c = '<' ∧ escapeChar c = "&lt;".toList ∨
      c = '>' ∧ escapeChar c = "&gt;".toList ∨
      c ≠ '&' ∧ c ≠ '<' ∧ c ≠ '>' ∧ escapeChar c = [c] := by
  unfold escapeChar
  split <;> simp_all

/-- A text that is escaped holds no brackets. -/
theorem ne_bracket_of_mem_escape {text : String} {c : Char} (h : c ∈ (escape text).toList) :
    c ≠ '<' ∧ c ≠ '>' := by
  rw [escape, String.toList_ofList, List.mem_flatMap] at h
  obtain ⟨d, -, hc⟩ := h
  rcases escapeChar_cases d with ⟨-, heq⟩ | ⟨-, heq⟩ | ⟨-, heq⟩ | ⟨-, hlt, hgt, heq⟩
  · exact (by simp : ∀ c ∈ "&amp;".toList, c ≠ '<' ∧ c ≠ '>') c (heq ▸ hc)
  · exact (by simp : ∀ c ∈ "&lt;".toList, c ≠ '<' ∧ c ≠ '>') c (heq ▸ hc)
  · exact (by simp : ∀ c ∈ "&gt;".toList, c ≠ '<' ∧ c ≠ '>') c (heq ▸ hc)
  · rw [heq, List.mem_singleton] at hc
    exact hc ▸ ⟨hlt, hgt⟩

theorem bracketless_escape (text : String) : Bracketless (escape text).toList :=
  ⟨fun h => (ne_bracket_of_mem_escape h).1 rfl, fun h => (ne_bracket_of_mem_escape h).2 rfl⟩

theorem bracketless_of_isDigit {cs : List Char} (h : ∀ c ∈ cs, c.isDigit = true) :
    Bracketless cs :=
  ⟨fun hmem => absurd (h '<' hmem) (by decide), fun hmem => absurd (h '>' hmem) (by decide)⟩

theorem bracketless_octal (n : Nat) : Bracketless (octal n).toList :=
  bracketless_of_isDigit fun _ => isDigit_of_mem_octal

theorem isDigit_of_mem_bits {value : UInt8} {c : Char} (h : c ∈ bits value) :
    c.isDigit = true := by
  rw [bits, List.leftpad, List.mem_append, List.mem_replicate] at h
  rcases h with ⟨-, rfl⟩ | h
  · rfl
  · exact Nat.isDigit_of_mem_toDigits (by omega) (by omega) h

theorem wellFormed_bitsMarkup {colour : String} (hcolour : Bracketless colour.toList)
    {digits : List Char} (hdigits : ∀ c ∈ digits, c.isDigit = true) :
    (bitsMarkup colour digits).WellFormed := by
  have htext := bracketless_of_isDigit hdigits
  rw [Bracketless] at hcolour htext
  refine wellFormed_enclose_iff.2 ⟨⟨?_, ?_⟩, wellFormed_text_iff.2 ?_⟩
  · simp [Bracketless, hcolour]
  · simp
  · simp [Bracketless, htext]

theorem wellFormed_groupMarkups {groups : List (Nat × String)}
    (hgroups : ∀ group ∈ groups, Bracketless group.2.toList) {digits : List Char}
    (hdigits : ∀ c ∈ digits, c.isDigit = true) :
    ∀ markup ∈ groupMarkups groups digits, markup.WellFormed := by
  induction groups generalizing digits with
  | nil => nofun
  | cons group groups ih =>
    rw [List.forall_mem_cons] at hgroups
    rw [groupMarkups, List.forall_mem_cons]
    exact ⟨wellFormed_bitsMarkup hgroups.1 fun c hc => hdigits c (List.mem_of_mem_take hc),
      ih hgroups.2 fun c hc => hdigits c (List.mem_of_mem_drop hc)⟩

theorem wellFormed_binaryMarkup (value : UInt8) : (binaryMarkup value).WellFormed := by
  have hcolours : ∀ group ∈ digitColours, Bracketless group.2.toList := by
    simp [digitColours, Bracketless]
  refine wellFormed_append_iff.2 ⟨wellFormed_text_iff.2 (by simp [Bracketless]),
    wellFormed_append_iff.2 ⟨wellFormed_concat_iff.2 ?_,
      wellFormed_text_iff.2 (by simp [Bracketless])⟩⟩
  exact wellFormed_groupMarkups hcolours fun c hc => isDigit_of_mem_bits hc

theorem wellFormed_lineMarkups (fragment : Fragment) :
    ∀ line ∈ lineMarkups fragment, line.WellFormed := by
  have hdigits := bracketless_octal
  have hescape := bracketless_escape fragment.display
  simp only [Bracketless] at hdigits hescape
  intro line hline
  unfold lineMarkups at hline
  split at hline
  · rw [List.mem_singleton.1 hline, wellFormed_text_iff]
    simp [Bracketless, hdigits, hescape]
  · obtain ⟨⟨address, value⟩, -, rfl⟩ := List.mem_map.1 hline
    refine wellFormed_append_iff.2 ⟨wellFormed_text_iff.2 ?_, wellFormed_binaryMarkup value⟩
    simp [Bracketless, hdigits]

theorem wellFormed_cellMarkup_iff {index : Nat} {inner : Markup} :
    (cellMarkup index inner).WellFormed ↔ inner.WellFormed := by
  have hcolour : '<' ∉ (rowColour index).toList ∧ '>' ∉ (rowColour index).toList := by
    unfold rowColour
    split_ifs <;> simp
  exact wellFormed_enclose_iff.trans (and_iff_right ⟨by simp [Bracketless, hcolour], by simp⟩)

theorem wellFormed_lineMarkup_iff {index : Nat} {line : Markup} :
    (lineMarkup index line).WellFormed ↔ line.WellFormed := by
  simp [lineMarkup, wellFormed_append_iff, wellFormed_text_iff, wellFormed_enclose_iff,
    wellFormed_cellMarkup_iff, Bracketless]

theorem wellFormed_rowMarkup (index : Nat) (statement : Statement) :
    (rowMarkup index statement).WellFormed := by
  have hnumber : Bracketless (Nat.toDigits 10 (index + 1)) :=
    bracketless_of_isDigit fun c => Nat.isDigit_of_mem_toDigits (by omega) (by omega)
  have hstatement := bracketless_escape statement.text
  rw [Bracketless] at hnumber hstatement
  have hlines : (concat ((statement.fragments.flatMap lineMarkups).map
      (lineMarkup index))).WellFormed := by
    rw [wellFormed_concat_iff, List.forall_mem_map, List.forall_mem_flatMap]
    exact fun fragment _ line hline =>
      wellFormed_lineMarkup_iff.2 (wellFormed_lineMarkups fragment line hline)
  simp [rowMarkup, cellsMarkup, tableMarkup, wellFormed_append_iff, wellFormed_text_iff,
    wellFormed_enclose_iff, wellFormed_cellMarkup_iff, Bracketless, hnumber, hstatement, hlines]

/-- A listing is well-formed, whatever its name and the texts of its statements. -/
theorem wellFormed_pageMarkup (name : String) (statements : List Statement) :
    (pageMarkup name statements).WellFormed := by
  have hname := bracketless_escape name
  rw [Bracketless] at hname
  have hrows : (concat (statements.zipIdx.map fun (statement, index) =>
      rowMarkup index statement)).WellFormed := by
    rw [wellFormed_concat_iff, List.forall_mem_map]
    exact fun row _ => wellFormed_rowMarkup row.2 row.1
  simp [pageMarkup, bodyMarkup, rowsMarkup, headingMarkup, wellFormed_append_iff,
    wellFormed_text_iff, wellFormed_enclose_iff, Bracketless, hname, hrows]

/-! ## Reading a page -/

/-- What a row of a page shows: the number and the text of a statement, and the lines of its
cells. -/
structure ShownRow where
  number : String
  statement : String
  lines : List String
  deriving DecidableEq, Repr

/-- What a row shows, if it has three cells. -/
def row? (row : Markup) : Option ShownRow :=
  match row.inside "td" with
  | [number, statement, code] => some
      { number := number.source
        statement := statement.source
        lines := (((code.inside "table").flatMap (inside "tr")).flatMap (inside "td")).map source }
  | _ => none

/-- The rows of the table on a page. -/
def rowsOf (page : String) : List ShownRow :=
  (((((read? page).toList.flatMap (inside "html")).flatMap (inside "body")).flatMap
    (inside "table")).flatMap (inside "tr")).filterMap row?

theorem inside_cellMarkup (index : Nat) (inner : Markup) :
    (cellMarkup index inner).inside "td" = [inner] := by
  rw [cellMarkup, inside_enclose, if_pos (nameOf_cell _)]

theorem inside_lineMarkup (index : Nat) (line : Markup) :
    (lineMarkup index line).inside "tr" = [cellMarkup index line] := by
  simp [lineMarkup, inside_enclose, nameOf]

/-- The lines in the table of fragments. -/
theorem inside_tableMarkup (index : Nat) (fragments : List Fragment) :
    (((tableMarkup index fragments).inside "table").flatMap (inside "tr")).flatMap (inside "td") =
      fragments.flatMap lineMarkups := by
  have hrows : ((tableMarkup index fragments).inside "table").flatMap (inside "tr") =
      (fragments.flatMap lineMarkups).map (cellMarkup index) := by
    rw [List.map_eq_flatMap]
    simp [tableMarkup, inside_enclose, nameOf, List.flatMap_map, inside_lineMarkup]
  rw [hrows, List.flatMap_map]
  simp only [inside_cellMarkup, List.flatMap_singleton']

theorem row?_cellsMarkup (index : Nat) (statement : Statement) :
    row? (cellsMarkup index statement) = some
      { number := toString (index + 1)
        statement := escape statement.text
        lines := statement.fragments.flatMap cellLines } := by
  have hcells : (cellsMarkup index statement).inside "td" = [text (toString (index + 1)).toList,
      text (escape statement.text).toList, tableMarkup index statement.fragments] := by
    simp [cellsMarkup, inside_cellMarkup]
  simp only [row?, hcells, inside_tableMarkup, flatMap_cellLines, source_eq_iff.2 (chars_text _)]

theorem row?_headingMarkup : row? headingMarkup = none := by
  have hcells : headingMarkup.inside "td" = [] := by
    simp [headingMarkup, inside_enclose, nameOf]
  simp only [row?, hcells]

/-- A page is read as a row for each statement. -/
theorem rowsOf_page (name : String) (statements : List Statement) :
    rowsOf (page name statements) = statements.zipIdx.map fun (statement, index) =>
      { number := toString (index + 1)
        statement := escape statement.text
        lines := statement.fragments.flatMap cellLines } := by
  have hread : read? (page name statements) = some (pageMarkup name statements) := by
    rw [← source_eq_iff.2 (chars_pageMarkup name statements)]
    exact read?_source (wellFormed_pageMarkup name statements)
  have hrows : ((((pageMarkup name statements).inside "html").flatMap (inside "body")).flatMap
      (inside "table")).flatMap (inside "tr") =
        headingMarkup :: statements.zipIdx.map fun (statement, index) =>
          cellsMarkup index statement := by
    rw [List.map_eq_flatMap]
    simp [pageMarkup, bodyMarkup, rowsMarkup, rowMarkup, inside_enclose, nameOf, List.flatMap_map]
  rw [rowsOf, hread, Option.toList_some, List.flatMap_singleton, hrows,
    List.filterMap_cons_none row?_headingMarkup, List.filterMap_map]
  rw [← List.filterMap_eq_map]
  apply List.filterMap_congr
  rintro ⟨statement, index⟩ _
  exact row?_cellsMarkup index statement

end CrossAssembler.Listing
