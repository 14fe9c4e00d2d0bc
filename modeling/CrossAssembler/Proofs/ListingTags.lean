import CrossAssembler.Proofs.ListingMarkup

/-!
# Texts of users are no markup

A listing shows its name, the texts of statements and the names of labels, which may be any texts at
all. They are escaped (`unescape_escape`), so whatever they say, the tags of the page are those that
`pageTags` gives for the kinds of the fragments (`tagsOf_page`), and no bracket stands outside of
them. Two listings whose fragments are of the same kinds have the same tags
(`listing_tags_ignore_text`).
-/

namespace CrossAssembler

/-- What a fragment is. -/
inductive Fragment.Kind where
  | operation
  | label
  | jump
  deriving DecidableEq, Repr

/-- The kind of a fragment. -/
def Fragment.kind (fragment : Fragment) : Fragment.Kind :=
  match fragment.content with
  | .operation _ => .operation
  | .label _ _ => .label
  | .jump _ _ _ => .jump

/-- The kinds of the fragments of a statement. -/
def Statement.kinds (statement : Statement) : List Fragment.Kind :=
  statement.fragments.map Fragment.kind

namespace Listing

open Markup

/-! ## Entities -/

/-- The entities that brackets and ampersands are replaced by. -/
def entities : List String := ["&amp;", "&lt;", "&gt;"]

/-- Puts the characters back that entities stand for. -/
def unescapeChars : List Char → List Char
  | '&' :: 'a' :: 'm' :: 'p' :: ';' :: cs => '&' :: unescapeChars cs
  | '&' :: 'l' :: 't' :: ';' :: cs => '<' :: unescapeChars cs
  | '&' :: 'g' :: 't' :: ';' :: cs => '>' :: unescapeChars cs
  | c :: cs => c :: unescapeChars cs
  | [] => []

/-- The text that an escaped text shows as. -/
def unescape (text : String) : String := String.ofList (unescapeChars text.toList)

theorem unescapeChars_cons {c : Char} (h : c ≠ '&') (cs : List Char) :
    unescapeChars (c :: cs) = c :: unescapeChars cs := by
  conv_lhs => unfold unescapeChars
  split <;> simp_all

theorem unescapeChars_escapeChar_append (c : Char) (cs : List Char) :
    unescapeChars (escapeChar c ++ cs) = c :: unescapeChars cs := by
  rcases escapeChar_cases c with ⟨rfl, h⟩ | ⟨rfl, h⟩ | ⟨rfl, h⟩ | ⟨hc, -, -, h⟩
  · rw [h]
    rfl
  · rw [h]
    rfl
  · rw [h]
    rfl
  · rw [h, List.singleton_append, unescapeChars_cons hc]

/-- What is escaped can be read back. -/
theorem unescape_escape (text : String) : unescape (escape text) = text := by
  rw [unescape, escape, String.toList_ofList]
  have hchars : ∀ cs : List Char, unescapeChars (cs.flatMap escapeChar) = cs := by
    intro cs
    induction cs with
    | nil => rfl
    | cons c cs ih => rw [List.flatMap_cons, unescapeChars_escapeChar_append, ih]
  rw [hchars, String.ofList_toList]

/-- Wherever there is an ampersand, an entity begins. -/
def AmpersandsBegin (cs : List Char) : Prop :=
  ∀ before behind, cs = before ++ '&' :: behind →
    ∃ entity ∈ entities, entity.toList <+: '&' :: behind

theorem AmpersandsBegin.cons {c : Char} {cs : List Char} (h : AmpersandsBegin cs)
    (hc : c = '&' → ∃ entity ∈ entities, entity.toList <+: c :: cs) :
    AmpersandsBegin (c :: cs) := by
  intro before behind heq
  cases before with
  | nil =>
    obtain ⟨rfl, rfl⟩ := List.cons.inj heq
    exact hc rfl
  | cons first before => exact h before behind (List.cons.inj heq).2

theorem AmpersandsBegin.append {first second : List Char} (h : AmpersandsBegin second)
    (hfirst : '&' ∉ first) : AmpersandsBegin (first ++ second) := by
  induction first with
  | nil => exact h
  | cons c first ih =>
    rw [List.mem_cons, not_or] at hfirst
    exact (ih hfirst.2).cons fun hc => absurd hc.symm hfirst.1

theorem AmpersandsBegin.escapeChar_append {cs : List Char} (h : AmpersandsBegin cs) (c : Char) :
    AmpersandsBegin (escapeChar c ++ cs) := by
  -- an entity is an ampersand and a name without one
  have hentity : ∀ name : List Char, '&' ∉ name → String.ofList ('&' :: name) ∈ entities →
      AmpersandsBegin ('&' :: name ++ cs) := fun name hname hmem =>
    (h.append hname).cons fun _ => ⟨_, hmem, by simp⟩
  rcases escapeChar_cases c with ⟨-, heq⟩ | ⟨-, heq⟩ | ⟨-, heq⟩ | ⟨hc, -, -, heq⟩
  · rw [heq]
    exact hentity "amp;".toList (by decide) (by decide)
  · rw [heq]
    exact hentity "lt;".toList (by decide) (by decide)
  · rw [heq]
    exact hentity "gt;".toList (by decide) (by decide)
  · rw [heq]
    exact h.append (by simpa using hc.symm)

theorem ampersandsBegin_escape (text : String) : AmpersandsBegin (escape text).toList := by
  rw [escape, String.toList_ofList]
  induction text.toList with
  | nil => exact fun before behind h => by simp at h
  | cons c cs ih => exact ih.escapeChar_append c

/-! ## The tags of a page -/

/-- The tags of a byte in binary. -/
def bitTags : List String :=
  digitColours.flatMap fun (_, colour) =>
    ["<font color=\"#ffffff\" style=\"background-color: " ++ colour ++ ";\">", "</font>"]

/-- The tags inside of the lines of a fragment, by its kind. -/
def lineTags : Fragment.Kind → List (List String)
  | .operation => [bitTags]
  | .label => [[]]
  | .jump => [bitTags, bitTags]

/-- The tag at the beginning of a cell. -/
def cellTag (index : Nat) : String := "<td bgcolor=\"" ++ rowColour index ++ "\">"

/-- The tags of a line, around those inside of it. -/
def framed (index : Nat) (tags : List String) : List String :=
  ["<tr>", cellTag index] ++ tags ++ ["</td>", "</tr>"]

/-- The tags of the row of a statement. -/
def rowTags (index : Nat) (kinds : List Fragment.Kind) : List String :=
  ["<tr>", cellTag index, "</td>", cellTag index, "</td>", cellTag index,
   "<table border=\"0\">"] ++
  (kinds.flatMap lineTags).flatMap (framed index) ++
  ["</table>", "</td>", "</tr>"]

/-- The tags of a page, by the kinds of the fragments of its statements. -/
def pageTags (kinds : List (List Fragment.Kind)) : List String :=
  ["<html>", "<head>", "<title>", "</title>", "</head>", "<body>", "<h1>", "</h1>",
   "<table border=\"1\">", "<tr>", "<th>", "</th>", "<th>", "</th>", "<th>", "</th>", "</tr>"] ++
  kinds.zipIdx.flatMap (fun (kinds, index) => rowTags index kinds) ++
  ["</table>", "</body>", "</html>"]

theorem tags_bitsMarkup (colour : String) (digits : List Char) :
    (bitsMarkup colour digits).tags =
      ["<font color=\"#ffffff\" style=\"background-color: " ++ colour ++ ";\">", "</font>"] := by
  rw [bitsMarkup, tags_enclose, tags_text, nameOf_bits]
  simp [← String.toList_inj]

theorem tags_binaryMarkup (value : UInt8) : (binaryMarkup value).tags = bitTags := by
  have hgroups : ∀ groups digits, (groupMarkups groups digits).flatMap tags =
      groups.flatMap fun (_, colour) =>
        ["<font color=\"#ffffff\" style=\"background-color: " ++ colour ++ ";\">", "</font>"] := by
    intro groups
    induction groups with
    | nil => exact fun _ => rfl
    | cons group groups ih =>
      intro digits
      rw [groupMarkups, List.flatMap_cons, List.flatMap_cons, tags_bitsMarkup, ih]
  rw [binaryMarkup, tags_append, tags_append, tags_text, tags_text, tags_concat, hgroups,
    List.nil_append, List.append_nil, bitTags]

/-- The tags of the lines of a fragment are known from its kind. -/
theorem map_tags_lineMarkups (fragment : Fragment) :
    (lineMarkups fragment).map tags = lineTags fragment.kind := by
  obtain ⟨location, content⟩ := fragment
  cases content with
  | label name used => simp [lineMarkups, lineTags, Fragment.kind]
  | operation value =>
    simp [lineMarkups, lineTags, Fragment.kind, Fragment.placedValues, Fragment.values,
      tags_binaryMarkup]
  | jump kind target destination =>
    simp [lineMarkups, lineTags, Fragment.kind, Fragment.placedValues, Fragment.values,
      tags_binaryMarkup]

theorem tags_cellMarkup (index : Nat) (inner : Markup) :
    (cellMarkup index inner).tags = cellTag index :: (inner.tags ++ ["</td>"]) := by
  rw [cellMarkup, tags_enclose, nameOf_cell, cellTag]
  simp [← String.toList_inj]

theorem tags_lineMarkup (index : Nat) (line : Markup) :
    (lineMarkup index line).tags = framed index line.tags := by
  rw [lineMarkup, tags_append, tags_append, tags_text, tags_text, tags_enclose, tags_cellMarkup,
    framed]
  simp [nameOf]

/-- The tags of the lines of fragments are known from their kinds. -/
theorem tags_linesMarkup (index : Nat) (fragments : List Fragment) :
    (concat ((fragments.flatMap lineMarkups).map (lineMarkup index))).tags =
      ((fragments.map Fragment.kind).flatMap lineTags).flatMap (framed index) := by
  have hlines : (fragments.flatMap lineMarkups).map tags =
      (fragments.map Fragment.kind).flatMap lineTags := by
    rw [List.map_flatMap, List.flatMap_map]
    exact List.flatMap_congr fun fragment _ => map_tags_lineMarkups fragment
  rw [tags_concat, ← hlines, List.flatMap_map, List.flatMap_map]
  exact List.flatMap_congr fun line _ => tags_lineMarkup index line

theorem tags_rowMarkup (index : Nat) (statement : Statement) :
    (rowMarkup index statement).tags = rowTags index statement.kinds := by
  have hlines := tags_linesMarkup index statement.fragments
  simp only [rowMarkup, cellsMarkup, tableMarkup, tags_append, tags_text, tags_enclose,
    tags_cellMarkup, hlines]
  delta rowTags Statement.kinds
  -- what is left are the fixed tags around the lines
  generalize List.flatMap _ (List.flatMap _ _) = lines
  simp [nameOf]

theorem tags_rowMarkups (statements : List Statement) :
    (concat (statements.zipIdx.map fun (statement, index) => rowMarkup index statement)).tags =
      (statements.map Statement.kinds).zipIdx.flatMap fun (kinds, index) =>
        rowTags index kinds := by
  rw [tags_concat, List.flatMap_map, List.zipIdx_map, List.flatMap_map]
  exact List.flatMap_congr fun row _ => tags_rowMarkup row.2 row.1

/-- **The tags of a listing are known from the kinds of the fragments.** -/
theorem tagsOf_page (name : String) (statements : List Statement) :
    tagsOf (page name statements) = pageTags (statements.map Statement.kinds) := by
  rw [← source_eq_iff.2 (chars_pageMarkup name statements),
    tagsOf_source (wellFormed_pageMarkup name statements)]
  simp only [pageMarkup, bodyMarkup, rowsMarkup, headingMarkup, tags_append, tags_text,
    tags_enclose, tags_rowMarkups]
  delta pageTags
  generalize List.flatMap _ (List.zipIdx _) = rows
  simp [nameOf]

/-- A listing has the brackets of its tags and no others. -/
theorem filter_isBracket_page (name : String) (statements : List Statement) :
    (page name statements).toList.filter isBracket =
      (tagsOf (page name statements)).flatMap fun _ => ['<', '>'] := by
  have hwell := wellFormed_pageMarkup name statements
  rw [← source_eq_iff.2 (chars_pageMarkup name statements), tagsOf_source hwell, source,
    String.toList_ofList, hwell.filter_isBracket]

end Listing

open Listing Markup

/-- **Texts of users are no markup.** Two listings whose statements have fragments of the same kinds
have the same tags, whatever their names, the tokens of the statements, the names of labels and all
else in the fragments may be, and there are no brackets but those of the tags. A text that is
escaped has no brackets; each ampersand in it begins an entity; and the text can be read back, so
different texts are different when they are escaped. -/
theorem listing_tags_ignore_text {statements others : List Statement}
    (h : statements.map Statement.kinds = others.map Statement.kinds) (name other : String) :
    tagsOf (page name statements) = tagsOf (page other others) ∧
    (page name statements).toList.filter isBracket =
      (tagsOf (page name statements)).flatMap (fun _ => ['<', '>']) ∧
    ∀ text : String,
      (∀ c ∈ (escape text).toList, c ≠ '<' ∧ c ≠ '>') ∧
      (∀ before behind, (escape text).toList = before ++ '&' :: behind →
        ∃ entity ∈ ["&amp;", "&lt;", "&gt;"], entity.toList <+: '&' :: behind) ∧
      unescape (escape text) = text ∧
      ∀ another, escape another = escape text → another = text := by
  refine ⟨?_, filter_isBracket_page name statements, fun text => ⟨?_, ?_, unescape_escape text, ?_⟩⟩
  · rw [tagsOf_page, tagsOf_page, h]
  · exact fun c => ne_bracket_of_mem_escape
  · exact ampersandsBegin_escape text
  · intro another heq
    rw [← unescape_escape another, heq, unescape_escape]

/-- A label with a jump to it. -/
def loopAt (label : String) : List Statement :=
  [⟨["LABEL", label], [⟨4, .label label true⟩]⟩,
   ⟨["GOTO", label], [⟨4, .jump .unconditional label (some 4)⟩]⟩]

theorem listing_tags_ignore_text_loopAt :
    (loopAt "</table><b>").map Statement.kinds = (loopAt "top").map Statement.kinds ∧
      tagsOf (page "<script>" (loopAt "</table><b>")) = tagsOf (page "demo" (loopAt "top")) ∧
      (escape "a&b").toList = ['a'] ++ '&' :: "amp;b".toList ∧
      (∃ entity ∈ ["&amp;", "&lt;", "&gt;"], entity.toList <+: '&' :: "amp;b".toList) ∧
      unescape (escape "a&b") = "a&b" := by
  have hkinds : (loopAt "</table><b>").map Statement.kinds =
      (loopAt "top").map Statement.kinds := rfl
  have hescape : (escape "a&b").toList = ['a'] ++ '&' :: "amp;b".toList := by decide
  obtain ⟨htags, -, htexts⟩ := listing_tags_ignore_text hkinds "<script>" "demo"
  obtain ⟨-, hentity, hback, -⟩ := htexts "a&b"
  exact ⟨hkinds, htags, hescape, hentity _ _ hescape, hback⟩

/-- A text that looks like an entity is escaped too. -/
example : escape "&lt;" = "&amp;lt;" ∧ unescape "&amp;lt;" = "&lt;" := by decide

end CrossAssembler
