import Mathlib.Data.List.Basic

/-!
# Markup

Markup is text with elements in it, and elements stand inside of one another. It is written as a row
of pieces: a tag where an element begins, an end tag with its name where it ends, and characters.
`scan` cuts a text into its pieces and `read` finds the elements in it, so that what is written can
be read back (`read?_source`), unless a character or a tag looks like something else
(`WellFormed`). `inside` finds the elements with a given name, and `tagsOf` the tags of a text.
-/

namespace CrossAssembler

/-- Characters and elements, from left to right. A tag is what stands between the brackets. -/
inductive Markup where
  | nil
  | char (c : Char) (rest : Markup)
  | element (tag : List Char) (inner rest : Markup)
  deriving DecidableEq, Repr

namespace Markup

/-- A piece of a text with markup. -/
inductive Piece where
  | opening (tag : List Char)
  | closing (name : List Char)
  | char (c : Char)
  deriving DecidableEq, Repr

/-- The name of an element; its attributes follow after a space. -/
def nameOf (tag : List Char) : List Char := tag.takeWhile (· != ' ')

/-- The pieces that the markup is written as. -/
def pieces : Markup → List Piece
  | nil => []
  | char c rest => .char c :: rest.pieces
  | element tag inner rest =>
    .opening tag :: (inner.pieces ++ .closing (nameOf tag) :: rest.pieces)

/-- How a piece is written. -/
def Piece.chars : Piece → List Char
  | .opening tag => '<' :: (tag ++ ['>'])
  | .closing name => '<' :: '/' :: (name ++ ['>'])
  | .char c => [c]

/-- The markup as it is written. -/
def chars (markup : Markup) : List Char := markup.pieces.flatMap Piece.chars

/-- The text that the markup is written as. -/
def source (markup : Markup) : String := String.ofList markup.chars

theorem source_eq_iff {markup : Markup} {text : String} :
    markup.source = text ↔ markup.chars = text.toList := by
  rw [source, ← String.toList_inj, String.toList_ofList]

theorem nameOf_append {name : List Char} (h : ' ' ∉ name) (attributes : List Char) :
    nameOf (name ++ ' ' :: attributes) = name := by
  have hname : ∀ c ∈ name, (c != ' ') = true := by
    intro c hc
    rw [bne_iff_ne]
    rintro rfl
    exact h hc
  rw [nameOf, List.takeWhile_append_of_pos hname]
  simp

/-! ## Building markup -/

/-- One piece of markup after another. -/
def append : Markup → Markup → Markup
  | nil, second => second
  | char c rest, second => char c (rest.append second)
  | element tag inner rest, second => element tag inner (rest.append second)

instance : Append Markup := ⟨append⟩

/-- Text without elements. -/
def text (cs : List Char) : Markup := cs.foldr char nil

/-- One element. -/
def enclose (tag : List Char) (inner : Markup) : Markup := element tag inner nil

/-- Pieces of markup in a row. -/
def concat (parts : List Markup) : Markup := parts.foldr (· ++ ·) nil

@[simp]
theorem nil_append (markup : Markup) : nil ++ markup = markup := rfl

@[simp]
theorem char_append (c : Char) (rest markup : Markup) :
    char c rest ++ markup = char c (rest ++ markup) := rfl

@[simp]
theorem element_append (tag : List Char) (inner rest markup : Markup) :
    element tag inner rest ++ markup = element tag inner (rest ++ markup) := rfl

@[simp]
theorem append_nil (markup : Markup) : markup ++ nil = markup := by
  induction markup with
  | nil => rfl
  | char c rest ih => rw [char_append, ih]
  | element tag inner rest _ ih => rw [element_append, ih]

/-! ## Pieces -/

@[simp]
theorem pieces_append (first second : Markup) :
    (first ++ second).pieces = first.pieces ++ second.pieces := by
  induction first with
  | nil => rfl
  | char c rest ih => rw [char_append, pieces, ih, pieces, List.cons_append]
  | element tag inner rest _ ih =>
    rw [element_append, pieces, ih, pieces, List.cons_append, List.append_assoc, List.cons_append]

@[simp]
theorem pieces_text (cs : List Char) : (text cs).pieces = cs.map .char := by
  induction cs with
  | nil => rfl
  | cons c cs ih => exact congrArg (Piece.char c :: ·) ih

@[simp]
theorem pieces_enclose (tag : List Char) (inner : Markup) : (enclose tag inner).pieces =
    .opening tag :: (inner.pieces ++ [.closing (nameOf tag)]) := rfl

@[simp]
theorem pieces_concat (parts : List Markup) : (concat parts).pieces = parts.flatMap pieces := by
  induction parts with
  | nil => rfl
  | cons part parts ih =>
    show (part ++ concat parts).pieces = _
    rw [pieces_append, ih, List.flatMap_cons]

@[simp]
theorem chars_append (first second : Markup) :
    (first ++ second).chars = first.chars ++ second.chars := by
  rw [chars, pieces_append, List.flatMap_append, chars, chars]

@[simp]
theorem chars_text (cs : List Char) : (text cs).chars = cs := by
  simp [chars, List.flatMap_map, Piece.chars]

@[simp]
theorem chars_enclose (tag : List Char) (inner : Markup) : (enclose tag inner).chars =
    '<' :: (tag ++ '>' :: (inner.chars ++ '<' :: '/' :: (nameOf tag ++ ['>']))) := by
  simp [chars, Piece.chars]

@[simp]
theorem chars_concat (parts : List Markup) : (concat parts).chars = parts.flatMap chars := by
  rw [chars, pieces_concat, List.flatMap_assoc]
  rfl

/-! ## Reading -/

/-- What stands between brackets. -/
def Piece.ofTag : List Char → Piece
  | '/' :: name => .closing name
  | tag => .opening tag

/-- The pieces of a text, of which the part of a tag may have been seen, last character first. -/
def scan : Option (List Char) → List Char → List Piece
  | _, [] => []
  | none, c :: cs => if c = '<' then scan (some []) cs else .char c :: scan none cs
  | some seen, c :: cs =>
    if c = '>' then .ofTag seen.reverse :: scan none cs else scan (some (c :: seen)) cs

/-- Puts a piece in front of markup. Behind this may follow end tags whose elements have not begun
yet, each with its name and with what stands behind it. -/
def attach : Piece → Option (Markup × List (List Char × Markup)) →
    Option (Markup × List (List Char × Markup))
  | _, none => none
  | .char c, some (markup, outer) => some (char c markup, outer)
  | .closing name, some (markup, outer) => some (nil, (name, markup) :: outer)
  | .opening _, some (_, []) => none
  | .opening tag, some (markup, (name, rest) :: outer) =>
    if nameOf tag = name then some (element tag markup rest, outer) else none

/-- The markup of a text, if each element that begins in it ends and each that ends begins. -/
def read? (text : String) : Option Markup :=
  match (scan none text.toList).foldr attach (some (nil, [])) with
  | some (markup, []) => some markup
  | _ => none

/-- There are no brackets among the characters. -/
def Bracketless (cs : List Char) : Prop := '<' ∉ cs ∧ '>' ∉ cs

/-- The piece is read as what it is: there are no brackets but those around a tag. -/
def Piece.Proper : Piece → Prop
  | .opening tag => Bracketless tag ∧ tag.head? ≠ some '/'
  | .closing name => Bracketless name
  | .char c => Bracketless [c]

/-- All pieces of the markup are read as what they are. -/
def WellFormed (markup : Markup) : Prop := ∀ piece ∈ markup.pieces, piece.Proper

theorem wellFormed_append_iff {first second : Markup} :
    (first ++ second).WellFormed ↔ first.WellFormed ∧ second.WellFormed := by
  simp only [WellFormed, pieces_append, List.forall_mem_append]

theorem bracketless_iff {cs : List Char} : Bracketless cs ↔ ∀ c ∈ cs, Bracketless [c] := by
  simp only [Bracketless, List.mem_singleton, forall_and]
  exact and_congr ⟨fun h c hc heq => h (heq ▸ hc), fun h hmem => h '<' hmem rfl⟩
    ⟨fun h c hc heq => h (heq ▸ hc), fun h hmem => h '>' hmem rfl⟩

theorem wellFormed_text_iff {cs : List Char} : (text cs).WellFormed ↔ Bracketless cs := by
  simp only [WellFormed, pieces_text, List.forall_mem_map, Piece.Proper]
  exact bracketless_iff.symm

theorem wellFormed_concat_iff {parts : List Markup} :
    (concat parts).WellFormed ↔ ∀ part ∈ parts, part.WellFormed := by
  simp only [WellFormed, pieces_concat, List.forall_mem_flatMap]

/-- An element is well-formed if its tag is one and what is inside is well-formed. -/
theorem wellFormed_enclose_iff {tag : List Char} {inner : Markup} :
    (enclose tag inner).WellFormed ↔
      (Bracketless tag ∧ tag.head? ≠ some '/') ∧ inner.WellFormed := by
  simp only [WellFormed, pieces_enclose, List.forall_mem_cons, List.forall_mem_append,
    Piece.Proper]
  constructor
  · rintro ⟨htag, hinner, -⟩
    exact ⟨htag, hinner⟩
  · rintro ⟨htag, hinner⟩
    have hname : nameOf tag ⊆ tag := (List.takeWhile_prefix _).subset
    have hclosing : Bracketless (nameOf tag) :=
      ⟨fun hmem => htag.1.1 (hname hmem), fun hmem => htag.1.2 (hname hmem)⟩
    refine ⟨htag, hinner, hclosing, ?_⟩
    intro piece hpiece
    cases hpiece

theorem Piece.ofTag_of_head?_ne {tag : List Char} (h : tag.head? ≠ some '/') :
    ofTag tag = .opening tag := by
  unfold ofTag
  split
  · simp at h
  · rfl

theorem scan_tag {tag : List Char} (h : '>' ∉ tag) (seen rest : List Char) :
    scan (some seen) (tag ++ '>' :: rest) = .ofTag (seen.reverse ++ tag) :: scan none rest := by
  induction tag generalizing seen with
  | nil => simp [scan]
  | cons c tag ih =>
    rw [List.mem_cons, not_or] at h
    rw [List.cons_append, scan, if_neg (Ne.symm h.1), ih h.2]
    simp

/-- A text is cut behind a piece. -/
theorem scan_chars_append {piece : Piece} (h : piece.Proper) (rest : List Char) :
    scan none (piece.chars ++ rest) = piece :: scan none rest := by
  cases piece with
  | char c =>
    have hne : c ≠ '<' := fun heq => h.1 (List.mem_singleton.2 heq.symm)
    rw [Piece.chars, List.cons_append, List.nil_append, scan, if_neg hne]
  | opening tag =>
    rw [Piece.chars, List.cons_append, List.append_assoc, List.cons_append, List.nil_append, scan,
      if_pos rfl, scan_tag h.1.2]
    rw [List.reverse_nil, List.nil_append, Piece.ofTag_of_head?_ne h.2]
  | closing name =>
    have hname : '>' ∉ '/' :: name := by simpa using h.2
    rw [Piece.chars, List.cons_append, List.cons_append, List.append_assoc, List.cons_append,
      List.nil_append, scan, if_pos rfl, ← List.cons_append, scan_tag hname]
    rfl

theorem scan_flatMap_chars {parts : List Piece} (h : ∀ piece ∈ parts, piece.Proper) :
    scan none (parts.flatMap Piece.chars) = parts := by
  induction parts with
  | nil => rfl
  | cons piece parts ih =>
    rw [List.forall_mem_cons] at h
    rw [List.flatMap_cons, scan_chars_append h.1, ih h.2]

/-- The pieces of markup, put in front of what follows one by one, are the markup in front of it. -/
theorem foldr_attach_pieces (markup current : Markup) (outer : List (List Char × Markup)) :
    markup.pieces.foldr attach (some (current, outer)) = some (markup ++ current, outer) := by
  induction markup generalizing current outer with
  | nil => rfl
  | char c rest ih => rw [pieces, List.foldr_cons, ih, attach, char_append]
  | element tag inner rest ihinner ihrest =>
    -- the end tag keeps what follows aside, and the tag takes it back
    rw [pieces, List.foldr_cons, List.foldr_append, List.foldr_cons, ihrest, attach, ihinner,
      attach, if_pos rfl, append_nil, element_append]

/-- Well-formed markup is read back from its text. -/
theorem read?_source {markup : Markup} (h : markup.WellFormed) :
    read? markup.source = some markup := by
  rw [read?, source, String.toList_ofList, chars, scan_flatMap_chars h, foldr_attach_pieces,
    append_nil]

/-! ## Finding elements -/

/-- What is inside of the elements with a given name, those within other elements apart. -/
def inside (name : String) : Markup → List Markup
  | nil => []
  | char _ rest => rest.inside name
  | element tag inner rest =>
    if nameOf tag = name.toList then inner :: rest.inside name else rest.inside name

@[simp]
theorem inside_append (name : String) (first second : Markup) :
    (first ++ second).inside name = first.inside name ++ second.inside name := by
  induction first with
  | nil => rfl
  | char c rest ih => exact ih
  | element tag inner rest _ ih =>
    rw [element_append, inside, inside, ih]
    split_ifs <;> simp

@[simp]
theorem inside_text (name : String) (cs : List Char) : (text cs).inside name = [] := by
  induction cs with
  | nil => rfl
  | cons c cs ih => exact ih

theorem inside_enclose (name : String) (tag : List Char) (inner : Markup) :
    (enclose tag inner).inside name = if nameOf tag = name.toList then [inner] else [] := rfl

@[simp]
theorem inside_concat (name : String) (parts : List Markup) :
    (concat parts).inside name = parts.flatMap (inside name) := by
  induction parts with
  | nil => rfl
  | cons part parts ih =>
    show (part ++ concat parts).inside name = _
    rw [inside_append, ih, List.flatMap_cons]

/-! ## Tags -/

/-- The tag that a piece is written as, if it is no character. -/
def Piece.tag? : Piece → Option String
  | .char _ => none
  | piece => some (String.ofList piece.chars)

/-- The tags of a text: each from a bracket that opens to the next one that closes. -/
def tagsOf (text : String) : List String := (scan none text.toList).filterMap Piece.tag?

/-- The tags that the markup is written with. -/
def tags (markup : Markup) : List String := markup.pieces.filterMap Piece.tag?

/-- The tags of well-formed markup are found in its text. -/
theorem tagsOf_source {markup : Markup} (h : markup.WellFormed) :
    tagsOf markup.source = markup.tags := by
  rw [tagsOf, source, String.toList_ofList, chars, scan_flatMap_chars h, tags]

@[simp]
theorem tags_append (first second : Markup) :
    (first ++ second).tags = first.tags ++ second.tags := by
  rw [tags, pieces_append, List.filterMap_append, tags, tags]

@[simp]
theorem tags_text (cs : List Char) : (text cs).tags = [] := by
  simp [tags, List.filterMap_map, Piece.tag?]

@[simp]
theorem tags_enclose (tag : List Char) (inner : Markup) : (enclose tag inner).tags =
    String.ofList ('<' :: (tag ++ ['>'])) ::
      (inner.tags ++ [String.ofList ('<' :: '/' :: (nameOf tag ++ ['>']))]) := by
  simp [tags, Piece.tag?, Piece.chars]

@[simp]
theorem tags_concat (parts : List Markup) : (concat parts).tags = parts.flatMap tags := by
  rw [tags, pieces_concat, List.filterMap_flatMap]
  rfl

/-- Whether a character is one of the brackets around tags. -/
def isBracket (c : Char) : Bool := c == '<' || c == '>'

theorem Bracketless.filter_isBracket {cs : List Char} (h : Bracketless cs) :
    cs.filter isBracket = [] := by
  rw [List.filter_eq_nil_iff]
  intro c hc
  have hne := bracketless_iff.1 h c hc
  simp only [Bracketless, List.mem_singleton] at hne
  simp [isBracket, Ne.symm hne.1, Ne.symm hne.2]

theorem Piece.Proper.filter_isBracket {piece : Piece} (h : piece.Proper) :
    piece.chars.filter isBracket = piece.tag?.toList.flatMap fun _ => ['<', '>'] := by
  cases piece with
  | char c => exact Bracketless.filter_isBracket h
  | opening tag =>
    have htag := h.1.filter_isBracket
    simp [chars, tag?, htag, isBracket]
  | closing name =>
    have hname := Bracketless.filter_isBracket h
    simp [chars, tag?, hname, isBracket]

/-- Well-formed markup has the brackets of its tags and no others. -/
theorem WellFormed.filter_isBracket {markup : Markup} (h : markup.WellFormed) :
    markup.chars.filter isBracket = markup.tags.flatMap fun _ => ['<', '>'] := by
  rw [chars, tags, List.filter_flatMap, List.filterMap_eq_flatMap_toList, List.flatMap_assoc]
  exact List.flatMap_congr fun piece hpiece => (h piece hpiece).filter_isBracket

end Markup

end CrossAssembler
