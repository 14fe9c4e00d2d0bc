import CrossAssembler.Proofs.LayoutCache
import CrossAssembler.Proofs.ListingMarkup
import CrossAssembler.Proofs.Tiling
import CrossAssembler.Proofs.UploadImage

/-!
# Listings show the image

A listing goes through the fragments on its own and adds offsets to their locations. Since the
fragments of a layout lie side by side, these addresses run from the first cell of code on without a
gap (`Layout.Contiguous.flatMap_placedValues`), and the lines of a listing show the bytes of the
image, one after the other (`listing_shows_image`).

* `Listing.isLabelLine` tells the lines of labels from those of cells by their text.
* `Listing.filter_cells` and `Listing.filter_labels` sort the lines of fragments by it.
* `Fragment.lines_display`: what a fragment displays as are the addresses and bytes of its cells.
-/

namespace CrossAssembler

open Fragment Layout

/-! ## Addresses in a row -/

theorem Fragment.placedValues_eq (fragment : Fragment) :
    fragment.placedValues = (fragment.values.zipIdx fragment.location).map Prod.swap := by
  obtain ⟨location, content⟩ := fragment
  cases content <;> rfl

theorem Fragment.placedValues_of_label {fragment : Fragment} {name : String}
    (h : fragment.labelName? = some name) : fragment.placedValues = [] := by
  obtain ⟨location, content⟩ := fragment
  cases content with
  | label _ _ => rfl
  | operation _ => cases h
  | jump _ _ _ => cases h

/-- The cells of fragments that lie side by side have their addresses in a row. -/
theorem Layout.Contiguous.flatMap_placedValues {address : Nat} {fragments : List Fragment}
    (h : Contiguous address fragments) :
    fragments.flatMap placedValues =
      ((fragments.flatMap values).zipIdx address).map Prod.swap := by
  induction fragments generalizing address with
  | nil => rfl
  | cons fragment fragments ih =>
    obtain ⟨hlocation, hrest⟩ := h
    rw [List.flatMap_cons, List.flatMap_cons, List.zipIdx_append, List.map_append, length_values,
      ih hrest, placedValues_eq, hlocation]

/-! ## Lines of cells and of labels -/

namespace Listing

/-- Whether a line is that of a label: behind the address there is a bracket. -/
def isLabelLine (line : String) : Bool :=
  ((line.toList.dropWhile (· != ':')).drop 2).head? == some '('

/-- The line of a cell. -/
def cellLine (address : Nat) (value : UInt8) : String :=
  octal address ++ ": " ++ octal value.toNat ++ binary value

/-- The line of a label. -/
def labelLine (location : Nat) (name : String) : String :=
  octal location ++ ": " ++ escape ("(label " ++ name ++ ")")

theorem isLabelLine_append (address : Nat) (rest : String) :
    isLabelLine (octal address ++ ": " ++ rest) = (rest.toList.head? == some '(') := by
  have hdigits : ∀ c ∈ (octal address).toList, (c != ':') = true := by
    intro c hc
    rw [bne_iff_ne]
    rintro rfl
    exact notMem_octal (by decide) address hc
  have htext : (octal address ++ ": " ++ rest).toList =
      (octal address).toList ++ ':' :: ' ' :: rest.toList := by simp
  rw [isLabelLine, htext, List.dropWhile_append_of_pos hdigits]
  rfl

theorem isLabelLine_cellLine (address : Nat) (value : UInt8) :
    isLabelLine (cellLine address value) = false := by
  rw [cellLine, String.append_assoc, isLabelLine_append, octal_toNat]
  rw [String.toList_append, String.toList_ofList, List.cons_append, List.head?_cons]
  rfl

theorem isLabelLine_labelLine (location : Nat) (name : String) :
    isLabelLine (labelLine location name) = true := by
  rw [labelLine, isLabelLine_append, escape, String.toList_ofList, String.toList_append,
    String.toList_append, List.append_assoc, List.flatMap_append]
  rfl

/-- The lines of a fragment: that of a label, or one for each cell. -/
theorem cellLines_eq (fragment : Fragment) : cellLines fragment =
    match fragment.labelName? with
    | some name => [labelLine fragment.location name]
    | none => fragment.placedValues.map fun (address, value) => cellLine address value := by
  obtain ⟨location, content⟩ := fragment
  cases content with
  | operation value => rfl
  | label name used => rfl
  | jump kind target destination => rfl

/-- Without the lines of labels, there is one line for each cell. -/
theorem filter_cells (fragments : List Fragment) :
    (fragments.flatMap cellLines).filter (fun line => !isLabelLine line) =
      (fragments.flatMap placedValues).map fun (address, value) => cellLine address value := by
  rw [List.filter_flatMap, List.map_flatMap]
  refine List.flatMap_congr fun fragment _ => ?_
  rw [cellLines_eq]
  cases hname : fragment.labelName? with
  | some name =>
    rw [placedValues_of_label hname]
    simp [isLabelLine_labelLine]
  | none =>
    rw [List.filter_eq_self, List.forall_mem_map]
    rintro ⟨address, value⟩ _
    simp [isLabelLine_cellLine]

/-- The lines of labels are one for each label. -/
theorem filter_labels (fragments : List Fragment) :
    (fragments.flatMap cellLines).filter isLabelLine = fragments.filterMap fun fragment =>
      fragment.labelName?.map (labelLine fragment.location) := by
  rw [List.filter_flatMap, List.filterMap_eq_flatMap_toList]
  refine List.flatMap_congr fun fragment _ => ?_
  rw [cellLines_eq]
  cases fragment.labelName? with
  | some name => simp [isLabelLine_labelLine]
  | none =>
    rw [Option.map_none, Option.toList_none, List.filter_eq_nil_iff, List.forall_mem_map]
    rintro ⟨address, value⟩ _
    simp [isLabelLine_cellLine]

end Listing

/-! ## Displays -/

namespace Fragment

/-- The address and the byte of a cell. -/
def cellText (address : Nat) (value : UInt8) : String := octal address ++ ": " ++ octal value.toNat

/-- A fragment that is no label displays as the addresses and bytes of its cells. -/
theorem lines_display {fragment : Fragment} (h : fragment.labelName? = none) :
    Text.lines fragment.display =
      fragment.placedValues.map fun (address, value) => cellText address value := by
  have hunbroken : ∀ n, Text.Unbroken (octal n) := fun n => (isToken_octal n).unbroken
  have hdisplay : fragment.display = "\n".intercalate
      (fragment.placedValues.map fun (address, value) => cellText address value) := by
    obtain ⟨location, content⟩ := fragment
    cases content with
    | operation _ => rfl
    | jump _ _ _ => rfl
    | label _ _ => cases h
  rw [hdisplay, Text.lines_intercalate]
  · rw [List.forall_mem_map]
    rintro ⟨address, value⟩ _
    exact ((hunbroken address).append (by decide)).append (hunbroken value.toNat)
  · rw [List.forall_mem_map]
    rintro ⟨address, value⟩ _
    simp [cellText]

end Fragment

/-- A coherent program answers from the layout of its statements. -/
theorem Program.Coherent.ask_eq {α : Type} {program : Program} (h : program.Coherent)
    (answer : Layout → α) : (program.ask answer).1 = (layOut program.source).map answer := by
  rw [← h.layout_eq, ask]

/-- Behind its header, the image has the bytes of the fragments. -/
theorem getElem?_image_four_add (statements : List Statement) (k : Nat) :
    (image statements)[4 + k]? = ((fragments statements).flatMap values)[k]? := by
  have hheader : Memory.header.length = 4 := Memory.length_header
  rw [image, List.getElem?_append_right (by omega), hheader, Nat.add_sub_cancel_left]
  rfl

/-- The lines in the rows of a page are those of the fragments. -/
theorem Listing.flatMap_lines_rowsOf (name : String) (statements : List Statement) :
    (rowsOf (page name statements)).flatMap ShownRow.lines =
      (fragments statements).flatMap cellLines := by
  have hindices := List.flatMap_map Prod.fst
    (fun statement : Statement => statement.fragments.flatMap cellLines) statements.zipIdx
  rw [List.zipIdx_map_fst] at hindices
  rw [rowsOf_page, List.flatMap_map, fragments, List.flatMap_assoc, hindices]

/-- What the fragments that are no labels display as. -/
theorem Fragment.flatMap_lines_display (fragments : List Fragment) :
    (fragments.filter fun fragment => fragment.labelName?.isNone).flatMap
      (fun fragment => Text.lines fragment.display) =
        (fragments.flatMap placedValues).map fun (address, value) => cellText address value := by
  induction fragments with
  | nil => rfl
  | cons fragment fragments ih =>
    rw [List.flatMap_cons, List.map_append, ← ih]
    cases hname : fragment.labelName? with
    | some name =>
      rw [List.filter_cons_of_neg (by simp [hname]), placedValues_of_label hname]
      rfl
    | none =>
      rw [List.filter_cons_of_pos (by simp [hname]), List.flatMap_cons, lines_display hname]

/-- Numbered cells are found at their numbers. -/
theorem getElem?_map_zipIdx {values : List UInt8} {start k : Nat} {value : UInt8}
    (h : values[k]? = some value) (f : Nat → UInt8 → String) :
    (((values.zipIdx start).map Prod.swap).map fun (address, value) => f address value)[k]? =
      some (f (start + k) value) := by
  simp [h]

/-- **A listing shows the image.** The page has a row for each laid-out statement, with its number
and its text. Of the lines in its rows, those of cells show the bytes of the image behind the
header, each with its address, in octal and in binary; the others show the labels, each with its
location. The same addresses and bytes are what the fragments display as. -/
theorem listing_shows_image {program : Program} (hprogram : program.Coherent)
    {laid : List Statement} (h : program.statements.1 = .ok laid) (name : String) :
    ∃ page bytes, (program.listing name).1 = .ok page ∧ program.image.1 = .ok bytes ∧
      let rows := Listing.rowsOf page
      let lines := rows.flatMap Listing.ShownRow.lines
      let cells := lines.filter fun line => !Listing.isLabelLine line
      let displayed := ((fragments laid).filter fun fragment => fragment.labelName?.isNone).flatMap
        fun fragment => Text.lines fragment.display
      rows.length = laid.length ∧
      (∀ i statement, laid[i]? = some statement → ∃ row, rows[i]? = some row ∧
        row.number = toString (i + 1) ∧ row.statement = Listing.escape statement.text ∧
        row.lines = statement.fragments.flatMap Listing.cellLines) ∧
      cells.length + 4 = bytes.length ∧
      (∀ k byte, bytes[4 + k]? = some byte → cells[k]? =
        some (octal (4 + k) ++ ": " ++ octal byte.toNat ++ Listing.binary byte)) ∧
      lines.filter Listing.isLabelLine = ((fragments laid).filterMap fun fragment =>
        fragment.labelName?.map fun label =>
          octal fragment.location ++ ": " ++ Listing.escape ("(label " ++ label ++ ")")) ∧
      displayed.length + 4 = bytes.length ∧
      ∀ k byte, bytes[4 + k]? = some byte →
        displayed[k]? = some (octal (4 + k) ++ ": " ++ octal byte.toNat) := by
  have hstatements := hprogram.ask_eq Layout.statements
  obtain ⟨layout, hlayout, rfl⟩ := Fallible.map_eq_ok.1 (hstatements.symm.trans h)
  have hpage : (program.listing name).1 = .ok (Listing.page name layout.statements) := by
    rw [Program.listing, hprogram.ask_eq, hlayout]
    rfl
  have himage : program.image.1 = .ok (image layout.statements) := by
    rw [Program.image, hprogram.ask_eq, hlayout]
    rfl
  refine ⟨_, _, hpage, himage, ?_⟩
  intro rows lines cells displayed
  have hrows : rows = _ := Listing.rowsOf_page name layout.statements
  have hlines : lines = _ := Listing.flatMap_lines_rowsOf name layout.statements
  have hplaced := (layOut_contiguous hlayout).1.flatMap_placedValues
  have hcells : cells = _ := (congrArg (List.filter _) hlines).trans (Listing.filter_cells _)
  have hdisplayed : displayed = _ := Fragment.flatMap_lines_display _
  rw [hplaced] at hcells hdisplayed
  have hlength : ((fragments layout.statements).flatMap values).length + 4 =
      (image layout.statements).length := by
    rw [length_image, Fragment.length_flatMap_values, Nat.add_comm]
  -- both the lines of cells and the displays number the same bytes from the first cell on
  refine ⟨?_, ?_, ?_, ?_, ?_, ?_, ?_⟩
  · simp [hrows]
  · intro i statement hi
    rw [hrows]
    simp [hi]
  · rw [hcells, ← hlength]
    simp
  · intro k byte hk
    rw [getElem?_image_four_add] at hk
    rw [hcells]
    exact getElem?_map_zipIdx hk Listing.cellLine
  · rw [hlines]
    exact Listing.filter_labels _
  · rw [hdisplayed, ← hlength]
    simp
  · intro k byte hk
    rw [getElem?_image_four_add] at hk
    rw [hdisplayed]
    exact getElem?_map_zipIdx hk Fragment.cellText

theorem listing_shows_image_crossing : ∃ laid page bytes,
    (Program.ofStatements crossing).statements.1 = .ok laid ∧
      ((Program.ofStatements crossing).listing "</table>").1 = .ok page ∧
      (Program.ofStatements crossing).image.1 = .ok bytes ∧
      (Listing.rowsOf page).length = laid.length ∧
      (((Listing.rowsOf page).flatMap Listing.ShownRow.lines).filter
        fun line => !Listing.isLabelLine line).length + 4 = bytes.length := by
  obtain ⟨layout, hlayout⟩ := exists_layOut_crossing
  have hlaid := Program.statements_ofStatements_eq_ok_iff.2 ⟨layout, hlayout, rfl⟩
  obtain ⟨page, bytes, hpage, himage, hrows, -, hcells, -⟩ :=
    listing_shows_image (Program.coherent_ofStatements crossing) hlaid "</table>"
  exact ⟨layout.statements, page, bytes, hlaid, hpage, himage, hrows, hcells⟩

end CrossAssembler
