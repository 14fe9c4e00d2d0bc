import CrossAssembler.Program
import CrossAssembler.Proofs.GapCorrection
import Mathlib.Logic.ExistsUnique

/-!
# The image and the places agree

The image is made of bytes in a row and knows nothing of locations. Since the fragments of a layout
lie side by side from the first cell of code on (`layOut_contiguous`), the bytes of a fragment stand
at its location all the same, and the fragments tile the image behind its header
(`image_tiles_memory`). A program answers the image of its layout whether its statements were added
one by one or all at once (`foldl_add`, `image_ofStatements`).
-/

namespace CrossAssembler

open Layout
open Fragment (totalCells)

/-! ## Answers of a program -/

namespace Program

/-- Adding statements one by one gives the program of their list. -/
theorem foldl_add (source statements : List Statement) :
    statements.foldl add (ofStatements source) = ofStatements (source ++ statements) := by
  induction statements generalizing source with
  | nil => rw [List.append_nil]; rfl
  | cons statement statements ih =>
    have hadd : (ofStatements source).add statement = ofStatements (source ++ [statement]) := rfl
    rw [List.foldl_cons, hadd, ih, List.append_assoc]
    rfl

theorem foldl_add_empty (statements : List Statement) :
    statements.foldl add empty = ofStatements statements :=
  foldl_add [] statements

/-- A program without a known layout answers from the layout of its source. -/
theorem ask_ofStatements {α : Type} (source : List Statement) (answer : Layout → α) :
    ((ofStatements source).ask answer).1 = (layOut source).map answer := by
  rw [ask, layout, ofStatements]
  dsimp only
  cases layOut source <;> rfl

theorem statements_ofStatements_eq_ok_iff {source laid : List Statement} :
    (ofStatements source).statements.1 = .ok laid ↔
      ∃ layout, layOut source = .ok layout ∧ layout.statements = laid := by
  rw [statements, ask_ofStatements]
  exact Fallible.map_eq_ok

theorem image_ofStatements {source : List Statement} {layout : Layout}
    (h : layOut source = .ok layout) :
    (ofStatements source).image.1 = .ok (CrossAssembler.image layout.statements) := by
  rw [image, ask_ofStatements, h]
  rfl

theorem statements_foldl_add {source : List Statement} {layout : Layout}
    (h : layOut source = .ok layout) :
    (source.foldl add empty).statements.1 = .ok layout.statements := by
  rw [foldl_add_empty]
  exact statements_ofStatements_eq_ok_iff.2 ⟨layout, h, rfl⟩

end Program

/-! ## Fragments in a row -/

/-- Each address among fragments that lie side by side belongs to one cell of one of them. -/
theorem Layout.Contiguous.existsUnique_cell {address : Nat} {fragments : List Fragment}
    (h : Contiguous address fragments) {cell : Nat} (hlow : address ≤ cell)
    (hhigh : cell < address + totalCells fragments) :
    ∃! place : Nat × Nat, ∃ fragment : Fragment, fragments[place.1]? = some fragment ∧
      place.2 < fragment.cells ∧ fragment.location + place.2 = cell := by
  obtain ⟨k, fragment, hk, hle, hlt⟩ := h.exists_covering hlow hhigh
  refine ⟨(k, cell - fragment.location), ⟨fragment, hk, by omega, by omega⟩, ?_⟩
  rintro ⟨l, i⟩ ⟨other, hl, hi, hcell⟩
  dsimp only at hl hi hcell
  obtain ⟨hk', hkeq⟩ := List.getElem?_eq_some_iff.1 hk
  obtain ⟨hl', hleq⟩ := List.getElem?_eq_some_iff.1 hl
  have hpairwise := List.pairwise_iff_getElem.1 h.pairwise
  -- two fragments with the cell in common cannot lie one behind the other
  rcases Nat.lt_trichotomy k l with hkl | rfl | hlk
  · have := hpairwise k l hk' hl' hkl
    rw [hkeq, hleq] at this
    omega
  · rw [hkeq] at hleq
    subst hleq
    exact Prod.ext rfl (by dsimp only; omega)
  · have := hpairwise l k hl' hk' hlk
    rw [hkeq, hleq] at this
    omega

theorem length_image (statements : List Statement) :
    (image statements).length = 4 + totalCells (fragments statements) := by
  rw [image, List.length_append, Memory.length_header]
  exact congrArg (4 + ·) (Fragment.length_flatMap_values _)

/-- The fragments of a layout lie side by side, and end with the memory at the latest. -/
theorem layOut_contiguous {source : List Statement} {layout : Layout}
    (h : layOut source = .ok layout) : Contiguous 4 (fragments layout.statements) ∧
      4 + totalCells (fragments layout.statements) ≤ 256 := by
  obtain ⟨routed, -, hsize, -, -, hsettle⟩ := exists_routed h
  rw [hsettle]
  refine ⟨contiguous_settle_place _ _ _ _, ?_⟩
  rw [settle, totalCells_settle_place]
  exact hsize

/-- A byte of a laid-out fragment stands at its address in the image. -/
theorem getElem?_image {source : List Statement} {layout : Layout}
    (h : layOut source = .ok layout) {fragment : Fragment}
    (hf : fragment ∈ fragments layout.statements) {i : Nat} (hi : i < fragment.cells) :
    (image layout.statements)[fragment.location + i]? = fragment.values[i]? :=
  (layOut_contiguous h).1.getElem?_flatMap_values Memory.length_header hf hi

/-- **The image and the places agree.** The image of a program starts with the header and fits into
the memory. Each byte of a laid-out fragment stands in it at the fragment's location plus the byte's
offset; each address behind the header is that of one byte of one fragment; and locations never
descend. -/
theorem image_tiles_memory {source laid : List Statement} {program : Program}
    (hprogram : program = source.foldl Program.add .empty)
    (h : program.statements.1 = .ok laid) :
    ∃ bytes, program.image.1 = .ok bytes ∧ 4 ≤ bytes.length ∧ bytes.length ≤ 256 ∧
      bytes.take 4 = [0, 0, 0, 4] ∧
      (∀ fragment ∈ fragments laid, ∀ i < fragment.cells, fragment.location + i < bytes.length ∧
        bytes[fragment.location + i]? = fragment.values[i]?) ∧
      (∀ address, 4 ≤ address → address < bytes.length → ∃! place : Nat × Nat,
        ∃ fragment, (fragments laid)[place.1]? = some fragment ∧ place.2 < fragment.cells ∧
          fragment.location + place.2 = address) ∧
      (fragments laid).Pairwise fun first second => first.location ≤ second.location := by
  rw [hprogram, Program.foldl_add_empty] at h ⊢
  obtain ⟨layout, hlayout, rfl⟩ := Program.statements_ofStatements_eq_ok_iff.1 h
  obtain ⟨hcontiguous, hsize⟩ := layOut_contiguous hlayout
  have hlength := length_image layout.statements
  refine ⟨_, Program.image_ofStatements hlayout, by omega, by omega, rfl,
    fun fragment hf i hi => ?_, fun address hlow hhigh => ?_, ?_⟩
  · have hend := hcontiguous.location_add_cells_le hf
    exact ⟨by omega, getElem?_image hlayout hf hi⟩
  · exact hcontiguous.existsUnique_cell hlow (by omega)
  · exact hcontiguous.pairwise.imp fun hle => by omega

theorem image_tiles_memory_crossing : ∃ laid bytes,
    (crossing.foldl Program.add .empty).statements.1 = .ok laid ∧
      (crossing.foldl Program.add .empty).image.1 = .ok bytes ∧
      bytes.length ≤ 256 ∧ bytes.take 4 = [0, 0, 0, 4] ∧
      ∀ fragment ∈ fragments laid, ∀ i < fragment.cells,
        bytes[fragment.location + i]? = fragment.values[i]? := by
  obtain ⟨layout, hlayout⟩ := exists_layOut_crossing
  have hlaid : (crossing.foldl Program.add .empty).statements.1 = .ok layout.statements := by
    rw [Program.foldl_add_empty]
    exact Program.statements_ofStatements_eq_ok_iff.2 ⟨layout, hlayout, rfl⟩
  obtain ⟨bytes, hbytes, -, hsize, hheader, hvalues, -⟩ := image_tiles_memory rfl hlaid
  exact ⟨layout.statements, bytes, hlaid, hbytes, hsize, hheader,
    fun fragment hf i hi => (hvalues fragment hf i hi).2⟩

end CrossAssembler
