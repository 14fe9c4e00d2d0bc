import CrossAssembler.Layout

/-!
# Where fragments are placed

Placing changes nothing but locations, and a location is a sum of cells: that of a fragment is the
address its statement starts at plus the cells of the fragments before it, and a statement starts
where the ones before it end.

* `bare` takes back all that a layout adds to a fragment; placing keeps it (`bare_placeAt`).
* `getElem?_place` and `getElem?_placeFragments` give every statement and fragment its address.
* `place_append` places a list in two passes, the second from where the first ends.
* `Contiguous` says that fragments lie without gap and overlap; placed fragments do
  (`contiguous_placeFragments`), and so each address among them belongs to one of them
  (`Contiguous.exists_covering`, `Contiguous.pairwise`).
-/

namespace CrossAssembler

namespace Fragment

/-- The fragment before it was laid out: at address zero, not used, not resolved. -/
def bare (fragment : Fragment) : Fragment :=
  match fragment.content with
  | .operation value => .operation value
  | .label name _ => .label name
  | .jump kind target _ => .jump kind target

@[simp] theorem bare_placeAt (fragment : Fragment) (address : Nat) :
    (fragment.placeAt address).bare = fragment.bare := rfl

@[simp] theorem cells_placeAt (fragment : Fragment) (address : Nat) :
    (fragment.placeAt address).cells = fragment.cells := rfl

@[simp] theorem labelName?_placeAt (fragment : Fragment) (address : Nat) :
    (fragment.placeAt address).labelName? = fragment.labelName? := rfl

@[simp] theorem target?_placeAt (fragment : Fragment) (address : Nat) :
    (fragment.placeAt address).target? = fragment.target? := rfl

/-- What a fragment takes of the memory does not depend on the layout. -/
theorem cells_eq_of_bare_eq {fragment other : Fragment} (h : fragment.bare = other.bare) :
    fragment.cells = other.cells := by
  obtain ⟨location, content⟩ := fragment
  obtain ⟨location', content'⟩ := other
  cases content <;> cases content' <;> first | rfl | cases h

theorem labelName?_eq_of_bare_eq {fragment other : Fragment} (h : fragment.bare = other.bare) :
    fragment.labelName? = other.labelName? := by
  obtain ⟨location, content⟩ := fragment
  obtain ⟨location', content'⟩ := other
  cases content <;> cases content' <;> cases h <;> rfl

theorem target?_eq_of_bare_eq {fragment other : Fragment} (h : fragment.bare = other.bare) :
    fragment.target? = other.target? := by
  obtain ⟨location, content⟩ := fragment
  obtain ⟨location', content'⟩ := other
  cases content <;> cases content' <;> cases h <;> rfl

@[simp] theorem totalCells_nil : totalCells [] = 0 := rfl

@[simp] theorem totalCells_cons (fragment : Fragment) (fragments : List Fragment) :
    totalCells (fragment :: fragments) = fragment.cells + totalCells fragments := rfl

@[simp] theorem totalCells_append (first second : List Fragment) :
    totalCells (first ++ second) = totalCells first + totalCells second := by
  induction first with
  | nil => simp
  | cons fragment first ih => simp only [List.cons_append, totalCells_cons, ih]; omega

theorem totalCells_map (f : Fragment → Fragment)
    (hf : ∀ fragment, (f fragment).cells = fragment.cells) (fragments : List Fragment) :
    totalCells (fragments.map f) = totalCells fragments := by
  induction fragments with
  | nil => rfl
  | cons fragment fragments ih => simp only [List.map_cons, totalCells_cons, hf, ih]

/-- The bytes of fragments fill their cells. -/
theorem length_flatMap_values (fragments : List Fragment) :
    (fragments.flatMap values).length = totalCells fragments := by
  induction fragments with
  | nil => rfl
  | cons fragment fragments ih =>
    rw [List.flatMap_cons, List.length_append, length_values, ih, totalCells_cons]

end Fragment

/-- The statement before it was laid out. -/
def Statement.bare (statement : Statement) : Statement :=
  { statement with fragments := statement.fragments.map Fragment.bare }

namespace Layout

open Fragment (totalCells)

/-! ## Fragments -/

theorem map_placeFragments {α : Type} {f : Fragment → α}
    (hf : ∀ fragment address, f (fragment.placeAt address) = f fragment) (address : Nat)
    (fragments : List Fragment) : (placeFragments address fragments).map f = fragments.map f := by
  induction fragments generalizing address with
  | nil => rfl
  | cons fragment fragments ih => simp only [placeFragments, List.map_cons, hf, ih]

theorem filterMap_placeFragments {α : Type} {f : Fragment → Option α}
    (hf : ∀ fragment address, f (fragment.placeAt address) = f fragment) (address : Nat)
    (fragments : List Fragment) :
    (placeFragments address fragments).filterMap f = fragments.filterMap f := by
  induction fragments generalizing address with
  | nil => rfl
  | cons fragment fragments ih => simp only [placeFragments, List.filterMap_cons, hf, ih]

@[simp] theorem totalCells_placeFragments (address : Nat) (fragments : List Fragment) :
    totalCells (placeFragments address fragments) = totalCells fragments := by
  induction fragments generalizing address with
  | nil => rfl
  | cons fragment fragments ih =>
    simp only [placeFragments, Fragment.totalCells_cons, Fragment.cells_placeAt, ih]

theorem placeFragments_append (address : Nat) (first second : List Fragment) :
    placeFragments address (first ++ second) =
      placeFragments address first ++ placeFragments (address + totalCells first) second := by
  induction first generalizing address with
  | nil => rfl
  | cons fragment first ih =>
    simp only [List.cons_append, placeFragments, ih, Fragment.totalCells_cons, Nat.add_assoc]

/-- A fragment is placed after the cells of the fragments before it. -/
theorem getElem?_placeFragments (address : Nat) (fragments : List Fragment) (k : Nat) :
    (placeFragments address fragments)[k]? = fragments[k]?.map fun fragment =>
      fragment.placeAt (address + totalCells (fragments.take k)) := by
  induction fragments generalizing address k with
  | nil => rfl
  | cons fragment fragments ih =>
    cases k with
    | zero => simp [placeFragments]
    | succ k =>
      simp only [placeFragments, List.getElem?_cons_succ, ih, List.take_succ_cons,
        Fragment.totalCells_cons, Nat.add_assoc]

/-! ## Statements -/

@[simp] theorem fragments_nil : fragments [] = [] := rfl

@[simp] theorem fragments_cons (statement : Statement) (statements : List Statement) :
    fragments (statement :: statements) = statement.fragments ++ fragments statements :=
  List.flatMap_cons

@[simp] theorem fragments_append (first second : List Statement) :
    fragments (first ++ second) = fragments first ++ fragments second :=
  List.flatMap_append

theorem fragments_map {f : Statement → Statement} {g : Fragment → Fragment}
    (hf : ∀ statement, (f statement).fragments = statement.fragments.map g)
    (statements : List Statement) :
    fragments (statements.map f) = (fragments statements).map g := by
  induction statements with
  | nil => rfl
  | cons statement statements ih =>
    rw [List.map_cons, fragments_cons, fragments_cons, ih, hf, List.map_append]

theorem extent_eq_totalCells (statements : List Statement) :
    extent statements = totalCells (fragments statements) := by
  induction statements with
  | nil => rfl
  | cons statement statements ih =>
    rw [extent, ih, fragments_cons, Fragment.totalCells_append, Statement.cells]

@[simp] theorem extent_append (first second : List Statement) :
    extent (first ++ second) = extent first + extent second := by
  simp only [extent_eq_totalCells, fragments_append, Fragment.totalCells_append]

/-- Only the cells of statements count for where they end. -/
theorem extent_eq_of_cells {first second : List Statement}
    (h : first.map Statement.cells = second.map Statement.cells) :
    extent first = extent second := by
  induction first generalizing second with
  | nil => rw [List.map_eq_nil_iff.1 h.symm]
  | cons statement first ih =>
    cases second with
    | nil => cases h
    | cons other second =>
      obtain ⟨hcells, hrest⟩ := List.cons.inj h
      rw [extent, extent, hcells, ih hrest]

theorem extent_take_add_drop (statements : List Statement) (k : Nat) :
    extent (statements.take k) + extent (statements.drop k) = extent statements := by
  rw [← extent_append, List.take_append_drop]

/-- The ends of statements ascend. -/
theorem extent_take_mono (statements : List Statement) {k l : Nat} (h : k ≤ l) :
    extent (statements.take k) ≤ extent (statements.take l) := by
  obtain ⟨m, rfl⟩ := Nat.exists_eq_add_of_le h
  rw [List.take_add, extent_append]
  exact Nat.le_add_right _ _

theorem finish_take_mono (statements : List Statement) {k l : Nat} (h : k ≤ l) :
    finish (statements.take k) ≤ finish (statements.take l) :=
  Nat.add_le_add_left (extent_take_mono statements h) _

@[simp] theorem length_place (address : Nat) (statements : List Statement) :
    (place address statements).length = statements.length := by
  induction statements generalizing address with
  | nil => rfl
  | cons statement statements ih => simp only [place, List.length_cons, ih]

/-- Placing a list is placing its first part, and its second part from where the first ends. -/
theorem place_append (address : Nat) (first second : List Statement) :
    place address (first ++ second) =
      place address first ++ place (address + extent first) second := by
  induction first generalizing address with
  | nil => rfl
  | cons statement first ih => simp only [List.cons_append, place, ih, extent, Nat.add_assoc]

/-- A statement is placed after the cells of the statements before it. -/
theorem getElem?_place (address : Nat) (statements : List Statement) (k : Nat) :
    (place address statements)[k]? = statements[k]?.map fun statement =>
      { statement with
        fragments :=
          placeFragments (address + extent (statements.take k)) statement.fragments } := by
  induction statements generalizing address k with
  | nil => rfl
  | cons statement statements ih =>
    cases k with
    | zero => simp [place, extent]
    | succ k =>
      simp only [place, List.getElem?_cons_succ, ih, List.take_succ_cons, extent, Nat.add_assoc]

theorem exists_of_mem_place {address : Nat} {statements : List Statement} {placed : Statement}
    (h : placed ∈ place address statements) : ∃ statement ∈ statements, ∃ start,
      placed = { statement with fragments := placeFragments start statement.fragments } := by
  obtain ⟨k, hk⟩ := List.mem_iff_getElem?.1 h
  rw [getElem?_place, Option.map_eq_some_iff] at hk
  obtain ⟨statement, hk, rfl⟩ := hk
  exact ⟨statement, List.mem_of_getElem? hk, _, rfl⟩

theorem fragments_place (address : Nat) (statements : List Statement) :
    fragments (place address statements) = placeFragments address (fragments statements) := by
  induction statements generalizing address with
  | nil => rfl
  | cons statement statements ih =>
    rw [place, fragments_cons, fragments_cons, ih, placeFragments_append, Statement.cells]

@[simp] theorem labelNames_place (address : Nat) (statements : List Statement) :
    labelNames (place address statements) = labelNames statements := by
  rw [labelNames, fragments_place, filterMap_placeFragments Fragment.labelName?_placeAt, labelNames]

@[simp] theorem targets_place (address : Nat) (statements : List Statement) :
    targets (place address statements) = targets statements := by
  rw [targets, fragments_place, filterMap_placeFragments Fragment.target?_placeAt, targets]

/-! ## Fragments side by side -/

/-- The fragments lie one after the other from an address on, each where the one before ends. -/
def Contiguous : Nat → List Fragment → Prop
  | _, [] => True
  | address, fragment :: fragments =>
    fragment.location = address ∧ Contiguous (address + fragment.cells) fragments

theorem contiguous_placeFragments (address : Nat) (fragments : List Fragment) :
    Contiguous address (placeFragments address fragments) := by
  induction fragments generalizing address with
  | nil => trivial
  | cons fragment fragments ih => exact ⟨rfl, ih _⟩

namespace Contiguous

variable {address : Nat} {fragments : List Fragment}

/-- What keeps locations and cells keeps fragments side by side. -/
theorem map {f : Fragment → Fragment} (hloc : ∀ fragment, (f fragment).location = fragment.location)
    (hcells : ∀ fragment, (f fragment).cells = fragment.cells) (h : Contiguous address fragments) :
    Contiguous address (fragments.map f) := by
  induction fragments generalizing address with
  | nil => trivial
  | cons fragment fragments ih =>
    refine ⟨(hloc fragment).trans h.1, ?_⟩
    rw [hcells]
    exact ih h.2

theorem le_location (h : Contiguous address fragments) {fragment : Fragment}
    (hf : fragment ∈ fragments) : address ≤ fragment.location := by
  induction fragments generalizing address with
  | nil => cases hf
  | cons first fragments ih =>
    rcases List.mem_cons.1 hf with rfl | hf
    · exact Nat.le_of_eq h.1.symm
    · exact Nat.le_trans (Nat.le_add_right _ _) (ih h.2 hf)

theorem location_add_cells_le (h : Contiguous address fragments) {fragment : Fragment}
    (hf : fragment ∈ fragments) :
    fragment.location + fragment.cells ≤ address + totalCells fragments := by
  induction fragments generalizing address with
  | nil => cases hf
  | cons first fragments ih =>
    rw [Fragment.totalCells_cons]
    rcases List.mem_cons.1 hf with rfl | hf
    · rw [h.1]
      omega
    · have := ih h.2 hf
      omega

/-- A fragment ends where a later one starts, or before. -/
theorem pairwise (h : Contiguous address fragments) :
    fragments.Pairwise fun first second => first.location + first.cells ≤ second.location := by
  induction fragments generalizing address with
  | nil => exact .nil
  | cons fragment fragments ih =>
    refine .cons (fun later hl => ?_) (ih h.2)
    rw [h.1]
    exact h.2.le_location hl

/-- There is no gap between the fragments. -/
theorem exists_covering (h : Contiguous address fragments) {cell : Nat} (hlow : address ≤ cell)
    (hhigh : cell < address + totalCells fragments) :
    ∃ (k : Nat) (fragment : Fragment), fragments[k]? = some fragment ∧
      fragment.location ≤ cell ∧ cell < fragment.location + fragment.cells := by
  induction fragments generalizing address with
  | nil => simp only [Fragment.totalCells_nil] at hhigh; omega
  | cons first fragments ih =>
    rw [Fragment.totalCells_cons] at hhigh
    by_cases hc : cell < address + first.cells
    · exact ⟨0, first, rfl, by rw [h.1]; exact hlow, by rw [h.1]; exact hc⟩
    · obtain ⟨k, fragment, hk, hle, hlt⟩ := ih h.2 (by omega) (by omega)
      exact ⟨k + 1, fragment, hk, hle, hlt⟩

/-- Behind a front that fills the memory up to the fragments, each byte of a fragment stands at its
address. -/
theorem getElem?_flatMap_values (h : Contiguous address fragments) {front : List UInt8}
    (hfront : front.length = address) {fragment : Fragment} (hf : fragment ∈ fragments) {i : Nat}
    (hi : i < fragment.cells) :
    (front ++ fragments.flatMap Fragment.values)[fragment.location + i]? = fragment.values[i]? := by
  induction fragments generalizing address front with
  | nil => cases hf
  | cons first fragments ih =>
    -- the bytes of the first fragment join the front
    have hlen : (front ++ first.values).length = address + first.cells := by
      rw [List.length_append, hfront, Fragment.length_values]
    rw [List.flatMap_cons, ← List.append_assoc]
    rcases List.mem_cons.1 hf with rfl | hf
    · rw [h.1, List.getElem?_append_left (by omega), List.getElem?_append_right (by omega), hfront,
        Nat.add_sub_cancel_left]
    · exact ih h.2 hlen hf

end Contiguous

end Layout

end CrossAssembler
