import CrossAssembler.Proofs.Fallible
import CrossAssembler.Proofs.Placement

/-!
# How jumps are resolved

`resolve` has a closed form (`resolve_eq_elim`). It fails with the first name that is defined twice,
else with the fault of the first jump that has one: its target is not defined, or lies beyond the
memory (`fault?`). If there is no fault the result is `settle`, in which each jump has the address
that the label table gives its target and each label says whether a jump goes to it. Settling keeps
all places and all that is bare.

A table in which no name stands twice is read by membership (`lookup_labelTable_eq_some_iff`).
-/

namespace List

/-- In a table whose keys are all different, what is found is what stands there. -/
theorem lookup_eq_some_iff_mem {α β : Type} [BEq α] [LawfulBEq α] {table : List (α × β)}
    (h : (table.map Prod.fst).Nodup) {key : α} {value : β} :
    table.lookup key = some value ↔ (key, value) ∈ table := by
  rw [lookup_eq_some_iff]
  constructor
  · rintro ⟨before, after, rfl, -⟩
    exact mem_append_right _ (mem_cons_self ..)
  · intro hmem
    obtain ⟨before, after, rfl⟩ := append_of_mem hmem
    refine ⟨before, after, rfl, fun entry he => bne_iff_ne.2 fun heq => ?_⟩
    rw [map_append, nodup_append] at h
    exact h.2.2 entry.1 (mem_map_of_mem he) key (by simp) heq.symm

end List

namespace CrossAssembler.Layout

open Fallible

/-! ## Names that are defined twice -/

theorem firstRepeat?_eq_none_iff {seen names : List String} :
    firstRepeat? seen names = none ↔ names.Nodup ∧ ∀ name ∈ names, name ∉ seen := by
  induction names generalizing seen with
  | nil => simp [firstRepeat?]
  | cons name names ih =>
    by_cases hseen : name ∈ seen
    · simp [firstRepeat?, hseen]
    · simp only [firstRepeat?, List.contains_eq_mem, hseen, decide_false, Bool.false_eq_true,
        if_false, ih, List.nodup_cons, List.mem_cons, not_or, forall_eq_or_imp, not_false_eq_true,
        true_and]
      constructor
      · rintro ⟨hnodup, hnot⟩
        exact ⟨⟨fun hmem => (hnot name hmem).1 rfl, hnodup⟩, fun other ho => (hnot other ho).2⟩
      · rintro ⟨⟨hmem, hnodup⟩, hnot⟩
        exact ⟨hnodup, fun other ho => ⟨fun heq => hmem (heq ▸ ho), hnot other ho⟩⟩

theorem firstRepeat?_eq_some_iff {seen names : List String} {name : String} :
    firstRepeat? seen names = some name ↔ ∃ before after, names = before ++ name :: after ∧
      before.Nodup ∧ (∀ other ∈ before, other ∉ seen) ∧ (name ∈ before ∨ name ∈ seen) := by
  induction names generalizing seen with
  | nil => simp [firstRepeat?]
  | cons first names ih =>
    by_cases hseen : first ∈ seen
    · rw [firstRepeat?, if_pos (List.contains_iff_mem.2 hseen), Option.some.injEq]
      constructor
      · rintro rfl
        exact ⟨[], names, rfl, .nil, nofun, .inr hseen⟩
      · rintro ⟨_ | ⟨other, before⟩, after, heq, -, hnot, -⟩
        · exact (List.cons.inj heq).1
        · obtain ⟨rfl, -⟩ := List.cons.inj heq
          exact absurd hseen (hnot first (List.mem_cons_self ..))
    · rw [firstRepeat?, if_neg (fun h => hseen (List.contains_iff_mem.1 h)), ih]
      constructor
      · rintro ⟨before, after, rfl, hnodup, hnot, hname⟩
        refine ⟨first :: before, after, rfl, ?_, ?_, ?_⟩
        · exact List.nodup_cons.2 ⟨fun hmem => hnot first hmem (List.mem_cons_self ..), hnodup⟩
        · rintro other ho
          rcases List.mem_cons.1 ho with rfl | ho
          · exact hseen
          · exact fun h => hnot other ho (List.mem_cons_of_mem _ h)
        · rcases hname with hname | hname
          · exact .inl (List.mem_cons_of_mem _ hname)
          · rcases List.mem_cons.1 hname with rfl | hname
            · exact .inl (List.mem_cons_self ..)
            · exact .inr hname
      · rintro ⟨_ | ⟨other, before⟩, after, heq, hnodup, hnot, hname⟩
        · obtain ⟨rfl, -⟩ := List.cons.inj heq
          simp [hseen] at hname
        · obtain ⟨rfl, rfl⟩ := List.cons.inj heq
          obtain ⟨hfirst, hnodup⟩ := List.nodup_cons.1 hnodup
          refine ⟨before, after, rfl, hnodup, fun other ho hmem => ?_, ?_⟩
          · rcases List.mem_cons.1 hmem with rfl | hmem
            · exact hfirst ho
            · exact hnot other (List.mem_cons_of_mem _ ho) hmem
          · rcases hname with hname | hname
            · rcases List.mem_cons.1 hname with rfl | hname
              · exact .inr (List.mem_cons_self ..)
              · exact .inl hname
            · exact .inr (List.mem_cons_of_mem _ hname)

theorem checkLabels_eq_elim (statements : List Statement) : checkLabels statements =
    ((firstRepeat? [] (labelNames statements)).map LayoutError.duplicateLabel).elim (.ok ())
      .error := by
  unfold checkLabels
  cases firstRepeat? [] (labelNames statements) <;> rfl

theorem firstRepeat?_nil_eq_none_iff {names : List String} :
    firstRepeat? [] names = none ↔ names.Nodup := by
  simp [firstRepeat?_eq_none_iff]

theorem checkLabels_eq_ok_iff {statements : List Statement} :
    checkLabels statements = .ok () ↔ (labelNames statements).Nodup := by
  rw [checkLabels_eq_elim, elim_eq_ok, Option.map_eq_none_iff, firstRepeat?_nil_eq_none_iff]
  exact and_iff_left rfl

/-! ## The label table -/

theorem map_fst_labelTable (statements : List Statement) :
    (labelTable statements).map Prod.fst = labelNames statements := by
  rw [labelTable, labelNames, List.map_filterMap]
  congr 1
  funext fragment
  cases fragment.labelName? <;> rfl

theorem mem_labelTable {statements : List Statement} {name : String} {address : Nat} :
    (name, address) ∈ labelTable statements ↔ ∃ fragment ∈ fragments statements,
      fragment.labelName? = some name ∧ fragment.location = address := by
  simp only [labelTable, List.mem_filterMap, Option.map_eq_some_iff, Prod.mk.injEq]
  constructor
  · rintro ⟨fragment, hf, _, hn, rfl, rfl⟩
    exact ⟨fragment, hf, hn, rfl⟩
  · rintro ⟨fragment, hf, hn, rfl⟩
    exact ⟨fragment, hf, name, hn, rfl, rfl⟩

theorem mem_labelNames {statements : List Statement} {name : String} :
    name ∈ labelNames statements ↔
      ∃ fragment ∈ fragments statements, fragment.labelName? = some name := by
  rw [labelNames, List.mem_filterMap]

/-- A label that is defined once is found at its location. -/
theorem lookup_labelTable_eq_some_iff {statements : List Statement}
    (h : (labelNames statements).Nodup) {name : String} {address : Nat} :
    (labelTable statements).lookup name = some address ↔ ∃ fragment ∈ fragments statements,
      fragment.labelName? = some name ∧ fragment.location = address := by
  rw [List.lookup_eq_some_iff_mem (by rwa [map_fst_labelTable]), mem_labelTable]

theorem lookup_labelTable_eq_none_iff {statements : List Statement} {name : String} :
    (labelTable statements).lookup name = none ↔ name ∉ labelNames statements := by
  rw [List.lookup_eq_none_iff, ← map_fst_labelTable, List.mem_map]
  constructor
  · rintro h ⟨entry, he, rfl⟩
    exact absurd rfl (bne_iff_ne.1 (h entry he))
  · exact fun h entry he => bne_iff_ne.2 fun heq => h ⟨entry, he, heq.symm⟩

/-! ## Resolved jumps -/

/-- Why a jump to a target cannot be resolved. -/
def fault? (table : List (String × Nat)) (target : String) : Option LayoutError :=
  match table.lookup target with
  | none => some (.undefinedLabel target)
  | some address => if address < Memory.size then none else some (.programTooLarge address)

theorem fault?_eq_none_iff {table : List (String × Nat)} {target : String} :
    fault? table target = none ↔
      ∃ address, table.lookup target = some address ∧ address < Memory.size := by
  unfold fault?
  cases table.lookup target with
  | none => simp
  | some address => by_cases h : address < Memory.size <;> simp [h]

theorem fault?_eq_some_iff {table : List (String × Nat)} {target : String} {e : LayoutError} :
    fault? table target = some e ↔ (table.lookup target = none ∧ e = .undefinedLabel target) ∨
      ∃ address, table.lookup target = some address ∧ Memory.size ≤ address ∧
        e = .programTooLarge address := by
  unfold fault?
  cases table.lookup target with
  | none => simp [eq_comm]
  | some address =>
    simp only [reduceCtorEq, false_and, false_or, Option.some.injEq, exists_eq_left']
    by_cases h : address < Memory.size
    · rw [if_pos h]
      constructor
      · nofun
      · rintro ⟨hle, -⟩
        exact absurd h (Nat.not_lt.2 hle)
    · rw [if_neg h, Option.some.injEq, eq_comm]
      exact (and_iff_right (Nat.not_lt.1 h)).symm

/-- The fragment with the destination that the table gives it, if it is a jump. -/
def aimFragment (table : List (String × Nat)) (fragment : Fragment) : Fragment :=
  match fragment.content with
  | .jump kind target _ =>
    { fragment with content := .jump kind target ((table.lookup target).map UInt8.ofNat) }
  | _ => fragment

/-- The statement with the destinations that the table gives its jumps. -/
def aimStatement (table : List (String × Nat)) (statement : Statement) : Statement :=
  { statement with fragments := statement.fragments.map (aimFragment table) }

theorem resolveFragment_eq_elim (table : List (String × Nat)) (fragment : Fragment) :
    resolveFragment table fragment =
      (fragment.target?.bind (fault? table)).elim (.ok (aimFragment table fragment)) .error := by
  obtain ⟨location, content⟩ := fragment
  cases content with
  | operation value => rfl
  | label name used => rfl
  | jump kind target destination =>
    simp only [resolveFragment, aimFragment, Fragment.target?, Option.bind_some, fault?]
    cases table.lookup target with
    | none => rfl
    | some address => by_cases h : address < Memory.size <;> simp [h]

theorem findSome?_target? (fault? : String → Option LayoutError) (fragments : List Fragment) :
    fragments.findSome? (fun fragment => fragment.target?.bind fault?) =
      (fragments.filterMap Fragment.target?).findSome? fault? := by
  induction fragments with
  | nil => rfl
  | cons fragment fragments ih =>
    rw [List.findSome?_cons, List.filterMap_cons]
    cases fragment.target? with
    | none => exact ih
    | some target => rw [List.findSome?_cons, Option.bind_some, ih]

theorem resolveStatement_eq_elim (table : List (String × Nat)) (statement : Statement) :
    resolveStatement table statement =
      ((statement.fragments.filterMap Fragment.target?).findSome? (fault? table)).elim
        (.ok (aimStatement table statement)) .error := by
  rw [resolveStatement, mapM_eq_elim (resolveFragment_eq_elim table), findSome?_target?]
  cases (statement.fragments.filterMap Fragment.target?).findSome? (fault? table) <;> rfl

theorem findSome?_targets (fault? : String → Option LayoutError) (statements : List Statement) :
    statements.findSome?
        (fun statement => (statement.fragments.filterMap Fragment.target?).findSome? fault?) =
      (targets statements).findSome? fault? := by
  induction statements with
  | nil => rfl
  | cons statement statements ih =>
    rw [targets, fragments_cons, List.filterMap_append, List.findSome?_append, ← targets, ← ih,
      List.findSome?_cons]
    cases (statement.fragments.filterMap Fragment.target?).findSome? fault? <;> rfl

/-- The statement with its jumps resolved and its labels marked. -/
def settleStatement (table : List (String × Nat)) (targets : List String) (statement : Statement) :
    Statement :=
  markStatement targets (aimStatement table statement)

/-- The statements with all jumps resolved by their label table and all labels marked. -/
def settle (statements : List Statement) : List Statement :=
  statements.map (settleStatement (labelTable statements) (targets statements))

/-- **Resolving in closed form**: a name that is defined twice, else the first jump with a fault,
else the settled statements. -/
theorem resolve_eq_elim (statements : List Statement) : resolve statements =
    (((firstRepeat? [] (labelNames statements)).map LayoutError.duplicateLabel).or
      ((targets statements).findSome? (fault? (labelTable statements)))).elim
        (.ok (settle statements)) .error := by
  rw [resolve, checkLabels_eq_elim, mapM_eq_elim (resolveStatement_eq_elim _), findSome?_targets]
  cases firstRepeat? [] (labelNames statements) with
  | some name => rfl
  | none =>
    cases (targets statements).findSome? (fault? (labelTable statements)) with
    | some e => rfl
    | none => exact congrArg Except.ok (List.map_map ..)

theorem resolve_eq_ok_iff {statements resolved : List Statement} :
    resolve statements = .ok resolved ↔ (labelNames statements).Nodup ∧
      (∀ target ∈ targets statements, ∃ address,
        (labelTable statements).lookup target = some address ∧ address < Memory.size) ∧
      settle statements = resolved := by
  rw [resolve_eq_elim, elim_eq_ok, Option.or_eq_none_iff, Option.map_eq_none_iff,
    firstRepeat?_nil_eq_none_iff, List.findSome?_eq_none_iff, and_assoc]
  simp only [fault?_eq_none_iff]

/-! ## What settling keeps -/

/-- The fragment with its jump resolved and its label marked. -/
def settleFragment (table : List (String × Nat)) (targets : List String) (fragment : Fragment) :
    Fragment :=
  markFragment targets (aimFragment table fragment)

section

variable (table : List (String × Nat)) (targets : List String)

@[simp] theorem location_settleFragment (fragment : Fragment) :
    (settleFragment table targets fragment).location = fragment.location := by
  obtain ⟨location, content⟩ := fragment
  cases content <;> rfl

@[simp] theorem bare_settleFragment (fragment : Fragment) :
    (settleFragment table targets fragment).bare = fragment.bare := by
  obtain ⟨location, content⟩ := fragment
  cases content <;> rfl

@[simp] theorem cells_settleFragment (fragment : Fragment) :
    (settleFragment table targets fragment).cells = fragment.cells :=
  Fragment.cells_eq_of_bare_eq (bare_settleFragment table targets fragment)

@[simp] theorem labelName?_settleFragment (fragment : Fragment) :
    (settleFragment table targets fragment).labelName? = fragment.labelName? := by
  obtain ⟨location, content⟩ := fragment
  cases content <;> rfl

@[simp] theorem target?_settleFragment (fragment : Fragment) :
    (settleFragment table targets fragment).target? = fragment.target? := by
  obtain ⟨location, content⟩ := fragment
  cases content <;> rfl

theorem fragments_settleStatement (statement : Statement) :
    (settleStatement table targets statement).fragments =
      statement.fragments.map (settleFragment table targets) :=
  List.map_map ..

theorem bare_settleStatement (statement : Statement) :
    (settleStatement table targets statement).bare = statement.bare := by
  rw [Statement.bare, fragments_settleStatement, List.map_map, Statement.bare]
  congr 1
  exact List.map_congr_left fun fragment _ => bare_settleFragment table targets fragment

/-- Placing and settling take nothing away that they do not add. -/
theorem bare_settleStatement_place (statement : Statement) (start : Nat) :
    (settleStatement table targets
      { statement with fragments := placeFragments start statement.fragments }).bare =
      statement.bare := by
  rw [bare_settleStatement, Statement.bare,
    map_placeFragments fun fragment address => Fragment.bare_placeAt fragment address]
  rfl

end

theorem fragments_settle (statements : List Statement) : fragments (settle statements) =
    (fragments statements).map (settleFragment (labelTable statements) (targets statements)) :=
  fragments_map (fragments_settleStatement _ _) statements

@[simp] theorem labelNames_settle (statements : List Statement) :
    labelNames (settle statements) = labelNames statements := by
  rw [labelNames, fragments_settle, List.filterMap_map, labelNames]
  congr 1
  funext fragment
  exact labelName?_settleFragment _ _ fragment

@[simp] theorem targets_settle (statements : List Statement) :
    targets (settle statements) = targets statements := by
  rw [targets, fragments_settle, List.filterMap_map, targets]
  congr 1
  funext fragment
  exact target?_settleFragment _ _ fragment

end CrossAssembler.Layout
