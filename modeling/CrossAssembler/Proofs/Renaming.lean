import CrossAssembler.Proofs.Decoding
import CrossAssembler.Proofs.LayoutErrors
import Mathlib.Logic.Equiv.Basic
import Mathlib.Data.Set.Function

/-!
# Other names for the labels

The names of labels say which jump goes to which label, and nothing else. If the names in a source
are replaced, different ones by different ones, then the layout is the same but for the names, or
fails with the same error (`layOut_renamed`).

* `Statement.rename` replaces the name in a statement, in its fragments and in its tokens.
* What names are compared for comes to the same: a repeated name (`firstRepeat?_map`), an entry of
  the label table (`lookup_map`), a used label (`contains_map`). So resolving commutes with renaming
  (`resolve_rename`), and so do the steps before it, which do not read names at all.
* The detour brings in a name of its own. A renaming that keeps this name and gives it to no other
  commutes with the whole layout (`layOut_rename`). For the names of a written source that can be
  had: they do not begin as a comment does, and the name of the detour's label does.
-/

namespace CrossAssembler

open Fallible Layout Token

/-! ## Renaming -/

namespace Fragment

/-- The name in the fragment: that of a label, or the target of a jump. -/
def name? (fragment : Fragment) : Option String := fragment.labelName?.or fragment.target?

/-- The fragment with its name replaced. -/
def rename (f : String → String) (fragment : Fragment) : Fragment :=
  match fragment.content with
  | .operation _ => fragment
  | .label name used => { fragment with content := .label (f name) used }
  | .jump kind target destination =>
    { fragment with content := .jump kind (f target) destination }

section

variable (f : String → String) (fragment : Fragment)

@[simp] theorem location_rename : (fragment.rename f).location = fragment.location := by
  obtain ⟨location, content⟩ := fragment
  cases content <;> rfl

@[simp] theorem cells_rename : (fragment.rename f).cells = fragment.cells := by
  obtain ⟨location, content⟩ := fragment
  cases content <;> rfl

@[simp] theorem values_rename : (fragment.rename f).values = fragment.values := by
  obtain ⟨location, content⟩ := fragment
  cases content <;> rfl

@[simp] theorem destination?_rename : (fragment.rename f).destination? = fragment.destination? := by
  obtain ⟨location, content⟩ := fragment
  cases content <;> rfl

@[simp] theorem labelName?_rename : (fragment.rename f).labelName? = fragment.labelName?.map f := by
  obtain ⟨location, content⟩ := fragment
  cases content <;> rfl

@[simp] theorem target?_rename : (fragment.rename f).target? = fragment.target?.map f := by
  obtain ⟨location, content⟩ := fragment
  cases content <;> rfl

theorem placeAt_rename (address : Nat) :
    (fragment.rename f).placeAt address = (fragment.placeAt address).rename f := by
  obtain ⟨location, content⟩ := fragment
  cases content <;> rfl

@[simp] theorem name?_placeAt (address : Nat) : (fragment.placeAt address).name? = fragment.name? :=
  rfl

theorem name?_settleFragment (table : List (String × Nat)) (targets : List String) :
    (Layout.settleFragment table targets fragment).name? = fragment.name? := by
  obtain ⟨location, content⟩ := fragment
  cases content <;> rfl

end

theorem rename_congr {f g : String → String} {fragment : Fragment}
    (h : ∀ name, fragment.name? = some name → f name = g name) :
    fragment.rename f = fragment.rename g := by
  obtain ⟨location, content⟩ := fragment
  cases content with
  | operation value => rfl
  | label name used => simp only [rename, h name rfl]
  | jump kind target destination => simp only [rename, h target rfl]

theorem rename_of_name?_eq_none (f : String → String) {fragment : Fragment}
    (h : fragment.name? = none) : fragment.rename f = fragment := by
  obtain ⟨location, content⟩ := fragment
  cases content with
  | operation value => rfl
  | label name used => cases h
  | jump kind target destination => cases h

end Fragment

namespace Statement

/-- The name in the statement. -/
def name? (statement : Statement) : Option String :=
  (statement.fragments.filterMap Fragment.name?).head?

/-- The statement with its name replaced. A name is the last token of a statement. -/
def rename (f : String → String) (statement : Statement) : Statement where
  tokens :=
    match statement.name? with
    | some name => statement.tokens.dropLast ++ [f name]
    | none => statement.tokens
  fragments := statement.fragments.map (Fragment.rename f)

@[simp] theorem cells_rename (f : String → String) (statement : Statement) :
    (statement.rename f).cells = statement.cells :=
  Fragment.totalCells_map _ (Fragment.cells_rename f) statement.fragments

/-- A step that changes fragments, but not their names, may be done before or after renaming. -/
theorem rename_fragments {f : String → String} {statement : Statement} {fragments : List Fragment}
    (h : fragments.filterMap Fragment.name? = statement.fragments.filterMap Fragment.name?) :
    rename f { statement with fragments } =
      { statement.rename f with fragments := fragments.map (Fragment.rename f) } := by
  simp only [rename, name?, h]

/-- Renaming depends on the names in the statement only. -/
theorem rename_congr {f g : String → String} {statement : Statement}
    (h : ∀ fragment ∈ statement.fragments, ∀ name, fragment.name? = some name → f name = g name) :
    statement.rename f = statement.rename g := by
  have hfragments : statement.fragments.map (Fragment.rename f) =
      statement.fragments.map (Fragment.rename g) :=
    List.map_congr_left fun fragment hf => Fragment.rename_congr (h fragment hf)
  simp only [rename, hfragments]
  cases hname : statement.name? with
  | none => rfl
  | some name =>
    obtain ⟨fragment, hf, hn⟩ := List.mem_filterMap.1 (List.mem_of_head? hname)
    simp only [h fragment hf name hn]

end Statement

namespace LayoutError

/-- The error with its name replaced. -/
def rename (f : String → String) : LayoutError → LayoutError
  | .duplicateLabel name => .duplicateLabel (f name)
  | .undefinedLabel name => .undefinedLabel (f name)
  | .noSafePoint => .noSafePoint
  | .programTooLarge finish => .programTooLarge finish

end LayoutError

namespace Diagnostic

/-- The finding with its name replaced. -/
def rename (f : String → String) : Diagnostic → Diagnostic
  | .unusedLabel name => .unusedLabel (f name)

end Diagnostic

namespace Layout

/-- The layout with its names replaced. -/
def rename (f : String → String) (layout : Layout) : Layout where
  statements := layout.statements.map (.rename f)
  diagnostics := layout.diagnostics.map (.rename f)

/-- The names in statements, of labels and of targets. -/
def names (statements : List Statement) : List String :=
  (fragments statements).filterMap Fragment.name?

theorem mem_names {statements : List Statement} {name : String} :
    name ∈ names statements ↔ ∃ fragment ∈ fragments statements, fragment.name? = some name := by
  rw [names, List.mem_filterMap]

theorem mem_names_iff {statements : List Statement} {name : String} :
    name ∈ names statements ↔ name ∈ labelNames statements ∨ name ∈ targets statements := by
  rw [mem_names, mem_labelNames, targets, List.mem_filterMap, ← exists_or]
  apply exists_congr
  rintro ⟨location, content⟩
  cases content <;> simp [Fragment.name?, Fragment.labelName?, Fragment.target?]

theorem mem_names_of_mem_labelTable {statements : List Statement} {entry : String × Nat}
    (h : entry ∈ labelTable statements) : entry.1 ∈ names statements := by
  rw [mem_names_iff, ← map_fst_labelTable]
  exact .inl (List.mem_map_of_mem h)

/-- The detour brings in no name but its own. -/
theorem mem_names_route {source routed : List Statement} (h : (route source).result = .ok routed)
    {name : String} (hn : name ∈ names routed) : name ∈ names source ∨ name = skipLabel := by
  obtain ⟨fragment, hf, hn⟩ := mem_names.1 hn
  obtain ⟨statement, hs, hf⟩ := List.mem_flatMap.1 hf
  rcases mem_route h hs with hs | hs
  · exact .inl (mem_names.2 ⟨fragment, List.mem_flatMap.2 ⟨statement, hs, hf⟩, hn⟩)
  · simp only [List.mem_cons, List.not_mem_nil, or_false] at hs
    rcases hs with rfl | rfl | rfl
    · obtain rfl := List.mem_singleton.1 hf
      exact .inr (Option.some.inj hn).symm
    · obtain rfl := List.mem_singleton.1 hf
      cases hn
    · obtain rfl := List.mem_singleton.1 hf
      exact .inr (Option.some.inj hn).symm

@[simp] theorem names_place (address : Nat) (statements : List Statement) :
    names (place address statements) = names statements := by
  rw [names, fragments_place, filterMap_placeFragments Fragment.name?_placeAt, names]

/-! ## Renamed statements -/

section

variable (f : String → String) (statements : List Statement)

@[simp] theorem fragments_rename :
    fragments (statements.map (.rename f)) = (fragments statements).map (.rename f) :=
  fragments_map (fun _ => rfl) statements

theorem labelNames_rename :
    labelNames (statements.map (.rename f)) = (labelNames statements).map f := by
  rw [labelNames, fragments_rename, List.filterMap_map, labelNames, List.map_filterMap]
  congr 1
  funext fragment
  exact Fragment.labelName?_rename f fragment

theorem targets_rename : targets (statements.map (.rename f)) = (targets statements).map f := by
  rw [targets, fragments_rename, List.filterMap_map, targets, List.map_filterMap]
  congr 1
  funext fragment
  exact Fragment.target?_rename f fragment

theorem labelTable_rename :
    labelTable (statements.map (.rename f)) = (labelTable statements).map (Prod.map f id) := by
  rw [labelTable, fragments_rename, List.filterMap_map, labelTable, List.map_filterMap]
  congr 1
  funext fragment
  simp only [Function.comp_apply, Fragment.labelName?_rename, Fragment.location_rename,
    Option.map_map]
  rfl

theorem image_rename : image (statements.map (.rename f)) = image statements := by
  rw [image, image, ← fragments, ← fragments, fragments_rename, List.flatMap_map]
  simp only [Fragment.values_rename]

theorem diagnose_rename :
    diagnose (statements.map (.rename f)) = (diagnose statements).map (.rename f) := by
  rw [diagnose, fragments_rename, List.filterMap_map, diagnose, List.map_filterMap]
  congr 1
  funext ⟨location, content⟩
  cases content with
  | operation value => rfl
  | label name used => cases used <;> rfl
  | jump kind target destination => rfl

/-! The steps before the jumps are resolved do not read names. -/

@[simp] theorem finish_rename : finish (statements.map (.rename f)) = finish statements := by
  rw [finish, extent_eq_totalCells, fragments_rename,
    Fragment.totalCells_map _ (Fragment.cells_rename f), ← extent_eq_totalCells, finish]

theorem safeCount_rename (address : Nat) :
    safeCount address (statements.map (.rename f)) = safeCount address statements := by
  apply safeCount_eq_of_cells
  rw [List.map_map]
  exact List.map_congr_left fun statement _ => Statement.cells_rename f statement

theorem interruption_rename : interruption (statements.map (.rename f)) =
    bimap (.rename f) id (interruption statements) := by
  rw [interruption, interruption, safeCount_rename]
  cases safeCount Memory.programStart statements with
  | zero => rfl
  | succ count =>
    simp only [← List.map_take, finish_rename]
    rfl

theorem checkSize_rename : checkSize (statements.map (.rename f)) =
    bimap (.rename f) id (checkSize statements) := by
  rw [checkSize, checkSize, finish_rename]
  split <;> rfl

theorem placeFragments_rename (address : Nat) (fragments : List Fragment) :
    placeFragments address (fragments.map (.rename f)) =
      (placeFragments address fragments).map (.rename f) := by
  induction fragments generalizing address with
  | nil => rfl
  | cons fragment fragments ih =>
    simp only [List.map_cons, placeFragments, Fragment.cells_rename, Fragment.placeAt_rename, ih]

theorem place_rename (address : Nat) :
    place address (statements.map (.rename f)) = (place address statements).map (.rename f) := by
  induction statements generalizing address with
  | nil => rfl
  | cons statement statements ih =>
    rw [List.map_cons, place, place, List.map_cons, ih, Statement.cells_rename,
      Statement.rename_fragments (filterMap_placeFragments Fragment.name?_placeAt _ _),
      ← placeFragments_rename]
    rfl

end

/-! ## What compares names -/

theorem settleStatement_eq (table : List (String × Nat)) (targets : List String)
    (statement : Statement) : settleStatement table targets statement =
      { statement with fragments := statement.fragments.map (settleFragment table targets) } := by
  rw [← fragments_settleStatement]
  rfl

section

variable {f : String → String} {domain : Set String} (hf : Set.InjOn f domain)

include hf

theorem contains_map {names : List String} (hnames : ∀ name ∈ names, name ∈ domain) {name : String}
    (hname : name ∈ domain) : (names.map f).contains (f name) = names.contains name := by
  rw [Bool.eq_iff_iff, List.contains_iff_mem, List.contains_iff_mem, List.mem_map]
  constructor
  · rintro ⟨other, ho, heq⟩
    exact hf (hnames other ho) hname heq ▸ ho
  · intro h
    exact ⟨name, h, rfl⟩

theorem firstRepeat?_map {seen names : List String} (hseen : ∀ name ∈ seen, name ∈ domain)
    (hnames : ∀ name ∈ names, name ∈ domain) :
    firstRepeat? (seen.map f) (names.map f) = (firstRepeat? seen names).map f := by
  induction names generalizing seen with
  | nil => rfl
  | cons name names ih =>
    have hname := hnames name List.mem_cons_self
    have hrest : ∀ other ∈ names, other ∈ domain :=
      fun other ho => hnames other (List.mem_cons_of_mem _ ho)
    have hcons : ∀ other ∈ name :: seen, other ∈ domain := by
      intro other ho
      rcases List.mem_cons.1 ho with rfl | ho
      · exact hname
      · exact hseen other ho
    rw [List.map_cons, firstRepeat?, firstRepeat?, contains_map hf hseen hname, ← List.map_cons,
      ih hcons hrest]
    split <;> rfl

theorem lookup_map {table : List (String × Nat)} (htable : ∀ entry ∈ table, entry.1 ∈ domain)
    {name : String} (hname : name ∈ domain) :
    (table.map (Prod.map f id)).lookup (f name) = table.lookup name := by
  induction table with
  | nil => rfl
  | cons entry table ih =>
    have hentry := htable entry List.mem_cons_self
    have hrest : ∀ other ∈ table, other.1 ∈ domain :=
      fun other ho => htable other (List.mem_cons_of_mem _ ho)
    have hkey : (f name == f entry.1) = (name == entry.1) := by
      rw [Bool.eq_iff_iff, beq_iff_eq, beq_iff_eq]
      exact hf.eq_iff hname hentry
    rw [List.map_cons, Prod.map, List.lookup_cons, List.lookup_cons, hkey, ih hrest]
    rfl

theorem fault?_map {table : List (String × Nat)} (htable : ∀ entry ∈ table, entry.1 ∈ domain)
    {target : String} (htarget : target ∈ domain) :
    fault? (table.map (Prod.map f id)) (f target) = (fault? table target).map (.rename f) := by
  rw [fault?, fault?, lookup_map hf htable htarget]
  cases table.lookup target with
  | none => rfl
  | some address => by_cases h : address < Memory.size <;> simp [h, LayoutError.rename]

theorem findSome?_fault?_map {table : List (String × Nat)}
    (htable : ∀ entry ∈ table, entry.1 ∈ domain) {targets : List String}
    (htargets : ∀ target ∈ targets, target ∈ domain) :
    (targets.map f).findSome? (fault? (table.map (Prod.map f id))) =
      (targets.findSome? (fault? table)).map (.rename f) := by
  induction targets with
  | nil => rfl
  | cons target targets ih =>
    rw [List.map_cons, List.findSome?_cons, List.findSome?_cons,
      fault?_map hf htable (htargets target List.mem_cons_self),
      ih fun other ho => htargets other (List.mem_cons_of_mem _ ho)]
    cases fault? table target <;> rfl

theorem settleFragment_rename {table : List (String × Nat)}
    (htable : ∀ entry ∈ table, entry.1 ∈ domain) {targets : List String}
    (htargets : ∀ target ∈ targets, target ∈ domain) {fragment : Fragment}
    (hfragment : ∀ name, fragment.name? = some name → name ∈ domain) :
    settleFragment (table.map (Prod.map f id)) (targets.map f) (fragment.rename f) =
      (settleFragment table targets fragment).rename f := by
  obtain ⟨location, content⟩ := fragment
  cases content with
  | operation value => rfl
  | label name used =>
    have hmark := contains_map hf htargets (hfragment name rfl)
    simp only [settleFragment, Fragment.rename, aimFragment, markFragment, hmark]
  | jump kind target destination =>
    have haim := lookup_map hf htable (hfragment target rfl)
    simp only [settleFragment, Fragment.rename, aimFragment, markFragment, haim]

theorem settleStatement_rename {table : List (String × Nat)}
    (htable : ∀ entry ∈ table, entry.1 ∈ domain) {targets : List String}
    (htargets : ∀ target ∈ targets, target ∈ domain) {statement : Statement}
    (hstatement : ∀ fragment ∈ statement.fragments, ∀ name, fragment.name? = some name →
      name ∈ domain) :
    settleStatement (table.map (Prod.map f id)) (targets.map f) (statement.rename f) =
      (settleStatement table targets statement).rename f := by
  have hnames : (statement.fragments.map (settleFragment table targets)).filterMap Fragment.name? =
      statement.fragments.filterMap Fragment.name? := by
    rw [List.filterMap_map]
    congr 1
    funext fragment
    exact Fragment.name?_settleFragment fragment table targets
  have hfragments : (statement.fragments.map (Fragment.rename f)).map
      (settleFragment (table.map (Prod.map f id)) (targets.map f)) =
      (statement.fragments.map (settleFragment table targets)).map (Fragment.rename f) := by
    rw [List.map_map, List.map_map]
    apply List.map_congr_left
    intro fragment hmem
    exact settleFragment_rename hf htable htargets (hstatement fragment hmem)
  rw [settleStatement_eq, settleStatement_eq, Statement.rename_fragments hnames, ← hfragments]
  rfl

end

section

variable {f : String → String} {statements : List Statement}
  (hf : Set.InjOn f {name | name ∈ names statements})

include hf

theorem firstRepeat?_labelNames_rename :
    firstRepeat? [] (labelNames (statements.map (.rename f))) =
      (firstRepeat? [] (labelNames statements)).map f := by
  have hlabels : ∀ name ∈ labelNames statements, name ∈ {name | name ∈ names statements} :=
    fun name hn => mem_names_iff.2 (.inl hn)
  rw [labelNames_rename]
  exact firstRepeat?_map hf (List.forall_mem_nil _) hlabels

theorem checkLabels_rename : checkLabels (statements.map (.rename f)) =
    bimap (.rename f) id (checkLabels statements) := by
  rw [checkLabels_eq_elim, checkLabels_eq_elim, bimap_elim, firstRepeat?_labelNames_rename hf,
    Option.map_map, Option.map_map]
  rfl

theorem settle_rename :
    settle (statements.map (.rename f)) = (settle statements).map (.rename f) := by
  rw [settle, settle, labelTable_rename, targets_rename, List.map_map, List.map_map]
  apply List.map_congr_left
  intro statement hs
  apply settleStatement_rename hf
  · exact fun entry he => mem_names_of_mem_labelTable he
  · exact fun target ht => mem_names_iff.2 (.inr ht)
  · exact fun fragment hmem name hn =>
      mem_names.2 ⟨fragment, List.mem_flatMap.2 ⟨statement, hs, hmem⟩, hn⟩

/-- Resolving comes to the same under other names. -/
theorem resolve_rename : resolve (statements.map (.rename f)) =
    bimap (.rename f) (List.map (.rename f)) (resolve statements) := by
  have hfault : ((targets statements).map f).findSome?
      (fault? ((labelTable statements).map (Prod.map f id))) =
      ((targets statements).findSome? (fault? (labelTable statements))).map (.rename f) := by
    apply findSome?_fault?_map hf
    · exact fun entry he => mem_names_of_mem_labelTable he
    · exact fun target ht => mem_names_iff.2 (.inr ht)
  rw [resolve_eq_elim, resolve_eq_elim, bimap_elim, firstRepeat?_labelNames_rename hf,
    targets_rename, labelTable_rename, hfault, settle_rename hf, Option.map_or, Option.map_map,
    Option.map_map]
  rfl

end

/-! ## The whole layout -/

section

variable {f : String → String} {source : List Statement} (hskip : f skipLabel = skipLabel)

include hskip

theorem map_rename_skip (resume : Nat) : (skip resume).map (.rename f) = skip resume := by
  have hjump : skipJump.rename f = skipJump := by
    show Statement.mk [_, f skipLabel] [.jump _ (f skipLabel)] = _
    rw [hskip]
    rfl
  have htarget : skipTarget.rename f = skipTarget := by
    show Statement.mk [_, f skipLabel] [.label (f skipLabel)] = _
    rw [hskip]
    rfl
  have hfiller : skipFiller.rename f = skipFiller := rfl
  rw [skip, List.map_cons, List.map_append, List.map_replicate, List.map_singleton, hjump, htarget,
    hfiller]

theorem route_rename : (route (source.map (.rename f))).result =
    bimap (.rename f) (List.map (.rename f)) (route source).result := by
  rw [result_route, result_route, finish_rename, interruption_rename]
  split
  · rfl
  · cases interruption source with
    | error e => rfl
    | ok point =>
      obtain ⟨count, resume⟩ := point
      show Except.ok (insertSkip (source.map (.rename f)) count resume) = _
      rw [insertSkip, ← List.map_take, ← List.map_drop, ← map_rename_skip hskip, ← List.map_append,
        ← List.map_append]
      rfl

/-- **Laying out commutes with renaming**, if different names in the source stay different from each
other and from the name of the detour's label. -/
theorem layOut_rename (hf : Set.InjOn f {name | name ∈ names source ∨ name = skipLabel}) :
    layOut (source.map (.rename f)) = bimap (.rename f) (.rename f) (layOut source) := by
  rw [layOut_eq_bind, layOut_eq_bind, checkLabels_rename (hf.mono fun name => .inl)]
  apply bind_bimap
  intro _ _
  rw [route_rename hskip]
  apply bind_bimap
  intro routed hroute
  rw [checkSize_rename]
  apply bind_bimap
  intro _ _
  -- From here on the name of the detour's label is compared with those of the source.
  have hrouted : Set.InjOn f {name | name ∈ names (place Memory.programStart routed)} := by
    apply hf.mono
    intro name hn
    rw [Set.mem_ofPred_eq, names_place] at hn
    exact mem_names_route hroute hn
  rw [place_rename, resolve_rename hrouted]
  apply bind_bimap
  intro statements _
  rw [diagnose_rename]
  rfl

end

/-! ## Written sources -/

theorem map_rename_congr {f g : String → String} {statements : List Statement}
    (h : ∀ name ∈ names statements, f name = g name) :
    statements.map (Statement.rename f) = statements.map (Statement.rename g) := by
  apply List.map_congr_left
  intro statement hs
  apply Statement.rename_congr
  intro fragment hf name hn
  exact h name (mem_names.2 ⟨fragment, List.mem_flatMap.2 ⟨statement, hs, hf⟩, hn⟩)

/-- A finding is about a label that no jump goes to. -/
theorem of_mem_diagnose_settle {statements : List Statement} {diagnostic : Diagnostic}
    (h : diagnostic ∈ diagnose (settle statements)) :
    diagnostic.label ∈ labelNames statements ∧ diagnostic.label ∉ targets statements := by
  rw [diagnose, fragments_settle, List.mem_filterMap] at h
  obtain ⟨settled, hs, hd⟩ := h
  obtain ⟨⟨location, content⟩, hf, rfl⟩ := List.mem_map.1 hs
  cases content with
  | operation value => cases hd
  | jump kind target destination => cases hd
  | label name used =>
    simp only [settleFragment, aimFragment, markFragment, diagnose?] at hd
    split at hd
    · rename_i heq
      obtain ⟨rfl, hused⟩ := Content.label.inj heq
      obtain rfl := Option.some.inj hd
      refine ⟨mem_labelNames.2 ⟨_, hf, rfl⟩, ?_⟩
      show name ∉ targets statements
      simpa using (Bool.or_eq_false_iff.1 hused).2
    · cases hd

end Layout

namespace Written

open Layout

variable {source : List Statement}

theorem opensComment_name (hs : Written source) {name : String} (hn : name ∈ names source) :
    opensComment name = false := by
  rcases mem_names_iff.1 hn with hn | hn
  · exact hs.opensComment_label hn
  · exact hs.opensComment_target hn

theorem ne_skipLabel (hs : Written source) {name : String} (hn : name ∈ names source) :
    name ≠ skipLabel := by
  rintro rfl
  exact Bool.false_ne_true ((hs.opensComment_name hn).symm.trans opensComment_skipLabel)

/-- A finding is about a label of the source: the label of the detour is used. -/
theorem label_ne_skipLabel (hs : Written source) {layout : Layout} (h : layOut source = .ok layout)
    {diagnostic : Diagnostic} (hd : diagnostic ∈ layout.diagnostics) :
    diagnostic.label ≠ skipLabel := by
  obtain ⟨-, routed, hroute, -, hresolve, hdiagnose⟩ := layOut_eq_ok_iff.1 h
  obtain ⟨-, -, hsettle⟩ := resolve_eq_ok_iff.1 hresolve
  rw [← hdiagnose, ← hsettle] at hd
  obtain ⟨hlabel, htarget⟩ := of_mem_diagnose_settle hd
  rw [labelNames_place] at hlabel
  rw [targets_place] at htarget
  rintro heq
  rw [heq] at hlabel htarget
  rcases route_eq_ok_iff.1 hroute with ⟨-, rfl⟩ | ⟨-, index, -, rfl⟩
  · exact hs.skipLabel_notMem_labelNames hlabel
  · apply htarget
    rw [targets_detoured]
    simp

/-- An error is about a name of the source. -/
theorem rename_error_congr (hs : Written source) {e : LayoutError} (h : layOut source = .error e)
    {f g : String → String} (hfg : ∀ name ∈ names source, f name = g name) :
    e.rename f = e.rename g := by
  have hverdict := verdict_error? hs
  rw [error?_eq_some_iff.2 h] at hverdict
  cases hverdict with
  | duplicate hnames =>
    simp only [LayoutError.rename]
    rw [hfg _ (mem_names_iff.2 (.inl (by simp [hnames])))]
  | noRoom => rfl
  | tooLarge => rfl
  | faultyJump _ _ _ htargets _ htarget =>
    cases htarget with
    | undefined =>
      simp only [LayoutError.rename]
      rw [hfg _ (mem_names_iff.2 (.inr (by simp [htargets])))]
    | beyond => rfl

end Written

theorem Instruction.names_encode (instruction : Instruction) :
    instruction.encode.filterMap Fragment.name? = instruction.name?.toList := by
  cases instruction with
  | add source reg => cases source <;> rfl
  | subtract source reg => cases source <;> rfl
  | branch reg test target => cases test <;> rfl
  | bytes values => exact filterMap_operation (fun _ => rfl) values
  | _ => rfl

theorem Statement.rename_of_name?_eq_none (f : String → String) {tokens : List String}
    {instruction : Instruction} (h : instruction.name? = none) :
    (ofInstruction tokens instruction).rename f = ofInstruction tokens instruction := by
  have hnames : instruction.encode.filterMap Fragment.name? = [] := by
    rw [Instruction.names_encode, h]
    rfl
  have hfragments : instruction.encode.map (Fragment.rename f) = instruction.encode := by
    rw [List.filterMap_eq_nil_iff] at hnames
    refine (List.map_congr_left fun fragment hf => ?_).trans (List.map_id _)
    exact Fragment.rename_of_name?_eq_none f (hnames fragment hf)
  simp only [rename, name?, ofInstruction, hnames, hfragments]
  rfl

/-- A written statement under another name is written: its tokens write it. -/
theorem Statement.exists_ofTokens_rename {f : String → String} {tokens : List String}
    {instruction : Instruction} (h : Instruction.parse tokens = .ok instruction)
    (hplain : ∀ name, instruction.name? = some name → opensComment (f name) = false) :
    ∃ words, ofTokens words = .ok ((ofInstruction tokens instruction).rename f) := by
  have hparse : ∀ {words renamed}, Instruction.Denotes words renamed →
      ofTokens words = .ok (ofInstruction words renamed) := fun hdenotes =>
    map_eq_ok.2 ⟨_, Instruction.parse_of_denotes hdenotes, rfl⟩
  have hdenotes := Instruction.denotes_of_parse h
  cases hname : instruction.name? with
  | none =>
    refine ⟨tokens, ?_⟩
    rw [rename_of_name?_eq_none f hname]
    exact hparse hdenotes
  | some name =>
    have hopens : Operand.IsName (f name) := beq_eq_false_iff_ne.1 (hplain name hname)
    cases hdenotes with
    | @label word _ hword _ =>
      cases hname
      exact ⟨[word, f name], hparse (.label hword hopens)⟩
    | @goto word _ hword _ =>
      cases hname
      exact ⟨[word, f name], hparse (.goto hword hopens)⟩
    | @branch word left middle goto _ reg test hword hgoto hreg htest _ =>
      cases hname
      refine ⟨[word, left, middle, goto, f name], ?_⟩
      rw [hparse (.branch hword hgoto hreg htest hopens)]
      cases test <;> rfl
    | _ => cases hname

/-- Written statements under other names are written. -/
theorem Written.rename {source : List Statement} (hs : Written source) {f : String → String}
    (hplain : ∀ name ∈ names source, opensComment (f name) = false) :
    Written (source.map (.rename f)) := by
  intro renamed hr
  obtain ⟨statement, hmem, rfl⟩ := List.mem_map.1 hr
  obtain ⟨tokens, instruction, hparse, rfl⟩ := hs.exists_instruction hmem
  apply Statement.exists_ofTokens_rename hparse
  intro name hname
  apply hplain
  have hnames : name ∈ instruction.encode.filterMap Fragment.name? := by
    rw [Instruction.names_encode, hname]
    exact List.mem_singleton_self name
  obtain ⟨fragment, hf, hn⟩ := List.mem_filterMap.1 hnames
  exact mem_names.2 ⟨fragment, List.mem_flatMap.2 ⟨_, hmem, hf⟩, hn⟩

/-- A renaming of a written source can be made to keep the name of the detour's label. -/
theorem Written.injOn_update {source : List Statement} (hs : Written source) {f : String → String}
    (hf : Set.InjOn f {name | name ∈ names source})
    (hplain : ∀ name ∈ names source, opensComment (f name) = false) :
    Set.InjOn (Function.update f skipLabel skipLabel)
      {name | name ∈ names source ∨ name = skipLabel} := by
  have hkept : ∀ name ∈ names source, Function.update f skipLabel skipLabel name = f name :=
    fun name hn => Function.update_of_ne (hs.ne_skipLabel hn) _ _
  have hapart : ∀ name ∈ names source, f name ≠ skipLabel := by
    intro name hn heq
    have hopens := hplain name hn
    rw [heq, opensComment_skipLabel] at hopens
    cases hopens
  rintro first (hfirst | rfl) second (hsecond | rfl) heq
  · rw [hkept first hfirst, hkept second hsecond] at heq
    exact hf hfirst hsecond heq
  · rw [hkept first hfirst, Function.update_self] at heq
    exact absurd heq (hapart first hfirst)
  · rw [hkept second hsecond, Function.update_self] at heq
    exact absurd heq.symm (hapart second hsecond)
  · rfl

/-- **Names of labels carry no meaning but identity.** Let the names in a written source be
replaced, different names by different ones, and none by a name that begins as a comment does. The
new statements are written too. They are laid out if the old ones are: to the same statements but
for the names, with the same image, the same places and the same destinations, and with the same
findings under their new names. Otherwise they fail with the same error under its new name. The name
of the detour's label is in neither source, and is kept in both layouts. -/
theorem layOut_renamed {source : List Statement} {f : String → String} (hs : Written source)
    (hf : Set.InjOn f {name | name ∈ names source})
    (hplain : ∀ name ∈ names source, opensComment (f name) = false) :
    Written (source.map (.rename f)) ∧
    (layOut (source.map (.rename f))).isOk = (layOut source).isOk ∧
    (∀ layout, layOut source = .ok layout →
      ∃ renamed, layOut (source.map (.rename f)) = .ok renamed ∧
        renamed.statements =
          layout.statements.map (.rename (Function.update f skipLabel skipLabel)) ∧
        image renamed.statements = image layout.statements ∧
        (fragments renamed.statements).map Fragment.location =
          (fragments layout.statements).map Fragment.location ∧
        (fragments renamed.statements).map Fragment.destination? =
          (fragments layout.statements).map Fragment.destination? ∧
        renamed.diagnostics = layout.diagnostics.map (.rename f)) ∧
    (∀ e, layOut source = .error e → layOut (source.map (.rename f)) = .error (e.rename f)) ∧
    skipLabel ∉ names source ∧ skipLabel ∉ names (source.map (.rename f)) := by
  have hwritten := hs.rename hplain
  have hkept : ∀ name ∈ names source, Function.update f skipLabel skipLabel name = f name :=
    fun name hn => Function.update_of_ne (hs.ne_skipLabel hn) _ _
  -- `f` may do anything to the name of the detour's label, which no statement of the source has;
  -- the layouts agree under the renaming that keeps it.
  have hlayout := layOut_rename (Function.update_self ..) (hs.injOn_update hf hplain)
  rw [map_rename_congr hkept] at hlayout
  refine ⟨hwritten, ?_, fun layout h => ?_, fun e h => ?_, fun hn => hs.ne_skipLabel hn rfl,
    fun hn => hwritten.ne_skipLabel hn rfl⟩
  · rw [hlayout]
    cases layOut source <;> rfl
  · rw [h] at hlayout
    refine ⟨_, hlayout, rfl, image_rename _ _, ?_, ?_, ?_⟩
    · simp [Layout.rename]
    · simp [Layout.rename]
    · apply List.map_congr_left
      rintro ⟨name⟩ hd
      have hname : name ≠ skipLabel := hs.label_ne_skipLabel h hd
      simp only [Diagnostic.rename, Function.update_of_ne hname]
  · rw [hlayout, h]
    exact congrArg Except.error (hs.rename_error_congr h hkept)

theorem layOut_renamed_crossing : ∃ layout renamed, layOut crossing = .ok layout ∧
    layOut (crossing.map (.rename (Equiv.swap "middle" "end"))) = .ok renamed ∧
    image renamed.statements = image layout.statements ∧
    layout.diagnostics = [.unusedLabel "middle"] ∧ renamed.diagnostics = [.unusedLabel "end"] := by
  obtain ⟨layout, h⟩ := exists_layOut_crossing
  have hfound : (layOut crossing).toOption.map Layout.diagnostics =
      some [.unusedLabel "middle"] := by
    decide +kernel
  rw [h] at hfound
  have hdiagnostics : layout.diagnostics = [.unusedLabel "middle"] := Option.some.inj hfound
  have hplain : ∀ name ∈ names crossing,
      opensComment (Equiv.swap "middle" "end" name) = false := by
    decide +kernel
  obtain ⟨-, -, hok, -⟩ :=
    layOut_renamed written_crossing (Equiv.swap "middle" "end").injective.injOn hplain
  obtain ⟨renamed, hrenamed, -, himage, -, -, hrenamedDiagnostics⟩ := hok layout h
  refine ⟨layout, renamed, h, hrenamed, himage, hdiagnostics, ?_⟩
  rw [hrenamedDiagnostics, hdiagnostics]
  simp [Diagnostic.rename]

end CrossAssembler
