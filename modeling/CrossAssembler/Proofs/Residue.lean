import CrossAssembler.Proofs.UnusedLabels

/-!
# What an earlier layout leaves behind

Statements of a laid-out program carry locations, destinations and the marks of used labels. When
such statements are laid out once more, their locations and destinations are all overwritten, and so
is the mark of each label that a jump goes to. The mark of any other label stays: it keeps the label
from being found to be unused (`layOut_keeps_mark`).

* `Refreshes` is said of a change of fragments that takes away only what a layout adds. After such a
  change a layout takes the same way and fails with the same error (`error?_layOut_modify`).
* What `Fragment.clear` takes away makes no difference at all (`layOut_clear`), and what
  `Fragment.bare` takes away makes none but to the marks (`code_layOut_bare`).
* A label is found to be unused if no jump goes to it and it was not marked already
  (`mem_diagnostics_iff`). Hence two residues give the same layout just if they agree in the marks
  that stay (`layOut_residue`).
-/

namespace List

theorem map_eq_of_map_eq {α β γ : Type} {f : α → β} {g : α → γ} {as bs : List α}
    (h : as.map f = bs.map f) (hg : ∀ a ∈ as, ∀ b ∈ bs, f a = f b → g a = g b) :
    as.map g = bs.map g := by
  induction as generalizing bs with
  | nil => rw [map_eq_nil_iff.1 h.symm]
  | cons a as ih =>
    cases bs with
    | nil => cases h
    | cons b bs =>
      obtain ⟨hhead, hrest⟩ := cons.inj h
      rw [map_cons, map_cons, hg a mem_cons_self b mem_cons_self hhead,
        ih hrest fun a ha b hb => hg a (mem_cons_of_mem _ ha) b (mem_cons_of_mem _ hb)]

end List

namespace CrossAssembler

open Fallible

/-! ## Residues -/

namespace Fragment

/-- The fragment without what is overwritten when it is laid out among jumps with these targets: its
location, its destination, and its mark if it is a label that a jump goes to. -/
def clear (targets : List String) (fragment : Fragment) : Fragment :=
  match fragment.content with
  | .operation value => .operation value
  | .label name used => ⟨0, .label name (used && !targets.contains name)⟩
  | .jump kind target _ => .jump kind target

/-- The fragment without its mark. -/
def unmark (fragment : Fragment) : Fragment :=
  match fragment.content with
  | .label name _ => { fragment with content := .label name false }
  | _ => fragment

/-- The name and the mark of a label, if the fragment is one. -/
def mark? (fragment : Fragment) : Option (String × Bool) :=
  match fragment.content with
  | .label name used => some (name, used)
  | _ => none

theorem mark?_eq_some_iff {fragment : Fragment} {name : String} {used : Bool} :
    fragment.mark? = some (name, used) ↔ fragment.content = .label name used := by
  obtain ⟨location, content⟩ := fragment
  cases content <;> simp [mark?]

/-- A change of a fragment takes away nothing but what a layout adds. -/
structure Refreshes (change : Fragment → Fragment) : Prop where
  bare_eq (fragment : Fragment) : (change fragment).bare = fragment.bare
  of_bare (fragment : Fragment) : change fragment.bare = fragment.bare

namespace Refreshes

theorem bare : Refreshes bare := by
  constructor <;> rintro ⟨location, content⟩ <;> cases content <;> rfl

theorem clear (targets : List String) : Refreshes (clear targets) := by
  constructor <;> rintro ⟨location, content⟩ <;> cases content <;> rfl

variable {change : Fragment → Fragment} (h : Refreshes change)

include h

theorem cells_eq (fragment : Fragment) : (change fragment).cells = fragment.cells :=
  cells_eq_of_bare_eq (h.bare_eq fragment)

theorem labelName?_eq (fragment : Fragment) :
    (change fragment).labelName? = fragment.labelName? :=
  labelName?_eq_of_bare_eq (h.bare_eq fragment)

theorem target?_eq (fragment : Fragment) : (change fragment).target? = fragment.target? :=
  target?_eq_of_bare_eq (h.bare_eq fragment)

end Refreshes

end Fragment

/-- The statement with its fragments changed. -/
def Statement.modify (change : Fragment → Fragment) (statement : Statement) : Statement :=
  { statement with fragments := statement.fragments.map change }

namespace Layout

open Fragment (Refreshes)

/-- The names and marks of the labels, in program order. -/
def marks (statements : List Statement) : List (String × Bool) :=
  (fragments statements).filterMap Fragment.mark?

/-- The label of a name is marked as used. -/
def Marked (statements : List Statement) (name : String) : Prop := (name, true) ∈ marks statements

/-- The code of a layout: all of its statements but the marks. -/
def code (layout : Layout) : List Statement := layout.statements.map (.modify Fragment.unmark)

/-! ## Refreshed statements -/

section

variable {change : Fragment → Fragment} (h : Refreshes change) (statements : List Statement)

theorem fragments_modify (change : Fragment → Fragment) :
    fragments (statements.map (.modify change)) = (fragments statements).map change :=
  fragments_map (fun _ => rfl) statements

include h

theorem map_cells_modify :
    (statements.map (.modify change)).map Statement.cells = statements.map Statement.cells := by
  rw [List.map_map]
  exact List.map_congr_left fun statement _ =>
    Fragment.totalCells_map change h.cells_eq statement.fragments

theorem labelNames_modify :
    labelNames (statements.map (.modify change)) = labelNames statements := by
  rw [labelNames, fragments_modify, List.filterMap_map, labelNames]
  exact List.filterMap_congr fun fragment _ => h.labelName?_eq fragment

theorem targets_modify : targets (statements.map (.modify change)) = targets statements := by
  rw [targets, fragments_modify, List.filterMap_map, targets]
  exact List.filterMap_congr fun fragment _ => h.target?_eq fragment

theorem skip_modify (resume : Nat) : (skip resume).map (.modify change) = skip resume := by
  have hbare : (skip resume).map Statement.bare = skip resume := by
    rw [skip, List.map_cons, List.map_append, List.map_replicate]
    rfl
  rw [← hbare, List.map_map]
  apply List.map_congr_left
  intro statement _
  have hfragments : (statement.fragments.map Fragment.bare).map change =
      statement.fragments.map Fragment.bare := by
    rw [List.map_map]
    exact List.map_congr_left fun fragment _ => h.of_bare fragment
  exact congrArg (Statement.mk statement.tokens) hfragments

/-- Refreshed code takes the same way. -/
theorem route_modify (source : List Statement) :
    (route (source.map (.modify change))).result =
      (route source).result.map (List.map (.modify change)) := by
  have hcells := map_cells_modify h source
  rw [result_route, result_route, finish_eq_of_cells hcells, interruption_eq_of_cells hcells]
  split
  · rfl
  · cases interruption source with
    | error e => rfl
    | ok point =>
      obtain ⟨count, resume⟩ := point
      show Except.ok (insertSkip (source.map (.modify change)) count resume) =
        .ok ((insertSkip source count resume).map (.modify change))
      rw [insertSkip, insertSkip, List.map_append, List.map_append, skip_modify h, List.map_take,
        List.map_drop]

/-- A view of placed fragments that does not see the change is the same after it. -/
theorem map_placeFragments_modify {α : Type} (view : Fragment → α)
    (hview : ∀ fragment address,
      view ((change fragment).placeAt address) = view (fragment.placeAt address))
    (address : Nat) (fragments : List Fragment) :
    (placeFragments address (fragments.map change)).map view =
      (placeFragments address fragments).map view := by
  induction fragments generalizing address with
  | nil => rfl
  | cons fragment fragments ih =>
    simp only [List.map_cons, placeFragments, h.cells_eq, hview, ih]

theorem labelTable_place_modify (address : Nat) :
    labelTable (place address (statements.map (.modify change))) =
      labelTable (place address statements) := by
  have hview := map_placeFragments_modify h
    (fun fragment => fragment.labelName?.map fun name => (name, fragment.location))
    (fun fragment address => by
      simp only [Fragment.labelName?_placeAt, h.labelName?_eq]
      rfl) address (fragments statements)
  have htable := congrArg (List.filterMap id) hview
  rw [List.filterMap_map, List.filterMap_map] at htable
  rw [labelTable, labelTable, fragments_place, fragments_place, fragments_modify]
  exact htable

/-- A view of settled fragments that does not see the change is the same after it. -/
theorem map_settle_place_modify {table : List (String × Nat)} {targets : List String}
    (view : Fragment → Fragment)
    (hview : ∀ fragment address,
      view (settleFragment table targets ((change fragment).placeAt address)) =
        view (settleFragment table targets (fragment.placeAt address)))
    (address : Nat) :
    ((place address (statements.map (.modify change))).map (settleStatement table targets)).map
        (Statement.modify view) =
      ((place address statements).map (settleStatement table targets)).map
        (Statement.modify view) := by
  induction statements generalizing address with
  | nil => rfl
  | cons statement statements ih =>
    have hcells : (statement.modify change).cells = statement.cells :=
      Fragment.totalCells_map change h.cells_eq statement.fragments
    have hfragments := map_placeFragments_modify h (view ∘ settleFragment table targets) hview
      address statement.fragments
    rw [List.map_cons, place, place, List.map_cons, List.map_cons, List.map_cons, List.map_cons,
      hcells, ih]
    congr 1
    show Statement.mk statement.tokens ((settleStatement table targets _).fragments.map view) =
      Statement.mk statement.tokens ((settleStatement table targets _).fragments.map view)
    rw [fragments_settleStatement, fragments_settleStatement, List.map_map, List.map_map]
    exact congrArg (Statement.mk statement.tokens) hfragments

/-- Refreshed code fails with the same error. -/
theorem error?_layOut_modify (source : List Statement) :
    error? (layOut (source.map (.modify change))) = error? (layOut source) := by
  rw [error?_layOut, error?_layOut, labelNames_modify h, route_modify h]
  cases (route source).result with
  | error e => rfl
  | ok routed =>
    have hfinish : finish (routed.map (.modify change)) = finish routed :=
      finish_eq_of_cells (map_cells_modify h routed)
    simp only [Except.map, hfinish, labelNames_modify h, targets_modify h,
      labelTable_place_modify h]

/-- A view of the settled code that does not see the change is the same after it. -/
theorem map_layOut_modify {γ : Type} (view : List Statement → γ) {source : List Statement}
    (hview : ∀ routed, (route source).result = .ok routed →
      view (settle (place Memory.programStart (routed.map (.modify change)))) =
        view (settle (place Memory.programStart routed))) :
    (layOut (source.map (.modify change))).map (fun layout => view layout.statements) =
      (layOut source).map (fun layout => view layout.statements) := by
  have herror := error?_layOut_modify h source
  cases hlayout : layOut source with
  | error e =>
    rw [hlayout] at herror
    rw [error?_eq_some_iff.1 herror]
  | ok layout =>
    rw [hlayout] at herror
    obtain ⟨refreshed, hrefreshed⟩ := error?_eq_none_iff.1 herror
    obtain ⟨-, routed, hroute, -, hresolve, -⟩ := layOut_eq_ok_iff.1 hlayout
    obtain ⟨-, routed', hroute', -, hresolve', -⟩ := layOut_eq_ok_iff.1 hrefreshed
    rw [route_modify h, hroute] at hroute'
    cases hroute'
    obtain ⟨-, -, hsettle⟩ := resolve_eq_ok_iff.1 hresolve
    obtain ⟨-, -, hsettle'⟩ := resolve_eq_ok_iff.1 hresolve'
    have heq := hview routed hroute
    rw [hsettle, hsettle'] at heq
    rw [hrefreshed]
    exact congrArg Except.ok heq

end

/-! ## What makes no difference -/

theorem settleFragment_clear (table : List (String × Nat)) {cleared targets : List String}
    (h : ∀ name ∈ cleared, name ∈ targets) (fragment : Fragment) (address : Nat) :
    settleFragment table targets ((fragment.clear cleared).placeAt address) =
      settleFragment table targets (fragment.placeAt address) := by
  obtain ⟨location, content⟩ := fragment
  cases content with
  | operation value => rfl
  | jump kind target destination => rfl
  | label name used =>
    have hmark : (used && !cleared.contains name || targets.contains name) =
        (used || targets.contains name) := by
      by_cases hname : name ∈ cleared
      · simp [h name hname]
      · simp [hname]
    simp only [settleFragment, Fragment.clear, Fragment.placeAt, aimFragment, markFragment, hmark]

theorem unmark_settleFragment_bare (table : List (String × Nat)) (targets : List String)
    (fragment : Fragment) (address : Nat) :
    (settleFragment table targets (fragment.bare.placeAt address)).unmark =
      (settleFragment table targets (fragment.placeAt address)).unmark := by
  obtain ⟨location, content⟩ := fragment
  cases content <;> rfl

/-- The code on its way has the jumps of its source. -/
theorem targets_subset_routed {source routed : List Statement}
    (hroute : (route source).result = .ok routed) {name : String} (hname : name ∈ targets source) :
    name ∈ targets routed := by
  rcases route_eq_ok_iff.1 hroute with ⟨-, rfl⟩ | ⟨-, index, -, rfl⟩
  · exact hname
  · exact (perm_targets_detoured source index).mem_iff.2 (List.mem_cons_of_mem _ hname)

theorem map_diagnose_layOut (source : List Statement) :
    (layOut source).map (fun layout => Layout.mk layout.statements (diagnose layout.statements)) =
      layOut source := by
  cases hlayout : layOut source with
  | error e => rfl
  | ok layout =>
    obtain ⟨-, -, -, -, -, hdiagnose⟩ := layOut_eq_ok_iff.1 hlayout
    exact congrArg (fun findings => Except.ok (Layout.mk layout.statements findings)) hdiagnose

/-- Locations, destinations and the marks of labels that a jump goes to make no difference. -/
theorem layOut_clear {source : List Statement} {cleared : List String}
    (h : ∀ name ∈ cleared, name ∈ targets source) :
    layOut (source.map (.modify (.clear cleared))) = layOut source := by
  have hclear := Refreshes.clear cleared
  have hid : ∀ statements : List Statement,
      statements.map (Statement.modify fun fragment => fragment) = statements := fun statements =>
    (List.map_congr_left fun statement _ =>
      congrArg (Statement.mk statement.tokens) (List.map_id' _)).trans (List.map_id _)
  rw [← map_diagnose_layOut, ← map_diagnose_layOut source]
  apply map_layOut_modify hclear fun statements => Layout.mk statements (diagnose statements)
  intro routed hroute
  have htargets : ∀ name ∈ cleared, name ∈ targets (place Memory.programStart routed) := by
    intro name hname
    rw [targets_place]
    exact targets_subset_routed hroute (h name hname)
  have hsettle := map_settle_place_modify hclear routed (fun fragment => fragment)
    (settleFragment_clear (labelTable (place Memory.programStart routed)) htargets)
    Memory.programStart
  rw [hid, hid] at hsettle
  simp only [settle, labelTable_place_modify hclear, targets_place, targets_modify hclear]
    at hsettle ⊢
  rw [hsettle]

/-- All that is not bare makes no difference but to the marks. -/
theorem code_layOut_bare (source : List Statement) :
    (layOut (source.map .bare)).map code = (layOut source).map code := by
  refine map_layOut_modify Refreshes.bare (List.map (Statement.modify Fragment.unmark)) ?_
  intro routed _
  have hsettle := map_settle_place_modify Refreshes.bare routed Fragment.unmark
    (unmark_settleFragment_bare (labelTable (place Memory.programStart routed)) (targets routed))
    Memory.programStart
  simp only [settle, labelTable_place_modify Refreshes.bare, targets_place,
    targets_modify Refreshes.bare]
  exact hsettle

/-! ## Marks -/

theorem map_fst_marks (statements : List Statement) :
    (marks statements).map Prod.fst = labelNames statements := by
  rw [marks, List.map_filterMap, labelNames]
  apply List.filterMap_congr
  rintro ⟨location, content⟩ -
  cases content <;> rfl

theorem marks_append (first second : List Statement) :
    marks (first ++ second) = marks first ++ marks second := by
  rw [marks, fragments_append, List.filterMap_append, ← marks, ← marks]

theorem marks_skip (resume : Nat) : marks (skip resume) = [(skipLabel, false)] := by
  simp only [marks, skip, fragments_cons, fragments_append, fragments_replicate_skipFiller,
    List.filterMap_append, List.filterMap_replicate]
  rfl

theorem marks_place (address : Nat) (statements : List Statement) :
    marks (place address statements) = marks statements := by
  rw [marks, fragments_place, filterMap_placeFragments fun _ _ => rfl, marks]

/-- A label that is defined once has one mark. -/
theorem eq_true_iff_marked {statements : List Statement} (hnodup : (labelNames statements).Nodup)
    {name : String} {used : Bool} (h : (name, used) ∈ marks statements) :
    used = true ↔ Marked statements name := by
  constructor
  · rintro rfl
    exact h
  · intro hmarked
    rw [← map_fst_marks] at hnodup
    exact congrArg Prod.snd (List.inj_on_of_nodup_map hnodup h hmarked rfl)

theorem diagnose?_eq_some_iff {fragment : Fragment} {name : String} :
    diagnose? fragment = some (.unusedLabel name) ↔ fragment.content = .label name false := by
  obtain ⟨location, content⟩ := fragment
  cases content with
  | operation value => simp [diagnose?]
  | jump kind target destination => simp [diagnose?]
  | label other used => cases used <;> simp [diagnose?]

theorem unmarked_settleFragment_iff {table : List (String × Nat)} {targets : List String}
    {fragment : Fragment} {name : String} :
    (settleFragment table targets fragment).content = .label name false ↔
      fragment.content = .label name false ∧ name ∉ targets := by
  obtain ⟨location, content⟩ := fragment
  cases content with
  | operation value => simp [settleFragment, aimFragment, markFragment]
  | jump kind target destination => simp [settleFragment, aimFragment, markFragment]
  | label other used =>
    simp only [settleFragment, aimFragment, markFragment, Content.label.injEq,
      Bool.or_eq_false_iff]
    constructor
    · rintro ⟨rfl, hused, hnot⟩
      exact ⟨⟨rfl, hused⟩, by simpa using hnot⟩
    · rintro ⟨⟨rfl, hused⟩, hnot⟩
      exact ⟨rfl, hused, by simpa using hnot⟩

theorem mem_diagnose_settle_iff {statements : List Statement} {name : String} :
    .unusedLabel name ∈ diagnose (settle statements) ↔
      (name, false) ∈ marks statements ∧ name ∉ targets statements := by
  rw [diagnose, fragments_settle, List.filterMap_map, List.mem_filterMap, marks,
    List.mem_filterMap, ← exists_and_right]
  simp only [Function.comp_apply, diagnose?_eq_some_iff, unmarked_settleFragment_iff,
    Fragment.mark?_eq_some_iff, and_assoc]

section

variable {source routed : List Statement} (hroute : (route source).result = .ok routed)
  (hnodup : (labelNames routed).Nodup) {name : String} (hname : name ∈ labelNames source)

include hroute hnodup hname

/-- The code on its way has the marks of its source, and no other jumps to its labels. -/
theorem mem_routed_iff (used : Bool) :
    ((name, used) ∈ marks routed ↔ (name, used) ∈ marks source) ∧
      (name ∈ targets routed ↔ name ∈ targets source) := by
  rcases route_eq_ok_iff.1 hroute with ⟨-, rfl⟩ | ⟨-, index, -, rfl⟩
  · exact ⟨Iff.rfl, Iff.rfl⟩
  · have hne : name ≠ skipLabel := by
      rintro rfl
      rw [(perm_labelNames_detoured source index).nodup_iff] at hnodup
      exact (List.nodup_cons.1 hnodup).1 hname
    constructor
    · have hsource : marks source =
          marks (source.take (index + 1)) ++ marks (source.drop (index + 1)) := by
        rw [← marks_append, List.take_append_drop]
      rw [hsource, detoured, insertSkip, marks_append, marks_append, marks_skip]
      simp [hne]
    · rw [(perm_targets_detoured source index).mem_iff, List.mem_cons]
      exact or_iff_right hne

end

/-- A label is found to be unused if no jump goes to it and it was not marked already. -/
theorem mem_diagnostics_iff {source : List Statement} {layout : Layout}
    (h : layOut source = .ok layout) {name : String} (hname : name ∈ labelNames source) :
    .unusedLabel name ∈ layout.diagnostics ↔ name ∉ targets source ∧ ¬ Marked source name := by
  obtain ⟨hnodup, routed, hroute, -, hresolve, hdiagnose⟩ := layOut_eq_ok_iff.1 h
  obtain ⟨hrouted, -, hsettle⟩ := resolve_eq_ok_iff.1 hresolve
  rw [labelNames_place] at hrouted
  obtain ⟨hmarks, htargets⟩ := mem_routed_iff hroute hrouted hname false
  rw [← hdiagnose, ← hsettle, mem_diagnose_settle_iff, marks_place, targets_place, hmarks,
    htargets, and_comm]
  apply and_congr_right
  intro _
  constructor
  · intro hfalse hmarked
    exact absurd ((eq_true_iff_marked hnodup hfalse).2 hmarked) Bool.false_ne_true
  · intro hnot
    rw [← map_fst_marks] at hname
    obtain ⟨⟨_, used⟩, hmem, rfl⟩ := List.mem_map.1 hname
    cases used with
    | true => exact absurd hmem hnot
    | false => exact hmem

/-! ## Two residues -/

section

variable {source other : List Statement} (h : source.map Statement.bare = other.map Statement.bare)

include h

theorem labelNames_eq_of_bare : labelNames source = labelNames other :=
  (labelNames_modify Refreshes.bare source).symm.trans
    ((congrArg labelNames h).trans (labelNames_modify Refreshes.bare other))

theorem targets_eq_of_bare : targets source = targets other :=
  (targets_modify Refreshes.bare source).symm.trans
    ((congrArg targets h).trans (targets_modify Refreshes.bare other))

/-- Residues that agree in the marks that stay are the same once they are cleared. -/
theorem map_clear_eq (hnodup : (labelNames source).Nodup)
    (hmarks : ∀ name ∈ unusedNames source, (Marked source name ↔ Marked other name)) :
    source.map (Statement.modify (.clear (targets source))) =
      other.map (Statement.modify (.clear (targets source))) := by
  have hnodup' : (labelNames other).Nodup := labelNames_eq_of_bare h ▸ hnodup
  apply List.map_eq_of_map_eq h
  intro statement hs statement' hs' hbare
  obtain ⟨tokens, fragments⟩ := statement
  obtain ⟨tokens', fragments'⟩ := statement'
  obtain ⟨rfl, hfragments⟩ := Statement.mk.inj hbare
  refine congrArg (Statement.mk tokens) (List.map_eq_of_map_eq hfragments ?_)
  rintro ⟨location, content⟩ hf ⟨location', content'⟩ hf' hbare
  have hmem : ∀ name used, content = .label name used → (name, used) ∈ marks source :=
    fun name used hcontent => List.mem_filterMap.2
      ⟨_, List.mem_flatMap.2 ⟨_, hs, hf⟩, Fragment.mark?_eq_some_iff.2 hcontent⟩
  have hmem' : ∀ name used, content' = .label name used → (name, used) ∈ marks other :=
    fun name used hcontent => List.mem_filterMap.2
      ⟨_, List.mem_flatMap.2 ⟨_, hs', hf'⟩, Fragment.mark?_eq_some_iff.2 hcontent⟩
  cases content <;> cases content' <;> cases hbare
  case operation.operation => rfl
  case jump.jump => rfl
  case label.label name used used' =>
    by_cases htarget : name ∈ targets source
    · simp [Fragment.clear, htarget]
    · have hlabel : name ∈ labelNames source := by
        rw [← map_fst_marks]
        exact List.mem_map_of_mem (f := Prod.fst) (hmem name used rfl)
      have hagree := hmarks name (List.mem_filter.2 ⟨hlabel, by simpa using htarget⟩)
      rw [← eq_true_iff_marked hnodup (hmem name used rfl),
        ← eq_true_iff_marked hnodup' (hmem' name used' rfl), ← Bool.eq_iff_iff] at hagree
      rw [hagree]
      rfl

end

end Layout

open Layout

/-- **What an earlier layout leaves behind.** Take two lists of statements that differ at most in
what a layout adds: locations, destinations and marks. Their layouts fail with the same error, or
agree in all but the marks. They are the same, with the same findings, if they fail or if the same
labels are marked already, of those that no jump goes to; and only then. -/
theorem layOut_residue {source other : List Statement}
    (h : source.map Statement.bare = other.map Statement.bare) :
    (layOut source).map code = (layOut other).map code ∧
    (layOut source = layOut other ↔ (∃ e, layOut source = .error e) ∨
      ∀ name ∈ unusedNames source, (Marked source name ↔ Marked other name)) := by
  have hcode : (layOut source).map code = (layOut other).map code := by
    rw [← code_layOut_bare, h, code_layOut_bare]
  have htargets := targets_eq_of_bare h
  refine ⟨hcode, ?_⟩
  cases hlayout : layOut source with
  | error e =>
    rw [hlayout] at hcode
    have hother : layOut other = .error e := map_eq_error.1 hcode.symm
    rw [hother]
    simp
  | ok layout =>
    constructor
    · intro heq
      refine .inr fun name hname => ?_
      obtain ⟨hlabel, htarget⟩ := List.mem_filter.1 hname
      have hsource := mem_diagnostics_iff hlayout hlabel
      have hother := mem_diagnostics_iff heq.symm (labelNames_eq_of_bare h ▸ hlabel)
      rw [← htargets] at hother
      have hnot : name ∉ targets source := by simpa using htarget
      rw [hother, and_iff_right hnot, and_iff_right hnot] at hsource
      exact (not_iff_not.1 hsource).symm
    · rintro (⟨e, he⟩ | hmarks)
      · cases he
      · have hnodup := (layOut_eq_ok_iff.1 hlayout).1
        have hclear := map_clear_eq h hnodup hmarks
        rw [← hlayout, ← layOut_clear fun name hname => hname, hclear,
          layOut_clear fun name hname => htargets ▸ hname]

/-- A label that a jump of its first program goes to is not found to be unused in a second program
without that jump, while it is if it comes there bare. -/
theorem layOut_keeps_mark : ∃ layout statement,
    layOut [.ofInstruction ["LABEL", "a"] (.label "a"), .ofInstruction ["GOTO", "a"] (.goto "a")] =
      .ok layout ∧
    layout.statements.head? = some statement ∧ Marked [statement] "a" ∧
    (layOut [statement]).map Layout.diagnostics = .ok [] ∧
    (layOut [statement.bare]).map Layout.diagnostics = .ok [.unusedLabel "a"] :=
  ⟨_, _, rfl, rfl, List.mem_singleton.2 rfl, rfl, rfl⟩

end CrossAssembler
