import CrossAssembler.Output
import CrossAssembler.Proofs.LayoutErrors
import Mathlib.Data.List.Dedup

/-!
# Programs that grow

Statements are added to a program at its end. What that does to its layout comes from one fact: if
the code reaches the reserved block already, or does not reach it with the new statements either,
then it is interrupted where it was, and the new statements come behind all that has a place
(`route_append`).

* Code that has its place keeps it, and so do its destinations (`placed_code_stays`). All that may
  change in a statement that `Stays` is the mark of a label.
* New statements do not undo a repeated name, the lack of a place for the detour, or the size of the
  code (`appending_cures_undefined_only`). What they can bring is a label that was missing. It takes
  no cells, but it has to be the address of one, so there is a cure as long as one cell is left
  (`exists_cure_iff`).
-/

namespace CrossAssembler

open Fallible Layout

/-! ## The way of the code -/

namespace Layout

theorem finish_append (source more : List Statement) :
    finish (source ++ more) = finish source + extent more := by
  rw [finish, extent_append, ← Nat.add_assoc, ← finish]

/-- The last safe statement stays the last if the code ends too late for another one. -/
theorem LastSafe.append {source : List Statement} {index : Nat} (h : LastSafe source index)
    (hend : 126 < finish source) (more : List Statement) : LastSafe (source ++ more) index := by
  refine ⟨?_, ?_, fun k hk hsafe => ?_⟩
  · rw [List.length_append]
    exact Nat.lt_add_right _ h.lt
  · rw [List.take_append_of_le_length h.lt]
    exact h.safe
  · by_cases hin : k < source.length
    · rw [List.take_append_of_le_length hin] at hsafe
      exact h.last k hin hsafe
    · -- a new statement ends behind all old ones
      have hlater := finish_take_mono (source ++ more) (show source.length ≤ k + 1 by omega)
      rw [List.take_left] at hlater
      omega

theorem detoured_append {source : List Statement} {index : Nat} (h : index < source.length)
    (more : List Statement) : detoured (source ++ more) index = detoured source index ++ more := by
  rw [detoured, detoured, insertSkip, insertSkip, List.take_append_of_le_length h,
    List.drop_append_of_le_length h, List.append_assoc, List.append_assoc]

/-- **New statements come behind the old ones**, with the detour where it was. -/
theorem route_append {source more routed : List Statement}
    (h : (route source).result = .ok routed)
    (hdecided : 128 ≤ finish source ∨ finish (source ++ more) < 128) :
    (route (source ++ more)).result = .ok (routed ++ more) := by
  have hfinish := finish_append source more
  rw [route_eq_ok_iff]
  rcases route_eq_ok_iff.1 h with ⟨hend, rfl⟩ | ⟨hend, index, hindex, rfl⟩
  · rcases hdecided with hge | hlt
    · omega
    · exact .inl ⟨hlt, rfl⟩
  · refine .inr ⟨by omega, index, hindex.append (by omega) more, ?_⟩
    rw [detoured_append hindex.lt]

/-- Code that fills the memory on its way was interrupted. -/
theorem display_le_of_full {source routed : List Statement}
    (h : (route source).result = .ok routed) (hfull : 256 ≤ finish routed) :
    128 ≤ finish source := by
  rcases route_eq_ok_iff.1 h with ⟨-, rfl⟩ | ⟨hend, -⟩
  · omega
  · exact hend

/-! ## The label table -/

theorem labelTable_append (first second : List Statement) :
    labelTable (first ++ second) = labelTable first ++ labelTable second := by
  rw [labelTable, fragments_append, List.filterMap_append, ← labelTable, ← labelTable]

theorem lookup_append_of_eq_some {table : List (String × Nat)} {name : String} {address : Nat}
    (h : table.lookup name = some address) (more : List (String × Nat)) :
    (table ++ more).lookup name = some address := by
  rw [List.lookup_append, h, Option.some_or]

/-- A jump to a known label has the fault it had. -/
theorem fault?_append {table : List (String × Nat)} {target : String} {address : Nat}
    (h : table.lookup target = some address) (more : List (String × Nat)) :
    fault? (table ++ more) target = fault? table target := by
  rw [fault?, fault?, lookup_append_of_eq_some h, h]

/-- No label lies before the address that statements are placed from. -/
theorem le_of_lookup_place {start : Nat} {statements : List Statement} {name : String}
    {address : Nat} (h : (labelTable (place start statements)).lookup name = some address) :
    start ≤ address := by
  obtain ⟨before, after, htable, -⟩ := List.lookup_eq_some_iff.1 h
  have hmem : (name, address) ∈ labelTable (place start statements) := by
    rw [htable]
    exact List.mem_append_right _ List.mem_cons_self
  obtain ⟨label, hl, -, rfl⟩ := mem_labelTable.1 hmem
  rw [fragments_place] at hl
  exact (contiguous_placeFragments _ _).le_location hl

end Layout

/-! ## Statements that keep their places -/

/-- The fragment stays as it is, or it is a label that is now marked since its name is a target. -/
inductive Fragment.Stays (targets : List String) : Fragment → Fragment → Prop where
  | same (fragment : Fragment) : Stays targets fragment fragment
  | marked {location : Nat} {name : String} (h : name ∈ targets) :
      Stays targets ⟨location, .label name false⟩ ⟨location, .label name true⟩

/-- The statement has the same tokens, and its fragments stay: all their locations, bytes, names and
destinations are the same. -/
structure Statement.Stays (targets : List String) (before after : Statement) : Prop where
  tokens : after.tokens = before.tokens
  fragments : List.Forall₂ (Fragment.Stays targets) before.fragments after.fragments

theorem Fragment.Stays.values_eq {targets : List String} {before after : Fragment}
    (h : Fragment.Stays targets before after) : before.values = after.values := by
  cases h <;> rfl

/-- Statements that stay have the same image. -/
theorem image_eq_of_stays {targets : List String} {before after : List Statement}
    (h : List.Forall₂ (Statement.Stays targets) before after) : image before = image after := by
  have hfragments : List.Forall₂ (Fragment.Stays targets) (fragments before) (fragments after) :=
    List.rel_flatMap h fun _ _ hstays => hstays.fragments
  have hvalues : List.Forall₂ Eq ((fragments before).flatMap Fragment.values)
      ((fragments after).flatMap Fragment.values) :=
    List.rel_flatMap hfragments fun _ _ hstays => by
      rw [hstays.values_eq, List.forall₂_eq_eq_eq]
  rw [List.forall₂_eq_eq_eq] at hvalues
  exact congrArg (Memory.header ++ ·) hvalues

theorem image_prefix_append (first second : List Statement) :
    image first <+: image (first ++ second) := by
  rw [image, image, List.flatMap_append, List.flatMap_append, ← List.append_assoc]
  exact List.prefix_append _ _

namespace Layout

/-- With more labels and more targets, a fragment that could be settled stays. -/
theorem settleFragment_append {table : List (String × Nat)} {fragment : Fragment}
    (h : ∀ target, fragment.target? = some target → ∃ address, table.lookup target = some address)
    (table' : List (String × Nat)) (targets targets' : List String) :
    Fragment.Stays targets' (settleFragment table targets fragment)
      (settleFragment (table ++ table') (targets ++ targets') fragment) := by
  obtain ⟨location, content⟩ := fragment
  cases content with
  | operation value => exact .same _
  | jump kind target destination =>
    obtain ⟨address, hlookup⟩ := h target rfl
    simp only [settleFragment, aimFragment, lookup_append_of_eq_some hlookup, hlookup]
    exact .same _
  | label name used =>
    simp only [settleFragment, aimFragment, markFragment, List.contains_append, ← Bool.or_assoc]
    cases hnew : targets'.contains name with
    | false =>
      rw [Bool.or_false]
      exact .same _
    | true =>
      rw [Bool.or_true]
      cases used || targets.contains name with
      | false => exact .marked (List.contains_iff_mem.1 hnew)
      | true => exact .same _

/-- Settled statements stay if others are settled with them. -/
theorem settle_append {first : List Statement}
    (h : ∀ target ∈ targets first, ∃ address, (labelTable first).lookup target = some address)
    (second : List Statement) : ∃ kept rest, settle (first ++ second) = kept ++ rest ∧
      List.Forall₂ (Statement.Stays (targets second)) (settle first) kept := by
  refine ⟨_, _, List.map_append, ?_⟩
  rw [settle, List.forall₂_map_left_iff, List.forall₂_map_right_iff, List.forall₂_same]
  intro statement hs
  refine ⟨rfl, ?_⟩
  rw [fragments_settleStatement, fragments_settleStatement, List.forall₂_map_left_iff,
    List.forall₂_map_right_iff, List.forall₂_same, labelTable_append, targets_append]
  intro fragment hf
  apply settleFragment_append
  intro target ht
  exact h target (List.mem_filterMap.2 ⟨fragment, List.mem_flatMap.2 ⟨statement, hs, hf⟩, ht⟩)

end Layout

/-- **Code that has its place keeps it.** Let a program be laid out before and after statements are
added to it, and let it be decided before whether the code is interrupted: it reaches the reserved
block already, or does not reach it with the new statements either. Then the old image begins the
new one. The old statements, with those of the detour, come first in the new layout, in their order,
with their tokens, locations and destinations; a label among them may now be marked, if a new jump
goes to it. -/
theorem placed_code_stays {source more : List Statement} {layout extended : Layout}
    (h : layOut source = .ok layout) (hextended : layOut (source ++ more) = .ok extended)
    (hdecided : 128 ≤ finish source ∨ finish (source ++ more) < 128) :
    image layout.statements <+: image extended.statements ∧
    ∃ kept rest, extended.statements = kept ++ rest ∧
      List.Forall₂ (Statement.Stays (targets more)) layout.statements kept := by
  obtain ⟨routed, hroute, -, -, hresolved, hsettle⟩ := exists_routed h
  obtain ⟨routed', hroute', -, -, -, hsettle'⟩ := exists_routed hextended
  rw [route_append hroute hdecided] at hroute'
  obtain rfl := Except.ok.inj hroute'
  have hknown : ∀ target ∈ targets (place Memory.programStart routed), ∃ address,
      (labelTable (place Memory.programStart routed)).lookup target = some address := by
    intro target ht
    rw [targets_place] at ht
    obtain ⟨address, hlookup, -⟩ := hresolved target ht
    exact ⟨address, hlookup⟩
  obtain ⟨kept, rest, hparts, hkept⟩ :=
    settle_append hknown (place (Memory.programStart + extent routed) more)
  rw [targets_place] at hkept
  rw [hsettle, hsettle', place_append, hparts]
  refine ⟨?_, kept, rest, rfl, hkept⟩
  rw [image_eq_of_stays hkept]
  exact image_prefix_append kept rest

/-- A jump to a label that no jump of `crossing` goes to. -/
def backToMiddle : List Statement := [.ofInstruction ["GOTO", "middle"] (.goto "middle")]

theorem placed_code_stays_crossing : ∃ layout extended,
    layOut crossing = .ok layout ∧ layOut (crossing ++ backToMiddle) = .ok extended ∧
    image layout.statements <+: image extended.statements ∧
    ∃ kept rest, extended.statements = kept ++ rest ∧
      List.Forall₂ (Statement.Stays ["middle"]) layout.statements kept := by
  obtain ⟨layout, h⟩ := exists_layOut_crossing
  obtain ⟨extended, hextended⟩ : ∃ extended, layOut (crossing ++ backToMiddle) = .ok extended :=
    exists_eq_ok (by decide +kernel)
  exact ⟨layout, extended, h, hextended,
    placed_code_stays h hextended (.inl (by decide +kernel))⟩

/-! ## Failures that stay -/

namespace Layout

theorem verdict_of_eq_error {source : List Statement} (hs : Written source) {e : LayoutError}
    (h : layOut source = .error e) : Verdict source (some e) := by
  have hverdict := verdict_error? hs
  rwa [error?_eq_some_iff.2 h] at hverdict

theorem Verdict.eq_error {source : List Statement} (hs : Written source) {e : LayoutError}
    (h : Verdict source (some e)) : layOut source = .error e :=
  error?_eq_some_iff.1 (h.error?_eq hs)

theorem exists_duplicateLabel {source : List Statement} (h : ¬ (labelNames source).Nodup) :
    ∃ name, layOut source = .error (.duplicateLabel name) := by
  cases hrepeat : firstRepeat? [] (labelNames source) with
  | none => exact absurd (firstRepeat?_nil_eq_none_iff.1 hrepeat) h
  | some name =>
    refine ⟨name, error?_eq_some_iff.1 ?_⟩
    rw [error?_layOut, hrepeat]
    rfl

section

variable {source : List Statement} (hs : Written source)

include hs

/-- Code is too large if it ends beyond the memory, or if a jump leads to its very end. -/
theorem exists_routed_of_tooLarge {size : Nat}
    (h : layOut source = .error (.programTooLarge size)) :
    ∃ routed, (route source).result = .ok routed ∧ 256 ≤ size ∧ size ≤ finish routed ∧
      (256 < finish routed ∨ ∃ before target after, targets source = before ++ target :: after ∧
        (labelTable (place Memory.programStart routed)).lookup target = some size ∧
        ∀ earlier ∈ before, ∃ address,
          (labelTable (place Memory.programStart routed)).lookup earlier = some address ∧
            address < Memory.size) := by
  cases verdict_of_eq_error hs h with
  | tooLarge hnodup hend hsize =>
    obtain ⟨routed, hroute, rfl⟩ := correctedEnd_iff.1 hend
    exact ⟨routed, hroute, Nat.le_of_lt hsize, Nat.le_refl _, .inl hsize⟩
  | faultyJump hnodup hend hsize htargets hbefore htarget =>
    obtain ⟨routed, hroute, rfl⟩ := correctedEnd_iff.1 hend
    have hrouted := nodup_labelNames_routed hs hnodup hroute
    have hfault := (fault?_routed_iff hs hnodup hroute hsize (by simp [htargets])).2 htarget
    rcases fault?_eq_some_iff.1 hfault with ⟨-, hundefined⟩ | ⟨address, hlookup, hge, heq⟩
    · cases hundefined
    · cases heq
      refine ⟨routed, hroute, hge, le_finish_of_lookup hrouted hlookup, .inr ⟨_, _, _, htargets,
        hlookup, fun earlier he => fault?_eq_none_iff.1 ?_⟩⟩
      exact (fault?_routed_eq_none_iff hs hnodup hroute hsize (by simp [htargets, he])).2
        (hbefore earlier he)

/-- A label is missing if the code has its way and fits, and a jump has a target without label. -/
theorem exists_routed_of_undefined {name : String}
    (h : layOut source = .error (.undefinedLabel name)) :
    (labelNames source).Nodup ∧ name ∈ targets source ∧ name ∉ labelNames source ∧
      ∃ routed, (route source).result = .ok routed ∧ finish routed ≤ 256 := by
  cases verdict_of_eq_error hs h with
  | faultyJump hnodup hend hsize htargets _ htarget =>
    obtain ⟨routed, hroute, rfl⟩ := correctedEnd_iff.1 hend
    cases htarget with
    | undefined hnot => exact ⟨hnodup, by simp [htargets], hnot, routed, hroute, hsize⟩

/-- The first repeated name is found before the new statements are looked at. -/
theorem layOut_append_duplicateLabel {more : List Statement} (hm : Written more) {name : String}
    (h : layOut source = .error (.duplicateLabel name)) :
    layOut (source ++ more) = .error (.duplicateLabel name) := by
  cases verdict_of_eq_error hs h with
  | @duplicate _ before after hnames hbefore hname =>
    have hall : labelNames (source ++ more) = before ++ name :: (after ++ labelNames more) := by
      rw [labelNames_append, hnames, List.append_assoc, List.cons_append]
    exact Verdict.eq_error (hs.append hm) (.duplicate hall hbefore hname)
  | faultyJump _ _ _ _ _ htarget => cases htarget

end

section

variable {source more : List Statement} (hs : Written source) (hm : Written more)
  (hnodup : (labelNames (source ++ more)).Nodup)

include hs hm hnodup

/-- The first statement stays the first, so there still is no place for the detour. -/
theorem layOut_append_noSafePoint (h : layOut source = .error .noSafePoint) :
    layOut (source ++ more) = .error .noSafePoint := by
  cases verdict_of_eq_error hs h with
  | noRoom _ hend hfirst =>
    have hpos : 0 < source.length := List.length_pos_iff.2 (ne_nil_of_display_le hend)
    have hfinish := finish_append source more
    refine Verdict.eq_error (hs.append hm) (.noRoom hnodup (by omega) ?_)
    rwa [List.take_append_of_le_length hpos]
  | faultyJump _ _ _ _ _ htarget => cases htarget

/-- Code that is too large stays so. If it fits and a jump leads to its end, where there is no cell,
then that jump is still the first with a fault, or the code ends later and does not fit. -/
theorem layOut_append_tooLarge {size : Nat} (h : layOut source = .error (.programTooLarge size)) :
    ∃ larger, size ≤ larger ∧ layOut (source ++ more) = .error (.programTooLarge larger) := by
  obtain ⟨routed, hroute, hlow, hhigh, hcase⟩ := exists_routed_of_tooLarge hs h
  have hend := display_le_of_full hroute (Nat.le_trans hlow hhigh)
  have hfinish := finish_append routed more
  have herror := error?_of_routed (hs.append hm) hnodup (route_append hroute (.inl hend))
  rw [place_append, labelTable_append] at herror
  by_cases hsize : finish (routed ++ more) ≤ 256
  · rcases hcase with hlarge | ⟨before, target, after, htargets, hlookup, hbefore⟩
    · omega
    · refine ⟨size, Nat.le_refl _, error?_eq_some_iff.1 ?_⟩
      rw [herror, if_pos hsize, Option.none_or, targets_append, htargets,
        List.findSome?_eq_some_iff]
      refine ⟨before, target, after ++ targets more, by simp, ?_, fun earlier he => ?_⟩
      · rw [fault?_append hlookup, fault?_eq_some_iff]
        exact .inr ⟨size, hlookup, hlow, rfl⟩
      · obtain ⟨address, hknown, hlt⟩ := hbefore earlier he
        rw [fault?_append hknown, fault?_eq_none_iff]
        exact ⟨address, hknown, hlt⟩
  · refine ⟨finish (routed ++ more), by omega, error?_eq_some_iff.1 ?_⟩
    rw [herror, if_neg hsize, Option.some_or]

end

/-! ## A cure for missing labels -/

/-- The statement that defines a label. -/
def labelStatement (name : String) : Statement := .ofInstruction ["LABEL", name] (.label name)

theorem ofTokens_label {name : String} (h : Token.opensComment name = false) :
    Statement.ofTokens ["LABEL", name] = .ok (labelStatement name) := by
  have hparse : Instruction.parse ["LABEL", name] = .ok (.label name) :=
    Instruction.parse_of_denotes (.label (.refl _) (beq_eq_false_iff_ne.1 h))
  exact map_eq_ok.2 ⟨_, hparse, rfl⟩

/-- The targets without a label, each once. -/
def missing (source : List Statement) : List String :=
  ((targets source).filter fun target => target ∉ labelNames source).dedup

theorem mem_missing {source : List Statement} {name : String} :
    name ∈ missing source ↔ name ∈ targets source ∧ name ∉ labelNames source := by
  rw [missing, List.mem_dedup, List.mem_filter, decide_eq_true_iff]

theorem written_labelStatements {names : List String}
    (h : ∀ name ∈ names, Token.opensComment name = false) : Written (names.map labelStatement) := by
  intro statement hstatement
  obtain ⟨name, hname, rfl⟩ := List.mem_map.1 hstatement
  exact ⟨["LABEL", name], ofTokens_label (h name hname)⟩

theorem fragments_labelStatements (names : List String) :
    fragments (names.map labelStatement) = names.map Fragment.label := by
  induction names with
  | nil => rfl
  | cons name names ih =>
    rw [List.map_cons, fragments_cons, ih]
    rfl

theorem labelNames_labelStatements (names : List String) :
    labelNames (names.map labelStatement) = names := by
  rw [labelNames, fragments_labelStatements, List.filterMap_map]
  exact List.filterMap_some

theorem targets_labelStatements (names : List String) :
    targets (names.map labelStatement) = [] := by
  rw [targets, fragments_labelStatements, List.filterMap_map]
  exact List.filterMap_none names

theorem extent_labelStatements (names : List String) : extent (names.map labelStatement) = 0 := by
  induction names with
  | nil => rfl
  | cons name names ih =>
    rw [List.map_cons, extent, ih]
    rfl

/-- Labels for all that is missing are a cure, if they are the addresses of a cell. -/
theorem exists_layOut_append_missing {source routed : List Statement} (hs : Written source)
    (hnodup : (labelNames source).Nodup) (hroute : (route source).result = .ok routed)
    (hsize : finish routed < 256) :
    Written ((missing source).map labelStatement) ∧
      ∃ layout, layOut (source ++ (missing source).map labelStatement) = .ok layout := by
  have hm : Written ((missing source).map labelStatement) :=
    written_labelStatements fun name hname => hs.opensComment_target (mem_missing.1 hname).1
  refine ⟨hm, error?_eq_none_iff.1 ?_⟩
  have hextent := extent_labelStatements (missing source)
  have hfinish := finish_append source ((missing source).map labelStatement)
  have hfinish' := finish_append routed ((missing source).map labelStatement)
  have hnames : labelNames (source ++ (missing source).map labelStatement) =
      labelNames source ++ missing source := by
    rw [labelNames_append, labelNames_labelStatements]
  have hall : (labelNames (source ++ (missing source).map labelStatement)).Nodup := by
    rw [hnames, List.nodup_append]
    refine ⟨hnodup, List.nodup_dedup _, ?_⟩
    rintro name hname _ hmissing rfl
    exact (mem_missing.1 hmissing).2 hname
  have hdecided : 128 ≤ finish source ∨
      finish (source ++ (missing source).map labelStatement) < 128 := by
    omega
  have hroute' := route_append hroute hdecided
  rw [error?_of_routed (hs.append hm) hall hroute', if_pos (by omega), Option.none_or,
    List.findSome?_eq_none_iff]
  intro target ht
  have hne : target ≠ skipLabel :=
    fun heq => (hs.append hm).skipLabel_notMem_targets (heq ▸ ht)
  rw [targets_append, targets_labelStatements, List.append_nil] at ht
  -- the target has a label now, which lies at the end of the code at the latest
  have hdefined : target ∈ labelNames (routed ++ (missing source).map labelStatement) := by
    rw [mem_labelNames_routed hroute' hne, hnames, List.mem_append, mem_missing]
    by_cases hold : target ∈ labelNames source
    · exact .inl hold
    · exact .inr ⟨ht, hold⟩
  cases hlookup : (labelTable (place Memory.programStart
      (routed ++ (missing source).map labelStatement))).lookup target with
  | none =>
    rw [lookup_labelTable_eq_none_iff, labelNames_place] at hlookup
    exact absurd hdefined hlookup
  | some address =>
    have hle := le_finish_of_lookup (nodup_labelNames_routed (hs.append hm) hall hroute') hlookup
    exact fault?_eq_none_iff.2 ⟨address, hlookup, by rw [Memory.size]; omega⟩

/-- A missing label can be added as long as the code leaves a cell of the memory. -/
theorem exists_cure_iff {source : List Statement} (hs : Written source) {name : String}
    (h : layOut source = .error (.undefinedLabel name)) :
    (∃ more layout, Written more ∧ layOut (source ++ more) = .ok layout) ↔
      ∃ corrected < 256, CorrectedEnd source corrected := by
  obtain ⟨hnodup, htarget, hnot, routed, hroute, hsize⟩ := exists_routed_of_undefined hs h
  constructor
  · rintro ⟨more, layout, hm, hlayout⟩
    refine ⟨finish routed, Nat.lt_of_not_le fun hfull => ?_,
      correctedEnd_iff.2 ⟨routed, hroute, rfl⟩⟩
    have hend := display_le_of_full hroute hfull
    have hne : name ≠ skipLabel := fun heq => hs.skipLabel_notMem_targets (heq ▸ htarget)
    have hnone : (labelTable (place Memory.programStart routed)).lookup name = none := by
      rw [lookup_labelTable_eq_none_iff, labelNames_place, mem_labelNames_routed hroute hne]
      exact hnot
    -- the label comes behind code that fills the memory
    have herror := error?_eq_none_iff.2 ⟨layout, hlayout⟩
    rw [error?_of_routed (hs.append hm) (layOut_eq_ok_iff.1 hlayout).1
      (route_append hroute (.inl hend)), Option.or_eq_none_iff,
      List.findSome?_eq_none_iff] at herror
    have hfault := herror.2 name (by rw [targets_append]; exact List.mem_append_left _ htarget)
    obtain ⟨address, hlookup, hlt⟩ := fault?_eq_none_iff.1 hfault
    rw [place_append, labelTable_append, List.lookup_append, hnone, Option.none_or,
      ← finish] at hlookup
    have hle := le_of_lookup_place hlookup
    rw [Memory.size] at hlt
    omega
  · rintro ⟨corrected, hlt, hend⟩
    obtain ⟨other, hother, rfl⟩ := correctedEnd_iff.1 hend
    obtain rfl := Except.ok.inj (hroute.symm.trans hother)
    obtain ⟨hm, layout, hlayout⟩ := exists_layOut_append_missing hs hnodup hroute hlt
    exact ⟨_, layout, hm, hlayout⟩

end Layout

/-- **Only a missing label can be cured by more statements.** Let statements be added to a source
whose layout fails. If a name was repeated, the layout fails with the same error. If there was no
place for the detour, or the code was too large (also if only a jump led to its end behind the last
cell), then it fails so again, with an end that is not lower, unless the new statements repeat a
name. So if the layout succeeds, a label had been missing; and there are statements with which it
succeeds if and only if the code leaves a cell of the memory. -/
theorem appending_cures_undefined_only {source : List Statement} (hs : Written source) :
    (∀ more, Written more →
      (∀ name, layOut source = .error (.duplicateLabel name) →
        layOut (source ++ more) = .error (.duplicateLabel name)) ∧
      (layOut source = .error .noSafePoint → layOut (source ++ more) = .error .noSafePoint ∨
        ∃ name, layOut (source ++ more) = .error (.duplicateLabel name)) ∧
      (∀ size, layOut source = .error (.programTooLarge size) →
        (∃ larger, size ≤ larger ∧ layOut (source ++ more) = .error (.programTooLarge larger)) ∨
        ∃ name, layOut (source ++ more) = .error (.duplicateLabel name)) ∧
      ∀ e layout, layOut source = .error e → layOut (source ++ more) = .ok layout →
        ∃ name, e = .undefinedLabel name) ∧
    ∀ name, layOut source = .error (.undefinedLabel name) →
      ((∃ more layout, Written more ∧ layOut (source ++ more) = .ok layout) ↔
        ∃ corrected < 256, CorrectedEnd source corrected) := by
  refine ⟨fun more hm => ?_, fun name h => exists_cure_iff hs h⟩
  have hduplicate : ∀ name, layOut source = .error (.duplicateLabel name) →
      layOut (source ++ more) = .error (.duplicateLabel name) :=
    fun name h => layOut_append_duplicateLabel hs hm h
  have hnoSafePoint : layOut source = .error .noSafePoint →
      layOut (source ++ more) = .error .noSafePoint ∨
        ∃ name, layOut (source ++ more) = .error (.duplicateLabel name) := by
    intro h
    by_cases hnodup : (labelNames (source ++ more)).Nodup
    · exact .inl (layOut_append_noSafePoint hs hm hnodup h)
    · exact .inr (exists_duplicateLabel hnodup)
  have htooLarge : ∀ size, layOut source = .error (.programTooLarge size) →
      (∃ larger, size ≤ larger ∧ layOut (source ++ more) = .error (.programTooLarge larger)) ∨
        ∃ name, layOut (source ++ more) = .error (.duplicateLabel name) := by
    intro size h
    by_cases hnodup : (labelNames (source ++ more)).Nodup
    · exact .inl (layOut_append_tooLarge hs hm hnodup h)
    · exact .inr (exists_duplicateLabel hnodup)
  refine ⟨hduplicate, hnoSafePoint, htooLarge, fun e layout h hlayout => ?_⟩
  cases e with
  | undefinedLabel name => exact ⟨name, rfl⟩
  | duplicateLabel name => cases hlayout.symm.trans (hduplicate name h)
  | noSafePoint =>
    rcases hnoSafePoint h with herror | ⟨_, herror⟩ <;> cases hlayout.symm.trans herror
  | programTooLarge size =>
    rcases htooLarge size h with ⟨_, -, herror⟩ | ⟨_, herror⟩ <;> cases hlayout.symm.trans herror

theorem appending_cures_undefined_only_brimful :
    (layOut brimful = .error (.programTooLarge 256) ∧
      ∃ larger, 256 ≤ larger ∧
        layOut (brimful ++ [labelStatement "more"]) = .error (.programTooLarge larger)) ∧
    layOut backToMiddle = .error (.undefinedLabel "middle") ∧
      ∃ more layout, Written more ∧ layOut (backToMiddle ++ more) = .ok layout := by
  have hbrimful : layOut brimful = .error (.programTooLarge 256) :=
    error?_eq_some_iff.1 (by decide +kernel)
  have hplain : ∀ name ∈ ["more"], Token.opensComment name = false := by decide
  have hmore : Written [labelStatement "more"] := written_labelStatements hplain
  have hback : layOut backToMiddle = .error (.undefinedLabel "middle") :=
    error?_eq_some_iff.1 (by decide +kernel)
  have hwritten : Written backToMiddle := by
    intro statement hs
    obtain rfl := List.mem_singleton.1 hs
    exact ⟨["GOTO", "middle"], rfl⟩
  refine ⟨⟨hbrimful, ?_⟩, hback, ?_⟩
  · rcases ((appending_cures_undefined_only written_brimful).1 _ hmore).2.2.1 256 hbrimful with
      hlarger | ⟨name, hname⟩
    · exact hlarger
    · have hnodup : (labelNames (brimful ++ [labelStatement "more"])).Nodup := by decide +kernel
      cases verdict_of_eq_error (written_brimful.append hmore) hname with
      | duplicate hnames _ hrepeated =>
        rw [hnames, List.nodup_append] at hnodup
        exact absurd rfl (hnodup.2.2 name hrepeated name List.mem_cons_self)
      | faultyJump _ _ _ _ _ htarget => cases htarget
  · apply ((appending_cures_undefined_only hwritten).2 "middle" hback).2
    exact ⟨6, by decide, .inl ⟨by decide, by decide⟩⟩

end CrossAssembler
