import CrossAssembler.Proofs.GapCorrection

/-!
# When a layout fails

A source determines by itself whether its layout fails, and with which error: a name that is defined
twice comes before the lack of a place for the detour, that before the size of the code, and that
before the first jump with a fault (`Verdict`). The layout comes to just this (`layOut_verdict`).

* `SafeEnd`, `CorrectedEnd` and `EndsUpAt` say in naive addresses where the code is interrupted,
  where it ends and where a label lies once the detour is in it.
* `lookup_routed_iff`: the label table of the placed code agrees with `EndsUpAt`.
* `perm_labelNames_detoured`: the detour adds one name, which no written statement defines, so the
  names stay distinct (`nodup_labelNames_routed`).
-/

namespace CrossAssembler.Layout

open Fallible
open Fragment (totalCells)

/-! ## Ends of the code -/

/-- The largest naive end of a statement that is 126 or less. -/
structure SafeEnd (source : List Statement) (resume : Nat) : Prop where
  attained : ∃ k < source.length, finish (source.take (k + 1)) = resume
  safe : resume ≤ 126
  largest : ∀ k < source.length, finish (source.take (k + 1)) ≤ 126 →
    finish (source.take (k + 1)) ≤ resume

/-- The code ends at `corrected` after the detour, if it needs one, is in it. -/
def CorrectedEnd (source : List Statement) (corrected : Nat) : Prop :=
  (finish source < 128 ∧ corrected = finish source) ∨
    (128 ≤ finish source ∧ ∃ resume, SafeEnd source resume ∧
      corrected = 132 + (finish source - resume))

theorem safeEnd_iff {source : List Statement} {resume : Nat} : SafeEnd source resume ↔
    ∃ index, LastSafe source index ∧ resume = finish (source.take (index + 1)) := by
  constructor
  · rintro ⟨⟨k, hk, rfl⟩, hsafe, hlargest⟩
    have hfirst : finish (source.take 1) ≤ 126 :=
      Nat.le_trans (finish_take_mono source (by omega)) hsafe
    obtain ⟨index, hindex⟩ := exists_lastSafe (List.length_pos_iff.1 (by omega)) hfirst
    exact ⟨index, hindex, Nat.le_antisymm
      (finish_take_mono source (Nat.succ_le_succ (hindex.last k hk hsafe)))
      (hlargest index hindex.lt hindex.safe)⟩
  · rintro ⟨index, hindex, rfl⟩
    refine ⟨⟨index, hindex.lt, rfl⟩, hindex.safe, fun k hk hend => ?_⟩
    exact finish_take_mono source (Nat.succ_le_succ (hindex.last k hk hend))

/-- The code has a corrected end if it has a way, and ends there. -/
theorem correctedEnd_iff {source : List Statement} {corrected : Nat} :
    CorrectedEnd source corrected ↔
      ∃ routed, (route source).result = .ok routed ∧ finish routed = corrected := by
  simp only [CorrectedEnd, route_eq_ok_iff, safeEnd_iff]
  constructor
  · rintro (⟨hlt, rfl⟩ | ⟨hge, _, ⟨index, hindex, rfl⟩, rfl⟩)
    · exact ⟨source, .inl ⟨hlt, rfl⟩, rfl⟩
    · exact ⟨_, .inr ⟨hge, index, hindex, rfl⟩, finish_detoured hindex⟩
  · rintro ⟨routed, ⟨hlt, rfl⟩ | ⟨hge, index, hindex, rfl⟩, rfl⟩
    · exact .inl ⟨hlt, rfl⟩
    · exact .inr ⟨hge, _, ⟨index, hindex, rfl⟩, finish_detoured hindex⟩

/-! ## Places of labels -/

/-- Statement `k` has a label of a name, at `location` if the statements lie from `start` on. -/
def LabelAt (start : Nat) (statements : List Statement) (name : String) (k location : Nat) : Prop :=
  ∃ (statement : Statement) (j : Nat) (label : Fragment), statements[k]? = some statement ∧
    statement.fragments[j]? = some label ∧ label.labelName? = some name ∧
    location = start + extent (statements.take k) + totalCells (statement.fragments.take j)

theorem exists_label_place_iff {start : Nat} {statements : List Statement} {name : String}
    {location : Nat} :
    (∃ fragment ∈ fragments (place start statements), fragment.labelName? = some name ∧
      fragment.location = location) ↔ ∃ k, LabelAt start statements name k location := by
  constructor
  · rintro ⟨fragment, hf, hname, rfl⟩
    obtain ⟨placed, hp, hf⟩ := List.mem_flatMap.1 hf
    obtain ⟨k, hk⟩ := List.mem_iff_getElem?.1 hp
    rw [getElem?_place, Option.map_eq_some_iff] at hk
    obtain ⟨statement, hk, rfl⟩ := hk
    obtain ⟨j, hj⟩ := List.mem_iff_getElem?.1 hf
    rw [getElem?_placeFragments, Option.map_eq_some_iff] at hj
    obtain ⟨label, hj, rfl⟩ := hj
    exact ⟨k, statement, j, label, hk, hj, hname, rfl⟩
  · rintro ⟨k, statement, j, label, hk, hj, hname, rfl⟩
    have hplaced : (place start statements)[k]? = some { statement with
        fragments :=
          placeFragments (start + extent (statements.take k)) statement.fragments } := by
      rw [getElem?_place, hk]
      rfl
    have hlabel : (placeFragments (start + extent (statements.take k)) statement.fragments)[j]? =
        some (label.placeAt (start + extent (statements.take k) +
          totalCells (statement.fragments.take j))) := by
      rw [getElem?_placeFragments, hj]
      rfl
    exact ⟨_, List.mem_flatMap.2 ⟨_, List.mem_of_getElem? hplaced, List.mem_of_getElem? hlabel⟩,
      hname, rfl⟩

theorem labelAt_take_iff {start : Nat} {statements : List Statement} {name : String}
    {n k location : Nat} : LabelAt start (statements.take n) name k location ↔
      k < n ∧ LabelAt start statements name k location := by
  by_cases hk : k < n
  · simp only [LabelAt, List.getElem?_take_of_lt hk, List.take_take,
      Nat.min_eq_left (Nat.le_of_lt hk), hk, true_and]
  · have hnone : (statements.take n)[k]? = none := List.getElem?_take_eq_none (Nat.not_lt.1 hk)
    constructor
    · rintro ⟨_, _, _, hstatement, -⟩
      rw [hnone] at hstatement
      cases hstatement
    · rintro ⟨hlt, -⟩
      exact absurd hlt hk

/-- A label among the statements after the first `n` moves with them. -/
theorem labelAt_drop_iff {start : Nat} {statements : List Statement} {name : String}
    {n k distance : Nat} : LabelAt start (statements.drop n) name k (start + distance) ↔
      LabelAt Memory.programStart statements name (n + k)
        (finish (statements.take n) + distance) := by
  have hstart : Memory.programStart + extent (statements.take (n + k)) =
      finish (statements.take n) + extent ((statements.drop n).take k) :=
    finish_take_add statements n k
  simp only [LabelAt, List.getElem?_drop, hstart, Nat.add_assoc, Nat.add_left_cancel_iff]

namespace LabelAt

variable {start : Nat} {statements : List Statement} {name : String} {k location : Nat}

theorem lt_length (h : LabelAt start statements name k location) : k < statements.length := by
  obtain ⟨_, _, _, hk, -⟩ := h
  exact (List.getElem?_eq_some_iff.1 hk).1

theorem le_location (h : LabelAt start statements name k location) :
    start + extent (statements.take k) ≤ location := by
  obtain ⟨_, _, _, -, -, -, rfl⟩ := h
  exact Nat.le_add_right _ _

end LabelAt

/-- A label of a name lies at `address` after the detour, if there has to be one, is in the code. If
its statement is safe or there is no detour, that is its naive address; otherwise it moves with the
statements behind the detour. -/
def EndsUpAt (source : List Statement) (name : String) (address : Nat) : Prop :=
  ∃ k naive, LabelAt 4 source name k naive ∧
    (((finish source < 128 ∨ finish (source.take (k + 1)) ≤ 126) ∧ address = naive) ∨
      (128 ≤ finish source ∧ 126 < finish (source.take (k + 1)) ∧
        ∃ resume, SafeEnd source resume ∧ address = naive + (132 - resume)))

/-- A label of the code with the detour, other than the detour's own, stands before or behind it. -/
theorem exists_label_detoured_iff {source : List Statement} {index : Nat}
    (hindex : LastSafe source index) {name : String} (hname : name ≠ skipLabel) {address : Nat} :
    (∃ fragment ∈ fragments (place Memory.programStart (detoured source index)),
      fragment.labelName? = some name ∧ fragment.location = address) ↔
      (∃ k, LabelAt Memory.programStart (source.take (index + 1)) name k address) ∨
        ∃ k, LabelAt Memory.reservedEnd (source.drop (index + 1)) name k address := by
  rw [← exists_label_place_iff, ← exists_label_place_iff, place_detoured hindex]
  simp only [fragments_append, List.mem_append]
  constructor
  · rintro ⟨fragment, hf | hf | hf, hlabel, hlocation⟩
    · exact .inl ⟨fragment, hf, hlabel, hlocation⟩
    · have hmem := mem_labelNames.2 ⟨fragment, hf, hlabel⟩
      rw [labelNames_place, labelNames_skip] at hmem
      exact absurd (List.mem_singleton.1 hmem) hname
    · exact .inr ⟨fragment, hf, hlabel, hlocation⟩
  · rintro (⟨fragment, hf, h⟩ | ⟨fragment, hf, h⟩)
    · exact ⟨fragment, .inl hf, h⟩
    · exact ⟨fragment, .inr (.inr hf), h⟩

theorem endsUpAt_iff_of_lastSafe {source : List Statement} {index : Nat}
    (hend : 128 ≤ finish source) (hindex : LastSafe source index) {name : String} {address : Nat} :
    EndsUpAt source name address ↔
      (∃ k, LabelAt Memory.programStart (source.take (index + 1)) name k address) ∨
        ∃ k, LabelAt Memory.reservedEnd (source.drop (index + 1)) name k address := by
  have hsafe := hindex.safe
  constructor
  · rintro ⟨k, naive, hlabel, ⟨hstays, rfl⟩ | ⟨-, hmoves, resume, hresume, rfl⟩⟩
    · have hk := hindex.last k hlabel.lt_length (hstays.resolve_left (by omega))
      exact .inl ⟨k, labelAt_take_iff.2 ⟨by omega, hlabel⟩⟩
    · obtain ⟨other, hother, rfl⟩ := safeEnd_iff.1 hresume
      obtain rfl := hother.unique hindex
      have hk : ¬ k ≤ other := fun hle =>
        Nat.not_le.2 hmoves ((hindex.le_iff hlabel.lt_length).1 hle)
      obtain ⟨l, rfl⟩ := Nat.exists_eq_add_of_le (Nat.lt_of_not_le hk)
      -- the distance of the label from where the code is interrupted stays the same
      have hle : finish (source.take (other + 1)) ≤ naive :=
        Nat.le_trans (finish_take_mono source (Nat.le_add_right _ l)) hlabel.le_location
      obtain ⟨distance, rfl⟩ := Nat.exists_eq_add_of_le hle
      refine .inr ⟨l, ?_⟩
      have haddress : finish (source.take (other + 1)) + distance +
          (132 - finish (source.take (other + 1))) = Memory.reservedEnd + distance := by
        rw [Memory.reservedEnd]
        omega
      rw [haddress, labelAt_drop_iff]
      exact hlabel
  · rintro (⟨k, hlabel⟩ | ⟨k, hlabel⟩)
    · obtain ⟨hk, hlabel⟩ := labelAt_take_iff.1 hlabel
      have hstays := (hindex.le_iff hlabel.lt_length).1 (Nat.le_of_lt_succ hk)
      exact ⟨k, address, hlabel, .inl ⟨.inr hstays, rfl⟩⟩
    · obtain ⟨distance, rfl⟩ := Nat.exists_eq_add_of_le
        (Nat.le_trans (Nat.le_add_right _ _) hlabel.le_location)
      have hlabel := labelAt_drop_iff.1 hlabel
      refine ⟨_, _, hlabel, .inr ⟨hend, Nat.lt_of_not_le fun hle => ?_, _,
        safeEnd_iff.2 ⟨index, hindex, rfl⟩, ?_⟩⟩
      · have := hindex.last _ hlabel.lt_length hle
        omega
      · rw [Memory.reservedEnd]
        omega

/-! ## Names and targets of the code on its way -/

/-- The detour adds its own label to those of the source. -/
theorem perm_labelNames_detoured (source : List Statement) (index : Nat) :
    (labelNames (detoured source index)).Perm (skipLabel :: labelNames source) := by
  rw [labelNames_detoured, ← labelNames_take_append_drop source (index + 1)]
  exact List.perm_middle

/-- The names of written labels stay distinct when the detour is in the code. -/
theorem nodup_labelNames_routed {source routed : List Statement} (hs : Written source)
    (hnodup : (labelNames source).Nodup) (hroute : (route source).result = .ok routed) :
    (labelNames routed).Nodup := by
  rcases route_eq_ok_iff.1 hroute with ⟨-, rfl⟩ | ⟨-, index, -, rfl⟩
  · exact hnodup
  · rw [(perm_labelNames_detoured source index).nodup_iff]
    exact List.nodup_cons.2 ⟨hs.skipLabel_notMem_labelNames, hnodup⟩

theorem mem_labelNames_routed {source routed : List Statement}
    (hroute : (route source).result = .ok routed) {name : String} (hname : name ≠ skipLabel) :
    name ∈ labelNames routed ↔ name ∈ labelNames source := by
  rcases route_eq_ok_iff.1 hroute with ⟨-, rfl⟩ | ⟨-, index, -, rfl⟩
  · rfl
  · rw [(perm_labelNames_detoured source index).mem_iff, List.mem_cons]
    exact or_iff_right hname

theorem le_finish_of_lookup {statements : List Statement} (hnodup : (labelNames statements).Nodup)
    {name : String} {address : Nat}
    (h : (labelTable (place Memory.programStart statements)).lookup name = some address) :
    address ≤ finish statements := by
  obtain ⟨label, hl, -, rfl⟩ :=
    (lookup_labelTable_eq_some_iff (by rwa [labelNames_place])).1 h
  rw [fragments_place] at hl
  have hle := (contiguous_placeFragments _ _).location_add_cells_le hl
  rw [totalCells_placeFragments, ← extent_eq_totalCells, ← finish] at hle
  omega

section

variable {source routed : List Statement} (hroute : (route source).result = .ok routed)
  (hnodup : (labelNames routed).Nodup)

include hroute hnodup

/-- The label table gives each label of the source the address where it ends up. -/
theorem lookup_routed_iff {name : String} (hname : name ≠ skipLabel) {address : Nat} :
    (labelTable (place Memory.programStart routed)).lookup name = some address ↔
      EndsUpAt source name address := by
  rw [lookup_labelTable_eq_some_iff (by rwa [labelNames_place])]
  rcases route_eq_ok_iff.1 hroute with ⟨hend, rfl⟩ | ⟨hend, index, hindex, rfl⟩
  · rw [exists_label_place_iff]
    constructor
    · rintro ⟨k, hlabel⟩
      exact ⟨k, address, hlabel, .inl ⟨.inl hend, rfl⟩⟩
    · rintro ⟨k, naive, hlabel, ⟨-, rfl⟩ | ⟨hge, -⟩⟩
      · exact ⟨k, hlabel⟩
      · omega
  · rw [exists_label_detoured_iff hindex hname, endsUpAt_iff_of_lastSafe hend hindex]

/-- The jump of the detour has no fault, so the first fault is that of a jump of the source. -/
theorem findSome?_targets_routed :
    (targets routed).findSome? (fault? (labelTable (place Memory.programStart routed))) =
      (targets source).findSome? (fault? (labelTable (place Memory.programStart routed))) := by
  rcases route_eq_ok_iff.1 hroute with ⟨-, rfl⟩ | ⟨-, index, hindex, rfl⟩
  · rfl
  · have hskip : fault? (labelTable (place Memory.programStart (detoured source index)))
        skipLabel = none :=
      fault?_eq_none_iff.2 ⟨_, lookup_skipLabel hindex hnodup, by decide⟩
    rw [targets_detoured, ← targets_take_append_drop source (index + 1), List.findSome?_append,
      List.findSome?_append, List.findSome?_cons, hskip]

end

/-! ## What a layout comes to -/

/-- Why a jump to a target keeps a source that fits into the memory from being laid out. -/
inductive TargetFault (source : List Statement) (target : String) : LayoutError → Prop where
  /-- No label has the name. -/
  | undefined (h : target ∉ labelNames source) : TargetFault source target (.undefinedLabel target)
  /-- The label lies behind the last cell of the memory. -/
  | beyond (h : EndsUpAt source target 256) : TargetFault source target (.programTooLarge 256)

/-- What the layout of a source comes to: the one error it fails with, or none. -/
inductive Verdict (source : List Statement) : Option LayoutError → Prop where
  /-- The first label whose name was defined before. -/
  | duplicate {name : String} {before after : List String}
      (hnames : labelNames source = before ++ name :: after) (hbefore : before.Nodup)
      (hname : name ∈ before) : Verdict source (some (.duplicateLabel name))
  /-- There has to be a detour, and the first statement already ends too late for it. -/
  | noRoom (hnodup : (labelNames source).Nodup) (hend : 128 ≤ finish source)
      (hfirst : 126 < finish (source.take 1)) : Verdict source (some .noSafePoint)
  /-- The code, with the detour if there has to be one, does not fit. -/
  | tooLarge {corrected : Nat} (hnodup : (labelNames source).Nodup)
      (hend : CorrectedEnd source corrected) (hsize : 256 < corrected) :
      Verdict source (some (.programTooLarge corrected))
  /-- The first jump with a fault. -/
  | faultyJump {corrected : Nat} {target : String} {before after : List String} {e : LayoutError}
      (hnodup : (labelNames source).Nodup) (hend : CorrectedEnd source corrected)
      (hsize : corrected ≤ 256) (htargets : targets source = before ++ target :: after)
      (hbefore : ∀ earlier ∈ before, ∀ e, ¬ TargetFault source earlier e)
      (htarget : TargetFault source target e) : Verdict source (some e)
  /-- Nothing keeps the source from being laid out. -/
  | fits {corrected : Nat} (hnodup : (labelNames source).Nodup)
      (hend : CorrectedEnd source corrected) (hsize : corrected ≤ 256)
      (htargets : ∀ target ∈ targets source, ∀ e, ¬ TargetFault source target e) :
      Verdict source none

/-- **The error in closed form**: the first of those of the steps. -/
theorem error?_layOut (source : List Statement) : error? (layOut source) =
    ((firstRepeat? [] (labelNames source)).map LayoutError.duplicateLabel).or
      (match (route source).result with
      | .error e => some e
      | .ok routed =>
        (if finish routed ≤ 256 then none else some (.programTooLarge (finish routed))).or
          (((firstRepeat? [] (labelNames routed)).map LayoutError.duplicateLabel).or
            ((targets routed).findSome?
              (fault? (labelTable (place Memory.programStart routed)))))) := by
  simp only [layOut_eq_bind, checkLabels_eq_elim, checkSize_eq_elim, resolve_eq_elim,
    labelNames_place, targets_place, error?_elim_bind]
  congr 1
  cases (route source).result with
  | error e => rfl
  | ok routed =>
    refine (error?_elim_bind _ _ _).trans (congrArg _ ((error?_elim_bind _ _ _).trans ?_))
    exact Option.or_none

section

variable {source routed : List Statement} (hs : Written source)
  (hnodup : (labelNames source).Nodup) (hroute : (route source).result = .ok routed)

include hs hnodup hroute

/-- The labels of written code on its way are distinct, so it fails by its size or a jump. -/
theorem error?_of_routed : error? (layOut source) =
      (if finish routed ≤ 256 then none else some (.programTooLarge (finish routed))).or
        ((targets source).findSome?
          (fault? (labelTable (place Memory.programStart routed)))) := by
  have hrouted := nodup_labelNames_routed hs hnodup hroute
  rw [error?_layOut, firstRepeat?_nil_eq_none_iff.2 hnodup, hroute]
  simp only [firstRepeat?_nil_eq_none_iff.2 hrouted, findSome?_targets_routed hroute hrouted,
    Option.map_none, Option.none_or]

/-- A jump of the source has the fault that its target has. -/
theorem fault?_routed_iff (hsize : finish routed ≤ 256) {target : String}
    (ht : target ∈ targets source) {e : LayoutError} :
    fault? (labelTable (place Memory.programStart routed)) target = some e ↔
      TargetFault source target e := by
  have hrouted := nodup_labelNames_routed hs hnodup hroute
  have hname : target ≠ skipLabel := fun heq => hs.skipLabel_notMem_targets (heq ▸ ht)
  rw [fault?_eq_some_iff, lookup_labelTable_eq_none_iff, labelNames_place,
    mem_labelNames_routed hroute hname]
  constructor
  · rintro (⟨hnot, rfl⟩ | ⟨address, hlookup, hge, rfl⟩)
    · exact .undefined hnot
    · -- a label takes no cells, so it lies at the end of the code at the latest
      have hle := le_finish_of_lookup hrouted hlookup
      obtain rfl : address = 256 := Nat.le_antisymm (Nat.le_trans hle hsize) hge
      exact .beyond ((lookup_routed_iff hroute hrouted hname).1 hlookup)
  · rintro (hnot | hends)
    · exact .inl ⟨hnot, rfl⟩
    · exact .inr ⟨256, (lookup_routed_iff hroute hrouted hname).2 hends, Nat.le_refl _, rfl⟩

theorem fault?_routed_eq_none_iff (hsize : finish routed ≤ 256) {target : String}
    (ht : target ∈ targets source) :
    fault? (labelTable (place Memory.programStart routed)) target = none ↔
      ∀ e, ¬ TargetFault source target e := by
  simp only [Option.eq_none_iff_forall_ne_some, ne_eq, fault?_routed_iff hs hnodup hroute hsize ht]

end

/-- A verdict is what the layout comes to. -/
theorem Verdict.error?_eq {source : List Statement} (hs : Written source)
    {outcome : Option LayoutError} (h : Verdict source outcome) :
    error? (layOut source) = outcome := by
  cases h with
  | duplicate hnames hbefore hname =>
    rw [error?_layOut,
      firstRepeat?_eq_some_iff.2 ⟨_, _, hnames, hbefore, fun _ _ => List.not_mem_nil, .inl hname⟩]
    rfl
  | noRoom hnodup hend hfirst =>
    rw [error?_layOut, firstRepeat?_nil_eq_none_iff.2 hnodup,
      route_eq_error_iff.2 ⟨hend, hfirst, rfl⟩]
    rfl
  | tooLarge hnodup hend hsize =>
    obtain ⟨routed, hroute, rfl⟩ := correctedEnd_iff.1 hend
    rw [error?_of_routed hs hnodup hroute, if_neg (Nat.not_le.2 hsize), Option.some_or]
  | faultyJump hnodup hend hsize htargets hbefore htarget =>
    obtain ⟨routed, hroute, rfl⟩ := correctedEnd_iff.1 hend
    rw [error?_of_routed hs hnodup hroute, if_pos hsize, Option.none_or,
      List.findSome?_eq_some_iff]
    refine ⟨_, _, _, htargets, ?_, fun earlier he => ?_⟩
    · exact (fault?_routed_iff hs hnodup hroute hsize (by simp [htargets])).2 htarget
    · exact (fault?_routed_eq_none_iff hs hnodup hroute hsize (by simp [htargets, he])).2
        (hbefore earlier he)
  | fits hnodup hend hsize htargets =>
    obtain ⟨routed, hroute, rfl⟩ := correctedEnd_iff.1 hend
    rw [error?_of_routed hs hnodup hroute, if_pos hsize, Option.none_or,
      List.findSome?_eq_none_iff]
    exact fun target ht =>
      (fault?_routed_eq_none_iff hs hnodup hroute hsize ht).2 (htargets target ht)

/-- What the layout comes to is a verdict. -/
theorem verdict_error? {source : List Statement} (hs : Written source) :
    Verdict source (error? (layOut source)) := by
  cases hrepeat : firstRepeat? [] (labelNames source) with
  | some name =>
    obtain ⟨before, after, hnames, hbefore, -, hname⟩ := firstRepeat?_eq_some_iff.1 hrepeat
    rw [error?_layOut, hrepeat]
    exact .duplicate hnames hbefore (hname.resolve_right List.not_mem_nil)
  | none =>
    have hnodup := firstRepeat?_nil_eq_none_iff.1 hrepeat
    cases hroute : (route source).result with
    | error e =>
      obtain ⟨hend, hfirst, rfl⟩ := route_eq_error_iff.1 hroute
      rw [error?_layOut, hrepeat, hroute]
      exact .noRoom hnodup hend hfirst
    | ok routed =>
      have hend := correctedEnd_iff.2 ⟨routed, hroute, rfl⟩
      rw [error?_of_routed hs hnodup hroute]
      by_cases hsize : finish routed ≤ 256
      · rw [if_pos hsize, Option.none_or]
        cases hfind : (targets source).findSome?
            (fault? (labelTable (place Memory.programStart routed))) with
        | none =>
          rw [List.findSome?_eq_none_iff] at hfind
          exact .fits hnodup hend hsize fun target ht =>
            (fault?_routed_eq_none_iff hs hnodup hroute hsize ht).1 (hfind target ht)
        | some e =>
          obtain ⟨before, target, after, htargets, hfault, hbefore⟩ :=
            List.findSome?_eq_some_iff.1 hfind
          refine .faultyJump hnodup hend hsize htargets (fun earlier he => ?_) ?_
          · exact (fault?_routed_eq_none_iff hs hnodup hroute hsize (by simp [htargets, he])).1
              (hbefore earlier he)
          · exact (fault?_routed_iff hs hnodup hroute hsize (by simp [htargets])).1 hfault
      · rw [if_neg hsize]
        exact .tooLarge hnodup hend (Nat.not_le.1 hsize)

/-- In statements that can be laid out every target is that of a label. -/
theorem mem_labelNames_of_mem_targets {source : List Statement} (hs : Written source)
    {layout : Layout} (h : layOut source = .ok layout) {target : String}
    (ht : target ∈ targets source) : target ∈ labelNames source := by
  have hverdict := verdict_error? hs
  rw [error?_eq_none_iff.2 ⟨layout, h⟩] at hverdict
  cases hverdict with
  | fits _ _ _ htargets =>
    by_contra hnot
    exact htargets target ht _ (.undefined hnot)

/-- **When a layout fails.** The layout of written statements fails with an error if and only if
that is the verdict on them, and succeeds if and only if the verdict is that nothing is wrong. Once
the labels of the source are found to be distinct, those of the code with the detour are as well. -/
theorem layOut_verdict {source : List Statement} (hs : Written source) :
    (∀ e, layOut source = .error e ↔ Verdict source (some e)) ∧
    ((∃ layout, layOut source = .ok layout) ↔ Verdict source none) ∧
    (checkLabels source = .ok () → ∀ routed, (route source).result = .ok routed →
      checkLabels (place Memory.programStart routed) = .ok ()) := by
  have hverdict : ∀ outcome, error? (layOut source) = outcome ↔ Verdict source outcome :=
    fun outcome => ⟨fun h => h ▸ verdict_error? hs, Verdict.error?_eq hs⟩
  refine ⟨fun e => ?_, ?_, fun hlabels routed hroute => ?_⟩
  · rw [← error?_eq_some_iff]
    exact hverdict (some e)
  · rw [← error?_eq_none_iff]
    exact hverdict none
  · rw [checkLabels_eq_ok_iff] at hlabels ⊢
    rw [labelNames_place]
    exact nodup_labelNames_routed hs hlabels hroute

/-- A program that fills the memory to its last cell and jumps to a label behind that. -/
def brimful : List Statement :=
  .ofInstruction ["GOTO", "end"] (.goto "end") ::
    (List.replicate 244 skipFiller ++ [.ofInstruction ["LABEL", "end"] (.label "end")])

theorem written_brimful : Written brimful := by
  intro statement hs
  simp only [brimful, List.mem_cons, List.mem_append, List.mem_replicate, List.not_mem_nil,
    or_false] at hs
  rcases hs with rfl | ⟨-, rfl⟩ | rfl
  · exact ⟨["GOTO", "end"], rfl⟩
  · exact ⟨["NOOP"], rfl⟩
  · exact ⟨["LABEL", "end"], rfl⟩

theorem layOut_verdict_brimful : Written brimful ∧ CorrectedEnd brimful 256 ∧
    EndsUpAt brimful "end" 256 ∧ layOut brimful = .error (.programTooLarge 256) := by
  have hresume : SafeEnd brimful 126 :=
    safeEnd_iff.2 ⟨120, lastSafe_iff.2 (by decide +kernel), by decide +kernel⟩
  have hend : CorrectedEnd brimful 256 :=
    .inr ⟨by decide +kernel, 126, hresume, by decide +kernel⟩
  have hlabel : EndsUpAt brimful "end" 256 := by
    refine ⟨245, 250, ⟨.ofInstruction ["LABEL", "end"] (.label "end"), 0, .label "end", ?_⟩,
      .inr ⟨by decide +kernel, by decide +kernel, 126, hresume, rfl⟩⟩
    decide +kernel
  refine ⟨written_brimful, hend, hlabel, ((layOut_verdict written_brimful).1 _).2 ?_⟩
  have htargets : targets brimful = [] ++ "end" :: [] := by decide +kernel
  exact .faultyJump (by decide +kernel) hend (Nat.le_refl _) htargets nofun (.beyond hlabel)

end CrossAssembler.Layout
