import CrossAssembler.Proofs.InsertedLabel

/-!
# Laying out a program again

The statements of a laid-out program are statements, and can be laid out once more
(`relayout_is_safe`).

* Code that ends before the reserved block stays as it is. Its fragments lie one after the other, so
  they are in their places already (`place_eq_self`), and each jump and each label has got what it
  would get (`settle_settle`).
* Code with a detour fails. It is interrupted a second time, since it ends behind the block: within
  the first detour or right before it (`exists_lastSafe_detoured`). The label of the detours is then
  the first name that is defined twice (`firstRepeat?_labelNames_detoured`), unless there is no
  space for the second detour at all.
-/

namespace CrossAssembler

open Fallible Layout

namespace Layout

open Fragment (totalCells)

/-! ## Code in its place -/

theorem placeFragments_eq_self {address : Nat} {fragments : List Fragment}
    (h : Contiguous address fragments) : placeFragments address fragments = fragments := by
  induction fragments generalizing address with
  | nil => rfl
  | cons fragment fragments ih =>
    obtain ⟨rfl, hrest⟩ := h
    rw [placeFragments, ih hrest]
    rfl

theorem contiguous_append_iff {address : Nat} {first second : List Fragment} :
    Contiguous address (first ++ second) ↔
      Contiguous address first ∧ Contiguous (address + totalCells first) second := by
  induction first generalizing address with
  | nil => exact (iff_of_eq (true_and _)).symm
  | cons fragment first ih =>
    rw [List.cons_append, Contiguous, ih, Contiguous, Fragment.totalCells_cons, Nat.add_assoc,
      and_assoc]

/-- What lies where it would be placed stays there. -/
theorem place_eq_self {address : Nat} {statements : List Statement}
    (h : Contiguous address (fragments statements)) : place address statements = statements := by
  induction statements generalizing address with
  | nil => rfl
  | cons statement statements ih =>
    rw [fragments_cons, contiguous_append_iff] at h
    rw [place, placeFragments_eq_self h.1, Statement.cells, ih h.2]

/-! ## Resolved code -/

@[simp] theorem labelTable_settle (statements : List Statement) :
    labelTable (settle statements) = labelTable statements := by
  rw [labelTable, fragments_settle, List.filterMap_map, labelTable]
  congr 1
  funext fragment
  simp only [Function.comp_apply, labelName?_settleFragment, location_settleFragment]

section

variable (table : List (String × Nat)) (targets : List String)

theorem settleFragment_settleFragment (fragment : Fragment) :
    settleFragment table targets (settleFragment table targets fragment) =
      settleFragment table targets fragment := by
  obtain ⟨location, content⟩ := fragment
  cases content with
  | operation value => rfl
  | label name used =>
    simp only [settleFragment, aimFragment, markFragment, Bool.or_assoc, Bool.or_self]
  | jump kind target destination => rfl

theorem settleStatement_settleStatement (statement : Statement) :
    settleStatement table targets (settleStatement table targets statement) =
      settleStatement table targets statement := by
  have hfragments : (settleStatement table targets
      (settleStatement table targets statement)).fragments =
      (settleStatement table targets statement).fragments := by
    simp only [fragments_settleStatement, List.map_map]
    exact List.map_congr_left fun fragment _ => settleFragment_settleFragment table targets fragment
  exact congrArg (Statement.mk statement.tokens) hfragments

theorem cells_settleStatement (statement : Statement) :
    (settleStatement table targets statement).cells = statement.cells := by
  rw [Statement.cells, fragments_settleStatement,
    Fragment.totalCells_map _ (cells_settleFragment table targets), Statement.cells]

end

/-- Settling twice is settling once. -/
theorem settle_settle (statements : List Statement) :
    settle (settle statements) = settle statements := by
  have hsettle : settle (settle statements) =
      (settle statements).map (settleStatement (labelTable statements) (targets statements)) := by
    rw [settle, labelTable_settle, targets_settle]
  rw [hsettle, settle, List.map_map]
  exact List.map_congr_left fun statement _ => settleStatement_settleStatement _ _ statement

/-- Resolved code is resolved to itself. -/
theorem resolve_of_resolve {statements resolved : List Statement}
    (h : resolve statements = .ok resolved) : resolve resolved = .ok resolved := by
  obtain ⟨hnodup, htargets, rfl⟩ := resolve_eq_ok_iff.1 h
  refine resolve_eq_ok_iff.2 ⟨?_, ?_, settle_settle statements⟩
  · rwa [labelNames_settle]
  · rwa [targets_settle, labelTable_settle]

/-- Laid-out statements take the cells that they took before. -/
theorem map_cells_settle_place (address : Nat) (statements : List Statement) :
    (settle (place address statements)).map Statement.cells =
      statements.map Statement.cells := by
  have hplace : (place address statements).map Statement.cells =
      statements.map Statement.cells := by
    induction statements generalizing address with
    | nil => rfl
    | cons statement statements ih =>
      rw [place, List.map_cons, ih, List.map_cons, Statement.cells, totalCells_placeFragments,
        ← Statement.cells]
  rw [settle, List.map_map, ← hplace]
  exact List.map_congr_left fun statement _ => cells_settleStatement _ _ statement

/-! ## A second detour -/

theorem exists_lastSafe_append {first second : List Statement} (hne : first ≠ [])
    (hsafe : finish first ≤ 126) (hnext : ∀ next ∈ second.head?, 126 < finish (first ++ [next])) :
    ∃ index, LastSafe (first ++ second) index ∧
      finish ((first ++ second).take (index + 1)) = finish first := by
  obtain ⟨index, hindex⟩ := Nat.exists_eq_succ_of_ne_zero
    (Nat.ne_of_gt (List.length_pos_iff.2 hne))
  refine ⟨index, (lastSafe_append_iff hindex).2 ⟨hsafe, hnext⟩, ?_⟩
  rw [← Nat.succ_eq_add_one, ← hindex, List.take_left]

/-- The detour, cut where a jump over the reserved block may start for the last time. -/
theorem skip_eq_append {resume : Nat} (h : resume ≤ 124) :
    skip resume = (skipJump :: List.replicate (124 - resume) skipFiller) ++
      (List.replicate 6 skipFiller ++ [skipTarget]) := by
  have hfillers : Memory.reservedEnd - (resume + Memory.jumpCells) = 124 - resume + 6 := by
    simp only [Memory.reservedEnd, Memory.jumpCells]
    omega
  rw [skip, hfillers, List.replicate_add]
  simp

/-- Interrupted code would be interrupted within its detour at 126, or right before the detour if
its jump does not end in time. -/
theorem exists_lastSafe_detoured {source : List Statement} {index : Nat}
    (h : LastSafe source index) : ∃ again, LastSafe (detoured source index) again ∧
      finish ((detoured source index).take (again + 1)) =
        if finish (source.take (index + 1)) = 125 then 125 else 126 := by
  have hne : source.take (index + 1) ≠ [] :=
    List.ne_nil_of_length_eq_add_one (List.length_take_of_le h.lt)
  have hsafe := h.safe
  rw [detoured, insertSkip]
  generalize source.take (index + 1) = front at hne hsafe ⊢
  generalize source.drop (index + 1) = rest
  have hjump : finish (front ++ [skipJump]) = finish front + 2 := finish_append front [skipJump]
  by_cases hlate : 124 < finish front
  · -- the jump ends at 127 or 128
    have hnext : ∀ next ∈ (skip (finish front) ++ rest).head?, 126 < finish (front ++ [next]) := by
      intro next hnext
      obtain rfl : skipJump = next := Option.some.inj hnext
      omega
    obtain ⟨again, hagain, hresume⟩ := exists_lastSafe_append hne hsafe hnext
    refine ⟨again, hagain, ?_⟩
    split <;> omega
  · -- a filler ends at 126, or the jump if it starts at 124
    have hsplit : front ++ (skip (finish front) ++ rest) =
        (front ++ skipJump :: List.replicate (124 - finish front) skipFiller) ++
          (List.replicate 6 skipFiller ++ skipTarget :: rest) := by
      rw [skip_eq_append (Nat.le_of_not_lt hlate)]
      simp
    have hend : finish (front ++ skipJump :: List.replicate (124 - finish front) skipFiller) =
        126 := by
      rw [finish_append, extent, extent_replicate_skipFiller, show skipJump.cells = 2 from rfl]
      omega
    have hnext : ∀ next ∈ (List.replicate 6 skipFiller ++ skipTarget :: rest).head?, 126 <
        finish (front ++ skipJump :: List.replicate (124 - finish front) skipFiller ++ [next]) := by
      intro next hnext
      obtain rfl : skipFiller = next := Option.some.inj hnext
      rw [finish_append, hend]
      decide
    obtain ⟨again, hagain, hresume⟩ :=
      exists_lastSafe_append (by simp) (Nat.le_of_eq hend) hnext
    rw [hsplit]
    refine ⟨again, hagain, ?_⟩
    rw [hresume, hend, if_neg (by omega)]

theorem firstRepeat?_insert {first second : List String} {name : String}
    (hnodup : (first ++ second).Nodup) (hname : name ∈ first ++ second) :
    firstRepeat? [] (first ++ name :: second) = some name := by
  rw [firstRepeat?_eq_some_iff]
  rcases List.mem_append.1 hname with hfirst | hsecond
  · exact ⟨first, second, rfl, hnodup.of_append_left, fun _ _ => List.not_mem_nil, .inl hfirst⟩
  · obtain ⟨front, back, rfl⟩ := List.append_of_mem hsecond
    refine ⟨first ++ name :: front, back, by simp, ?_, fun _ _ => List.not_mem_nil,
      .inl (by simp)⟩
    have hfront : (first ++ (front ++ [name]) ++ back).Nodup := by simpa using hnodup
    exact (List.Perm.append_left first (List.perm_append_singleton name front)).nodup_iff.1
      hfront.of_append_left

/-- On a way with a second label of one name, code fails by its size or by that name. -/
theorem error?_of_repeat {source routed : List Statement} (hnodup : (labelNames source).Nodup)
    (hroute : (route source).result = .ok routed) {name : String}
    (hrepeat : firstRepeat? [] (labelNames routed) = some name) : error? (layOut source) =
      some (if finish routed ≤ 256 then .duplicateLabel name
        else .programTooLarge (finish routed)) := by
  rw [error?_layOut, firstRepeat?_nil_eq_none_iff.2 hnodup, hroute]
  simp only [hrepeat, Option.map_none, Option.none_or, Option.map_some, Option.some_or]
  split <;> rfl

/-- A second detour defines the label of the detours a second time. -/
theorem firstRepeat?_labelNames_detoured {source : List Statement} (index : Nat)
    (hnodup : (labelNames source).Nodup) (hskip : skipLabel ∈ labelNames source) :
    firstRepeat? [] (labelNames (detoured source index)) = some skipLabel := by
  rw [← labelNames_take_append_drop source (index + 1)] at hnodup hskip
  rw [labelNames_detoured]
  exact firstRepeat?_insert hnodup hskip

end Layout

/-- Code that keeps its way is laid out to itself. -/
theorem layOut_of_straight {source : List Statement} {layout : Layout}
    (h : layOut source = .ok layout) (hend : finish source < 128) :
    layOut layout.statements = .ok layout := by
  obtain ⟨hnodup, routed, hroute, hsize, hresolve, hdiagnose⟩ := layOut_eq_ok_iff.1 h
  rcases route_eq_ok_iff.1 hroute with ⟨-, hrouted⟩ | ⟨hge, -⟩
  · rw [hrouted] at hsize hresolve
    obtain ⟨-, -, hsettle⟩ := resolve_eq_ok_iff.1 hresolve
    have hfinish : finish layout.statements = finish source := by
      rw [← hsettle]
      exact finish_eq_of_cells (map_cells_settle_place _ source)
    have hplace : place Memory.programStart layout.statements = layout.statements := by
      rw [← hsettle]
      exact place_eq_self (contiguous_settle_place _ _ _ source)
    refine layOut_eq_ok_iff.2 ⟨?_, layout.statements, route_eq_ok_iff.2 (.inl ⟨by omega, rfl⟩),
      by omega, ?_, hdiagnose⟩
    · rwa [← hsettle, labelNames_settle, labelNames_place]
    · rw [hplace]
      exact resolve_of_resolve hresolve
  · omega

/-- Code with a detour fails by the size it has with a second one, or by the label of both. -/
theorem error?_of_lastSafe {source : List Statement} {layout : Layout}
    (h : layOut source = .ok layout) (hend : 128 ≤ finish source) {index : Nat}
    (hindex : LastSafe source index) {size : Nat} (hsize : size = finish layout.statements +
      if finish (source.take (index + 1)) = 125 then 7 else 6) :
    error? (layOut layout.statements) =
      some (if size ≤ 256 then .duplicateLabel skipLabel else .programTooLarge size) := by
  have hroute := route_eq_ok_iff.2 (.inr ⟨hend, index, hindex, rfl⟩)
  obtain ⟨routed, hrouted, -, hnodup, -, hstatements⟩ := exists_routed h
  obtain rfl := Except.ok.inj (hroute.symm.trans hrouted)
  have hlabels : labelNames layout.statements = labelNames (detoured source index) := by
    rw [hstatements, labelNames_settle, labelNames_place]
  have hcells : layout.statements.map Statement.cells =
      (detoured source index).map Statement.cells := by
    rw [hstatements, map_cells_settle_place]
  have hfinish := finish_eq_of_cells hcells
  obtain ⟨again, hagain, hresume⟩ := exists_lastSafe_detoured hindex
  have hlast := hagain.of_cells hcells.symm
  have hbehind := finish_detoured hindex
  have hskip : skipLabel ∈ labelNames layout.statements := by
    rw [hlabels, labelNames_detoured]
    simp
  have hsecond : finish (detoured layout.statements again) = size := by
    rw [finish_detoured hlast, finish_take_eq_of_cells hcells, hresume, hsize]
    split <;> omega
  rw [error?_of_repeat (hlabels ▸ hnodup) (route_eq_ok_iff.2 (.inr ⟨by omega, again, hlast, rfl⟩))
    (firstRepeat?_labelNames_detoured again (hlabels ▸ hnodup) hskip), hsecond]

/-- **A program is laid out once.** Let statements be laid out. If they end before the reserved
block, then their layout, laid out again, is itself. If not, then their layout cannot be laid out
again. A second detour takes 7 cells more if the first one starts at 125, and else 6. With it the
label of the detours is defined twice, or else the code does not fit in memory. -/
theorem relayout_is_safe {source : List Statement} {layout : Layout}
    (h : layOut source = .ok layout) :
    (finish source < 128 → layOut layout.statements = .ok layout) ∧
    (128 ≤ finish source → ∃ index size, LastSafe source index ∧
      size = finish layout.statements +
        (if finish (source.take (index + 1)) = 125 then 7 else 6) ∧
      (size ≤ 256 ∧ layOut layout.statements = .error (.duplicateLabel skipLabel) ∨
        256 < size ∧ layOut layout.statements = .error (.programTooLarge size))) := by
  refine ⟨layOut_of_straight h, fun hend => ?_⟩
  obtain ⟨routed, hroute, -⟩ := exists_routed h
  rcases route_eq_ok_iff.1 hroute with ⟨hlt, -⟩ | ⟨-, index, hindex, -⟩
  · omega
  · obtain ⟨size, hsize⟩ : ∃ size, size = finish layout.statements +
        if finish (source.take (index + 1)) = 125 then 7 else 6 := ⟨_, rfl⟩
    have herror := error?_eq_some_iff.1 (error?_of_lastSafe h hend hindex hsize)
    refine ⟨index, size, hindex, hsize, ?_⟩
    by_cases hfits : size ≤ 256
    · rw [if_pos hfits] at herror
      exact .inl ⟨hfits, herror⟩
    · rw [if_neg hfits] at herror
      exact .inr ⟨Nat.lt_of_not_le hfits, herror⟩

/-- A jump over nothing, far from the reserved block. -/
def hop : List Statement :=
  [labelStatement "top", .ofInstruction ["GOTO", "end"] (.goto "end"), labelStatement "end"]

/-- A program without a detour, one with space for a second detour and one without. -/
theorem relayout_is_safe_crossing :
    (∃ layout, layOut hop = .ok layout ∧ finish hop < 128 ∧
      layOut layout.statements = .ok layout) ∧
    (∃ layout, layOut crossing = .ok layout ∧ 128 ≤ finish crossing ∧
      layOut layout.statements = .error (.duplicateLabel skipLabel)) ∧
    ∃ layout, layOut (List.replicate 246 skipFiller) = .ok layout ∧
      128 ≤ finish (List.replicate 246 skipFiller) ∧
      layOut layout.statements = .error (.programTooLarge 262) := by
  refine ⟨?_, ?_, ?_⟩
  · obtain ⟨layout, h⟩ : ∃ layout, layOut hop = .ok layout := exists_eq_ok (by decide +kernel)
    have hend : finish hop < 128 := by decide
    exact ⟨layout, h, hend, (relayout_is_safe h).1 hend⟩
  · obtain ⟨layout, h⟩ := exists_layOut_crossing
    have hend : 128 ≤ finish crossing := by decide +kernel
    have hfinish : finish layout.statements = 134 := by
      have hmap : (layOut crossing).toOption.map (fun layout => finish layout.statements) =
          some 134 := by decide +kernel
      rw [h] at hmap
      exact Option.some.inj hmap
    obtain ⟨index, size, -, hsize, herror⟩ := (relayout_is_safe h).2 hend
    rw [hfinish] at hsize
    have hfits : size ≤ 256 := by
      rw [hsize]
      split <;> decide
    rcases herror with ⟨-, herror⟩ | ⟨hlarge, -⟩
    · exact ⟨layout, h, hend, herror⟩
    · omega
  · obtain ⟨layout, h⟩ : ∃ layout, layOut (List.replicate 246 skipFiller) = .ok layout :=
      exists_eq_ok (by decide +kernel)
    have hend : 128 ≤ finish (List.replicate 246 skipFiller) := by decide +kernel
    have hfinish : finish layout.statements = 256 := by
      have hmap : (layOut (List.replicate 246 skipFiller)).toOption.map
          (fun layout => finish layout.statements) = some 256 := by decide +kernel
      rw [h] at hmap
      exact Option.some.inj hmap
    have hindex : LastSafe (List.replicate 246 skipFiller) 121 := lastSafe_iff.2 (by decide +kernel)
    obtain ⟨index, size, hlast, hsize, herror⟩ := (relayout_is_safe h).2 hend
    obtain rfl := hlast.unique hindex
    rw [hfinish, if_neg (by decide +kernel)] at hsize
    subst hsize
    rcases herror with ⟨hfits, -⟩ | ⟨-, herror⟩
    · omega
    · exact ⟨layout, h, hend, herror⟩

end CrossAssembler
