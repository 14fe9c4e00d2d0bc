import CrossAssembler.Layout
import CrossAssembler.Proofs.Resolution

/-!
# Where the code is interrupted

The statements that end where a jump over the reserved block may start are the first ones, since
ends ascend: `safeCount` counts exactly them (`lt_safeCount_iff`), and `LastSafe` names the last. A
detour after it starts early enough for its padding to be a difference of addresses
(`LastSafe.padding`), ends at the first cell after the block, and moves what follows it as one piece
(`place_detoured`).

`route_eq_ok_iff` and `route_eq_error_iff` say when code is interrupted and when that fails, and
`layOut_eq_ok_iff` and `layOut_eq_bind` what a layout is made of.
-/

namespace CrossAssembler.Layout

open Fallible

/-! ## The last safe statement -/

theorem lt_safeCount_iff {address : Nat} {statements : List Statement} {k : Nat} :
    k < safeCount address statements ↔ k < statements.length ∧
      address + extent (statements.take (k + 1)) ≤ Memory.safeJumpLimit := by
  induction statements generalizing address k with
  | nil => simp [safeCount]
  | cons statement statements ih =>
    rw [safeCount, List.take_succ_cons, extent, List.length_cons]
    split
    · cases k with
      | zero => simp only [List.take_zero, extent]; omega
      | succ k => rw [Nat.add_lt_add_iff_right, ih, Nat.add_lt_add_iff_right, Nat.add_assoc]
    · have hend : statement.cells ≤ statement.cells + extent (statements.take k) :=
        Nat.le_add_right _ _
      omega

/-- Statement `index` is the last that ends at 126 or before: where a jump of two cells still ends
before the reserved block. -/
structure LastSafe (source : List Statement) (index : Nat) : Prop where
  lt : index < source.length
  safe : finish (source.take (index + 1)) ≤ 126
  last : ∀ k < source.length, finish (source.take (k + 1)) ≤ 126 → k ≤ index

theorem lastSafe_iff {source : List Statement} {index : Nat} :
    LastSafe source index ↔ safeCount Memory.programStart source = index + 1 := by
  have hcount : ∀ k, k < safeCount Memory.programStart source ↔
      k < source.length ∧ finish (source.take (k + 1)) ≤ 126 := fun k => lt_safeCount_iff
  constructor
  · intro h
    have hlt := (hcount index).2 ⟨h.lt, h.safe⟩
    have hnot : ¬ index + 1 < safeCount Memory.programStart source := fun hmore =>
      Nat.not_succ_le_self index (h.last (index + 1) ((hcount _).1 hmore).1 ((hcount _).1 hmore).2)
    omega
  · intro h
    obtain ⟨hlt, hsafe⟩ := (hcount index).1 (by omega)
    refine ⟨hlt, hsafe, fun k hk hend => ?_⟩
    have := (hcount k).2 ⟨hk, hend⟩
    omega

/-- A last safe statement exists as soon as the first one is safe. -/
theorem exists_lastSafe {source : List Statement} (hne : source ≠ [])
    (hfirst : finish (source.take 1) ≤ 126) : ∃ index, LastSafe source index := by
  have hpos : 0 < safeCount Memory.programStart source :=
    lt_safeCount_iff.2 ⟨List.length_pos_iff.2 hne, hfirst⟩
  obtain ⟨index, hindex⟩ := Nat.exists_eq_succ_of_ne_zero (Nat.ne_of_gt hpos)
  exact ⟨index, lastSafe_iff.2 hindex⟩

namespace LastSafe

variable {source : List Statement} {index : Nat}

theorem unique (h : LastSafe source index) {other : Nat} (h' : LastSafe source other) :
    index = other :=
  Nat.le_antisymm (h'.last index h.lt h.safe) (h.last other h'.lt h'.safe)

/-- Statements up to the last safe one are safe, later ones are not. -/
theorem le_iff (h : LastSafe source index) {k : Nat} (hk : k < source.length) :
    k ≤ index ↔ finish (source.take (k + 1)) ≤ 126 :=
  ⟨fun hle => Nat.le_trans (finish_take_mono source (Nat.succ_le_succ hle)) h.safe, h.last k hk⟩

/-- The cells to be padded are those between the jump and the end of the reserved block: no address
is subtracted from a lower one. -/
theorem padding (h : LastSafe source index) :
    finish (source.take (index + 1)) + Memory.jumpCells ≤ Memory.reservedEnd := by
  have := h.safe
  simp only [Memory.jumpCells, Memory.reservedEnd]
  omega

end LastSafe

theorem finish_eq_of_cells {first second : List Statement}
    (h : first.map Statement.cells = second.map Statement.cells) :
    finish first = finish second := by
  rw [finish, extent_eq_of_cells h, finish]

theorem finish_take_eq_of_cells {first second : List Statement}
    (h : first.map Statement.cells = second.map Statement.cells) (k : Nat) :
    finish (first.take k) = finish (second.take k) := by
  apply finish_eq_of_cells
  rw [List.map_take, h, List.map_take]

/-- Only the cells of statements count for which is the last safe one. -/
theorem LastSafe.of_cells {first second : List Statement}
    (h : first.map Statement.cells = second.map Statement.cells) {index : Nat}
    (hindex : LastSafe first index) : LastSafe second index := by
  have hlength : first.length = second.length := by simpa using congrArg List.length h
  have hfinish := finish_take_eq_of_cells h
  refine ⟨hlength ▸ hindex.lt, hfinish _ ▸ hindex.safe, fun k hk hsafe => ?_⟩
  exact hindex.last k (hlength ▸ hk) (hfinish (k + 1) ▸ hsafe)

theorem safeCount_eq_of_cells {first second : List Statement}
    (h : first.map Statement.cells = second.map Statement.cells) (address : Nat) :
    safeCount address first = safeCount address second := by
  induction first generalizing second address with
  | nil => rw [List.map_eq_nil_iff.1 h.symm]
  | cons statement first ih =>
    cases second with
    | nil => cases h
    | cons other second =>
      obtain ⟨hcells, hrest⟩ := List.cons.inj h
      rw [safeCount, safeCount, hcells, ih hrest]

theorem interruption_eq_of_cells {first second : List Statement}
    (h : first.map Statement.cells = second.map Statement.cells) :
    interruption first = interruption second := by
  rw [interruption, interruption, safeCount_eq_of_cells h]
  cases safeCount Memory.programStart second with
  | zero => rfl
  | succ count => simp only [finish_take_eq_of_cells h]

theorem interruption_eq_ok_iff {source : List Statement} {count resume : Nat} :
    interruption source = .ok (count, resume) ↔
      ∃ index, LastSafe source index ∧ count = index + 1 ∧ resume = finish (source.take count) := by
  simp only [lastSafe_iff, interruption]
  cases safeCount Memory.programStart source with
  | zero => exact ⟨nofun, nofun⟩
  | succ index =>
    constructor
    · intro h
      cases h
      exact ⟨index, rfl, rfl, rfl⟩
    · rintro ⟨_, h, rfl, rfl⟩
      cases h
      rfl

theorem interruption_eq_error_iff {source : List Statement} (hne : source ≠ []) {e : LayoutError} :
    interruption source = .error e ↔ e = .noSafePoint ∧ 126 < finish (source.take 1) := by
  have hpos : 0 < safeCount Memory.programStart source ↔ finish (source.take 1) ≤ 126 :=
    lt_safeCount_iff.trans (and_iff_right (List.length_pos_iff.2 hne))
  rw [interruption]
  cases hcount : safeCount Memory.programStart source with
  | zero =>
    rw [hcount] at hpos
    have hlt : 126 < finish (source.take 1) := by omega
    constructor
    · intro h
      cases h
      exact ⟨rfl, hlt⟩
    · rintro ⟨rfl, -⟩
      rfl
  | succ index =>
    rw [hcount] at hpos
    have hle := hpos.1 (Nat.succ_pos index)
    constructor
    · nofun
    · rintro ⟨-, hlt⟩
      omega

/-! ## The detour -/

theorem labelNames_append (first second : List Statement) :
    labelNames (first ++ second) = labelNames first ++ labelNames second := by
  rw [labelNames, fragments_append, List.filterMap_append, ← labelNames, ← labelNames]

theorem targets_append (first second : List Statement) :
    targets (first ++ second) = targets first ++ targets second := by
  rw [targets, fragments_append, List.filterMap_append, ← targets, ← targets]

theorem labelNames_take_append_drop (statements : List Statement) (k : Nat) :
    labelNames (statements.take k) ++ labelNames (statements.drop k) = labelNames statements := by
  rw [← labelNames_append, List.take_append_drop]

theorem targets_take_append_drop (statements : List Statement) (k : Nat) :
    targets (statements.take k) ++ targets (statements.drop k) = targets statements := by
  rw [← targets_append, List.take_append_drop]

theorem fragments_replicate_skipFiller (n : Nat) : fragments (List.replicate n skipFiller) =
    List.replicate n (.operation Opcode.noop) := by
  induction n with
  | zero => rfl
  | succ n ih => rw [List.replicate_succ, fragments_cons, ih, List.replicate_succ]; rfl

theorem labelNames_skip (resume : Nat) : labelNames (skip resume) = [skipLabel] := by
  simp only [labelNames, skip, fragments_cons, fragments_append, fragments_replicate_skipFiller,
    List.filterMap_append, List.filterMap_replicate]
  rfl

theorem targets_skip (resume : Nat) : targets (skip resume) = [skipLabel] := by
  simp only [targets, skip, fragments_cons, fragments_append, fragments_replicate_skipFiller,
    List.filterMap_append, List.filterMap_replicate]
  rfl

/-- The statements with the detour after statement `index`. -/
def detoured (source : List Statement) (index : Nat) : List Statement :=
  insertSkip source (index + 1) (finish (source.take (index + 1)))

theorem labelNames_detoured (source : List Statement) (index : Nat) :
    labelNames (detoured source index) = labelNames (source.take (index + 1)) ++
      skipLabel :: labelNames (source.drop (index + 1)) := by
  rw [detoured, insertSkip, labelNames_append, labelNames_append, labelNames_skip]
  rfl

theorem targets_detoured (source : List Statement) (index : Nat) :
    targets (detoured source index) = targets (source.take (index + 1)) ++
      skipLabel :: targets (source.drop (index + 1)) := by
  rw [detoured, insertSkip, targets_append, targets_append, targets_skip]
  rfl

@[simp] theorem extent_replicate_skipFiller (n : Nat) :
    extent (List.replicate n skipFiller) = n := by
  induction n with
  | zero => rfl
  | succ n ih =>
    rw [List.replicate_succ, extent, ih, show skipFiller.cells = 1 from rfl, Nat.add_comm]

/-- The detour ends at the first cell after the reserved block. -/
theorem add_extent_skip {resume : Nat} (h : resume + Memory.jumpCells ≤ Memory.reservedEnd) :
    resume + extent (skip resume) = Memory.reservedEnd := by
  have hjump : skipJump.cells = Memory.jumpCells := rfl
  have htarget : extent [skipTarget] = 0 := rfl
  rw [skip, extent, extent_append, extent_replicate_skipFiller, hjump, htarget]
  omega

/-- What follows the detour moves as one piece to the first cell after the reserved block. -/
theorem place_detoured {source : List Statement} {index : Nat} (h : LastSafe source index) :
    place Memory.programStart (detoured source index) =
      place Memory.programStart (source.take (index + 1)) ++
        (place (finish (source.take (index + 1))) (skip (finish (source.take (index + 1)))) ++
          place Memory.reservedEnd (source.drop (index + 1))) := by
  rw [detoured, insertSkip, place_append, place_append, ← finish, add_extent_skip h.padding]

/-- The detour costs the cells from where the code is interrupted to the end of the reserved
block. -/
theorem finish_detoured {source : List Statement} {index : Nat} (h : LastSafe source index) :
    finish (detoured source index) = 132 + (finish source - finish (source.take (index + 1))) := by
  have hskip : _ = 132 := add_extent_skip h.padding
  have hsum := extent_take_add_drop source (index + 1)
  simp only [detoured, insertSkip, finish, extent_append] at hskip ⊢
  omega

theorem place_replicate_skipFiller (address n : Nat) :
    place address (List.replicate n skipFiller) =
      (List.range n).map fun i => ⟨["NOOP"], [⟨address + i, .operation Opcode.noop⟩]⟩ := by
  induction n with
  | zero => rfl
  | succ n ih =>
    rw [List.replicate_succ', place_append, ih, extent_replicate_skipFiller, List.range_succ,
      List.map_append]
    rfl

/-- The detour in a laid-out program: the jump at the address where the code is interrupted, an
operation that does nothing in each cell up to the end of the reserved block, and the label. -/
def settledSkip (resume : Nat) : List Statement :=
  ⟨["GOTO", "#skip_display"], [⟨resume, .jump .unconditional "#skip_display" (some 132)⟩]⟩ ::
    ((List.range (130 - resume)).map fun i => ⟨["NOOP"], [⟨resume + 2 + i, .operation 0o300⟩]⟩) ++
    [⟨["LABEL", "#skip_display"], [⟨132, .label "#skip_display" true⟩]⟩]

/-- The detour before its jump is resolved. -/
theorem place_skip {resume : Nat} (h : resume + Memory.jumpCells ≤ Memory.reservedEnd) :
    place resume (skip resume) =
      ⟨["GOTO", skipLabel], [⟨resume, .jump .unconditional skipLabel none⟩]⟩ ::
        (((List.range (130 - resume)).map fun i =>
            ⟨["NOOP"], [⟨resume + 2 + i, .operation Opcode.noop⟩]⟩) ++
          [⟨["LABEL", skipLabel], [⟨Memory.reservedEnd, .label skipLabel false⟩]⟩]) := by
  have hpadding : Memory.reservedEnd - (resume + Memory.jumpCells) = 130 - resume := by
    simp only [Memory.reservedEnd, Memory.jumpCells]
    omega
  have hend : resume + 2 + (130 - resume) = Memory.reservedEnd := by
    simp only [Memory.reservedEnd, Memory.jumpCells] at h ⊢
    omega
  have hjump : skipJump.cells = 2 := rfl
  rw [skip, place, place_append, hpadding, hjump, place_replicate_skipFiller,
    extent_replicate_skipFiller, hend]
  rfl

theorem settle_place_skip {table : List (String × Nat)} {targets : List String} {resume : Nat}
    (h : resume + Memory.jumpCells ≤ Memory.reservedEnd)
    (htable : table.lookup skipLabel = some Memory.reservedEnd) (htargets : skipLabel ∈ targets) :
    (place resume (skip resume)).map (settleStatement table targets) = settledSkip resume := by
  have hjump : settleStatement table targets
      ⟨["GOTO", skipLabel], [⟨resume, .jump .unconditional skipLabel none⟩]⟩ =
      ⟨["GOTO", skipLabel], [⟨resume, .jump .unconditional skipLabel (some 132)⟩]⟩ := by
    simp only [settleStatement, aimStatement, List.map_cons, List.map_nil, aimFragment, htable]
    rfl
  have htarget : settleStatement table targets
      ⟨["LABEL", skipLabel], [⟨Memory.reservedEnd, .label skipLabel false⟩]⟩ =
      ⟨["LABEL", skipLabel], [⟨Memory.reservedEnd, .label skipLabel true⟩]⟩ := by
    simp [settleStatement, aimStatement, aimFragment, markStatement, markFragment, htargets]
  rw [place_skip h, List.map_cons, hjump, List.map_append, List.map_map, List.map_singleton,
    htarget]
  rfl

/-! ## The way of the code -/

theorem result_route (source : List Statement) : (route source).result =
    if finish source < Memory.display then .ok source
    else (fun (count, resume) => insertSkip source count resume) <$> interruption source := by
  unfold route
  split
  · rfl
  · rw [correct]
    simp only [Logged.result_bind, Logged.result_ofExcept, Logged.result_report,
      Logged.result_pure]
    cases interruption source <;> rfl

theorem ne_nil_of_display_le {source : List Statement} (h : 128 ≤ finish source) : source ≠ [] := by
  rintro rfl
  exact absurd h (by decide)

/-- The code keeps its way if it ends before the reserved block, and is interrupted after the last
safe statement otherwise. -/
theorem route_eq_ok_iff {source routed : List Statement} :
    (route source).result = .ok routed ↔ (finish source < 128 ∧ routed = source) ∨
      (128 ≤ finish source ∧ ∃ index, LastSafe source index ∧ routed = detoured source index) := by
  rw [result_route, Memory.display]
  by_cases hend : finish source < 128
  · rw [if_pos hend]
    constructor
    · intro h
      exact .inl ⟨hend, (Except.ok.inj h).symm⟩
    · rintro (⟨-, rfl⟩ | ⟨hge, -⟩)
      · rfl
      · omega
  · rw [if_neg hend, map_eq_ok]
    constructor
    · rintro ⟨⟨count, resume⟩, h, rfl⟩
      obtain ⟨index, hindex, rfl, rfl⟩ := interruption_eq_ok_iff.1 h
      exact .inr ⟨by omega, index, hindex, rfl⟩
    · rintro (⟨hlt, -⟩ | ⟨-, index, hindex, rfl⟩)
      · exact absurd hlt hend
      · exact ⟨_, interruption_eq_ok_iff.2 ⟨index, hindex, rfl, rfl⟩, rfl⟩

/-- The statements on the code's way are those of the source and of the detour. -/
theorem mem_route {source routed : List Statement} (h : (route source).result = .ok routed)
    {statement : Statement} (hs : statement ∈ routed) :
    statement ∈ source ∨ statement ∈ [skipJump, skipFiller, skipTarget] := by
  rcases route_eq_ok_iff.1 h with ⟨-, rfl⟩ | ⟨-, index, -, rfl⟩
  · exact .inl hs
  · simp only [detoured, insertSkip, skip, List.mem_append, List.mem_cons, List.mem_replicate] at hs
    rcases hs with hs | (hs | ⟨-, hs⟩ | hs) | hs
    · exact .inl (List.mem_of_mem_take hs)
    · exact .inr (by simp [hs])
    · exact .inr (by simp [hs])
    · exact .inr (by simp_all)
    · exact .inl (List.mem_of_mem_drop hs)

/-- The code cannot be interrupted if it has to be and its first statement is not safe. -/
theorem route_eq_error_iff {source : List Statement} {e : LayoutError} :
    (route source).result = .error e ↔
      128 ≤ finish source ∧ 126 < finish (source.take 1) ∧ e = .noSafePoint := by
  rw [result_route, Memory.display]
  by_cases hend : finish source < 128
  · rw [if_pos hend]
    constructor
    · nofun
    · rintro ⟨hge, -⟩
      omega
  · rw [if_neg hend]
    have hmap : (fun (count, resume) => insertSkip source count resume) <$> interruption source =
        .error e ↔ interruption source = .error e := by
      cases interruption source with
      | error e' => exact ⟨fun h => by cases h; rfl, fun h => by cases h; rfl⟩
      | ok pair => exact ⟨nofun, nofun⟩
    rw [hmap, interruption_eq_error_iff (ne_nil_of_display_le (by omega)), and_comm]
    exact (and_iff_right (by omega)).symm

theorem checkSize_eq_elim (statements : List Statement) : checkSize statements =
    (if finish statements ≤ 256 then none
      else some (LayoutError.programTooLarge (finish statements))).elim (.ok ()) .error := by
  unfold checkSize
  rw [Memory.size]
  split <;> rfl

/-- What a layout does, without its log. -/
theorem layOut_eq_bind (source : List Statement) : layOut source = (do
    checkLabels source
    let routed ← (route source).result
    checkSize routed
    let statements ← resolve (place Memory.programStart routed)
    .ok { statements, diagnostics := diagnose statements }) := by
  simp only [layOut, run, Logged.result_bind, Logged.result_ofExcept, Logged.result_report,
    Logged.result_pure]
  rfl

/-- A layout succeeds if all of its steps do. -/
theorem layOut_eq_ok_iff {source : List Statement} {layout : Layout} :
    layOut source = .ok layout ↔ (labelNames source).Nodup ∧
      ∃ routed, (route source).result = .ok routed ∧ finish routed ≤ 256 ∧
        resolve (place Memory.programStart routed) = .ok layout.statements ∧
        diagnose layout.statements = layout.diagnostics := by
  simp only [layOut_eq_bind, bind_eq_ok, ← checkLabels_eq_ok_iff]
  constructor
  · rintro ⟨⟨⟩, hlabels, routed, hroute, ⟨⟩, hsize, statements, hresolve, h⟩
    cases h
    refine ⟨hlabels, routed, hroute, Nat.not_lt.1 fun hgt => ?_, hresolve, rfl⟩
    rw [checkSize_eq_elim, if_neg (Nat.not_le.2 hgt)] at hsize
    cases hsize
  · rintro ⟨hlabels, routed, hroute, hsize, hresolve, hdiagnose⟩
    have hcheck : checkSize routed = .ok () := by rw [checkSize_eq_elim, if_pos hsize]; rfl
    refine ⟨(), hlabels, routed, hroute, (), hcheck, _, hresolve, ?_⟩
    rw [hdiagnose]

end CrossAssembler.Layout
