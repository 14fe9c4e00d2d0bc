import CrossAssembler.Proofs.Appending
import CrossAssembler.Proofs.UnusedLabels

/-!
# A label more

A label takes no cells. One more of them that no jump goes to, put anywhere into a source, costs
nothing: the new source is laid out if the old one is, to the same image, and all that is found
besides is the new label (`label_costs_nothing`).

The place of the detour is an index into the list of statements, and may well be another one now.
`lastSafe_append_iff` says where the code is interrupted without indices: after statements that end
in time, if the next one does not. From this the detour stays where it was between the statements
of the source, and the new one goes before it or behind it (`exists_route_insert`).
-/

namespace CrossAssembler

open Fallible Layout

namespace Layout

/-! ## Where the code is interrupted -/

/-- The last safe statement ends a list of statements if they end in time and the next one, if there
is one, does not. -/
theorem lastSafe_append_iff {first second : List Statement} {index : Nat}
    (hlength : first.length = index + 1) : LastSafe (first ++ second) index ↔
      finish first ≤ 126 ∧ ∀ next ∈ second.head?, 126 < finish (first ++ [next]) := by
  have hfirst : (first ++ second).take (index + 1) = first := by rw [← hlength, List.take_left]
  constructor
  · intro h
    refine ⟨hfirst ▸ h.safe, fun next hnext => ?_⟩
    obtain ⟨rest, rfl⟩ := List.head?_eq_some_iff.1 hnext
    have htake : (first ++ next :: rest).take (index + 1 + 1) = first ++ [next] := by
      rw [← hlength, List.take_length_add_append]
      rfl
    by_contra hle
    have hlast := h.last (index + 1) (by simp [hlength]) (by rw [htake]; omega)
    omega
  · rintro ⟨hsafe, hnext⟩
    refine ⟨by simp [hlength]; omega, hfirst.symm ▸ hsafe, fun k hk hend => ?_⟩
    by_contra hlater
    cases second with
    | nil =>
      simp only [List.append_nil] at hk
      omega
    | cons next rest =>
      have htake : (first ++ next :: rest).take (index + 1 + 1) = first ++ [next] := by
        rw [← hlength, List.take_length_add_append]
        rfl
      have hmono := finish_take_mono (first ++ next :: rest) (show index + 1 + 1 ≤ k + 1 by omega)
      rw [htake] at hmono
      have hlate := hnext next rfl
      omega

theorem detoured_append_of_length {first : List Statement} {index : Nat}
    (hlength : first.length = index + 1) (second : List Statement) :
    detoured (first ++ second) index = first ++ (skip (finish first) ++ second) := by
  rw [detoured, insertSkip, ← hlength, List.take_left, List.drop_left]

/-- The way of interrupted code, without indices. -/
theorem route_eq_ok_iff_append {source routed : List Statement} (hend : 128 ≤ finish source) :
    (route source).result = .ok routed ↔ ∃ first second, first ≠ [] ∧ source = first ++ second ∧
      finish first ≤ 126 ∧ (∀ next ∈ second.head?, 126 < finish (first ++ [next])) ∧
      routed = first ++ (skip (finish first) ++ second) := by
  rw [route_eq_ok_iff]
  constructor
  · rintro (⟨hlt, -⟩ | ⟨-, index, hindex, rfl⟩)
    · omega
    · have hlength : (source.take (index + 1)).length = index + 1 :=
        List.length_take_of_le hindex.lt
      have hsplit := (List.take_append_drop (index + 1) source).symm
      have hparts := (lastSafe_append_iff hlength).1 (hsplit ▸ hindex)
      exact ⟨_, _, List.ne_nil_of_length_eq_add_one hlength, hsplit, hparts.1, hparts.2, rfl⟩
  · rintro ⟨first, second, hne, rfl, hsafe, hnext, rfl⟩
    obtain ⟨index, hindex⟩ := Nat.exists_eq_succ_of_ne_zero
      (Nat.ne_of_gt (List.length_pos_iff.2 hne))
    refine .inr ⟨hend, index, (lastSafe_append_iff hindex).2 ⟨hsafe, hnext⟩, ?_⟩
    rw [detoured_append_of_length hindex]

/-! ## A statement without cells -/

section

variable {statement : Statement} (hcells : statement.cells = 0)

include hcells

theorem finish_insert (first second : List Statement) :
    finish (first ++ statement :: second) = finish (first ++ second) := by
  rw [finish, finish, extent_append, extent_append, extent, hcells, Nat.zero_add]

theorem place_insert (start : Nat) (first second : List Statement) :
    place start (first ++ statement :: second) = place start first ++
      { statement with
        fragments := placeFragments (start + extent first) statement.fragments } ::
      place (start + extent first) second := by
  rw [place_append, place, hcells, Nat.add_zero]

/-- The new statement stands before the detour, if there is one. -/
theorem route_insert_before {first middle back : List Statement}
    (hend : 128 ≤ finish (first ++ (middle ++ back))) (hsafe : finish (first ++ middle) ≤ 126)
    (hnext : ∀ next ∈ back.head?, 126 < finish (first ++ middle ++ [next])) :
    (route (first ++ statement :: (middle ++ back))).result =
      .ok (first ++ statement :: (middle ++ (skip (finish (first ++ middle)) ++ back))) := by
  have hfront := finish_insert hcells first middle
  rw [route_eq_ok_iff_append (by rwa [finish_insert hcells])]
  refine ⟨first ++ statement :: middle, back, by simp, by simp, by rwa [hfront], ?_, ?_⟩
  · intro next hmem
    rw [List.append_assoc, List.cons_append, finish_insert hcells, ← List.append_assoc]
    exact hnext next hmem
  · rw [hfront]
    simp

/-- The new statement stands behind the detour, with another one in between. -/
theorem route_insert_behind {front middle second : List Statement}
    (hend : 128 ≤ finish (front ++ middle ++ second)) (hne : front ≠ [])
    (hmiddle : middle ≠ []) (hsafe : finish front ≤ 126)
    (hnext : ∀ next ∈ middle.head?, 126 < finish (front ++ [next])) :
    (route (front ++ middle ++ statement :: second)).result =
      .ok (front ++ (skip (finish front) ++ middle) ++ statement :: second) := by
  rw [route_eq_ok_iff_append (by rwa [finish_insert hcells])]
  refine ⟨front, middle ++ statement :: second, hne, by simp, hsafe, ?_, by simp⟩
  rwa [List.head?_append_of_ne_nil _ hmiddle]

/-- **The detour stays where it is** between the statements of the source, and the new statement
goes before it or behind it. -/
theorem exists_route_insert {first second routed : List Statement}
    (h : (route (first ++ second)).result = .ok routed) : ∃ before after,
      routed = before ++ after ∧
      (route (first ++ statement :: second)).result = .ok (before ++ statement :: after) := by
  by_cases hend : finish (first ++ second) < 128
  · rcases route_eq_ok_iff.1 h with ⟨-, rfl⟩ | ⟨hge, -⟩
    · refine ⟨first, second, rfl, route_eq_ok_iff.2 (.inl ⟨?_, rfl⟩)⟩
      rwa [finish_insert hcells]
    · omega
  · have hend := Nat.not_lt.1 hend
    obtain ⟨front, back, hne, hsplit, hsafe, hnext, rfl⟩ := (route_eq_ok_iff_append hend).1 h
    rcases List.append_eq_append_iff.1 hsplit with ⟨middle, rfl, rfl⟩ | ⟨middle, rfl, rfl⟩
    · exact ⟨first, _, List.append_assoc .., route_insert_before hcells hend hsafe hnext⟩
    · cases middle with
      | nil =>
        -- the new statement is the last one before the detour
        simp only [List.append_nil, List.nil_append] at hend hnext ⊢
        have hbefore : (route (front ++ statement :: ([] ++ second))).result =
            .ok (front ++ statement :: ([] ++ (skip (finish (front ++ [])) ++ second))) :=
          route_insert_before hcells hend (by simpa using hsafe) (by simpa using hnext)
        exact ⟨front, skip (finish front) ++ second, rfl, by simpa using hbefore⟩
      | cons next rest =>
        refine ⟨_, second, ?_, route_insert_behind hcells hend hne (List.cons_ne_nil _ _) hsafe ?_⟩
        · simp
        · simpa using hnext

end

/-! ## A label that no jump goes to -/

theorem lookup_insert {name target : String} (h : target ≠ name) (address : Nat)
    (first second : List (String × Nat)) :
    (first ++ (name, address) :: second).lookup target = (first ++ second).lookup target := by
  rw [List.lookup_append, List.lookup_append, List.lookup_cons, beq_eq_false_iff_ne.2 h]

/-- Only the entries for its targets count for a statement. -/
theorem settleStatement_congr {table table' : List (String × Nat)} {statement : Statement}
    (h : ∀ target ∈ statement.fragments.filterMap Fragment.target?,
      table.lookup target = table'.lookup target) (targets : List String) :
    settleStatement table targets statement = settleStatement table' targets statement := by
  have haim : aimStatement table statement = aimStatement table' statement := by
    rw [aimStatement, aimStatement]
    congr 1
    apply List.map_congr_left
    rintro ⟨location, content⟩ hf
    cases content with
    | operation value => rfl
    | label name used => rfl
    | jump kind target destination =>
      have hlookup := h target (List.mem_filterMap.2 ⟨_, hf, rfl⟩)
      simp only [aimFragment, hlookup]
  rw [settleStatement, settleStatement, haim]

/-- The statement of a label, at an address. -/
def settledLabel (name : String) (address : Nat) : Statement :=
  ⟨["LABEL", name], [⟨address, .label name false⟩]⟩

theorem labelStatement_eq (name : String) : labelStatement name = settledLabel name 0 := rfl

theorem targets_insert_settledLabel (name : String) (address : Nat)
    (first second : List Statement) :
    targets (first ++ settledLabel name address :: second) = targets (first ++ second) := by
  rw [targets_append, targets_append]
  rfl

theorem labelTable_insert_settledLabel (name : String) (address : Nat)
    (first second : List Statement) :
    labelTable (first ++ settledLabel name address :: second) =
      labelTable first ++ (name, address) :: labelTable second := by
  rw [labelTable_append]
  rfl

theorem perm_labelNames_insert (name : String) (address : Nat) (first second : List Statement) :
    (labelNames (first ++ settledLabel name address :: second)).Perm
      (name :: labelNames (first ++ second)) := by
  rw [labelNames_append, labelNames_append]
  exact List.perm_middle

theorem image_insert_settledLabel (name : String) (address : Nat) (first second : List Statement) :
    image (first ++ settledLabel name address :: second) = image (first ++ second) := by
  simp [image, settledLabel, Fragment.values]

/-- Settled statements stay as they are when a label that is no target is settled with them. -/
theorem settle_insert {name : String} {first second : List Statement}
    (h : name ∉ targets (first ++ second)) (address : Nat) : ∃ before after,
      settle (first ++ second) = before ++ after ∧
      settle (first ++ settledLabel name address :: second) =
        before ++ settledLabel name address :: after := by
  have htable : ∀ target ∈ targets (first ++ second),
      (labelTable first ++ (name, address) :: labelTable second).lookup target =
        (labelTable (first ++ second)).lookup target := by
    intro target ht
    rw [labelTable_append]
    apply lookup_insert
    rintro rfl
    exact h ht
  have hkept : ∀ statement ∈ first ++ second,
      settleStatement (labelTable first ++ (name, address) :: labelTable second)
        (targets (first ++ second)) statement =
      settleStatement (labelTable (first ++ second)) (targets (first ++ second)) statement := by
    intro statement hs
    apply settleStatement_congr
    intro target ht
    obtain ⟨fragment, hf, ht⟩ := List.mem_filterMap.1 ht
    exact htable target
      (List.mem_filterMap.2 ⟨fragment, List.mem_flatMap.2 ⟨statement, hs, hf⟩, ht⟩)
  have hlabel : ∀ table, settleStatement table (targets (first ++ second))
      (settledLabel name address) = settledLabel name address := by
    intro table
    simp [settleStatement, aimStatement, aimFragment, markStatement, markFragment, settledLabel, h]
  refine ⟨_, _, List.map_append, ?_⟩
  rw [settle, targets_insert_settledLabel, labelTable_insert_settledLabel, List.map_append,
    List.map_cons, hlabel]
  congr 1
  · exact List.map_congr_left fun statement hs => hkept statement (List.mem_append_left _ hs)
  · congr 1
    exact List.map_congr_left fun statement hs => hkept statement (List.mem_append_right _ hs)

/-- Resolving is not disturbed by a label that has a name of its own and is no target. -/
theorem resolve_insert {name : String} {first second resolved : List Statement} (address : Nat)
    (hresolve : resolve (first ++ second) = .ok resolved)
    (hname : name ∉ labelNames (first ++ second)) : ∃ before after,
      resolved = before ++ after ∧
      resolve (first ++ settledLabel name address :: second) =
        .ok (before ++ settledLabel name address :: after) := by
  obtain ⟨hnodup, hresolved, rfl⟩ := resolve_eq_ok_iff.1 hresolve
  have htarget : name ∉ targets (first ++ second) := by
    intro ht
    obtain ⟨found, hlookup, -⟩ := hresolved name ht
    rw [lookup_labelTable_eq_none_iff.2 hname] at hlookup
    cases hlookup
  obtain ⟨before, after, hold, hnew⟩ := settle_insert htarget address
  refine ⟨before, after, hold, resolve_eq_ok_iff.2 ⟨?_, fun target ht => ?_, hnew⟩⟩
  · rw [(perm_labelNames_insert name address first second).nodup_iff]
    exact List.nodup_cons.2 ⟨hname, hnodup⟩
  · rw [targets_insert_settledLabel] at ht
    have hne : target ≠ name := by
      rintro rfl
      exact htarget ht
    rw [labelTable_insert_settledLabel, lookup_insert hne, ← labelTable_append]
    exact hresolved target ht

end Layout

/-- A label more is laid out with the rest. -/
theorem exists_layOut_insert {first second : List Statement} {layout : Layout}
    (h : layOut (first ++ second) = .ok layout) {name : String}
    (hplain : Token.opensComment name = false) (hname : name ∉ labelNames (first ++ second)) :
    ∃ inserted before after address,
      layOut (first ++ labelStatement name :: second) = .ok inserted ∧
      layout.statements = before ++ after ∧
      inserted.statements = before ++ settledLabel name address :: after := by
  obtain ⟨hnodup, routed, hroute, hsize, hresolve, -⟩ := layOut_eq_ok_iff.1 h
  have hcells : (labelStatement name).cells = 0 := rfl
  obtain ⟨front, back, rfl, hroute'⟩ := exists_route_insert hcells hroute
  have hnew : name ∉ labelNames (front ++ back) := by
    rw [mem_labelNames_routed hroute]
    · exact hname
    · rintro rfl
      exact Bool.false_ne_true (hplain.symm.trans Written.opensComment_skipLabel)
  rw [place_append] at hresolve
  rw [← labelNames_place Memory.programStart, place_append] at hnew
  obtain ⟨before, after, hold, hinserted⟩ :=
    resolve_insert (Memory.programStart + extent front) hresolve hnew
  have hresolve' : resolve (place Memory.programStart (front ++ labelStatement name :: back)) =
      .ok (before ++ settledLabel name (Memory.programStart + extent front) :: after) := by
    rw [place_insert hcells]
    exact hinserted
  refine ⟨⟨_, diagnose _⟩, before, after, _,
    layOut_eq_ok_iff.2 ⟨?_, _, hroute', ?_, hresolve', rfl⟩, hold, rfl⟩
  · rw [labelStatement_eq, (perm_labelNames_insert name 0 first second).nodup_iff]
    exact List.nodup_cons.2 ⟨hname, hnodup⟩
  · rwa [finish_insert hcells]

/-- The unused labels of a source in two parts, with one between them. -/
theorem unusedNames_insert {first second : List Statement} {name : String}
    (h : name ∉ targets (first ++ second)) :
    unusedNames (first ++ labelStatement name :: second) =
      (labelNames first).filter (fun name => name ∉ targets (first ++ second)) ++
        name :: (labelNames second).filter fun name => name ∉ targets (first ++ second) := by
  have hlabels : labelNames (first ++ labelStatement name :: second) =
      labelNames first ++ name :: labelNames second := by
    rw [labelNames_append]
    rfl
  rw [unusedNames, hlabels, labelStatement_eq, targets_insert_settledLabel, List.filter_append,
    List.filter_cons_of_pos (by simpa using h)]

/-- **A label that no jump goes to costs nothing.** Let a written source be laid out, and let a
label be put into it at any position, or behind it if the position is none of its. The name of the
label is that of no label in the source, and does not begin as a comment does. Then the new source
is laid out as well, to the same image. What is found about it is what is found about the old one,
and the new label, behind the unused labels before its position and before the others. -/
theorem label_costs_nothing {source : List Statement} (hs : Written source) {layout : Layout}
    (h : layOut source = .ok layout) {name : String} (hplain : Token.opensComment name = false)
    (hname : name ∉ labelNames source) (position : Nat) :
    ∃ label inserted, Statement.ofTokens ["LABEL", name] = .ok label ∧
      layOut (source.take position ++ label :: source.drop position) = .ok inserted ∧
      image inserted.statements = image layout.statements ∧
      ∃ before after, layout.diagnostics = before ++ after ∧
        inserted.diagnostics = before ++ .unusedLabel name :: after ∧
        before.map Diagnostic.label =
          (labelNames (source.take position)).filter (fun name => name ∉ targets source) ∧
        after.map Diagnostic.label =
          (labelNames (source.drop position)).filter fun name => name ∉ targets source := by
  have htarget : name ∉ targets source := fun ht =>
    hname (mem_labelNames_of_mem_targets hs h ht)
  have hparts := List.take_append_drop position source
  have hlabel : Written [labelStatement name] := by
    intro statement hstatement
    exact ⟨_, List.mem_singleton.1 hstatement ▸ ofTokens_label hplain⟩
  have hwritten : Written (source.take position ++ labelStatement name :: source.drop position) :=
    (hs.take position).append (hlabel.append (hs.drop position))
  rw [← hparts] at h hname
  obtain ⟨inserted, before, after, address, hinserted, hold, hnew⟩ :=
    exists_layOut_insert h hplain hname
  rw [hparts] at h
  -- The labels found unused in the one source and in the other.
  have hunused : unusedNames source =
      (labelNames (source.take position)).filter (fun name => name ∉ targets source) ++
        (labelNames (source.drop position)).filter fun name => name ∉ targets source := by
    rw [← List.filter_append, labelNames_take_append_drop, unusedNames]
  have hunused' := unusedNames_insert (hparts.symm ▸ htarget)
  rw [hparts] at hunused'
  have hlabels : ∀ names : List String,
      (names.map Diagnostic.unusedLabel).map Diagnostic.label = names := fun names => by
    rw [List.map_map]
    exact List.map_id names
  refine ⟨labelStatement name, inserted, ofTokens_label hplain, hinserted, ?_, _, _, ?_, ?_,
    hlabels _, hlabels _⟩
  · rw [hold, hnew, image_insert_settledLabel]
  · rw [hs.diagnostics_eq h, hunused, List.map_append]
  · rw [hwritten.diagnostics_eq hinserted, hunused', List.map_append, List.map_cons]

/-- The label goes to the boundary itself, behind the last statement before the detour. -/
theorem label_costs_nothing_crossing :
    Written crossing ∧ Token.opensComment "new" = false ∧ "new" ∉ labelNames crossing ∧
    LastSafe crossing 121 ∧ ∃ layout label inserted, layOut crossing = .ok layout ∧
      Statement.ofTokens ["LABEL", "new"] = .ok label ∧
      layOut (crossing.take 122 ++ label :: crossing.drop 122) = .ok inserted ∧
      image inserted.statements = image layout.statements ∧
      inserted.diagnostics = [.unusedLabel "middle", .unusedLabel "new"] := by
  obtain ⟨layout, h⟩ := exists_layOut_crossing
  have hplain : Token.opensComment "new" = false := by decide +kernel
  have hname : "new" ∉ labelNames crossing := by decide +kernel
  obtain ⟨label, inserted, hlabel, hinserted, himage, before, after, -, hnew, hbefore, hafter⟩ :=
    label_costs_nothing written_crossing h hplain hname 122
  refine ⟨written_crossing, hplain, hname, lastSafe_iff.2 (by decide +kernel), layout, label,
    inserted, h, hlabel, hinserted, himage, ?_⟩
  have hmiddle : before.map Diagnostic.label = ["middle"] := hbefore.trans (by decide +kernel)
  have hnone : after.map Diagnostic.label = [] := hafter.trans (by decide +kernel)
  obtain ⟨⟨name⟩, rfl, rfl⟩ := List.map_eq_singleton_iff.1 hmiddle
  rw [hnew, List.map_eq_nil_iff.1 hnone]
  rfl

end CrossAssembler
