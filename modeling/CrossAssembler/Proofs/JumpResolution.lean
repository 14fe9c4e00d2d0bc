import CrossAssembler.Proofs.Tiling

/-!
# Where jumps lead

Each jump of a laid-out program goes to the one label with its target's name, and its two bytes in
the image are its operation code and the label's location (`jump_reaches_label`).

* `existsUnique_label`: a name that is defined once belongs to one fragment.
* `exists_destination`: a jump has a destination, which is its label's location. It was found in the
  label table of the code with the detour in it (`jump_of_mem_settle`, `lookup_of_mem_settle`).
* `label_location_clear`: a label takes no cells, so `Clear` says nothing about it. Still none lies
  in the reserved block, since the code before the block ends before it, the label of the detour
  lies at its end, and the other labels come after.
-/

namespace CrossAssembler

open Layout
open Fragment (totalCells)

namespace Layout

/-! ## Labels -/

/-- A name that is defined, and defined once, is that of one fragment. -/
theorem existsUnique_label {statements : List Statement} (h : (labelNames statements).Nodup)
    {name : String} (hname : name ∈ labelNames statements) :
    ∃! k : Nat, ∃ label : Fragment, (fragments statements)[k]? = some label ∧
      label.labelName? = some name := by
  obtain ⟨label, hl, hlabel⟩ := mem_labelNames.1 hname
  obtain ⟨k, hk⟩ := List.mem_iff_getElem?.1 hl
  refine ⟨k, ⟨label, hk, hlabel⟩, ?_⟩
  rintro l ⟨other, hl, hother⟩
  obtain ⟨hk', hkeq⟩ := List.getElem?_eq_some_iff.1 hk
  obtain ⟨hl', hleq⟩ := List.getElem?_eq_some_iff.1 hl
  -- of two fragments in a row, not both have the name
  have hpairwise := List.pairwise_iff_getElem.1 (List.pairwise_filterMap.1 h)
  rcases Nat.lt_trichotomy l k with hlt | rfl | hlt
  · refine absurd rfl (hpairwise l k hl' hk' hlt name ?_ name ?_)
    · rw [hleq]; exact hother
    · rw [hkeq]; exact hlabel
  · rfl
  · refine absurd rfl (hpairwise k l hk' hl' hlt name ?_ name ?_)
    · rw [hkeq]; exact hlabel
    · rw [hleq]; exact hother

theorem location_of_mem_settledSkip {resume : Nat} {label : Fragment} {name : String}
    (h : label ∈ fragments (settledSkip resume)) (hlabel : label.labelName? = some name) :
    label.location = 132 := by
  simp only [settledSkip, fragments_cons, fragments_append, List.cons_append, List.nil_append,
    List.mem_cons, List.mem_append, fragments_nil, List.not_mem_nil, or_false] at h
  rcases h with rfl | h | rfl
  · cases hlabel
  · -- the padding is made of operations
    simp only [fragments, List.mem_flatMap, List.mem_map] at h
    obtain ⟨_, ⟨i, -, rfl⟩, hmem⟩ := h
    obtain rfl := List.mem_singleton.1 hmem
    cases hlabel
  · rfl

/-- No label of a laid-out program lies in the reserved block. -/
theorem label_location_clear {source : List Statement} {layout : Layout}
    (h : layOut source = .ok layout) {label : Fragment} {name : String}
    (hl : label ∈ fragments layout.statements) (hlabel : label.labelName? = some name) :
    label.location ≤ 127 ∨ 132 ≤ label.location := by
  obtain ⟨routed, hroute, -, hnodup, -, hsettle⟩ := exists_routed h
  rw [hsettle] at hl
  rcases route_eq_ok_iff.1 hroute with ⟨hend, rfl⟩ | ⟨-, index, hindex, rfl⟩
  · have hle := (contiguous_settle_place _ _ _ _).location_add_cells_le hl
    rw [totalCells_settle_place, ← finish] at hle
    omega
  · obtain ⟨table, targets, hparts⟩ := settle_place_detoured hindex hnodup
    rw [hparts, fragments_append, fragments_append, List.mem_append, List.mem_append] at hl
    rcases hl with (hl | hl) | hl
    · have hle := (contiguous_settle_place _ _ _ _).location_add_cells_le hl
      rw [totalCells_settle_place, ← finish] at hle
      have hsafe := hindex.safe
      omega
    · exact .inr (Nat.le_of_eq (location_of_mem_settledSkip hl hlabel).symm)
    · exact .inr ((contiguous_settle_place _ _ _ _).le_location hl)

/-! ## Jumps -/

theorem jump_of_settleFragment {table : List (String × Nat)} {targets : List String}
    {fragment : Fragment} {kind : JumpKind} {target : String} {destination : Option UInt8}
    (h : (settleFragment table targets fragment).content = .jump kind target destination) :
    fragment.target? = some target ∧ destination = (table.lookup target).map UInt8.ofNat := by
  obtain ⟨location, content⟩ := fragment
  cases content with
  | operation value => cases h
  | label name used => cases h
  | jump kind' target' destination' =>
    cases h
    exact ⟨rfl, rfl⟩

/-- A jump in settled statements goes where the label table says. -/
theorem jump_of_mem_settle {statements : List Statement} {jump : Fragment}
    (hj : jump ∈ fragments (settle statements)) {kind : JumpKind} {target : String}
    {destination : Option UInt8} (hjump : jump.content = .jump kind target destination) :
    target ∈ targets statements ∧
      destination = ((labelTable statements).lookup target).map UInt8.ofNat := by
  rw [fragments_settle, List.mem_map] at hj
  obtain ⟨fragment, hf, rfl⟩ := hj
  obtain ⟨htarget, hdestination⟩ := jump_of_settleFragment hjump
  exact ⟨List.mem_filterMap.2 ⟨fragment, hf, htarget⟩, hdestination⟩

/-- In settled statements, a label lies where the label table says. -/
theorem lookup_of_mem_settle {statements : List Statement} (h : (labelNames statements).Nodup)
    {label : Fragment} (hl : label ∈ fragments (settle statements)) {name : String}
    (hlabel : label.labelName? = some name) :
    (labelTable statements).lookup name = some label.location := by
  rw [fragments_settle, List.mem_map] at hl
  obtain ⟨fragment, hf, rfl⟩ := hl
  rw [labelName?_settleFragment] at hlabel
  rw [location_settleFragment]
  exact (lookup_labelTable_eq_some_iff h).2 ⟨fragment, hf, hlabel, rfl⟩

/-- A jump of a layout has a destination, which is the location of the label with its target's
name. -/
theorem exists_destination {source : List Statement} {layout : Layout}
    (h : layOut source = .ok layout) {jump : Fragment}
    (hj : jump ∈ fragments layout.statements) {kind : JumpKind} {target : String}
    {destination : Option UInt8} (hjump : jump.content = .jump kind target destination) :
    target ∈ labelNames layout.statements ∧ ∃ address : UInt8, destination = some address ∧
      ∀ label ∈ fragments layout.statements, label.labelName? = some target →
        label.location = address.toNat := by
  obtain ⟨routed, -, -, hnodup, hresolved, hsettle⟩ := exists_routed h
  rw [hsettle] at hj ⊢
  obtain ⟨htarget, hdestination⟩ := jump_of_mem_settle hj hjump
  rw [targets_place] at htarget
  obtain ⟨address, hlookup, hsize⟩ := hresolved target htarget
  rw [hlookup, Option.map_some] at hdestination
  have hplaced : (labelNames (place Memory.programStart routed)).Nodup := by
    rwa [labelNames_place]
  refine ⟨?_, UInt8.ofNat address, hdestination, fun label hl hlabel => ?_⟩
  · obtain ⟨label, hl, hlabel, -⟩ := (lookup_labelTable_eq_some_iff hplaced).1 hlookup
    rw [labelNames_settle]
    exact mem_labelNames.2 ⟨label, hl, hlabel⟩
  · have hfound := lookup_of_mem_settle hplaced hl hlabel
    rw [hlookup] at hfound
    -- an address below 256 is not cut off in a byte
    rw [UInt8.toNat_ofNat_of_lt' hsize]
    exact (Option.some.inj hfound).symm

theorem nodup_labelNames_layOut {source : List Statement} {layout : Layout}
    (h : layOut source = .ok layout) : (labelNames layout.statements).Nodup := by
  obtain ⟨routed, -, -, hnodup, -, hsettle⟩ := exists_routed h
  rwa [hsettle, labelNames_settle, labelNames_place]

end Layout

/-- **Each jump reaches its label.** For a jump of a laid-out program, one label has the name of its
target. The jump has a destination, which is the location of that label; in the image the jump's
operation code stands at its location and the destination behind it. The destination is the address
of a cell of code, and not one in the reserved block. -/
theorem jump_reaches_label {source laid : List Statement} {program : Program}
    (hprogram : program = source.foldl Program.add .empty)
    (h : program.statements.1 = .ok laid) {jump : Fragment} (hj : jump ∈ fragments laid)
    {kind : JumpKind} {target : String} {destination : Option UInt8}
    (hjump : jump.content = .jump kind target destination) :
    (∃! k : Nat, ∃ label : Fragment, (fragments laid)[k]? = some label ∧
      label.labelName? = some target) ∧
    ∃ (address : UInt8) (bytes : List UInt8), destination = some address ∧
      (∀ label ∈ fragments laid, label.labelName? = some target →
        label.location = address.toNat) ∧
      program.image.1 = .ok bytes ∧ bytes[jump.location]? = some kind.opcode ∧
      bytes[jump.location + 1]? = some address ∧
      (4 ≤ address.toNat ∧ address.toNat ≤ 127 ∨ 132 ≤ address.toNat ∧ address.toNat ≤ 255) := by
  rw [hprogram, Program.foldl_add_empty] at h ⊢
  obtain ⟨layout, hlayout, rfl⟩ := Program.statements_ofStatements_eq_ok_iff.1 h
  obtain ⟨hdefined, address, rfl, hlocation⟩ := exists_destination hlayout hj hjump
  have hcells : jump.cells = 2 := by
    rw [Fragment.cells, hjump]
    rfl
  have hvalues : jump.values = [kind.opcode, address] := by
    rw [Fragment.values, hjump]
    rfl
  refine ⟨existsUnique_label (nodup_labelNames_layOut hlayout) hdefined, address, _, rfl, hlocation,
    Program.image_ofStatements hlayout, ?_, ?_, ?_⟩
  · have hbyte := getElem?_image hlayout hj (i := 0) (by omega)
    rwa [hvalues] at hbyte
  · have hbyte := getElem?_image hlayout hj (i := 1) (by omega)
    rwa [hvalues] at hbyte
  · obtain ⟨label, hl, hlabel⟩ := mem_labelNames.1 hdefined
    have hclear := label_location_clear hlayout hl hlabel
    have hstart := (layOut_contiguous hlayout).1.le_location hl
    have hbyte := address.toNat_lt
    rw [hlocation label hl hlabel] at hclear hstart
    omega

theorem jump_reaches_label_crossing : ∃ laid bytes,
    (crossing.foldl Program.add .empty).statements.1 = .ok laid ∧
      ⟨4, .jump .unconditional "end" (some 134)⟩ ∈ fragments laid ∧
      (∀ label ∈ fragments laid, label.labelName? = some "end" → label.location = 134) ∧
      (crossing.foldl Program.add .empty).image.1 = .ok bytes ∧
      bytes[4]? = some 0o344 ∧ bytes[5]? = some 134 := by
  obtain ⟨layout, hlayout⟩ := exists_layOut_crossing
  have hlaid : (crossing.foldl Program.add .empty).statements.1 = .ok layout.statements := by
    rw [Program.foldl_add_empty]
    exact Program.statements_ofStatements_eq_ok_iff.2 ⟨layout, hlayout, rfl⟩
  have hjump : ⟨4, .jump .unconditional "end" (some 134)⟩ ∈ fragments layout.statements := by
    have hany : (layOut crossing).toOption.any (fun layout =>
        ⟨4, .jump .unconditional "end" (some 134)⟩ ∈ fragments layout.statements) = true := by
      decide +kernel
    rw [hlayout] at hany
    exact of_decide_eq_true hany
  obtain ⟨-, address, bytes, haddress, hlabel, hbytes, hopcode, hdestination, -⟩ :=
    jump_reaches_label rfl hlaid hjump rfl
  obtain rfl := Option.some.inj haddress
  exact ⟨layout.statements, bytes, hlaid, hjump, hlabel, hbytes, hopcode, hdestination⟩

end CrossAssembler
