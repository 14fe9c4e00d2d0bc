import CrossAssembler.Proofs.Detour
import CrossAssembler.Proofs.Written

/-!
# The exact form of a laid-out program

A laid-out program is its source with places, destinations and marks, and nothing else, if the code
ends before the reserved block. Otherwise it is the statements up to the last safe one where they
were, the detour, and the rest moved as one piece to the first cell after the block
(`layOut_statements_exact`).

* `Statement.LiesAt` relates a statement to its form in a laid-out program, and `LieAt` a list of
  statements to theirs.
* `Clear` says that no cell of statements is a reserved one.
* `exists_routed` says where the statements of a layout come from: those on the code's way, placed
  and settled.
-/

namespace CrossAssembler

open Fragment (totalCells)

/-- The statement `laid` is `statement` laid out at an address. All that is bare in it is that of
`statement`: the tokens, the operation bytes, the names of labels, the kinds and targets of jumps.
Its first fragment lies at the address, and each other one where the fragment before it ends. -/
structure Statement.LiesAt (statement : Statement) (address : Nat) (laid : Statement) : Prop where
  bare : laid.bare = statement
  location : ∀ (j : Nat) (fragment : Fragment), laid.fragments[j]? = some fragment →
    fragment.location = address + totalCells (statement.fragments.take j)

namespace Layout

/-- The statements `laid` are `statements` laid out, number `k` at the address `address k`. -/
structure LieAt (address : Nat → Nat) (statements laid : List Statement) : Prop where
  length : laid.length = statements.length
  each : ∀ (k : Nat) (statement placed : Statement), statements[k]? = some statement →
    laid[k]? = some placed → statement.LiesAt (address k) placed

theorem LieAt.congr {address address' : Nat → Nat} {statements laid : List Statement}
    (h : LieAt address statements laid) (hk : ∀ k < statements.length, address k = address' k) :
    LieAt address' statements laid := by
  refine ⟨h.length, fun k statement placed hs hp => ?_⟩
  rw [← hk k (List.getElem?_eq_some_iff.1 hs).1]
  exact h.each k statement placed hs hp

/-- No cell of the statements is one of the four reserved cells from 128 on. -/
def Clear (statements : List Statement) : Prop :=
  ∀ fragment ∈ fragments statements, ∀ i < fragment.cells,
    fragment.location + i < 128 ∨ 132 ≤ fragment.location + i

/-! ## Statements that are placed and settled -/

section

variable (table : List (String × Nat)) (targets : List String)

theorem fragments_settle_place (address : Nat) (statements : List Statement) :
    fragments ((place address statements).map (settleStatement table targets)) =
      (placeFragments address (fragments statements)).map (settleFragment table targets) := by
  rw [fragments_map (fragments_settleStatement table targets), fragments_place]

theorem contiguous_settle_place (address : Nat) (statements : List Statement) : Contiguous address
    (fragments ((place address statements).map (settleStatement table targets))) := by
  rw [fragments_settle_place]
  exact (contiguous_placeFragments address _).map (location_settleFragment table targets)
    (cells_settleFragment table targets)

theorem totalCells_settle_place (address : Nat) (statements : List Statement) :
    totalCells (fragments ((place address statements).map (settleStatement table targets))) =
      extent statements := by
  rw [fragments_settle_place, Fragment.totalCells_map _ (cells_settleFragment table targets),
    totalCells_placeFragments, extent_eq_totalCells]

/-- Statement `k` lies where the statements before it end. -/
theorem lieAt_settle_place {statements : List Statement} (hs : Written statements) (address : Nat) :
    LieAt (fun k => address + extent (statements.take k)) statements
      ((place address statements).map (settleStatement table targets)) := by
  refine ⟨by rw [List.length_map, length_place], fun k statement placed hk hp => ?_⟩
  rw [List.getElem?_map, getElem?_place, hk] at hp
  obtain rfl := Option.some.inj hp
  refine ⟨?_, fun j fragment hj => ?_⟩
  · rw [bare_settleStatement_place]
    exact hs.bare_of_mem (List.mem_of_getElem? hk)
  · rw [fragments_settleStatement, List.getElem?_map, getElem?_placeFragments, Option.map_map,
      Option.map_eq_some_iff] at hj
    obtain ⟨original, -, rfl⟩ := hj
    exact location_settleFragment table targets _

/-- Statements that end before the reserved block, or start after it, are clear of it. -/
theorem clear_settle_place {address : Nat} {statements : List Statement}
    (h : address + extent statements ≤ 128 ∨ 132 ≤ address) :
    Clear ((place address statements).map (settleStatement table targets)) := by
  intro fragment hf i hi
  have hcontiguous := contiguous_settle_place table targets address statements
  have hlow := hcontiguous.le_location hf
  have hhigh := hcontiguous.location_add_cells_le hf
  rw [totalCells_settle_place] at hhigh
  omega

end

theorem Clear.append {first second : List Statement} (h₁ : Clear first) (h₂ : Clear second) :
    Clear (first ++ second) := by
  intro fragment hf
  rw [fragments_append] at hf
  rcases List.mem_append.1 hf with hf | hf
  · exact h₁ fragment hf
  · exact h₂ fragment hf

/-! ## The statements of a layout -/

/-- The statements of a layout are those on the code's way, placed and settled: they fit into the
memory, their labels are distinct, and each target is the name of one at the address of a cell. -/
theorem exists_routed {source : List Statement} {layout : Layout}
    (h : layOut source = .ok layout) : ∃ routed, (route source).result = .ok routed ∧
      finish routed ≤ 256 ∧ (labelNames routed).Nodup ∧
      (∀ target ∈ targets routed, ∃ address,
        (labelTable (place Memory.programStart routed)).lookup target = some address ∧
          address < 256) ∧
      layout.statements = settle (place Memory.programStart routed) := by
  obtain ⟨-, routed, hroute, hsize, hresolve, -⟩ := layOut_eq_ok_iff.1 h
  obtain ⟨hnodup, hresolved, hsettle⟩ := resolve_eq_ok_iff.1 hresolve
  rw [labelNames_place] at hnodup
  rw [targets_place] at hresolved
  exact ⟨routed, hroute, hsize, hnodup, hresolved, hsettle.symm⟩

/-- The label of the detour lies at the first cell after the reserved block. -/
theorem lookup_skipLabel {source : List Statement} {index : Nat} (hindex : LastSafe source index)
    (hnodup : (labelNames (detoured source index)).Nodup) :
    (labelTable (place Memory.programStart (detoured source index))).lookup skipLabel =
      some Memory.reservedEnd := by
  rw [lookup_labelTable_eq_some_iff (by rwa [labelNames_place]), place_detoured hindex,
    place_skip hindex.padding]
  refine ⟨⟨Memory.reservedEnd, .label skipLabel false⟩, ?_, rfl, rfl⟩
  simp

/-- The three parts of a program with a detour. -/
theorem settle_place_detoured {source : List Statement} {index : Nat}
    (hindex : LastSafe source index) (hnodup : (labelNames (detoured source index)).Nodup) :
    ∃ table targets, settle (place Memory.programStart (detoured source index)) =
      (place Memory.programStart (source.take (index + 1))).map (settleStatement table targets) ++
        settledSkip (finish (source.take (index + 1))) ++
        (place Memory.reservedEnd (source.drop (index + 1))).map
          (settleStatement table targets) := by
  have htable := lookup_skipLabel hindex hnodup
  have htargets : skipLabel ∈ targets (place Memory.programStart (detoured source index)) := by
    rw [targets_place, targets_detoured]
    simp
  refine ⟨labelTable (place Memory.programStart (detoured source index)),
    targets (place Memory.programStart (detoured source index)), ?_⟩
  rw [settle, ← settle_place_skip hindex.padding htable htargets, List.append_assoc,
    ← List.map_append, ← List.map_append, ← place_detoured hindex]

theorem finish_take_add (source : List Statement) (count k : Nat) :
    finish (source.take (count + k)) = finish (source.take count) +
      extent ((source.drop count).take k) := by
  rw [finish, List.take_add, extent_append, ← Nat.add_assoc, ← finish]

/-- **The exact form of a laid-out program.** If the code ends before the reserved block, the
statements are those of the source, each at the address where the ones before it end. Otherwise the
statements up to the last safe one lie there; then comes the detour, at the address where they end;
then the other statements, all moved by the distance from that address to the end of the block. No
cell of the source's own statements is a reserved one, and the padding of a detour is never a
difference below zero. -/
theorem layOut_statements_exact {source : List Statement} (hs : Written source) {layout : Layout}
    (h : layOut source = .ok layout) :
    (finish source < 128 → LieAt (fun k => finish (source.take k)) source layout.statements ∧
      Clear layout.statements) ∧
    (128 ≤ finish source → ∃ index resume before after, LastSafe source index ∧
      resume = finish (source.take (index + 1)) ∧ resume + 2 ≤ 132 ∧
      layout.statements = before ++ settledSkip resume ++ after ∧
      LieAt (fun k => finish (source.take k)) (source.take (index + 1)) before ∧
      LieAt (fun k => finish (source.take (index + 1 + k)) + (132 - resume))
        (source.drop (index + 1)) after ∧
      Clear (before ++ after)) ∧
    (∀ count resume, interruption source = .ok (count, resume) →
      resume + Memory.jumpCells ≤ Memory.reservedEnd) := by
  obtain ⟨routed, hroute, -, hnodup, -, hsettle⟩ := exists_routed h
  refine ⟨fun hend => ?_, fun hend => ?_, fun count resume hinterruption => ?_⟩
  · rcases route_eq_ok_iff.1 hroute with ⟨-, rfl⟩ | ⟨hge, -⟩
    · rw [hsettle]
      exact ⟨lieAt_settle_place _ _ hs _, clear_settle_place _ _ (.inl (Nat.le_of_lt hend))⟩
    · omega
  · rcases route_eq_ok_iff.1 hroute with ⟨hlt, -⟩ | ⟨-, index, hindex, rfl⟩
    · omega
    · obtain ⟨table, targets, hparts⟩ := settle_place_detoured hindex hnodup
      have hsafe := hindex.safe
      refine ⟨index, finish (source.take (index + 1)), _, _, hindex, rfl, by omega,
        hsettle.trans hparts, ?_, ?_, ?_⟩
      · refine (lieAt_settle_place table targets (hs.take _) _).congr fun k hk => ?_
        rw [List.length_take] at hk
        rw [List.take_take, Nat.min_eq_left (by omega), ← finish]
      · refine (lieAt_settle_place table targets (hs.drop _) _).congr fun k _ => ?_
        rw [finish_take_add, Memory.reservedEnd]
        omega
      · have hbefore : Memory.programStart + extent (source.take (index + 1)) ≤ 128 :=
          Nat.le_trans hsafe (by decide)
        exact (clear_settle_place table targets (.inl hbefore)).append
          (clear_settle_place table targets (.inr (Nat.le_refl 132)))
  · obtain ⟨index, hindex, rfl, rfl⟩ := interruption_eq_ok_iff.1 hinterruption
    exact hindex.padding

/-- A program that reaches the reserved block. A label stands where it is interrupted, the operation
behind the label would lie across the start of the block, and a jump leads over it. -/
def crossing : List Statement :=
  .ofInstruction ["GOTO", "end"] (.goto "end") ::
    (List.replicate 120 skipFiller ++
      [.ofInstruction ["LABEL", "middle"] (.label "middle"),
       .ofInstruction ["LET", "A", "=", "1"] (.assign .a 1 false),
       .ofInstruction ["LABEL", "end"] (.label "end")])

theorem written_crossing : Written crossing := by
  intro statement hs
  simp only [crossing, List.mem_cons, List.mem_append, List.mem_replicate, List.not_mem_nil,
    or_false] at hs
  rcases hs with rfl | ⟨-, rfl⟩ | rfl | rfl | rfl
  · exact ⟨["GOTO", "end"], rfl⟩
  · exact ⟨["NOOP"], rfl⟩
  · exact ⟨["LABEL", "middle"], rfl⟩
  · exact ⟨["LET", "A", "=", "1"], rfl⟩
  · exact ⟨["LABEL", "end"], rfl⟩

theorem exists_layOut_crossing : ∃ layout, layOut crossing = .ok layout :=
  Fallible.exists_eq_ok (by decide +kernel)

theorem layOut_statements_exact_crossing :
    ∃ layout, Written crossing ∧ layOut crossing = .ok layout ∧ finish crossing = 128 ∧
      ∃ before after, layout.statements = before ++ settledSkip 126 ++ after ∧
        LieAt (fun k => finish (crossing.take k)) (crossing.take 122) before ∧
        LieAt (fun k => finish (crossing.take (122 + k)) + 6) (crossing.drop 122) after := by
  obtain ⟨layout, h⟩ := exists_layOut_crossing
  have hindex : LastSafe crossing 121 := lastSafe_iff.2 (by decide +kernel)
  obtain ⟨index, resume, before, after, hlast, rfl, -, hparts, hbefore, hafter, -⟩ :=
    (layOut_statements_exact written_crossing h).2.1 (by decide +kernel)
  obtain rfl := hlast.unique hindex
  have hresume : finish (crossing.take (121 + 1)) = 126 := by decide +kernel
  rw [hresume] at hparts hafter
  exact ⟨layout, written_crossing, h, by decide +kernel, before, after, hparts, hbefore, hafter⟩

end Layout

end CrossAssembler
