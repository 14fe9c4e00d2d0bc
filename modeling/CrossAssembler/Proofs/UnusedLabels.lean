import CrossAssembler.Proofs.FirstBadLine
import CrossAssembler.Proofs.LayoutErrors
import CrossAssembler.Proofs.Tiling

/-!
# Labels that no jump uses

The findings about a laid-out program are the labels of its source that no jump of its source goes
to, in their order and each once. They are also all that an assembly warns about, and one that fails
does not warn (`unused_labels_are_reported`).

* `Unmarked` says that no label is marked as used yet. Settling such statements marks the labels
  that are targets (`used_iff_of_mem_settle`) and finds the others (`diagnose_settle`).
* The detour brings in a label and a jump to it, so nothing is found about it
  (`Written.unusedNames_routed`).
* `Logged.Quiet` says of a computation that it reports no warning. Reading a text and all steps of a
  layout but its last are quiet, so the warnings are the findings
  (`Layout.warnsOf_run`), for a text as well (`warnings_of_assemble_eq_ok`).
-/

namespace CrossAssembler

open Fallible Layout

/-! ## Findings -/

namespace Layout

/-- The names of the labels that no jump goes to, in program order. -/
def unusedNames (statements : List Statement) : List String :=
  (labelNames statements).filter fun name => name ∉ targets statements

/-- No label is marked as used. -/
def Unmarked (statements : List Statement) : Prop :=
  ∀ fragment ∈ fragments statements, ∀ name, fragment.content ≠ .label name true

theorem Unmarked.place {statements : List Statement} (h : Unmarked statements) (address : Nat) :
    Unmarked (place address statements) := by
  intro fragment hf name hcontent
  have hmem := List.mem_map_of_mem (f := Fragment.content) hf
  rw [fragments_place, map_placeFragments fun _ _ => rfl, hcontent, List.mem_map] at hmem
  obtain ⟨original, ho, hcontent⟩ := hmem
  exact h original ho name hcontent

theorem diagnose?_settleFragment {table : List (String × Nat)} {targets : List String}
    {fragment : Fragment} (h : ∀ name, fragment.content ≠ .label name true) :
    diagnose? (settleFragment table targets fragment) =
      (fragment.labelName?.filter fun name => name ∉ targets).map .unusedLabel := by
  obtain ⟨location, content⟩ := fragment
  cases content with
  | operation value => rfl
  | jump kind target destination => rfl
  | label name used =>
    cases used with
    | true => exact absurd rfl (h name)
    | false =>
      by_cases hname : name ∈ targets <;>
        simp [settleFragment, aimFragment, markFragment, diagnose?, Fragment.labelName?, hname]

/-- What is found about settled statements: the labels that are no target. -/
theorem diagnose_settle {statements : List Statement} (h : Unmarked statements) :
    diagnose (settle statements) = (unusedNames statements).map .unusedLabel := by
  rw [diagnose, fragments_settle, List.filterMap_map, unusedNames, labelNames,
    List.filter_filterMap, List.map_filterMap]
  apply List.filterMap_congr
  intro fragment hf
  exact diagnose?_settleFragment (h fragment hf)

/-- A label of settled statements is marked if and only if it is a target. -/
theorem used_iff_of_mem_settle {statements : List Statement} (h : Unmarked statements)
    {label : Fragment} (hl : label ∈ fragments (settle statements)) {name : String} {used : Bool}
    (hcontent : label.content = .label name used) : used = true ↔ name ∈ targets statements := by
  rw [fragments_settle, List.mem_map] at hl
  obtain ⟨⟨location, content⟩, hf, rfl⟩ := hl
  cases content with
  | operation value => cases hcontent
  | jump kind target destination => cases hcontent
  | label name' used' =>
    cases hcontent
    cases used' with
    | true => exact absurd rfl (h _ hf name)
    | false => simp

/-! ## The detour's own label -/

/-- The detour adds its own jump to those of the source. -/
theorem perm_targets_detoured (source : List Statement) (index : Nat) :
    (targets (detoured source index)).Perm (skipLabel :: targets source) := by
  rw [targets_detoured, ← targets_take_append_drop source (index + 1)]
  exact List.perm_middle

end Layout

namespace Written

variable {source : List Statement}

theorem unmarked (hs : Written source) : Unmarked source := by
  intro fragment hf name hcontent
  obtain ⟨statement, hstatement, hf⟩ := List.mem_flatMap.1 hf
  rw [← hs.bare_of_mem hstatement] at hf
  obtain ⟨⟨location, content⟩, -, rfl⟩ := List.mem_map.1 hf
  cases content <;> cases hcontent

theorem unmarked_routed (hs : Written source) {routed : List Statement}
    (hroute : (route source).result = .ok routed) : Unmarked routed := by
  intro fragment hf name hcontent
  obtain ⟨statement, hstatement, hf⟩ := List.mem_flatMap.1 hf
  rcases mem_route hroute hstatement with hsource | hskip
  · exact hs.unmarked fragment (List.mem_flatMap.2 ⟨statement, hsource, hf⟩) name hcontent
  · simp only [List.mem_cons, List.not_mem_nil, or_false] at hskip
    rcases hskip with rfl | rfl | rfl <;> obtain rfl := List.mem_singleton.1 hf <;> cases hcontent

/-- Of the names of a source, those of used labels are the targets of the source. -/
theorem mem_targets_routed (hs : Written source) {routed : List Statement}
    (hroute : (route source).result = .ok routed) {name : String}
    (hname : name ∈ labelNames source) : name ∈ targets routed ↔ name ∈ targets source := by
  have hne : name ≠ skipLabel := by
    rintro rfl
    exact hs.skipLabel_notMem_labelNames hname
  rcases route_eq_ok_iff.1 hroute with ⟨-, rfl⟩ | ⟨-, index, -, rfl⟩
  · rfl
  · rw [(perm_targets_detoured source index).mem_iff, List.mem_cons]
    exact or_iff_right hne

/-- The code on its way has the unused labels of its source, since the label of the detour is
used. -/
theorem unusedNames_routed (hs : Written source) {routed : List Statement}
    (hroute : (route source).result = .ok routed) : unusedNames routed = unusedNames source := by
  have hkept : ∀ name ∈ labelNames source,
      decide (name ∉ targets routed) = decide (name ∉ targets source) := by
    intro name hname
    rw [decide_eq_decide, hs.mem_targets_routed hroute hname]
  rcases route_eq_ok_iff.1 hroute with ⟨-, rfl⟩ | ⟨-, index, -, rfl⟩
  · rfl
  · have hskip : skipLabel ∈ targets (detoured source index) := by
      rw [(perm_targets_detoured source index).mem_iff]
      exact List.mem_cons_self
    rw [unusedNames, labelNames_detoured, List.filter_append, List.filter_cons_of_neg (by simpa),
      ← List.filter_append, labelNames_take_append_drop, unusedNames]
    exact List.filter_congr hkept

/-- The findings about a laid-out program are the unused labels of its source. -/
theorem diagnostics_eq (hs : Written source) {layout : Layout} (h : layOut source = .ok layout) :
    layout.diagnostics = (unusedNames source).map .unusedLabel := by
  obtain ⟨-, routed, hroute, -, hresolve, hdiagnose⟩ := layOut_eq_ok_iff.1 h
  obtain ⟨-, -, hsettle⟩ := resolve_eq_ok_iff.1 hresolve
  have hunused : unusedNames (place Memory.programStart routed) = unusedNames routed := by
    simp only [unusedNames, labelNames_place, targets_place]
  rw [← hdiagnose, ← hsettle, diagnose_settle ((hs.unmarked_routed hroute).place _), hunused,
    hs.unusedNames_routed hroute]

/-- The targets of written statements are what `GOTO` and `IF` name, with whatever test. -/
theorem mem_targets_iff (hs : Written source) {name : String} : name ∈ targets source ↔
    ∃ statement ∈ source, ∃ instruction,
      Instruction.parse statement.tokens = .ok instruction ∧ instruction.target? = some name := by
  rw [targets, fragments, List.filterMap_flatMap, List.mem_flatMap]
  apply exists_congr
  intro statement
  apply and_congr_right
  intro hstatement
  obtain ⟨tokens, instruction, hparse, rfl⟩ := hs.exists_instruction hstatement
  rw [Statement.ofInstruction, Instruction.targets_encode, Option.mem_toList]
  constructor
  · intro htarget
    exact ⟨instruction, hparse, htarget⟩
  · rintro ⟨other, hother, htarget⟩
    obtain rfl := Except.ok.inj (hparse.symm.trans hother)
    exact htarget

end Written

/-! ## Warnings -/

namespace Logged

variable {ε ε' α β : Type}

/-- The events of a log that are warnings. -/
def warnings (computation : Logged ε α) : List Event :=
  computation.log.filter fun event => event.level = .warn

/-- The computation reports no warning. -/
def Quiet (computation : Logged ε α) : Prop := ∀ event ∈ computation.log, event.level ≠ .warn

theorem Quiet.warnings_eq {computation : Logged ε α} (h : computation.Quiet) :
    computation.warnings = [] := by
  rw [warnings, List.filter_eq_nil_iff]
  intro event hevent
  simpa using h event hevent

theorem quiet_ofExcept (result : Except ε α) : (ofExcept result).Quiet := by
  intro event hevent
  cases hevent

theorem quiet_pure (a : α) : (pure a : Logged ε α).Quiet := quiet_ofExcept _

theorem quiet_report {events : List Event} (h : ∀ event ∈ events, event.level ≠ .warn) :
    (report events : Logged ε Unit).Quiet := h

/-- A computation is quiet if each of its steps is. -/
theorem Quiet.bind {first : Logged ε α} (h : first.Quiet) {next : α → Logged ε β}
    (hnext : ∀ a, (next a).Quiet) : (first >>= next).Quiet := by
  intro event hevent
  cases hresult : first.result with
  | error e =>
    rw [log_bind_of_error hresult] at hevent
    exact h event hevent
  | ok a =>
    rw [log_bind_of_ok hresult, List.mem_append] at hevent
    rcases hevent with hevent | hevent
    · exact h event hevent
    · exact hnext a event hevent

/-- What comes after a quiet beginning decides on the warnings. -/
theorem Quiet.warnings_bind_of_ok {first : Logged ε α} (h : first.Quiet) {a : α}
    (ha : first.result = .ok a) (next : α → Logged ε β) :
    (first >>= next).warnings = (next a).warnings := by
  rw [warnings, log_bind_of_ok ha, List.filter_append, ← warnings, h.warnings_eq]
  rfl

theorem Quiet.warnings_bind_of_error {first : Logged ε α} (h : first.Quiet) {e : ε}
    (he : first.result = .error e) (next : α → Logged ε β) : (first >>= next).warnings = [] := by
  rw [warnings, log_bind_of_error he, ← warnings, h.warnings_eq]

theorem warnings_bind_pure (first : Logged ε α) (f : α → β) :
    (first >>= fun a => pure (f a)).warnings = first.warnings := by
  cases hresult : first.result with
  | error e => rw [warnings, log_bind_of_error hresult, ← warnings]
  | ok a =>
    rw [warnings, log_bind_of_ok hresult]
    exact congrArg (List.filter _) (List.append_nil _)

/-- The computation warns of what `events` gives for its value, and of nothing if it fails. -/
structure WarnsOf (events : α → List Event) (computation : Logged ε α) : Prop where
  ok : ∀ a, computation.result = .ok a → computation.warnings = events a
  error : ∀ e, computation.result = .error e → computation.warnings = []

theorem Quiet.warnsOf_bind {first : Logged ε α} (h : first.Quiet) {next : α → Logged ε β}
    {events : β → List Event} (hnext : ∀ a, (next a).WarnsOf events) :
    (first >>= next).WarnsOf events := by
  cases hresult : first.result with
  | error e =>
    refine ⟨fun b hb => ?_, fun _ _ => h.warnings_bind_of_error hresult next⟩
    rw [result_bind, hresult] at hb
    cases hb
  | ok a =>
    have hrest : (first >>= next).result = (next a).result := by
      rw [result_bind, hresult]
      rfl
    refine ⟨fun b hb => ?_, fun e he => ?_⟩
    · rw [h.warnings_bind_of_ok hresult]
      exact (hnext a).ok b (hrest.symm.trans hb)
    · rw [h.warnings_bind_of_ok hresult]
      exact (hnext a).error e (hrest.symm.trans he)

end Logged

open Logged

theorem Layout.quiet_route (source : List Statement) : (route source).Quiet := by
  unfold route
  split
  · exact quiet_pure source
  · apply (quiet_ofExcept _).bind
    rintro ⟨count, resume⟩
    apply (quiet_report (by simp [Event.level])).bind
    intro _
    apply (quiet_report (by simp [Event.level])).bind
    intro _
    exact quiet_pure _

theorem Layout.warnsOf_report (layout : Layout) :
    (report (layout.diagnostics.map Diagnostic.event) >>= fun _ =>
      pure layout : Logged LayoutError Layout).WarnsOf
        fun layout => layout.diagnostics.map Diagnostic.event := by
  refine ⟨fun other hother => ?_, nofun⟩
  obtain rfl := Except.ok.inj hother
  rw [warnings_bind_pure]
  show (layout.diagnostics.map Diagnostic.event).filter _ = _
  rw [List.filter_eq_self]
  intro event hevent
  obtain ⟨diagnostic, -, rfl⟩ := List.mem_map.1 hevent
  rfl

/-- A layout warns of what it finds, and of nothing if it fails. -/
theorem Layout.warnsOf_run (source : List Statement) :
    (run source).WarnsOf fun layout => layout.diagnostics.map Diagnostic.event := by
  unfold run
  apply (quiet_ofExcept _).warnsOf_bind
  intro _
  apply (quiet_report (by simp [Event.level])).warnsOf_bind
  intro _
  apply (quiet_route source).warnsOf_bind
  intro routed
  apply (quiet_ofExcept _).warnsOf_bind
  intro _
  apply (quiet_ofExcept _).warnsOf_bind
  intro statements
  exact warnsOf_report ⟨statements, diagnose statements⟩

theorem Assembly.quiet_readLines (lines : List (Nat × List String)) : (readLines lines).Quiet := by
  induction lines with
  | nil => exact quiet_pure []
  | cons line lines ih =>
    have hline : (readLine line.1 line.2).Quiet := by
      apply (quiet_report (by simp [Event.level])).bind
      intro _
      exact quiet_ofExcept _
    apply hline.bind
    intro statement
    apply ih.bind
    intro statements
    exact quiet_pure _

theorem Assembly.quiet_read (source : String) : (read source).Quiet := quiet_readLines _

/-- An assembly warns as the layout of its statements does. -/
theorem Assembly.warnings_run_of_ok {source : String} {statements : List Statement}
    (h : (read source).result = .ok statements) (eot : Bool) :
    (run source eot).warnings = (Layout.run statements).warnings := by
  rw [run, (quiet_read source).warnings_bind_of_ok h, warnings_bind_pure, warnings, log_mapError,
    ← warnings]

/-- An assembly that succeeds warns of what is found about its program. -/
theorem warnings_of_assemble_eq_ok {source text : String} {eot : Bool}
    (h : assemble source eot = .ok text) : ∃ statements layout,
      (Assembly.read source).result = .ok statements ∧ layOut statements = .ok layout ∧
      (Assembly.run source eot).warnings = layout.diagnostics.map Diagnostic.event := by
  rw [assemble_eq_bind, bind_eq_ok] at h
  obtain ⟨statements, hread, h⟩ := h
  obtain ⟨layout, hlayout, -⟩ := map_eq_ok.1 h
  rw [mapError_eq_ok] at hlayout
  refine ⟨statements, layout, hread, hlayout, ?_⟩
  rw [Assembly.warnings_run_of_ok hread, (warnsOf_run statements).ok layout hlayout]

/-- An assembly that fails does not warn. -/
theorem warnings_of_assemble_eq_error {source : String} {eot : Bool} {e : AssemblyError}
    (h : assemble source eot = .error e) : (Assembly.run source eot).warnings = [] := by
  cases hread : (Assembly.read source).result with
  | error e => exact (Assembly.quiet_read source).warnings_bind_of_error hread _
  | ok statements =>
    rw [Assembly.warnings_run_of_ok hread]
    rw [assemble_eq_bind, hread] at h
    obtain ⟨cause, hcause, -⟩ := mapError_eq_error.1 (map_eq_error.1 h)
    exact (warnsOf_run statements).error cause hcause

/-- **Unused labels are reported, and nothing else is.** Let a written source be laid out. What is
found about it are the labels of the source that no jump of the source goes to, in their order and
each once. A label of the layout is marked as used if and only if a jump goes to it; for a label of
the source that is a jump of the source. The label of the detour is never reported. What a source
goes to is what `GOTO` and `IF` name in it, whatever the test.

Let a source text be assembled. If that succeeds, it warns of what is found about the program of the
text, with the same messages in the same order; if it fails, it does not warn. -/
theorem unused_labels_are_reported :
    (∀ source, Written source → ∀ layout, layOut source = .ok layout →
      layout.diagnostics =
        ((labelNames source).filter fun name => name ∉ targets source).map .unusedLabel ∧
      layout.diagnostics.Nodup ∧
      (∀ label ∈ fragments layout.statements, ∀ name used, label.content = .label name used →
        (used = true ↔ name ∈ targets layout.statements) ∧
        (name ∈ labelNames source → (used = true ↔ name ∈ targets source))) ∧
      .unusedLabel skipLabel ∉ layout.diagnostics ∧
      ∀ name, name ∈ targets source ↔ ∃ statement ∈ source, ∃ instruction,
        Instruction.parse statement.tokens = .ok instruction ∧
          instruction.target? = some name) ∧
    ∀ source eot,
      (∀ text, assemble source eot = .ok text → ∃ program diagnostics,
        parse source = .ok program ∧ program.diagnostics.1 = .ok diagnostics ∧
        ((Assembly.run source eot).log.filter fun event => event.level = .warn).map
          Event.message = diagnostics.map Diagnostic.message) ∧
      ∀ e, assemble source eot = .error e →
        ∀ event ∈ (Assembly.run source eot).log, event.level ≠ .warn := by
  refine ⟨fun source hs layout h => ?_, fun source eot => ⟨fun text htext => ?_, fun e he => ?_⟩⟩
  · have hdiagnostics := hs.diagnostics_eq h
    obtain ⟨hnodup, -⟩ := layOut_eq_ok_iff.1 h
    obtain ⟨routed, hroute, -, -, -, hsettle⟩ := exists_routed h
    refine ⟨hdiagnostics, ?_, fun label hl name used hcontent => ?_, ?_, fun name =>
      hs.mem_targets_iff⟩
    · rw [hdiagnostics]
      exact (hnodup.filter _).map fun _ _ => Diagnostic.unusedLabel.inj
    · rw [hsettle] at hl
      have hused := used_iff_of_mem_settle ((hs.unmarked_routed hroute).place _) hl hcontent
      rw [targets_place] at hused
      rw [hsettle, targets_settle, targets_place]
      exact ⟨hused, fun hname => hused.trans (hs.mem_targets_routed hroute hname)⟩
    · rw [hdiagnostics, List.mem_map]
      rintro ⟨_, hunused, ⟨⟩⟩
      exact hs.skipLabel_notMem_labelNames (List.mem_of_mem_filter hunused)
  · obtain ⟨statements, layout, hread, hlayout, hwarnings⟩ := warnings_of_assemble_eq_ok htext
    refine ⟨.ofStatements statements, layout.diagnostics, map_eq_ok.2 ⟨_, hread, rfl⟩, ?_, ?_⟩
    · rw [Program.diagnostics, Program.ask_ofStatements, hlayout]
      rfl
    · rw [← warnings, hwarnings, List.map_map]
      rfl
  · intro event hevent hlevel
    have hwarning : event ∈ (Assembly.run source eot).warnings :=
      List.mem_filter.2 ⟨hevent, decide_eq_true hlevel⟩
    rw [warnings_of_assemble_eq_error he] at hwarning
    cases hwarning

/-- A source text with a label that is used on overflow only, before its definition, and one that is
not used. -/
def onOverflow : String := "LABEL top\nIF A OVERFLOW GOTO end\nNOOP\nLABEL end"

theorem unused_labels_are_reported_crossing :
    (Written crossing ∧ ∃ layout, layOut crossing = .ok layout ∧
      layout.diagnostics = [.unusedLabel "middle"]) ∧
    (∃ text, assemble onOverflow true = .ok text ∧
      ∃ program diagnostics, parse onOverflow = .ok program ∧
        program.diagnostics.1 = .ok diagnostics ∧
        ((Assembly.run onOverflow true).log.filter fun event => event.level = .warn).map
          Event.message = diagnostics.map Diagnostic.message) ∧
    ∃ e, assemble "LABEL top\nGOTO end" true = .error e ∧
      ∀ event ∈ (Assembly.run "LABEL top\nGOTO end" true).log, event.level ≠ .warn := by
  obtain ⟨hlayouts, hassemblies⟩ := unused_labels_are_reported
  obtain ⟨layout, h⟩ := exists_layOut_crossing
  obtain ⟨text, htext⟩ : ∃ text, assemble onOverflow true = .ok text :=
    exists_eq_ok (by decide +kernel)
  have herror : assemble "LABEL top\nGOTO end" true = .error (.layout (.undefinedLabel "end")) :=
    error?_eq_some_iff.1 (by decide +kernel)
  refine ⟨⟨written_crossing, layout, h, ?_⟩,
    ⟨text, htext, (hassemblies onOverflow true).1 text htext⟩,
    ⟨_, herror, (hassemblies _ true).2 _ herror⟩⟩
  rw [(hlayouts crossing written_crossing layout h).1]
  decide +kernel

end CrossAssembler
