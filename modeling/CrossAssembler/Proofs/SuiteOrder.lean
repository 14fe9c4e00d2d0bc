import CrossAssembler.Proofs.DeskWork
import CrossAssembler.Proofs.FileTrees
import CrossAssembler.Proofs.Keywords
import CrossAssembler.Proofs.Resolution
import Mathlib.Data.List.MinMax

/-!
# A suite and its units

The units of a suite are the files with the extension of a source file in its directory. They have
names of their own and run in the order of their names, so it does not matter in which order the
files are listed; and the suite succeeds if and only if each of its units does when it is run alone
(`suite_is_conjunction_of_units`).

* `FileTree.Distinct`: no two entries of a tree stand at one place. What stands where, and with it
  whatever is read from the tree, does not depend on the order of the entries (`node?_of_perm`).
* `Suite.AreUnits`: the units of a directory in ascending order.
* `Suite.select_of_perm`: the units that are to run depend on which units there are and not on their
  order.
* `Suite.perform_run_of_ok`: a run reports on the units that are selected, and
  `Suite.perform_run_of_perm`: it does so in the same way whatever the order of the entries.
-/

namespace CrossAssembler

open Fallible

/-! ## Names of source files -/

namespace Path

/-- A name has an extension if something stands before its last dot. -/
theorem splitExtension?_eq_some_iff {name stem extension : String} :
    splitExtension? name = some (stem, extension) ↔
      name = stem ++ "." ++ extension ∧ stem ≠ "" ∧ '.' ∉ extension.toList := by
  constructor
  · intro h
    have hname := List.takeWhile_append_dropWhile (p := (· != '.')) (l := name.toList.reverse)
    have hdot : ∀ c ∈ name.toList.reverse.takeWhile (· != '.'), c ≠ '.' :=
      fun c hc => by simpa using List.mem_takeWhile_imp hc
    have hhead := List.head?_dropWhile_not (· != '.') name.toList.reverse
    simp only [splitExtension?] at h
    generalize name.toList.reverse.takeWhile (· != '.') = tail at h hname hdot
    cases hrest : name.toList.reverse.dropWhile (· != '.') with
    | nil => simp [hrest] at h
    | cons c rest =>
      cases rest with
      | nil => simp [hrest] at h
      | cons d rest =>
        simp only [hrest, Option.some.injEq, Prod.mk.injEq] at h
        obtain ⟨rfl, rfl⟩ := h
        obtain rfl : c = '.' := by simpa [hrest] using hhead
        refine ⟨?_, by simp, by simpa using fun hmem => hdot '.' hmem rfl⟩
        have hlist : name.toList = (tail ++ '.' :: d :: rest).reverse := by
          rw [← hrest, hname, List.reverse_reverse]
        apply String.toList_inj.1
        rw [hlist]
        simp
  · rintro ⟨rfl, hstem, hdot⟩
    have hreverse : (stem ++ "." ++ extension).toList.reverse =
        extension.toList.reverse ++ '.' :: stem.toList.reverse := by simp
    have hpos : ∀ c ∈ extension.toList.reverse, (c != '.') = true := by
      intro c hc
      simp only [List.mem_reverse] at hc
      exact bne_iff_ne.2 fun heq => hdot (heq ▸ hc)
    have htake : (stem ++ "." ++ extension).toList.reverse.takeWhile (· != '.') =
        extension.toList.reverse := by
      rw [hreverse, List.takeWhile_append_of_pos hpos]
      simp
    have hdrop : (stem ++ "." ++ extension).toList.reverse.dropWhile (· != '.') =
        '.' :: stem.toList.reverse := by
      rw [hreverse, List.dropWhile_append_of_pos hpos]
      rfl
    cases hrest : stem.toList.reverse with
    | nil => exact absurd (by simpa using hrest) hstem
    | cons d rest =>
      simp only [splitExtension?, htake, hdrop, hrest]
      simp [← hrest]

end Path

namespace SuiteUnit

/-- The unit with a given name in a directory. -/
def ofStem (directory stem : String) : SuiteUnit where
  name := stem
  source := Path.join directory (stem ++ ".kbs")
  expectation := Path.join directory (Path.withExtension stem "expected")

/-- A file is that of a unit if its name is a stem with the extension of a source file. -/
theorem ofFile?_eq_some_iff {directory fileName : String} {unit : SuiteUnit} :
    ofFile? directory fileName = some unit ↔
      ∃ stem, stem ≠ "" ∧ fileName = stem ++ ".kbs" ∧ unit = ofStem directory stem := by
  have hname : ∀ stem, stem ++ "." ++ sourceExtension = stem ++ ".kbs" :=
    fun stem => String.append_assoc
  constructor
  · intro h
    unfold ofFile? at h
    split at h
    · cases h
    · rename_i stem extension hsplit
      obtain ⟨rfl, hstem, -⟩ := Path.splitExtension?_eq_some_iff.1 hsplit
      split_ifs at h with hextension
      subst hextension
      exact ⟨stem, hstem, hname stem, by simp [← Option.some.inj h, ofStem, hname]; rfl⟩
  · rintro ⟨stem, hstem, rfl, rfl⟩
    have hsplit : Path.splitExtension? (stem ++ ".kbs") = some (stem, sourceExtension) :=
      Path.splitExtension?_eq_some_iff.2 ⟨(hname stem).symm, hstem, by decide⟩
    simp only [ofFile?, hsplit, if_pos]
    rfl

end SuiteUnit

namespace FileTree

variable {tree other : FileTree} {place : Place}

/-! ## Trees up to the order of their entries -/

/-- No two entries of the tree stand at one place. -/
def Distinct (tree : FileTree) : Prop := (tree.entries.map Prod.fst).Nodup

theorem Distinct.of_perm (h : tree.Distinct) (hperm : other.entries.Perm tree.entries) :
    other.Distinct :=
  (hperm.map Prod.fst).nodup_iff.2 h

/-- What stands at a place does not depend on the order of the entries. -/
theorem node?_of_perm (h : tree.Distinct) (hperm : other.entries.Perm tree.entries) :
    other.node? = tree.node? := by
  funext place
  unfold node?
  split_ifs
  · rfl
  · refine Option.ext fun node => ?_
    rw [List.lookup_eq_some_iff_mem (h.of_perm hperm), List.lookup_eq_some_iff_mem h,
      hperm.mem_iff]

theorem follow_of_node? (h : other.node? = tree.node?) (place : Place) (parts : List String) :
    other.follow place parts = tree.follow place parts := by
  induction parts generalizing place with
  | nil => rfl
  | cons part parts ih => simp only [follow_cons, enter, h, ih]

theorem locate_of_node? (h : other.node? = tree.node?) (path : String) :
    other.locate path = tree.locate path := by
  simp only [locate, follow_of_node? h]

theorem readText_of_node?_eq (h : other.node? = tree.node?) (path : String) :
    other.readText path = tree.readText path := by
  simp only [readText, locate_of_node? h, h]

theorem fileIn?_eq_some_iff {entry : Place × Node} {name : String} :
    fileIn? place entry = some name ↔ ∃ content, entry = (place ++ [name], .file content) := by
  obtain ⟨stands, node⟩ := entry
  constructor
  · intro h
    unfold fileIn? at h
    split at h
    · rename_i content last hnode hlast
      split_ifs at h with hparent
      obtain rfl := Option.some.inj h
      obtain ⟨front, rfl⟩ := List.getLast?_eq_some_iff.1 hlast
      rw [List.dropLast_concat] at hparent
      exact ⟨content, by simp_all⟩
    · cases h
  · rintro ⟨content, heq⟩
    obtain ⟨rfl, rfl⟩ := Prod.mk.inj heq
    simp [fileIn?]

/-- The names of files that are listed, each once. -/
theorem nodup_fileNames (h : tree.Distinct) (place : Place) :
    (tree.entries.filterMap (fileIn? place)).Nodup := by
  refine List.Pairwise.filterMap _ ?_ (List.pairwise_map.1 h)
  intro entry entry' hne name hname name' hname' heq
  obtain ⟨content, rfl⟩ := fileIn?_eq_some_iff.1 hname
  obtain ⟨content', rfl⟩ := fileIn?_eq_some_iff.1 hname'
  exact hne (by simp [heq])

/-- In trees with the same entries the same files are listed, if in another order. -/
theorem fileNames_of_perm (h : tree.Distinct) (hperm : other.entries.Perm tree.entries)
    (path : String) :
    (∃ cause, tree.fileNames path = .error cause ∧ other.fileNames path = .error cause) ∨
      ∃ place, tree.fileNames path = .ok (tree.entries.filterMap (fileIn? place)) ∧
        other.fileNames path = .ok (other.entries.filterMap (fileIn? place)) := by
  have hnode := node?_of_perm h hperm
  simp only [fileNames, locate_of_node? hnode, enter, hnode, bind, Except.bind]
  cases tree.locate path with
  | error cause => exact .inl ⟨cause, rfl, rfl⟩
  | ok place =>
    dsimp only
    cases tree.node? place with
    | none => exact .inl ⟨_, rfl, rfl⟩
    | some node =>
      cases node with
      | file content => exact .inl ⟨_, rfl, rfl⟩
      | directory => exact .inr ⟨place, rfl, rfl⟩

theorem fileNames_eq_ok_iff {path : String} {names : List String} :
    tree.fileNames path = .ok names ↔ ∃ place, tree.locate path = .ok place ∧
      tree.node? place = some .directory ∧ tree.entries.filterMap (fileIn? place) = names := by
  simp only [fileNames, bind_eq_ok, ← enter_eq_ok_iff]
  constructor
  · rintro ⟨place, hplace, _, henter, h⟩
    exact ⟨place, hplace, henter, Except.ok.inj h⟩
  · rintro ⟨place, hplace, henter, rfl⟩
    exact ⟨place, hplace, (), henter, rfl⟩

end FileTree

/-! ## The units of a directory -/

namespace Suite

open FileTree

variable {tree other : FileTree} {place : Place}

/-- The units of a directory, in the order in which its files are listed. -/
def listed (tree : FileTree) (place : Place) (directory : String) : List SuiteUnit :=
  (tree.entries.filterMap (fileIn? place)).filterMap (SuiteUnit.ofFile? directory)

/-- The units are those of the files in the directory at a place whose names are a stem and the
extension of a source file; they stand in the order of their names, no two of which are the same. -/
structure AreUnits (tree : FileTree) (place : Place) (directory : String)
    (units : List SuiteUnit) : Prop where
  mem_iff : ∀ unit, unit ∈ units ↔ ∃ stem content, stem ≠ "" ∧
    tree.node? (place ++ [stem ++ ".kbs"]) = some (.file content) ∧
    unit = SuiteUnit.ofStem directory stem
  ascending : units.Pairwise fun first second => first.name < second.name

theorem node?_source (tree : FileTree) (place : Place) (stem : String) :
    tree.node? (place ++ [stem ++ ".kbs"]) = tree.entries.lookup (place ++ [stem ++ ".kbs"]) := by
  have hne : ∀ name : String, name.toList.getLast? ≠ some 's' → stem ++ ".kbs" ≠ name := by
    rintro _ hlast rfl
    exact hlast (by simp)
  have houter : Place.isOuter (place ++ [stem ++ ".kbs"]) = false :=
    isOuter_concat (hne ".." (by decide)) (hne "/" (by decide))
  simp [node?, houter]

theorem mem_listed_iff (h : tree.Distinct) {directory : String} {unit : SuiteUnit} :
    unit ∈ listed tree place directory ↔ ∃ stem content, stem ≠ "" ∧
      tree.node? (place ++ [stem ++ ".kbs"]) = some (.file content) ∧
      unit = SuiteUnit.ofStem directory stem := by
  simp only [listed, List.mem_filterMap, fileIn?_eq_some_iff, SuiteUnit.ofFile?_eq_some_iff,
    node?_source, List.lookup_eq_some_iff_mem h]
  constructor
  · rintro ⟨name, ⟨entry, hentry, content, rfl⟩, stem, hstem, rfl, rfl⟩
    exact ⟨stem, content, hstem, hentry, rfl⟩
  · rintro ⟨stem, content, hstem, hentry, rfl⟩
    exact ⟨_, ⟨_, hentry, content, rfl⟩, stem, hstem, rfl, rfl⟩

theorem nodup_names_listed (h : tree.Distinct) (place : Place) (directory : String) :
    ((listed tree place directory).map SuiteUnit.name).Nodup := by
  rw [List.Nodup, List.pairwise_map]
  refine List.Pairwise.filterMap _ ?_ (nodup_fileNames h place)
  intro name name' hne unit hunit unit' hunit' heq
  obtain ⟨stem, -, rfl, rfl⟩ := SuiteUnit.ofFile?_eq_some_iff.1 hunit
  obtain ⟨stem', -, rfl, rfl⟩ := SuiteUnit.ofFile?_eq_some_iff.1 hunit'
  have hstem : stem = stem' := heq
  exact hne (by rw [hstem])

/-- Units in the order of their names. -/
theorem pairwise_mergeSort_names (units : List SuiteUnit) :
    (units.mergeSort fun a b => a.name ≤ b.name).Pairwise fun a b => a.name ≤ b.name := by
  have hsorted : (units.mergeSort fun a b => a.name ≤ b.name).Pairwise
      fun a b => decide (a.name ≤ b.name) = true := by
    apply List.pairwise_mergeSort
    · intro a b c hab hbc
      simp only [decide_eq_true_eq] at hab hbc ⊢
      exact String.le_trans hab hbc
    · intro a b
      simpa using String.le_total a.name b.name
  exact hsorted.imp of_decide_eq_true

/-- The units of a directory, in the order of their names. -/
def inOrder (tree : FileTree) (place : Place) (directory : String) : List SuiteUnit :=
  (listed tree place directory).mergeSort fun a b => a.name ≤ b.name

theorem mem_inOrder_iff {directory : String} {unit : SuiteUnit} :
    unit ∈ inOrder tree place directory ↔ unit ∈ listed tree place directory :=
  List.mem_mergeSort

theorem areUnits_inOrder (h : tree.Distinct) (place : Place) (directory : String) :
    AreUnits tree place directory (inOrder tree place directory) := by
  have hperm := List.mergeSort_perm (listed tree place directory) fun a b => a.name ≤ b.name
  refine ⟨fun unit => mem_inOrder_iff.trans (mem_listed_iff h), ?_⟩
  have hne := List.pairwise_map.1
    ((hperm.map SuiteUnit.name).nodup_iff.2 (nodup_names_listed h place directory))
  refine ((pairwise_mergeSort_names _).and hne).imp fun h => ?_
  exact String.not_le.1 fun hge => h.2 (String.le_antisymm h.1 hge)

/-! ## The units that run -/

theorem find?_name_eq_some_iff {units : List SuiteUnit} (h : (units.map SuiteUnit.name).Nodup)
    {name : String} {unit : SuiteUnit} :
    units.find? (·.name == name) = some unit ↔ unit ∈ units ∧ name = unit.name := by
  rw [← List.find?_key_eq_some_iff h]
  simp only [Bool.beq_comm]

/-- Which units run does not depend on the order in which they are listed. -/
theorem select_of_perm {units others : List SuiteUnit} (hperm : others.Perm units)
    (h : (units.map SuiteUnit.name).Nodup) (options : SuiteOptions) :
    select options others = select options units := by
  have h' : (others.map SuiteUnit.name).Nodup := (hperm.map SuiteUnit.name).nodup_iff.2 h
  have hsort := (List.mergeSort_perm others fun a b => a.name ≤ b.name).trans
    (hperm.trans (List.mergeSort_perm units fun a b => a.name ≤ b.name).symm)
  unfold select
  split
  · refine congrArg Except.ok (hsort.eq_of_pairwise ?_ (pairwise_mergeSort_names others)
      (pairwise_mergeSort_names units))
    intro a b ha hb hab hba
    rw [List.mem_mergeSort] at ha hb
    exact List.inj_on_of_nodup_map h (hperm.mem_iff.1 ha) hb (String.le_antisymm hab hba)
  · rename_i name _
    have hfind : others.find? (·.name == name) = units.find? (·.name == name) := by
      refine Option.ext fun unit => ?_
      rw [find?_name_eq_some_iff h, find?_name_eq_some_iff h', hperm.mem_iff]
    rw [hfind]

end Suite

/-! ## Reports -/

/-- Both files of the unit can be read, and the source text meets the expectation. -/
def SuiteUnit.Passes (unit : SuiteUnit) (files : FileTree) : Prop :=
  ∃ source expected, files.readText unit.source = .ok source ∧
    files.readText unit.expectation = .ok expected ∧ Outcome.ofUnit source expected = .pass

theorem SuiteUnit.isPass_result_iff {unit : SuiteUnit} {files : FileTree} :
    UnitResult.isPass (unit.result files) = true ↔ unit.Passes files := by
  unfold Passes result
  cases files.readText unit.source with
  | error cause => simp [Except.mapError, UnitResult.isPass, bind, Except.bind]
  | ok source =>
    cases files.readText unit.expectation with
    | error cause => simp [Except.mapError, UnitResult.isPass, bind, Except.bind]
    | ok expected =>
      simp [Except.mapError, UnitResult.isPass, bind, Except.bind, pure, Except.pure,
        Outcome.isPass]

namespace Suite

/-- The report on some units whose files lie in a tree. -/
def report (suite : String) (files : FileTree) (units : List SuiteUnit) : Report where
  suite := suite
  results := units.map fun unit => (unit.name, unit.result files)

theorem success_report_iff {suite : String} {files : FileTree} {units : List SuiteUnit} :
    (report suite files units).success = true ↔ ∀ unit ∈ units, unit.Passes files := by
  simp only [Report.success, Report.passes, Report.total, beq_iff_eq, List.countP_eq_length, report,
    List.forall_mem_map, SuiteUnit.isPass_result_iff]

end Suite

/-- The column of names is as wide as each of the names. -/
theorem Report.le_nameWidth (report : Report) {entry : String × UnitResult}
    (h : entry ∈ report.results) : entry.1.utf8ByteSize ≤ report.nameWidth :=
  List.le_max_of_le' 0 (List.mem_map_of_mem h) (Nat.le_refl _)

/-! ## Runs -/

namespace Desk

theorem runUnits_eq (desk : Desk) (units : List SuiteUnit) :
    (Suite.runUnits units : Work _) desk =
      (units.map fun unit => (unit.name, unit.result desk.files), desk) := by
  induction units with
  | nil => rfl
  | cons unit units ih =>
    show ((unit.name, (desk.perform (Suite.runUnit unit)).1) ::
      ((Suite.runUnits units : Work _) (desk.perform (Suite.runUnit unit)).2).1,
      ((Suite.runUnits units : Work _) (desk.perform (Suite.runUnit unit)).2).2) = _
    rw [perform_runUnit, ih]
    rfl

end Desk

namespace Suite

open FileTree

variable {tree other : FileTree} {place : Place} {options : SuiteOptions} {names : List String}

/-- A suite whose directory cannot be opened is not run. -/
theorem perform_run_of_closed {cause : FileError}
    (h : tree.fileNames (directory options) = .error cause) (printed : String) :
    Desk.perform ⟨tree, printed⟩ (run options) =
      (.error (.openSuite (directory options) cause), ⟨tree, printed⟩) := by
  simp [run, units, h, Except.mapError]

/-- Nothing runs if no units are selected. -/
theorem perform_run_of_error (h : tree.fileNames (directory options) = .ok names)
    {e : CommandError}
    (hselect : select options (names.filterMap (SuiteUnit.ofFile? (directory options))) = .error e)
    (printed : String) :
    Desk.perform ⟨tree, printed⟩ (run options) = (.error e, ⟨tree, printed⟩) := by
  simp [run, units, h, Except.mapError, hselect]

/-- The run of a suite reports on the units that are selected. -/
theorem perform_run_of_ok (h : tree.fileNames (directory options) = .ok names)
    {units : List SuiteUnit}
    (hselect : select options (names.filterMap (SuiteUnit.ofFile? (directory options))) = .ok units)
    (printed : String) :
    Desk.perform ⟨tree, printed⟩ (run options) =
      (.ok (report options.suite tree units).success,
        ⟨tree, printed ++ (report options.suite tree units).text⟩) := by
  unfold run Suite.units
  simp only [Desk.perform_bind, Desk.perform_fileNames, h, Except.mapError, Desk.perform_pure,
    Desk.perform_ofExcept, hselect, Desk.perform_lift, Desk.runUnits_eq, Desk.perform_print, report]

theorem report_of_node? (h : other.node? = tree.node?) (suite : String) (units : List SuiteUnit) :
    report suite other units = report suite tree units := by
  simp only [report, SuiteUnit.result, readText_of_node?_eq h]

/-- The order of the entries of a tree does not show in what a suite answers and prints. -/
theorem perform_run_of_perm (h : tree.Distinct) (hperm : other.entries.Perm tree.entries)
    (options : SuiteOptions) (printed : String) : ∃ result text,
      Desk.perform ⟨tree, printed⟩ (run options) = (result, ⟨tree, printed ++ text⟩) ∧
      Desk.perform ⟨other, printed⟩ (run options) = (result, ⟨other, printed ++ text⟩) := by
  obtain ⟨cause, htree, hother⟩ | ⟨place, htree, hother⟩ :=
    fileNames_of_perm h hperm (directory options)
  · refine ⟨.error (.openSuite (directory options) cause), "", ?_, ?_⟩
    · rw [perform_run_of_closed htree, String.append_empty]
    · rw [perform_run_of_closed hother, String.append_empty]
  · have hselect : select options (listed other place (directory options)) =
        select options (listed tree place (directory options)) :=
      select_of_perm ((hperm.filterMap _).filterMap _) (nodup_names_listed h ..) options
    cases hunits : select options (listed tree place (directory options)) with
    | error e =>
      refine ⟨.error e, "", ?_, ?_⟩
      · rw [perform_run_of_error htree hunits, String.append_empty]
      · rw [perform_run_of_error hother (hselect.trans hunits), String.append_empty]
    | ok units =>
      refine ⟨_, _, perform_run_of_ok htree hunits printed, ?_⟩
      rw [perform_run_of_ok hother (hselect.trans hunits),
        report_of_node? (node?_of_perm h hperm)]

/-- A suite of which one unit is to run finds it by its name. -/
theorem select_only_of_mem {units : List SuiteUnit} (h : (units.map SuiteUnit.name).Nodup)
    {unit : SuiteUnit} (hunit : unit ∈ units) (suite root : String) :
    select ⟨suite, root, some unit.name⟩ units = .ok [unit] := by
  simp only [select, (find?_name_eq_some_iff h).2 ⟨hunit, rfl⟩]

theorem select_only_of_notMem {units : List SuiteUnit} {name : String}
    (hname : ∀ unit ∈ units, unit.name ≠ name) (suite root : String) :
    select ⟨suite, root, some name⟩ units = .error (.noUnit name (Path.join root suite)) := by
  have hnone : units.find? (·.name == name) = none :=
    List.find?_eq_none.2 fun unit hunit => by simpa using hname unit hunit
  simp only [select, hnone]
  rfl

end Suite

/-- **A suite and its units.** The order in which the entries of a tree are listed shows neither in
the answer nor in the text that is printed. If the suite is a directory, its units are those of the
source files in it, with ascending names, and the run reports on them in this order. A run of a
unit that does not exist is an error; a run of one that does succeeds if and only if the unit
passes, and the whole suite succeeds if and only if each of these runs does. In all reports there
is room for every name. -/
theorem suite_is_conjunction_of_units {tree : FileTree} (hdistinct : tree.Distinct)
    (suite root printed : String) :
    let run (files : FileTree) (only : Option String) : Except CommandError Bool × Desk :=
      Desk.perform ⟨files, printed⟩ (Suite.run ⟨suite, root, only⟩)
    let directory := Path.join root suite
    (∀ (other : FileTree) (only : Option String), other.entries.Perm tree.entries →
      ∃ result text, run tree only = (result, ⟨tree, printed ++ text⟩) ∧
        run other only = (result, ⟨other, printed ++ text⟩)) ∧
    (∀ place, tree.locate directory = .ok place → tree.node? place = some .directory →
      ∃ units, Suite.AreUnits tree place directory units ∧
        run tree none = (.ok (Suite.report suite tree units).success,
          ⟨tree, printed ++ (Suite.report suite tree units).text⟩) ∧
        (∀ name, (∃ e, (run tree (some name)).1 = .error e) ↔ ∀ unit ∈ units, unit.name ≠ name) ∧
        (∀ unit ∈ units, ∃ success, (success = true ↔ unit.Passes tree) ∧
          run tree (some unit.name) =
            (.ok success, ⟨tree, printed ++ (Suite.report suite tree [unit]).text⟩)) ∧
        ((run tree none).1 = .ok true ↔
          ∀ unit ∈ units, (run tree (some unit.name)).1 = .ok true)) ∧
    ∀ units, ∀ entry ∈ (Suite.report suite tree units).results,
      entry.1.utf8ByteSize ≤ (Suite.report suite tree units).nameWidth := by
  intro run directory
  refine ⟨fun other only hperm => Suite.perform_run_of_perm hdistinct hperm _ printed, ?_,
    fun units entry => Report.le_nameWidth _⟩
  intro place hlocate hnode
  have hnames : ∀ only, tree.fileNames (Suite.directory ⟨suite, root, only⟩) =
      .ok (tree.entries.filterMap (FileTree.fileIn? place)) :=
    fun only => FileTree.fileNames_eq_ok_iff.2 ⟨place, hlocate, hnode, rfl⟩
  have hnodup := Suite.nodup_names_listed hdistinct place directory
  have hall : run tree none =
      (.ok (Suite.report suite tree (Suite.inOrder tree place directory)).success,
        ⟨tree, printed ++ (Suite.report suite tree (Suite.inOrder tree place directory)).text⟩) :=
    Suite.perform_run_of_ok (hnames none) rfl printed
  have hone : ∀ unit ∈ Suite.listed tree place directory, run tree (some unit.name) =
      (.ok (Suite.report suite tree [unit]).success,
        ⟨tree, printed ++ (Suite.report suite tree [unit]).text⟩) := fun unit hunit =>
    Suite.perform_run_of_ok (hnames _) (Suite.select_only_of_mem hnodup hunit suite root) printed
  have hpasses : ∀ unit, (Suite.report suite tree [unit]).success = true ↔ unit.Passes tree :=
    fun unit => Suite.success_report_iff.trans List.forall_mem_singleton
  refine ⟨_, Suite.areUnits_inOrder hdistinct place directory, hall, ?_, ?_, ?_⟩
  · intro name
    simp only [Suite.mem_inOrder_iff]
    constructor
    · rintro ⟨e, herror⟩ unit hunit rfl
      rw [hone unit hunit] at herror
      cases herror
    · intro hname
      have hselect := Suite.select_only_of_notMem hname suite root
      exact ⟨_, congrArg Prod.fst (Suite.perform_run_of_error (hnames (some name)) hselect printed)⟩
  · intro unit hunit
    exact ⟨_, hpasses unit, hone unit (Suite.mem_inOrder_iff.1 hunit)⟩
  · simp only [hall, Except.ok.injEq, Suite.success_report_iff, Suite.mem_inOrder_iff]
    refine forall₂_congr fun unit hunit => ?_
    rw [hone unit hunit, Except.ok.injEq, hpasses]

/-- A suite of two units, of which the second lacks its expectation. -/
def halfSuite : FileTree where
  entries := [(["asm", "s", "b.kbs"], .ofText "HALT\n"), (["asm"], .directory),
    (["asm", "s", "a.expected"], .ofText "error: name\n"), (["asm", "s"], .directory),
    (["asm", "s", "a.kbs"], .ofText "LET Q = 1\n"), (["asm", "s", ".kbs"], .ofText "")]

theorem suite_is_conjunction_of_units_halfSuite :
    halfSuite.Distinct ∧
    (Desk.perform ⟨halfSuite, ""⟩ (Suite.run ⟨"s", "asm", some "a"⟩)).1 = .ok true ∧
    (Desk.perform ⟨halfSuite, ""⟩ (Suite.run ⟨"s", "asm", some "b"⟩)).1 = .ok false ∧
    (Desk.perform ⟨⟨halfSuite.entries.reverse⟩, ""⟩ (Suite.run ⟨"s", "asm", none⟩)).1 =
      .ok false := by
  have hdistinct : halfSuite.Distinct := by
    unfold FileTree.Distinct
    decide
  obtain ⟨hperm, hunits, -⟩ := suite_is_conjunction_of_units hdistinct "s" "asm" ""
  obtain ⟨units, hare, hnone, -, honly, hall⟩ := hunits ["asm", "s"] rfl rfl
  have ha : SuiteUnit.ofStem "asm/s" "a" ∈ units :=
    (hare.mem_iff _).2 ⟨"a", _, by decide, rfl, rfl⟩
  have hb : SuiteUnit.ofStem "asm/s" "b" ∈ units :=
    (hare.mem_iff _).2 ⟨"b", _, by decide, rfl, rfl⟩
  have hpass : (SuiteUnit.ofStem "asm/s" "a").Passes halfSuite :=
    ⟨"LET Q = 1\n", "error: name\n", FileTree.readText_of_node? rfl rfl,
      FileTree.readText_of_node? rfl rfl, rfl⟩
  have hfail : ¬ (SuiteUnit.ofStem "asm/s" "b").Passes halfSuite := by
    rintro ⟨source, expected, -, hexpected, -⟩
    cases hexpected
  obtain ⟨first, hfirst, hrunFirst⟩ := honly _ ha
  obtain ⟨second, hsecond, hrunSecond⟩ := honly _ hb
  obtain rfl : first = true := hfirst.2 hpass
  obtain rfl : second = false := Bool.eq_false_iff.2 fun h => hfail (hsecond.1 h)
  refine ⟨hdistinct, congrArg Prod.fst hrunFirst, congrArg Prod.fst hrunSecond, ?_⟩
  obtain ⟨result, text, hforward, hbackward⟩ := hperm ⟨halfSuite.entries.reverse⟩ none
    (List.reverse_perm _)
  have hresult : result = .ok (Suite.report "s" halfSuite units).success :=
    congrArg Prod.fst (hforward.symm.trans hnone)
  have hnot : (Suite.report "s" halfSuite units).success ≠ true := by
    intro hsuccess
    have hevery := hall.1 (by rw [hnone, hsuccess]) _ hb
    rw [show _ = _ from hrunSecond] at hevery
    cases hevery
  rw [congrArg Prod.fst hbackward, hresult, Bool.eq_false_iff.2 hnot]

end CrossAssembler
