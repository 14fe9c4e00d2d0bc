import CrossAssembler.Proofs.DeskWork
import CrossAssembler.Proofs.FileTrees
import CrossAssembler.Proofs.LayoutCache
import CrossAssembler.Proofs.PlainNames
import CrossAssembler.Proofs.UnusedLabels

/-!
# What assembling a file does

A file that cannot be read or assembled is refused, and nothing has happened then. Otherwise the
command prints a line for each unused label and makes the writes that are asked for, up to the first
that fails; if none is asked for, it prints the codes (`asm_has_documented_effects`).

* `FileTree.writeAll` makes writes one after the other. They succeed if and only if each path names
  a file that can be written (`FileTree.writeAll_eq_ok_iff`); a place that no path names is left
  alone (`FileTree.node?_writeAll`), and one that is written holds its last text
  (`FileTree.readText_writeAll`).
* `Asm.perform_run` reduces the command to such a sequence.
* `Asm.lines_warnings`: the warnings are lines, since no name of a label holds a line break.
-/

namespace CrossAssembler

open Fallible

/-! ## Writes in a row -/

namespace FileTree

variable {tree after : FileTree} {path text : String} {place : Place}
  {requests : List (String × String)}

/-- The files after texts were written to paths, one after the other, up to the first failure. -/
def writeAll (tree : FileTree) : List (String × String) → Except CommandError Unit × FileTree
  | [] => (.ok (), tree)
  | (path, text) :: rest =>
    match tree.writeText path text with
    | .ok after => after.writeAll rest
    | .error cause => (.error (.write path cause), tree)

theorem writeAll_of_ok (h : tree.writeText path text = .ok after) (rest : List (String × String)) :
    tree.writeAll ((path, text) :: rest) = after.writeAll rest := by
  simp only [writeAll, h]

theorem writeAll_of_error {cause : FileError} (h : tree.writeText path text = .error cause)
    (rest : List (String × String)) :
    tree.writeAll ((path, text) :: rest) = (.error (.write path cause), tree) := by
  simp only [writeAll, h]

theorem writeAll_append (tree : FileTree) (first second : List (String × String)) :
    tree.writeAll (first ++ second) =
      match tree.writeAll first with
      | (.ok (), after) => after.writeAll second
      | (.error e, after) => (.error e, after) := by
  induction first generalizing tree with
  | nil => rfl
  | cons request rest ih =>
    obtain ⟨path, text⟩ := request
    rw [List.cons_append]
    cases hwrite : tree.writeText path text with
    | error cause => rw [writeAll_of_error hwrite, writeAll_of_error hwrite]
    | ok after => rw [writeAll_of_ok hwrite, writeAll_of_ok hwrite, ih]

theorem SameDirectories.trans {first second third : FileTree} (h : SameDirectories first second)
    (h' : SameDirectories second third) : SameDirectories first third :=
  fun place => (h' place).trans (h place)

theorem sameDirectories_writeAll (tree : FileTree) (requests : List (String × String)) :
    SameDirectories tree (tree.writeAll requests).2 := by
  induction requests generalizing tree with
  | nil => exact fun place => Iff.rfl
  | cons request rest ih =>
    obtain ⟨path, text⟩ := request
    cases hwrite : tree.writeText path text with
    | error cause =>
      rw [writeAll_of_error hwrite]
      exact fun place => Iff.rfl
    | ok after =>
      rw [writeAll_of_ok hwrite]
      exact (sameDirectories_writeText hwrite).trans (ih after)

/-- Writes succeed if and only if each of them could be made alone. -/
theorem writeAll_eq_ok_iff : (tree.writeAll requests).1 = .ok () ↔
    ∀ request ∈ requests, ∃ place, tree.locateNew request.1 = .ok place := by
  induction requests generalizing tree with
  | nil => simp [writeAll]
  | cons request rest ih =>
    obtain ⟨path, text⟩ := request
    rw [List.forall_mem_cons]
    cases hwrite : tree.writeText path text with
    | error cause =>
      rw [writeAll_of_error hwrite]
      refine ⟨nofun, ?_⟩
      rintro ⟨⟨place, hplace⟩, -⟩
      cases hwrite.symm.trans (writeText_eq_ok_iff.2 ⟨place, hplace, rfl⟩)
    | ok after =>
      obtain ⟨place, hplace, -⟩ := writeText_eq_ok_iff.1 hwrite
      rw [writeAll_of_ok hwrite, ih, and_iff_right ⟨place, hplace⟩]
      simp only [(sameDirectories_writeText hwrite).locateNew_eq_ok_iff]

/-- Writes that fail do so at one of their paths. -/
theorem exists_of_writeAll_eq_error {e : CommandError} (h : (tree.writeAll requests).1 = .error e) :
    ∃ request ∈ requests, ∃ cause, e = .write request.1 cause := by
  induction requests generalizing tree with
  | nil => cases h
  | cons request rest ih =>
    obtain ⟨path, text⟩ := request
    cases hwrite : tree.writeText path text with
    | error cause =>
      rw [writeAll_of_error hwrite] at h
      cases h
      exact ⟨_, List.mem_cons_self, cause, rfl⟩
    | ok after =>
      rw [writeAll_of_ok hwrite] at h
      obtain ⟨request, hrequest, hcause⟩ := ih h
      exact ⟨request, List.mem_cons_of_mem _ hrequest, hcause⟩

/-- A place that no path names is left alone. -/
theorem node?_writeAll (h : ∀ request ∈ requests, tree.locateNew request.1 ≠ .ok place) :
    (tree.writeAll requests).2.node? place = tree.node? place := by
  induction requests generalizing tree with
  | nil => rfl
  | cons request rest ih =>
    obtain ⟨path, text⟩ := request
    rw [List.forall_mem_cons] at h
    cases hwrite : tree.writeText path text with
    | error cause => rw [writeAll_of_error hwrite]
    | ok after =>
      obtain ⟨written, hwritten, -⟩ := writeText_eq_ok_iff.1 hwrite
      have hne : place ≠ written := by
        rintro rfl
        exact h.1 hwritten
      rw [writeAll_of_ok hwrite, ih, node?_writeText hwrite hwritten, if_neg hne]
      intro request hrequest
      rw [Ne, (sameDirectories_writeText hwrite).locateNew_eq_ok_iff]
      exact h.2 request hrequest

/-- After writes that succeed, a file holds the last text that was written to it. -/
theorem readText_writeAll {front back : List (String × String)}
    (h : (tree.writeAll (front ++ (path, text) :: back)).1 = .ok ())
    (hback : ∀ request ∈ back, tree.locateNew request.1 ≠ tree.locateNew path) :
    (tree.writeAll (front ++ (path, text) :: back)).2.readText path = .ok text := by
  induction front generalizing tree with
  | nil =>
    rw [List.nil_append] at h ⊢
    cases hwrite : tree.writeText path text with
    | error cause =>
      rw [writeAll_of_error hwrite] at h
      cases h
    | ok after =>
      obtain ⟨place, hplace, -⟩ := writeText_eq_ok_iff.1 hwrite
      have hsame := sameDirectories_writeText hwrite
      have hkept : ∀ request ∈ back, after.locateNew request.1 ≠ .ok place := by
        intro request hrequest hafter
        exact hback request hrequest ((hsame.locateNew_eq_ok_iff.1 hafter).trans hplace.symm)
      rw [writeAll_of_ok hwrite]
      apply readText_of_node?
      · exact (hsame.trans (sameDirectories_writeAll after back)).locate_eq_ok_iff.2
          (locate_of_locateNew hplace)
      · rw [node?_writeAll hkept, node?_writeText hwrite hplace, if_pos rfl]
  | cons request front ih =>
    obtain ⟨first, content⟩ := request
    rw [List.cons_append] at h ⊢
    cases hwrite : tree.writeText first content with
    | error cause =>
      rw [writeAll_of_error hwrite] at h
      cases h
    | ok after =>
      rw [writeAll_of_ok hwrite] at h ⊢
      have hsame := sameDirectories_writeText hwrite
      -- the file to be read can be written here too, so that other paths can be compared with it
      obtain ⟨place, hplace⟩ := writeAll_eq_ok_iff.1 h (path, text) (by simp)
      refine ih h fun request hrequest heq => hback request hrequest ?_
      rw [hplace] at heq
      rw [hsame.locateNew_eq_ok_iff.1 heq, hsame.locateNew_eq_ok_iff.1 hplace]

end FileTree

/-! ## The command as a sequence of writes -/

/-- A write, seen as a sequence of one. -/
theorem Desk.perform_writeText (desk : Desk) (path text : String) :
    desk.perform (Effect.writeText path text) =
      ((desk.files.writeAll [(path, text)]).1,
        ⟨(desk.files.writeAll [(path, text)]).2, desk.printed⟩) := by
  cases hwrite : desk.files.writeText path text with
  | error cause => rw [perform_writeText_of_error hwrite, FileTree.writeAll_of_error hwrite]
  | ok after =>
    rw [perform_writeText_of_ok hwrite, FileTree.writeAll_of_ok hwrite]
    rfl

namespace Asm

/-- The write of the listing, if it is asked for. -/
def listingRequest (options : AsmOptions) (page : String) : List (String × String) :=
  if options.html then [(options.input ++ ".html", page)] else []

/-- The write of the upload, if it is asked for. -/
def uploadRequest (options : AsmOptions) (upload : String) : List (String × String) :=
  (options.output.map fun path => (path, upload)).toList

/-- The text that shows the codes, if no write is asked for. -/
def shown (options : AsmOptions) (codes : String) : String :=
  if options.html = false ∧ options.output = none then "Resulting operating codes:\n" ++ codes
  else ""

theorem perform_writeListing (desk : Desk) (options : AsmOptions) (layout : Layout) :
    desk.perform (writeListing options layout) =
      let written := desk.files.writeAll
        (listingRequest options (Listing.page options.input layout.statements))
      (written.1, ⟨written.2, desk.printed⟩) := by
  have hpath : listingPath options.input = options.input ++ ".html" := String.append_assoc
  unfold writeListing listingRequest
  split_ifs
  · rw [Desk.perform_writeText, hpath]
  · rfl

theorem perform_deliver (desk : Desk) (options : AsmOptions) (layout : Layout) :
    desk.perform (deliver options layout) =
      let written := desk.files.writeAll
        (uploadRequest options (Upload.text layout.statements (!options.noEot)))
      (written.1,
        ⟨written.2, desk.printed ++ shown options (Upload.text layout.statements false)⟩) := by
  unfold deliver uploadRequest shown
  cases options.output with
  | some path => simp [Desk.perform_writeText]
  | none =>
    cases options.html
    · rfl
    · simp [FileTree.writeAll]

theorem perform_load {desk : Desk} {path content : String}
    (hread : desk.files.readText path = .ok content) {statements : List Statement}
    (hstatements : (Assembly.read content).result = .ok statements) :
    desk.perform (load path) = (.ok (Program.ofStatements statements), desk) := by
  simp [load, hread, parse, hstatements, Except.mapError, Except.map]

/-- The command on a file that can be assembled: it prints the warnings, makes the writes, and shows
the codes if there are none. -/
theorem perform_run {desk : Desk} {options : AsmOptions} {content : String}
    (hread : desk.files.readText options.input = .ok content) {statements : List Statement}
    (hstatements : (Assembly.read content).result = .ok statements) {layout : Layout}
    (hlayout : layOut statements = .ok layout) :
    desk.perform (run options) =
      let written := desk.files.writeAll
        (listingRequest options (Listing.page options.input layout.statements) ++
          uploadRequest options (Upload.text layout.statements (!options.noEot)))
      (written.1.map fun _ => true, ⟨written.2, desk.printed ++
        (String.join (layout.diagnostics.map warning) ++
          shown options (Upload.text layout.statements false))⟩) := by
  have hload := perform_load hread hstatements
  have hlaid : (Program.ofStatements statements).layout.1 = .ok layout :=
    (Program.coherent_ofStatements statements).layout_eq.trans hlayout
  unfold run
  simp only [Desk.perform_bind, hload, hlaid, Except.mapError, Desk.perform_ofExcept,
    Desk.perform_print, perform_writeListing, perform_deliver, FileTree.writeAll_append]
  rcases hlisting : desk.files.writeAll
    (listingRequest options (Listing.page options.input layout.statements)) with ⟨_ | _, files⟩
  · -- the write that fails was asked for, so that no codes are shown
    have hhtml : options.html = true := by
      by_contra hhtml
      simp [listingRequest, hhtml, FileTree.writeAll] at hlisting
    simp [shown, hhtml, Except.map]
  · rcases hupload : files.writeAll
      (uploadRequest options (Upload.text layout.statements (!options.noEot))) with ⟨_ | _, after⟩
    · simp [hupload, Except.map, String.append_assoc]
    · simp [hupload, Except.map, String.append_assoc]

/-- A file that cannot be read is refused. -/
theorem perform_run_of_unreadable {desk : Desk} {options : AsmOptions} {cause : FileError}
    (hread : desk.files.readText options.input = .error cause) :
    desk.perform (run options) = (.error (.read options.input cause), desk) := by
  simp [run, load, hread, Except.mapError]

/-- A file that cannot be assembled is refused. -/
theorem perform_run_of_refused {desk : Desk} {options : AsmOptions} {content : String}
    (hread : desk.files.readText options.input = .ok content) {eot : Bool} {cause : AssemblyError}
    (h : assemble content eot = .error cause) :
    ∃ e, desk.perform (run options) = (.error e, desk) := by
  rw [assemble_eq_bind] at h
  rcases bind_eq_error.1 h with hparse | ⟨statements, hstatements, hlayout⟩
  · have hload : desk.perform (load options.input) =
        (.error (.parse options.input cause), desk) := by
      simp [load, hread, parse, hparse, Except.mapError, Except.map]
    exact ⟨.parse options.input cause, by simp only [run, Desk.perform_bind, hload]⟩
  · obtain ⟨e, hlayout, -⟩ := mapError_eq_error.1 (map_eq_error.1 hlayout)
    have hload := perform_load hread hstatements
    have hlaid : (Program.ofStatements statements).layout.1 = .error e :=
      (Program.coherent_ofStatements statements).layout_eq.trans hlayout
    exact ⟨.layout e, by simp only [run, Desk.perform_bind, hload, hlaid, Except.mapError,
      Desk.perform_ofExcept]⟩

/-! ## Warnings -/

theorem written_of_read {content : String} {statements : List Statement}
    (h : (Assembly.read content).result = .ok statements) : Written statements :=
  fun statement hs => ⟨_, Assembly.ofTokens_of_read h statement hs⟩

/-- The name of a label in a source text is one of its tokens. -/
theorem isToken_of_mem_labelNames {content : String} {statements : List Statement}
    (h : (Assembly.read content).result = .ok statements) {name : String}
    (hname : name ∈ Layout.labelNames statements) : Token.IsToken name := by
  obtain ⟨tokens, instruction, hparse, hs, hmem⟩ := (written_of_read h).exists_name? (.inl hname)
  exact (Assembly.legible_of_read h _ hs).isToken name
    (Instruction.mem_tokens_of_name? hparse hmem)

/-- The line that warns of a finding. -/
def warningLine (diagnostic : Diagnostic) : String :=
  Paint.yellow "WARNING" ++ ": " ++ diagnostic.message

/-- The warnings about a source text are lines, one for each finding. -/
theorem lines_warnings {content : String} {statements : List Statement}
    (h : (Assembly.read content).result = .ok statements) {layout : Layout}
    (hlayout : layOut statements = .ok layout) :
    Text.lines (String.join (layout.diagnostics.map warning)) =
      layout.diagnostics.map warningLine := by
  have hlines : layout.diagnostics.map warning =
      (layout.diagnostics.map warningLine).map Upload.endLine := by
    rw [List.map_map]
    rfl
  rw [hlines, Text.lines_join_endLine]
  intro line hline
  obtain ⟨diagnostic, hdiagnostic, rfl⟩ := List.mem_map.1 hline
  rw [(written_of_read h).diagnostics_eq hlayout] at hdiagnostic
  obtain ⟨name, hname, rfl⟩ := List.mem_map.1 hdiagnostic
  have hunbroken := (isToken_of_mem_labelNames h (List.mem_of_mem_filter hname)).unbroken
  have hfront : Text.Unbroken (Paint.yellow "WARNING" ++ ": ") := by decide
  have hmessage : (Diagnostic.unusedLabel name).message = "Label " ++ name ++ " is never used" :=
    rfl
  rw [warningLine, hmessage]
  exact hfront.append (((by decide : Text.Unbroken "Label ").append hunbroken).append (by decide))

/-! ## All effects together -/

/-- A path that the options ask to be written. -/
def Wanted (options : AsmOptions) (path : String) : Prop :=
  options.html = true ∧ path = options.input ++ ".html" ∨ options.output = some path

/-- The requests are for the paths that are wanted. -/
theorem forall_requests_iff {options : AsmOptions} {page upload : String} {P : String → Prop} :
    (∀ request ∈ listingRequest options page ++ uploadRequest options upload, P request.1) ↔
      ∀ path, Wanted options path → P path := by
  unfold listingRequest uploadRequest Wanted
  cases options.html <;> cases options.output <;> simp [or_imp, forall_and]

/-- What the command does on a desk with a file that assembles to laid-out statements, findings, an
upload and codes: it gives a result and leaves another desk. -/
structure HasEffects (options : AsmOptions) (desk : Desk) (laid : List Statement)
    (diagnostics : List Diagnostic) (upload codes : String) (result : Except CommandError Bool)
    (after : Desk) : Prop where
  /-- The findings come first, and the codes only if no write is wanted. -/
  printed : after.printed = desk.printed ++ (String.join (diagnostics.map warning) ++
    if options.html = false ∧ options.output = none then "Resulting operating codes:\n" ++ codes
    else "")
  warned : Text.lines (String.join (diagnostics.map warning)) = diagnostics.map warningLine
  /-- The command succeeds if and only if all that is wanted can be written. -/
  succeeds : result = .ok true ↔
    ∀ path, Wanted options path → ∃ place, desk.files.locateNew path = .ok place
  fails : result ≠ .ok true →
    ∃ path cause, Wanted options path ∧ result = .error (.write path cause)
  /-- The listing stands in its file, unless the upload was written over it. -/
  listing : result = .ok true → options.html = true →
    (∀ out, options.output = some out →
      desk.files.locateNew out ≠ desk.files.locateNew (options.input ++ ".html")) →
    after.files.readText (options.input ++ ".html") = .ok (Listing.page options.input laid)
  upload : result = .ok true → ∀ out, options.output = some out →
    after.files.readText out = .ok upload
  /-- What no wanted path names is as it was, also if a write fails. -/
  others : ∀ place, (∀ path, Wanted options path → desk.files.locateNew path ≠ .ok place) →
    after.files.node? place = desk.files.node? place
  /-- Nothing is written after a listing that cannot be. -/
  unlisted : options.html = true → ∀ cause, desk.files.writeText (options.input ++ ".html")
    (Listing.page options.input laid) = .error cause →
      result = .error (.write (options.input ++ ".html") cause) ∧ after.files = desk.files

theorem map_true_eq_ok_iff {result : Except CommandError Unit} :
    (result.map fun _ => true) = .ok true ↔ result = .ok () := by
  cases result <;> simp [Except.map]

/-- The effects of the command are those of its writes. -/
theorem hasEffects_perform_run {desk : Desk} {options : AsmOptions} {content : String}
    (hread : desk.files.readText options.input = .ok content) {statements : List Statement}
    (hstatements : (Assembly.read content).result = .ok statements) {layout : Layout}
    (hlayout : layOut statements = .ok layout) :
    HasEffects options desk layout.statements layout.diagnostics
      (Upload.text layout.statements (!options.noEot)) (Upload.text layout.statements false)
      (desk.perform (run options)).1 (desk.perform (run options)).2 := by
  rw [perform_run hread hstatements hlayout]
  have hlisting : options.html = true →
      listingRequest options (Listing.page options.input layout.statements) =
        [(options.input ++ ".html", Listing.page options.input layout.statements)] :=
    fun hhtml => if_pos hhtml
  refine ⟨rfl, lines_warnings hstatements hlayout, ?_, ?_, ?_, ?_, ?_, ?_⟩
  · exact map_true_eq_ok_iff.trans (FileTree.writeAll_eq_ok_iff.trans
      (forall_requests_iff (P := fun path => ∃ place, desk.files.locateNew path = .ok place)))
  · intro hfails
    rw [Ne, map_true_eq_ok_iff] at hfails
    dsimp only
    cases hresult : (desk.files.writeAll _).1 with
    | ok _ => exact absurd hresult hfails
    | error e =>
      obtain ⟨request, hrequest, cause, rfl⟩ := FileTree.exists_of_writeAll_eq_error hresult
      have hwanted := forall_requests_iff.2 (fun path hpath => hpath) request hrequest
      exact ⟨request.1, cause, hwanted, rfl⟩
  · intro hok hhtml hout
    rw [map_true_eq_ok_iff, hlisting hhtml] at hok
    rw [hlisting hhtml]
    refine @FileTree.readText_writeAll desk.files _ _ [] _ hok fun request hrequest => ?_
    obtain ⟨out, hsome, rfl⟩ : ∃ out, options.output = some out ∧ _ = request := by
      simpa [uploadRequest] using hrequest
    exact hout out hsome
  · intro hok out hout
    have hupload : uploadRequest options (Upload.text layout.statements (!options.noEot)) =
        [(out, Upload.text layout.statements (!options.noEot))] := by
      rw [uploadRequest, hout]
      rfl
    rw [map_true_eq_ok_iff, hupload] at hok
    rw [hupload]
    exact FileTree.readText_writeAll hok nofun
  · intro place hplace
    exact FileTree.node?_writeAll (forall_requests_iff.2 hplace)
  · intro hhtml cause hcause
    rw [hlisting hhtml, List.cons_append, FileTree.writeAll_of_error hcause]
    exact ⟨rfl, rfl⟩

end Asm

/-- **The effects of assembling a file.** If the file cannot be read, or what it holds cannot be
assembled, the command fails and the desk is as it was. Otherwise the text has laid-out statements,
findings, an upload and codes, and the command prints a line for each finding, writes the listing
and the upload where they are wanted, and shows the codes if neither is; nothing else changes, and
an upload is not written after a listing that cannot be. -/
theorem asm_has_documented_effects (options : AsmOptions) (desk : Desk) :
    (∀ cause, desk.files.readText options.input = .error cause →
      ∃ e, desk.perform (Asm.run options) = (.error e, desk)) ∧
    ∀ content, desk.files.readText options.input = .ok content →
      (∀ cause, assemble content (!options.noEot) = .error cause →
        ∃ e, desk.perform (Asm.run options) = (.error e, desk)) ∧
      ∀ upload, assemble content (!options.noEot) = .ok upload →
        ∃ program laid diagnostics codes, parse content = .ok program ∧
          program.statements.1 = .ok laid ∧ program.diagnostics.1 = .ok diagnostics ∧
          assemble content false = .ok codes ∧
          Asm.HasEffects options desk laid diagnostics upload codes
            (desk.perform (Asm.run options)).1 (desk.perform (Asm.run options)).2 := by
  refine ⟨fun cause hread => ⟨_, Asm.perform_run_of_unreadable hread⟩, fun content hread =>
    ⟨fun cause => Asm.perform_run_of_refused hread, fun upload hupload => ?_⟩⟩
  rw [assemble_eq_bind, bind_eq_ok] at hupload
  obtain ⟨statements, hstatements, hupload⟩ := hupload
  obtain ⟨layout, hlayout, rfl⟩ := map_eq_ok.1 hupload
  rw [mapError_eq_ok] at hlayout
  refine ⟨Program.ofStatements statements, layout.statements, layout.diagnostics,
    Upload.text layout.statements false, ?_,
    Program.statements_ofStatements_eq_ok_iff.2 ⟨layout, hlayout, rfl⟩, ?_, ?_, ?_⟩
  · rw [parse, hstatements]
    rfl
  · rw [Program.diagnostics, Program.ask_ofStatements, hlayout]
    rfl
  · rw [assemble_eq_bind, hstatements]
    show _ <$> (layOut statements).mapError _ = _
    rw [hlayout, Upload.text_eq_octalText]
    rfl
  · rw [← Upload.text_eq_octalText]
    exact Asm.hasEffects_perform_run hread hstatements hlayout

/-- A desk with a source file whose label is not used, and a directory in the way of its listing. -/
def blockedListing : Desk where
  files := ⟨[(["a.kbs"], .ofText "LABEL x\nHALT\n"), (["a.kbs.html"], .directory)]⟩
  printed := "$ "

theorem asm_has_documented_effects_blockedListing :
    (blockedListing.perform (Asm.run ⟨"a.kbs", some "a.up", true, false⟩)).2 =
      ⟨blockedListing.files, "$ \x1b[1;33mWARNING\x1b[0m: Label x is never used\n"⟩ ∧
    (blockedListing.perform (Asm.run ⟨"a.kbs", some "a.up", false, true⟩)).2.files.readText "a.up" =
      .ok "0000\n0000\n0000\n0004\n0000\n" := by
  have hread : blockedListing.files.readText "a.kbs" = .ok "LABEL x\nHALT\n" :=
    FileTree.readText_of_node? rfl rfl
  have hfound : (parse "LABEL x\nHALT\n" >>= fun program =>
      program.diagnostics.1.mapError .layout) = .ok [.unusedLabel "x"] := rfl
  constructor
  · obtain ⟨program, laid, diagnostics, codes, hparse, -, hdiagnostics, -, heffects⟩ :=
      ((asm_has_documented_effects ⟨"a.kbs", some "a.up", true, false⟩ blockedListing).2 _ hread).2
        "0000\n0000\n0000\n0004\n0000\ns\n" rfl
    rw [hparse] at hfound
    obtain rfl := Except.ok.inj (hdiagnostics.symm.trans (mapError_eq_ok.1 hfound))
    exact congrArg₂ Desk.mk (heffects.unlisted rfl .isDirectory rfl).2 (heffects.printed.trans rfl)
  · obtain ⟨_, _, _, _, -, -, -, -, heffects⟩ :=
      ((asm_has_documented_effects ⟨"a.kbs", some "a.up", false, true⟩ blockedListing).2 _ hread).2
        "0000\n0000\n0000\n0004\n0000\n" rfl
    refine heffects.upload (heffects.succeeds.2 ?_) "a.up" rfl
    rintro path (⟨hhtml, -⟩ | hpath)
    · cases hhtml
    · cases hpath
      exact ⟨_, rfl⟩

end CrossAssembler
