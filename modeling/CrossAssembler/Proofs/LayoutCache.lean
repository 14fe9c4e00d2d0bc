import CrossAssembler.Session
import Mathlib.Logic.Function.Basic

/-!
# What is known of a layout cannot be seen

A program may know its layout, and a query may make it known. `Sources` are sessions in which
nothing is known: a slot holds the statements that were added to it, and each query lays them out
anew. A session answers every step as its sources do, whatever was done before, whatever failed and
wherever the statements come from (`session_answers_as_sources`).

* `Program.Coherent`: a layout that is known is the one that the statements have now. A query keeps
  this, whatever it learns (`Program.query_cases`), and so does every step
  (`Session.Represents.step`).
* `Session.exists_step_eq_put`: a step puts a program into one slot (`Step.written`), and the one
  that is there if it fails. All other slots are left alone.
-/

namespace CrossAssembler

/-! ## Sources -/

/-- The statements that were added to the program of each slot. -/
structure Sources where
  source : String → List Statement

namespace Sources

/-- The sources when nothing has happened. -/
def start : Sources := ⟨fun _ => []⟩

/-- Puts statements into a slot. -/
def put (sources : Sources) (slot : String) (source : List Statement) : Sources :=
  ⟨Function.update sources.source slot source⟩

theorem source_put (sources : Sources) (slot name : String) (source : List Statement) :
    (sources.put slot source).source name = if name = slot then source else sources.source name :=
  Function.update_apply ..

/-- An answer from a layout, or why there is none. -/
def respond (shape : Layout → Answer) : Except LayoutError Layout → Answer
  | .ok layout => shape layout
  | .error cause => .layoutError cause

/-- Answers a question about statements, which are laid out for it. -/
def answer (source : List Statement) : Query → Answer
  | .length => .size source.length source.isEmpty
  | .statements => respond (fun layout => .statements layout.statements) (layOut source)
  | .diagnostics => respond (fun layout => .diagnostics layout.diagnostics) (layOut source)
  | .image => respond (fun layout => .image (image layout.statements)) (layOut source)
  | .upload eot =>
    respond (fun layout => .upload (Upload.text layout.statements eot)) (layOut source)
  | .listing name =>
    respond (fun layout => .listing (Listing.page name layout.statements)) (layOut source)

/-- Adds a statement to those of a slot. -/
def append (sources : Sources) (slot : String) (statement : Statement) (times : Nat) :
    Answer × Sources :=
  let source := sources.source slot ++ List.replicate times statement
  (.length source.length, sources.put slot source)

/-- Does one step on a slot. -/
def step (sources : Sources) (slot : String) : Step → Answer × Sources
  | .add _ 0 => (.length (sources.source slot).length, sources)
  | .add tokens (times + 1) =>
    match Statement.ofTokens tokens with
    | .error cause => (.parseError cause, sources)
    | .ok statement => sources.append slot statement (times + 1)
  | .append statement times => sources.append slot statement times
  | .read text =>
    match (Assembly.read text).result with
    | .error cause => (.assemblyError cause, sources)
    | .ok source => (.length source.length, sources.put slot source)
  | .copy target => (.length (sources.source slot).length, sources.put target (sources.source slot))
  | .ask query => (answer (sources.source slot) query, sources)

/-- The sources after some steps. -/
def after (sources : Sources) (steps : List (String × Step)) : Sources :=
  steps.foldl (fun sources (slot, step) => (sources.step slot step).2) sources

/-- Does steps one after the other and collects their answers. -/
def run : Sources → List (String × Step) → List Answer
  | _, [] => []
  | sources, (slot, step) :: steps =>
    (sources.step slot step).1 :: run (sources.step slot step).2 steps

end Sources

/-- The session after some steps. -/
def Session.after (session : Session) (steps : List (String × Step)) : Session :=
  steps.foldl (fun session (slot, step) => (session.step slot step).2) session

/-- The slot that a step on a slot may change. -/
def Step.written (slot : String) : Step → String
  | .copy target => target
  | _ => slot

/-- Whether a step has failed. -/
def Answer.isError : Answer → Bool
  | .parseError _ | .layoutError _ | .assemblyError _ => true
  | _ => false

/-! ## Programs that may know their layout -/

namespace Program

/-- If the layout is known, it is that of the statements. -/
def Coherent (program : Program) : Prop :=
  ∀ layout, program.known = some layout → layOut program.source = .ok layout

theorem coherent_ofStatements (source : List Statement) : (ofStatements source).Coherent := nofun

/-- What asking for the layout does: it is known, or becomes known, or cannot be had. -/
theorem layout_cases (program : Program) :
    (∃ layout, program.known = some layout ∧ program.layout = (.ok layout, program)) ∨
    (∃ layout, layOut program.source = .ok layout ∧
      program.layout = (.ok layout, { program with known := some layout })) ∨
    (∃ e, layOut program.source = .error e ∧ program.layout = (.error e, program)) := by
  unfold layout
  cases hknown : program.known with
  | some layout => exact .inl ⟨layout, rfl, rfl⟩
  | none =>
    cases hlayout : layOut program.source with
    | ok layout => exact .inr (.inl ⟨layout, rfl, rfl⟩)
    | error e => exact .inr (.inr ⟨e, rfl, rfl⟩)

theorem source_layout (program : Program) : program.layout.2.source = program.source := by
  obtain ⟨_, -, h⟩ | ⟨_, -, h⟩ | ⟨_, -, h⟩ := program.layout_cases <;> rw [h]

/-- A layout that fails teaches the program nothing. -/
theorem layout_of_error {program : Program} {e : LayoutError} (h : program.layout.1 = .error e) :
    program.layout.2 = program := by
  obtain ⟨_, -, heq⟩ | ⟨_, -, heq⟩ | ⟨_, -, heq⟩ := program.layout_cases
  · rw [heq]
  · rw [heq] at h
    cases h
  · rw [heq]

/-- A coherent program has the layout of its statements, whether it knows it or not. -/
theorem Coherent.layout_eq {program : Program} (h : program.Coherent) :
    program.layout.1 = layOut program.source := by
  obtain ⟨layout, hknown, heq⟩ | ⟨_, hlayout, heq⟩ | ⟨_, hlayout, heq⟩ := program.layout_cases
  · rw [heq, h layout hknown]
  · rw [heq, hlayout]
  · rw [heq, hlayout]

theorem Coherent.layout {program : Program} (h : program.Coherent) :
    program.layout.2.Coherent := by
  obtain ⟨_, -, heq⟩ | ⟨layout, hlayout, heq⟩ | ⟨_, -, heq⟩ := program.layout_cases
  · rwa [heq]
  · rw [heq]
    rintro _ ⟨⟩
    exact hlayout
  · rwa [heq]

theorem answer_ask {α : Type} (program : Program) (shape : α → Answer) (f : Layout → α) :
    Program.answer shape (program.ask f) =
      (Sources.respond (fun layout => shape (f layout)) program.layout.1, program.layout.2) := by
  unfold ask
  cases program.layout with
  | mk result next => cases result <;> rfl

/-- What a query does: it asks for the number of statements, or for the layout. -/
theorem query_cases (program : Program) (query : Query) :
    (program.query query = (.size program.length program.isEmpty, program) ∧
      ∀ source, Sources.answer source query = .size source.length source.isEmpty) ∨
    ∃ shape : Layout → Answer, (∀ layout, (shape layout).isError = false) ∧
      program.query query = (Sources.respond shape program.layout.1, program.layout.2) ∧
      ∀ source, Sources.answer source query = Sources.respond shape (layOut source) := by
  cases query with
  | length => exact .inl ⟨rfl, fun _ => rfl⟩
  | statements => exact .inr ⟨_, fun _ => rfl, program.answer_ask .statements _, fun _ => rfl⟩
  | diagnostics => exact .inr ⟨_, fun _ => rfl, program.answer_ask .diagnostics _, fun _ => rfl⟩
  | image => exact .inr ⟨_, fun _ => rfl, program.answer_ask .image _, fun _ => rfl⟩
  | upload eot => exact .inr ⟨_, fun _ => rfl, program.answer_ask .upload _, fun _ => rfl⟩
  | listing name => exact .inr ⟨_, fun _ => rfl, program.answer_ask .listing _, fun _ => rfl⟩

section

variable (program : Program) (question : Query)

theorem source_query : (program.query question).2.source = program.source := by
  obtain ⟨h, -⟩ | ⟨_, -, h, -⟩ := program.query_cases question
  · rw [h]
  · rw [h]
    exact program.source_layout

variable {program}

/-- A coherent program answers as its statements do. -/
theorem Coherent.query_eq (h : program.Coherent) :
    (program.query question).1 = Sources.answer program.source question := by
  obtain ⟨heq, hanswer⟩ | ⟨_, -, heq, hanswer⟩ := program.query_cases question
  · rw [heq, hanswer]
    rfl
  · rw [heq, hanswer, h.layout_eq]

theorem Coherent.query (h : program.Coherent) : (program.query question).2.Coherent := by
  obtain ⟨heq, -⟩ | ⟨_, -, heq, -⟩ := program.query_cases question
  · rwa [heq]
  · rw [heq]
    exact h.layout

/-- A query that fails leaves the program as it was. -/
theorem query_of_isError (h : (program.query question).1.isError = true) :
    (program.query question).2 = program := by
  obtain ⟨heq, -⟩ | ⟨shape, hshape, heq, -⟩ := program.query_cases question
  · rw [heq]
  · rw [heq] at h ⊢
    cases hlayout : program.layout.1 with
    | ok layout =>
      rw [hlayout] at h
      exact absurd ((hshape layout).symm.trans h) Bool.false_ne_true
    | error e => exact layout_of_error hlayout

end

theorem source_addTimes (program : Program) (statement : Statement) (times : Nat) :
    (program.addTimes statement times).source =
      program.source ++ List.replicate times statement := by
  induction times generalizing program with
  | zero => exact (List.append_nil _).symm
  | succ times ih =>
    rw [addTimes, ih, add, List.append_assoc, List.replicate_succ]
    rfl

/-- A statement that is added makes the layout unknown. -/
theorem Coherent.addTimes {program : Program} (h : program.Coherent) (statement : Statement)
    (times : Nat) : (program.addTimes statement times).Coherent := by
  induction times generalizing program with
  | zero => exact h
  | succ times ih => exact ih nofun

end Program

/-! ## Steps -/

namespace Session

theorem program_put (session : Session) (slot name : String) (program : Program) :
    (session.put slot program).program name =
      if name = slot then program else session.program name :=
  rfl

theorem put_program (session : Session) (slot : String) :
    session.put slot (session.program slot) = session := by
  have hprogram : (session.put slot (session.program slot)).program = session.program := by
    funext name
    rw [program_put]
    split
    · rename_i hname
      rw [hname]
    · rfl
  exact congrArg Session.mk hprogram

/-- The session holds, in each slot, a coherent program with the statements of the sources. -/
structure Represents (session : Session) (sources : Sources) : Prop where
  source : ∀ slot, (session.program slot).source = sources.source slot
  coherent : ∀ slot, (session.program slot).Coherent

theorem represents_start : Represents start .start := ⟨fun _ => rfl, fun _ => nofun⟩

section

variable {session : Session} {sources : Sources} (h : session.Represents sources)

include h

theorem Represents.put (slot : String) {program : Program} (hprogram : program.Coherent)
    {source : List Statement} (hsource : program.source = source) :
    (session.put slot program).Represents (sources.put slot source) := by
  refine ⟨fun name => ?_, fun name => ?_⟩
  · rw [program_put, Sources.source_put]
    split
    · exact hsource
    · exact h.source name
  · rw [program_put]
    split
    · exact hprogram
    · exact h.coherent name

theorem Represents.append (slot : String) (statement : Statement) (times : Nat) :
    (session.append slot statement times).1 = (sources.append slot statement times).1 ∧
      (session.append slot statement times).2.Represents
        (sources.append slot statement times).2 := by
  have hsource : ((session.program slot).addTimes statement times).source =
      sources.source slot ++ List.replicate times statement := by
    rw [Program.source_addTimes, h.source]
  refine ⟨?_, h.put slot ((h.coherent slot).addTimes statement times) hsource⟩
  rw [Session.append, Program.length, hsource]
  rfl

/-- A query may teach the program its layout, which the sources do not show. -/
theorem Represents.put_query (slot : String) (question : Query) :
    (session.put slot ((session.program slot).query question).2).Represents sources := by
  have hput := h.put slot ((h.coherent slot).query question)
    (((session.program slot).source_query question).trans (h.source slot))
  have hsame : sources.put slot (sources.source slot) = sources :=
    congrArg Sources.mk (Function.update_eq_self slot sources.source)
  rwa [hsame] at hput

/-- A session that represents sources answers a step as they do, and represents them after it. -/
theorem Represents.step (slot : String) (step : Step) :
    (session.step slot step).1 = (sources.step slot step).1 ∧
      (session.step slot step).2.Represents (sources.step slot step).2 := by
  have hsource := h.source slot
  have hlength : Answer.length (session.program slot).length =
      .length (sources.source slot).length := by
    rw [Program.length, hsource]
  cases step with
  | add tokens times =>
    cases times with
    | zero => exact ⟨hlength, h⟩
    | succ times =>
      rw [Session.step, Sources.step]
      cases Statement.ofTokens tokens with
      | error cause => exact ⟨rfl, h⟩
      | ok statement => exact h.append slot statement (times + 1)
  | append statement times => exact h.append slot statement times
  | read text =>
    rw [Session.step, Sources.step, parse]
    cases (Assembly.read text).result with
    | error cause => exact ⟨rfl, h⟩
    | ok source => exact ⟨rfl, h.put slot (Program.coherent_ofStatements _) rfl⟩
  | copy target => exact ⟨hlength, h.put target (h.coherent slot) hsource⟩
  | ask question =>
    refine ⟨?_, h.put_query slot question⟩
    exact ((h.coherent slot).query_eq question).trans (by rw [hsource]; rfl)

theorem Represents.run (steps : List (String × Step)) :
    session.run steps = sources.run steps := by
  induction steps generalizing session sources with
  | nil => rfl
  | cons head steps ih =>
    obtain ⟨slot, step⟩ := head
    obtain ⟨hanswer, hnext⟩ := h.step slot step
    exact congrArg₂ List.cons hanswer (ih hnext)

theorem Represents.after (steps : List (String × Step)) :
    (session.after steps).Represents (sources.after steps) := by
  induction steps generalizing session sources with
  | nil => exact h
  | cons head steps ih => exact ih (h.step head.1 head.2).2

end

/-- What a step does to a session: it puts a program into the slot it writes, and the one that is
there if it fails. -/
theorem exists_step_eq_put (session : Session) (slot : String) (step : Step) :
    ∃ program, (session.step slot step).2 = session.put (step.written slot) program ∧
      ((session.step slot step).1.isError = true →
        program = session.program (step.written slot)) := by
  have hput := (session.put_program slot).symm
  cases step with
  | add tokens times =>
    cases times with
    | zero => exact ⟨_, hput, fun _ => rfl⟩
    | succ times =>
      rw [Session.step]
      cases Statement.ofTokens tokens with
      | error cause => exact ⟨_, hput, fun _ => rfl⟩
      | ok statement => exact ⟨_, rfl, nofun⟩
  | append statement times => exact ⟨_, rfl, nofun⟩
  | read text =>
    rw [Session.step]
    cases parse text with
    | error cause => exact ⟨_, hput, fun _ => rfl⟩
    | ok program => exact ⟨_, rfl, nofun⟩
  | copy target => exact ⟨_, rfl, nofun⟩
  | ask question => exact ⟨_, rfl, Program.query_of_isError question⟩

/-- A step that fails changes nothing. -/
theorem step_of_isError (session : Session) (slot : String) (step : Step)
    (h : (session.step slot step).1.isError = true) : (session.step slot step).2 = session := by
  obtain ⟨program, hstep, hprogram⟩ := session.exists_step_eq_put slot step
  rw [hstep, hprogram h, put_program]

/-- A step changes the program of no slot but the one it writes. -/
theorem program_step (session : Session) (slot : String) (step : Step) {other : String}
    (h : other ≠ step.written slot) :
    (session.step slot step).2.program other = session.program other := by
  obtain ⟨program, hstep, -⟩ := session.exists_step_eq_put slot step
  rw [hstep, program_put, if_neg h]

theorem program_after (session : Session) (steps : List (String × Step)) {other : String}
    (h : ∀ entry ∈ steps, other ≠ entry.2.written entry.1) :
    (session.after steps).program other = session.program other := by
  induction steps generalizing session with
  | nil => rfl
  | cons head steps ih =>
    have hhead := session.program_step head.1 head.2 (h head List.mem_cons_self)
    exact (ih _ fun entry hentry => h entry (List.mem_cons_of_mem _ hentry)).trans hhead

end Session

/-- **What is known of a layout cannot be seen.** In the session that any steps on any slots lead
to, failed steps among them:

* the steps were answered as the sources answer them, where every query lays out the statements
  added so far anew;
* each slot holds these statements, and a layout that is known is theirs;
* a query changes neither the statements of a slot nor their number;
* a step that fails leaves the session as it was;
* a step leaves every slot alone but the one it writes;
* a copy, with what is known of its layout, stays as it is until its slot is written. -/
theorem session_answers_as_sources (steps : List (String × Step)) {session : Session}
    (hsession : session = Session.start.after steps) :
    Session.start.run steps = Sources.start.run steps ∧
    (∀ slot, (session.program slot).source = (Sources.start.after steps).source slot ∧
      (session.program slot).Coherent) ∧
    (∀ slot question name asked, asked = (session.step slot (.ask question)).2.program name →
      asked.source = (session.program name).source ∧
        asked.length = (session.program name).length) ∧
    (∀ slot step, (session.step slot step).1.isError = true →
      (session.step slot step).2 = session) ∧
    (∀ slot step other, other ≠ step.written slot →
      (session.step slot step).2.program other = session.program other) ∧
    (∀ slot target later, (∀ entry ∈ later, target ≠ entry.2.written entry.1) →
      ((session.step slot (.copy target)).2.after later).program target =
        session.program slot) := by
  have hrepresents := Session.represents_start.after steps
  rw [← hsession] at hrepresents
  refine ⟨Session.represents_start.run steps,
    fun slot => ⟨hrepresents.source slot, hrepresents.coherent slot⟩, ?_,
    session.step_of_isError, fun slot step _ h => session.program_step slot step h, ?_⟩
  · rintro slot question name asked rfl
    have hsource := ((hrepresents.put_query slot question).source name).trans
      (hrepresents.source name).symm
    exact ⟨hsource, congrArg List.length hsource⟩
  · intro slot target later hlater
    rw [Session.program_after _ later hlater]
    exact if_pos rfl

/-- A jump that is asked about before its label is there and after. -/
def jumpThenLabel : List (String × Step) :=
  [("main", .add ["GOTO", "later"] 1), ("main", .ask .image),
    ("main", .add ["LABEL", "later"] 1), ("main", .ask .image)]

/-- A statement that was laid out before. -/
def placedNoop : Statement := ⟨["NOOP"], Layout.placeFragments 6 Instruction.noop.encode⟩

theorem session_answers_as_sources_jumpThenLabel : ∃ session,
    session = Session.start.after jumpThenLabel ∧
    (session.program "main").known.isSome = true ∧ (session.program "main").Coherent ∧
    (Session.start.run jumpThenLabel).map Answer.isError = [false, true, false, false] ∧
    Session.start.run jumpThenLabel = Sources.start.run jumpThenLabel ∧
    (session.step "main" (.read "nonsense")).1.isError = true ∧
    (session.step "main" (.read "nonsense")).2 = session ∧
    ((session.step "main" (.copy "spare")).2.after [("main", .add ["NOOP"] 1),
      ("main", .append placedNoop 2), ("main", .ask .image)]).program "spare" =
        session.program "main" := by
  obtain ⟨hrun, hslots, -, herror, -, hcopy⟩ := session_answers_as_sources jumpThenLabel rfl
  have hnonsense : ((Session.start.after jumpThenLabel).step "main" (.read "nonsense")).1.isError =
      true := by
    decide +kernel
  exact ⟨_, rfl, by decide +kernel, (hslots "main").2, by decide +kernel, hrun, hnonsense,
    herror _ _ hnonsense, hcopy "main" "spare" _ (by decide)⟩

end CrossAssembler
