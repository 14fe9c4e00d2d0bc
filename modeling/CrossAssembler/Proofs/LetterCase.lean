import CrossAssembler.Proofs.Renaming
import CrossAssembler.Proofs.SourceRoundTrip

/-!
# Capitals and small letters

Nothing in a source text tells a capital from its small letter but the names of labels, and these
say only which jump goes to which label. So a source text and its form in capitals are assembled to
the same upload, and so is its form in small letters, as long as different labels keep different
names (`assemble_ignores_letter_case`).

* `Recases` says of a function on characters that it changes the case of letters at most. What
  separates lines and words, opens a comment or stands in a numeral is the same afterwards
  (`Recases.apply_eq`), so the lines have the same tokens in their new form
  (`Recases.ofLine_map`).
* Tokens in their new form denote the same instruction but for its name (`Recases.denotes`).
* The layout reads the code of statements only, and not their tokens (`exists_layOut_congr`). So
  the rest is a change of names, which `layOut_rename` is about.
-/

namespace CrossAssembler

/-! ## Characters -/

/-- The function changes at most the case of letters, and of those in ASCII only. -/
def Recases (f : Char → Char) : Prop := ∀ c, (f c).toLower = c.toLower

theorem recases_toUpper : Recases Char.toUpper := Char.toLower_toUpper_eq_toLower

theorem recases_toLower : Recases Char.toLower := Char.toLower_toLower_eq_toLower

namespace Recases

variable {f : Char → Char} (hf : Recases f)

include hf

/-- What is the same for a capital and its small letter is the same for all forms of a character. -/
theorem apply_eq {α : Type} {g : Char → α}
    (hg : ∀ k < 26, g (Char.ofNat (97 + k)) = g (Char.ofNat (65 + k))) (c : Char) :
    g (f c) = g c := by
  rw [← Text.apply_toLower hg, hf c, Text.apply_toLower hg]

theorem isAlpha_eq (c : Char) : (f c).isAlpha = c.isAlpha := by
  rw [← Char.isAlpha_toLower_eq_isAlpha, hf c, Char.isAlpha_toLower_eq_isAlpha]

theorem eq_self {c : Char} (hc : c.isAlpha = false) : f c = c := by
  have hlower : ∀ {c : Char}, c.isAlpha = false → c.toLower = c := fun h =>
    Char.toLower_eq_of_not_isUpper (by simp_all [Char.isAlpha])
  rw [← hlower ((hf.isAlpha_eq c).trans hc), hf c, hlower hc]

/-- A character that is no letter stays, and no other becomes it. -/
theorem eq_iff {c d : Char} (hd : d.isAlpha = false) : f c = d ↔ c = d := by
  constructor
  · rintro rfl
    rw [hf.isAlpha_eq] at hd
    exact (hf.eq_self hd).symm
  · rintro rfl
    exact hf.eq_self hd

theorem beq_eq {d : Char} (hd : d.isAlpha = false) (c : Char) : (f c == d) = (c == d) := by
  rw [Bool.eq_iff_iff, beq_iff_eq, beq_iff_eq, hf.eq_iff hd]

theorem isBlank_eq (c : Char) : Text.isBlank (f c) = Text.isBlank c :=
  hf.apply_eq (by decide) c

theorem isForm_iff {c letter : Char} : Text.IsForm (f c) letter ↔ Text.IsForm c letter := by
  rw [← Text.toLower_eq_toLower_iff, hf c, Text.toLower_eq_toLower_iff]

theorem digit?_eq (radix : Nat) (c : Char) :
    Numeral.digit? radix (f c) = Numeral.digit? radix c := by
  apply hf.apply_eq
  intro k hk
  interval_cases k <;> rfl

/-- The mark of a hexadecimal numeral may be written in both cases. -/
theorem isHexMark_eq (c : Char) : (f c == 'x' || f c == 'X') = (c == 'x' || c == 'X') :=
  hf.apply_eq (g := fun c => c == 'x' || c == 'X') (by decide) c

end Recases

/-! ## Numerals -/

namespace Numeral

theorem value?_eq (token : String) : value? token =
    if token.toList.head? == some '-' then (magnitude? token.toList.tail).map fun n => -(n : Int)
    else if token.toList.head? == some '+' then
      (magnitude? token.toList.tail).map fun n => (n : Int)
    else (magnitude? token.toList).map fun n => (n : Int) := by
  unfold value?
  cases token.toList with
  | nil => rfl
  | cons c cs =>
    split
    · rename_i heq
      obtain ⟨rfl, rfl⟩ := List.cons.inj heq
      rfl
    · rename_i heq
      obtain ⟨rfl, rfl⟩ := List.cons.inj heq
      rfl
    · rename_i hminus hplus
      have hc : c ≠ '-' ∧ c ≠ '+' :=
        ⟨fun h => hminus cs (by rw [h]), fun h => hplus cs (by rw [h])⟩
      simp [hc]

end Numeral

namespace Recases

open Numeral

variable {f : Char → Char} (hf : Recases f)

include hf

theorem digits?_map (radix : Nat) (cs : List Char) :
    digits? radix (cs.map f) = digits? radix cs := by
  have hextend : ∀ value, extend? radix value (cs.map f) = extend? radix value cs := by
    induction cs with
    | nil => exact fun _ => rfl
    | cons c cs ih =>
      intro value
      simp only [List.map_cons, extend?, hf.digit?_eq, ih]
  rw [digits?, digits?, hextend, List.isEmpty_map]

theorem magnitude?_map (cs : List Char) : magnitude? (cs.map f) = magnitude? cs := by
  match cs with
  | [] => rfl
  | [c] =>
    have hone : ∀ c, magnitude? [c] = digits? 10 [c] := fun _ => by simp [magnitude?]
    rw [List.map_singleton, hone, hone, ← List.map_singleton, hf.digits?_map]
  | c :: d :: cs =>
    have hzero := hf.beq_eq (d := '0') rfl c
    rw [List.map_cons, List.map_cons, magnitude?_cons_cons, magnitude?_cons_cons, hzero,
      hf.isHexMark_eq, ← List.map_cons, ← List.map_cons, hf.digits?_map, hf.digits?_map,
      hf.digits?_map]

theorem head?_beq {d : Char} (hd : d.isAlpha = false) (cs : List Char) :
    ((cs.map f).head? == some d) = (cs.head? == some d) := by
  cases cs with
  | nil => rfl
  | cons c cs => exact hf.beq_eq hd c

theorem value?_map (token : String) : value? (token.map f) = value? token := by
  rw [value?_eq, value?_eq, String.toList_map, hf.head?_beq rfl, hf.head?_beq rfl,
    ← List.map_tail, hf.magnitude?_map, hf.magnitude?_map]

end Recases

/-! ## Lines and words -/

namespace Text

theorem split_map {p : Char → Bool} {f : Char → Char} (h : ∀ c, p (f c) = p c) (cs : List Char) :
    split p (cs.map f) = (split p cs).map (List.map f) := by
  induction cs with
  | nil => rfl
  | cons c cs ih =>
    rw [List.map_cons, split_cons, split_cons, h, ih]
    split
    · rfl
    · cases split p cs <;> rfl

theorem map_ofList_map (f : Char → Char) (pieces : List (List Char)) :
    (pieces.map (List.map f)).map String.ofList =
      (pieces.map String.ofList).map (String.map f) := by
  rw [List.map_map, List.map_map]
  congr 1
  funext piece
  simp [← String.toList_inj]

end Text

namespace Recases

open Text

variable {f : Char → Char} (hf : Recases f)

include hf

theorem words_map (cs : List Char) : words (cs.map f) = (words cs).map (List.map f) := by
  rw [words, split_map hf.isBlank_eq, List.filter_map, words]
  congr 2
  funext piece
  exact congrArg not List.isEmpty_map

theorem dropReturn_map (cs : List Char) : dropReturn (cs.map f) = (dropReturn cs).map f := by
  have hlast : (cs.map f).getLast? = some '\r' ↔ cs.getLast? = some '\r' := by
    rw [List.getLast?_map]
    cases cs.getLast? with
    | none => simp
    | some c => simpa using hf.eq_iff rfl
  rw [dropReturn, dropReturn]
  by_cases h : cs.getLast? = some '\r'
  · rw [if_pos h, if_pos (hlast.2 h), List.map_dropLast]
  · rw [if_neg h, if_neg (mt hlast.1 h)]

theorem closeLines_map (pieces : List (List Char)) :
    closeLines (pieces.map (List.map f)) = (closeLines pieces).map (List.map f) := by
  induction pieces with
  | nil => rfl
  | cons piece pieces ih =>
    cases pieces with
    | nil => cases piece <;> rfl
    | cons next pieces =>
      simp only [List.map_cons, closeLines, hf.dropReturn_map] at ih ⊢
      rw [ih]

theorem lines_map (text : String) : lines (text.map f) = (lines text).map (String.map f) := by
  have hnewline : ∀ c, (f c == '\n') = (c == '\n') := hf.beq_eq rfl
  rw [lines, String.toList_map, split_map (p := (· == '\n')) hnewline, hf.closeLines_map, lines,
    map_ofList_map]

theorem opensComment_map (word : String) :
    Token.opensComment (word.map f) = Token.opensComment word := by
  rw [Token.opensComment, String.toList_map]
  exact hf.head?_beq rfl word.toList

/-- A line in its new form has its tokens in their new form. -/
theorem ofLine_map (line : String) :
    Token.ofLine (line.map f) = (Token.ofLine line).map (String.map f) := by
  rw [Token.ofLine, String.toList_map, hf.words_map, map_ofList_map, List.takeWhile_map,
    Token.ofLine]
  congr 2
  funext word
  exact congrArg not (hf.opensComment_map word)

end Recases

/-! ## Statements -/

/-- The instruction with its name replaced. -/
def Instruction.rename (g : String → String) : Instruction → Instruction
  | .label name => .label (g name)
  | .goto target => .goto (g target)
  | .branch reg test target => .branch reg test (g target)
  | instruction => instruction

theorem Instruction.encode_rename (g : String → String) (instruction : Instruction) :
    (instruction.rename g).encode = instruction.encode.map (.rename g) := by
  cases instruction with
  | add source reg => cases source <;> rfl
  | subtract source reg => cases source <;> rfl
  | branch reg test target => cases test <;> rfl
  | bytes values => simp only [rename, encode, List.map_map]; rfl
  | _ => rfl

/-- The statement with its tokens in a new form, and the name in its code with them. -/
def Statement.recase (f : Char → Char) (statement : Statement) : Statement where
  tokens := statement.tokens.map (String.map f)
  fragments := statement.fragments.map (.rename (String.map f))

namespace Recases

open Keyword Operand Instruction

variable {f : Char → Char} (hf : Recases f)

include hf

theorem is_iff {keyword token : String} : Is keyword (token.map f) ↔ Is keyword token := by
  simp only [Is, String.toList_map, List.forall₂_map_left_iff, hf.isForm_iff]

theorem numeral_denotes_iff {token : String} {value : Int} :
    Numeral.Denotes (token.map f).toList value ↔ Numeral.Denotes token.toList value := by
  rw [← Numeral.value?_eq_some_iff, hf.value?_map, Numeral.value?_eq_some_iff]

theorem names_iff {β : Type} {table : List (String × β)} {token : String} {value : β} :
    Names table (token.map f) value ↔ Names table token value := by
  simp only [Names, hf.is_iff]

theorem readByte_iff {token : String} {value : UInt8} :
    readByte (token.map f) = .ok value ↔ readByte token = .ok value := by
  rw [readByte_eq_ok_iff, hf.numeral_denotes_iff, readByte_eq_ok_iff]

theorem isName {name : String} (h : IsName name) : IsName (name.map f) := by
  have hopens : Token.opensComment name = false := beq_eq_false_iff_ne.2 h
  exact beq_eq_false_iff_ne.1 ((hf.opensComment_map name).trans hopens)

theorem isAddress {token : String} {address : UInt8} (h : IsAddress token address) :
    IsAddress (token.map f) address := by
  cases h with
  | cell h => exact .cell (hf.names_iff.2 h)
  | byte hnot h =>
    exact .byte (fun other hother => hnot other (hf.names_iff.1 hother)) (hf.readByte_iff.2 h)

theorem isSource {token : String} {source : Operand} (h : IsSource token source) :
    IsSource (token.map f) source := by
  cases h with
  | register h => exact .register (hf.names_iff.2 h)
  | literal hnot h =>
    exact .literal (fun reg hreg => hnot reg (hf.names_iff.1 hreg)) (hf.readByte_iff.2 h)

/-- Tokens in a new form denote the same instruction, with its name in the new form. -/
theorem denotes {tokens : List String} {instruction : Instruction}
    (h : Denotes tokens instruction) :
    Denotes (tokens.map (String.map f)) (instruction.rename (String.map f)) := by
  have hsign : String.map f "=" = "=" := by
    rw [← String.toList_inj, String.toList_map]
    exact congrArg (· :: []) (hf.eq_self rfl)
  cases h with
  | label hword hname => exact .label (hf.is_iff.2 hword) (hf.isName hname)
  | goto hword hname => exact .goto (hf.is_iff.2 hword) (hf.isName hname)
  | syscall hword => exact .syscall (hf.is_iff.2 hword)
  | halt hword => exact .halt (hf.is_iff.2 hword)
  | noop hword => exact .noop (hf.is_iff.2 hword)
  | assign hword hreg hvalue =>
    simp only [List.map_cons, List.map_nil, hsign]
    exact .assign (hf.is_iff.2 hword) (hf.names_iff.2 hreg) (hf.readByte_iff.2 hvalue)
  | assignIndirect hword hmode hreg haddress =>
    simp only [List.map_cons, List.map_nil, hsign]
    exact .assignIndirect (hf.is_iff.2 hword) (hf.is_iff.2 hmode) (hf.names_iff.2 hreg)
      (hf.isAddress haddress)
  | memcopy hword hinto hreg haddress =>
    exact .memcopy (hf.is_iff.2 hword) (hf.is_iff.2 hinto) (hf.names_iff.2 hreg)
      (hf.isAddress haddress)
  | memcopyIndirect hword hinto hmode hreg haddress =>
    exact .memcopyIndirect (hf.is_iff.2 hword) (hf.is_iff.2 hinto) (hf.is_iff.2 hmode)
      (hf.names_iff.2 hreg) (hf.isAddress haddress)
  | and hword hvalue => exact .and (hf.is_iff.2 hword) (hf.readByte_iff.2 hvalue)
  | or hword hvalue => exact .or (hf.is_iff.2 hword) (hf.readByte_iff.2 hvalue)
  | add hword hinto hsource hreg =>
    exact .add (hf.is_iff.2 hword) (hf.is_iff.2 hinto) (hf.isSource hsource) (hf.names_iff.2 hreg)
  | subtract hword houtOf hsource hreg =>
    exact .subtract (hf.is_iff.2 hword) (hf.is_iff.2 houtOf) (hf.isSource hsource)
      (hf.names_iff.2 hreg)
  | branch hword hgoto hreg htest hname =>
    exact .branch (hf.is_iff.2 hword) (hf.is_iff.2 hgoto) (hf.names_iff.2 hreg)
      (hf.names_iff.2 htest) (hf.isName hname)
  | bitshift hword hreg hx hdirection =>
    exact .bitshift (hf.is_iff.2 hword) (hf.names_iff.2 hreg) hx (hf.names_iff.2 hdirection)
  | bitshiftBy hword hreg hx hdirection hcount hlow hhigh =>
    exact .bitshiftBy (hf.is_iff.2 hword) (hf.names_iff.2 hreg) hx (hf.names_iff.2 hdirection)
      (hf.numeral_denotes_iff.2 hcount) hlow hhigh
  | bytes hword hne hvalues =>
    refine .bytes (hf.is_iff.2 hword) (by simpa using hne) ?_
    exact List.forall₂_map_left_iff.2 (hvalues.imp fun _ _ => hf.readByte_iff.2)

theorem ofTokens_map {tokens : List String} {statement : Statement}
    (h : Statement.ofTokens tokens = .ok statement) :
    Statement.ofTokens (tokens.map (String.map f)) = .ok (statement.recase f) := by
  obtain ⟨instruction, hparse, rfl⟩ := Fallible.map_eq_ok.1 h
  refine Fallible.map_eq_ok.2 ⟨_, parse_of_denotes (hf.denotes (denotes_of_parse hparse)), ?_⟩
  rw [Statement.ofInstruction, encode_rename]
  rfl

/-- The text in its new form has the statements in their new form. -/
theorem read_map {source : String} {statements : List Statement}
    (h : (Assembly.read source).result = .ok statements) :
    (Assembly.read (source.map f)).result = .ok (statements.map (.recase f)) := by
  have htokens : ((Text.lines (source.map f)).map Token.ofLine).filter
      (fun tokens => !tokens.isEmpty) =
      (((Text.lines source).map Token.ofLine).filter (fun tokens => !tokens.isEmpty)).map
        (List.map (String.map f)) := by
    have hline : Token.ofLine ∘ String.map f = List.map (String.map f) ∘ Token.ofLine :=
      funext hf.ofLine_map
    rw [hf.lines_map, List.map_map, hline, ← List.map_map, List.filter_map]
    congr 2
    funext tokens
    exact congrArg not List.isEmpty_map
  rw [Assembly.read_eq_ok_iff, htokens, List.forall₂_map_left_iff, List.forall₂_map_right_iff]
  exact (Assembly.read_eq_ok_iff.1 h).imp fun _ _ => hf.ofTokens_map

end Recases

/-! ## Layout without tokens -/

namespace Layout

section

variable {first second : List Statement}
  (h : first.map Statement.fragments = second.map Statement.fragments)

include h

theorem fragments_congr : fragments first = fragments second := by
  rw [fragments, List.flatMap_def, h, ← List.flatMap_def, fragments]

theorem cells_congr : first.map Statement.cells = second.map Statement.cells := by
  have hcells : ∀ statements : List Statement, statements.map Statement.cells =
      (statements.map Statement.fragments).map Fragment.totalCells :=
    fun _ => (List.map_map ..).symm
  rw [hcells, h, ← hcells]

theorem finish_congr : finish first = finish second := finish_eq_of_cells (cells_congr h)

theorem take_congr (count : Nat) :
    (first.take count).map Statement.fragments = (second.take count).map Statement.fragments := by
  rw [List.map_take, h, List.map_take]

theorem drop_congr (count : Nat) :
    (first.drop count).map Statement.fragments = (second.drop count).map Statement.fragments := by
  rw [List.map_drop, h, List.map_drop]

/-- The code is interrupted at the same place, whatever the tokens are. -/
theorem exists_route_congr {routed : List Statement} (hroute : (route first).result = .ok routed) :
    ∃ other, (route second).result = .ok other ∧
      routed.map Statement.fragments = other.map Statement.fragments := by
  rcases route_eq_ok_iff.1 hroute with ⟨hend, rfl⟩ | ⟨hend, index, hindex, rfl⟩
  · exact ⟨second, route_eq_ok_iff.2 (.inl ⟨finish_congr h ▸ hend, rfl⟩), h⟩
  · refine ⟨detoured second index, route_eq_ok_iff.2
      (.inr ⟨finish_congr h ▸ hend, index, hindex.of_cells (cells_congr h), rfl⟩), ?_⟩
    simp only [detoured, insertSkip, List.map_append, take_congr h, drop_congr h,
      finish_congr (take_congr h _)]

/-- **The layout reads the code only.** Statements with the same code, whatever their tokens are,
have layouts with the same code. -/
theorem exists_layOut_congr {layout : Layout} (hlayout : layOut first = .ok layout) :
    ∃ other, layOut second = .ok other ∧
      fragments other.statements = fragments layout.statements := by
  obtain ⟨hnodup, routed, hroute, hsize, hresolve, -⟩ := layOut_eq_ok_iff.1 hlayout
  obtain ⟨other, hother, hcode⟩ := exists_route_congr h hroute
  obtain ⟨hlabels, htargets, hsettle⟩ := resolve_eq_ok_iff.1 hresolve
  have hplaced : fragments (place Memory.programStart other) =
      fragments (place Memory.programStart routed) := by
    rw [fragments_place, fragments_place, fragments_congr hcode]
  have hsettled : fragments (settle (place Memory.programStart other)) =
      fragments (settle (place Memory.programStart routed)) := by
    simp only [fragments_settle, labelTable, targets, hplaced]
  have hresolved : resolve (place Memory.programStart other) =
      .ok (settle (place Memory.programStart other)) := by
    refine resolve_eq_ok_iff.2 ⟨?_, ?_, rfl⟩
    · rwa [labelNames, hplaced]
    · simpa only [targets, labelTable, hplaced] using htargets
  have hnames : (labelNames second).Nodup := by rwa [labelNames, ← fragments_congr h]
  refine ⟨⟨_, diagnose (settle (place Memory.programStart other))⟩, layOut_eq_ok_iff.2
    ⟨hnames, other, hother, finish_congr hcode ▸ hsize, hresolved, rfl⟩, ?_⟩
  exact hsettled.trans (congrArg fragments hsettle)

end

/-- In statements that can be laid out every name is that of a label. -/
theorem mem_labelNames_of_mem_names {source : List Statement} (hs : Written source)
    {layout : Layout} (h : layOut source = .ok layout) {name : String} (hn : name ∈ names source) :
    name ∈ labelNames source := by
  rcases mem_names_iff.1 hn with hn | hn
  · exact hn
  · exact mem_labelNames_of_mem_targets hs h hn

end Layout

/-! ## The whole way -/

open Layout

/-- Statements in a new form are laid out to the same image, if the names of labels stay
different. -/
theorem Recases.exists_layOut_map {f : Char → Char} (hf : Recases f) {source : List Statement}
    (hs : Written source) {layout : Layout} (h : layOut source = .ok layout)
    (hnodup : ((labelNames source).map (String.map f)).Nodup) :
    ∃ recased, layOut (source.map (.recase f)) = .ok recased ∧
      image recased.statements = image layout.statements := by
  have hinj : Set.InjOn (String.map f) {name | name ∈ names source} := by
    intro first hfirst second hsecond heq
    exact List.inj_on_of_nodup_map hnodup (mem_labelNames_of_mem_names hs h hfirst)
      (mem_labelNames_of_mem_names hs h hsecond) heq
  have hplain : ∀ name ∈ names source, Token.opensComment (name.map f) = false :=
    fun name hn => (hf.opensComment_map name).trans (hs.opensComment_name hn)
  have hkept : ∀ name ∈ names source,
      Function.update (String.map f) skipLabel skipLabel name = name.map f :=
    fun name hn => Function.update_of_ne (hs.ne_skipLabel hn) _ _
  have hrename := layOut_rename (Function.update_self ..) (hs.injOn_update hinj hplain)
  rw [map_rename_congr hkept, h] at hrename
  -- The renamed statements have the code of the recased ones, but keep most of their tokens.
  have hcode : (source.map (Statement.rename (String.map f))).map Statement.fragments =
      (source.map (Statement.recase f)).map Statement.fragments := by
    rw [List.map_map, List.map_map]
    rfl
  obtain ⟨recased, hrecased, hfragments⟩ := exists_layOut_congr hcode hrename
  refine ⟨recased, hrecased, ?_⟩
  rw [image, ← fragments, hfragments]
  exact image_rename _ _

theorem Recases.assemble_map {f : Char → Char} (hf : Recases f) {source text : String} {eot : Bool}
    {program : Program} (hprogram : parse source = .ok program)
    (htext : assemble source eot = .ok text)
    (hnodup : ((labelNames program.source).map (String.map f)).Nodup) :
    assemble (source.map f) eot = .ok text := by
  obtain ⟨statements, hread, rfl⟩ := Fallible.map_eq_ok.1 hprogram
  rw [assemble_eq_bind, hread] at htext
  obtain ⟨layout, hlayout, rfl⟩ := Fallible.map_eq_ok.1 htext
  rw [Fallible.mapError_eq_ok] at hlayout
  have hwritten : Written statements :=
    fun statement hs => ⟨_, Assembly.ofTokens_of_read hread statement hs⟩
  obtain ⟨recased, hrecased, himage⟩ := hf.exists_layOut_map hwritten hlayout hnodup
  rw [assemble_eq_bind, hf.read_map hread, ← himage]
  exact Fallible.map_eq_ok.2 ⟨recased, Fallible.mapError_eq_ok.2 hrecased, rfl⟩

/-- **Letter case is insignificant from the source text to the upload.** Let a source text be
assembled to an upload. If no two of its labels have names that are the same in capitals, then the
source text with all its ASCII letters as capitals is assembled to the same upload. If no two have
names that are the same in small letters, then so is the source text with all its ASCII letters as
small letters. -/
theorem assemble_ignores_letter_case {source text : String} {eot : Bool} {program : Program}
    (hprogram : parse source = .ok program) (htext : assemble source eot = .ok text) :
    (((labelNames program.source).map String.toUpper).Nodup →
      assemble source.toUpper eot = .ok text) ∧
    (((labelNames program.source).map String.toLower).Nodup →
      assemble source.toLower eot = .ok text) :=
  ⟨recases_toUpper.assemble_map hprogram htext, recases_toLower.assemble_map hprogram htext⟩

/-- A source text in capitals and small letters, with a hexadecimal numeral. -/
def mixedCase : String :=
  "Label Top\nlet X = ValueIn Display\ngoTo eNd\nBytes 0xFf # Data\nlabel eNd"

theorem assemble_ignores_letter_case_mixedCase : ∃ program text,
    parse mixedCase = .ok program ∧ labelNames program.source = ["Top", "eNd"] ∧
    text = "0000\n0000\n0000\n0004\n0224\n0200\n0344\n0011\n0377\n" ∧
    assemble mixedCase false = .ok text ∧
    assemble "LABEL TOP\nLET X = VALUEIN DISPLAY\nGOTO END\nBYTES 0XFF # DATA\nLABEL END" false =
      .ok text ∧
    assemble "label top\nlet x = valuein display\ngoto end\nbytes 0xff # data\nlabel end" false =
      .ok text := by
  have hparse : (parse mixedCase).toOption.map (fun program => labelNames program.source) =
      some ["Top", "eNd"] := by
    decide +kernel
  obtain ⟨program, hprogram, hlabels⟩ := Option.map_eq_some_iff.1 hparse
  rw [Fallible.toOption_eq_some] at hprogram
  have htext : assemble mixedCase false =
      .ok "0000\n0000\n0000\n0004\n0224\n0200\n0344\n0011\n0377\n" :=
    Fallible.toOption_eq_some.1 (by decide +kernel)
  have hcapitals : mixedCase.toUpper =
      "LABEL TOP\nLET X = VALUEIN DISPLAY\nGOTO END\nBYTES 0XFF # DATA\nLABEL END" := by
    simp [← String.toList_inj, String.toUpper, mixedCase]
  have hsmall : mixedCase.toLower =
      "label top\nlet x = valuein display\ngoto end\nbytes 0xff # data\nlabel end" := by
    simp [← String.toList_inj, String.toLower, mixedCase]
  obtain ⟨hupper, hlower⟩ := assemble_ignores_letter_case hprogram htext
  rw [hlabels, hcapitals] at hupper
  rw [hlabels, hsmall] at hlower
  exact ⟨program, _, hprogram, hlabels, rfl, htext, hupper (by decide +kernel),
    hlower (by decide +kernel)⟩

/-- Names that differ in case only are different names, and one name in capitals. -/
example : (assemble "LABEL a\nLABEL A" false).isOk = true ∧
    (assemble "LABEL A\nLABEL A" false).isOk = false := by
  decide +kernel

end CrossAssembler
