import CrossAssembler.Proofs.Fallible
import CrossAssembler.Proofs.LayoutCache
import CrossAssembler.Proofs.Lines
import CrossAssembler.Proofs.OctalNumerals

/-!
# The upload and the image are the same data

The image lists the bytes of a program, and the upload writes the header and then each fragment, a
label not at all and a jump in two lines. Line by line these are the bytes of the image
(`Fragment.join_codes?`), so the upload is a text that knows the image alone
(`Upload.text_eq_octalText`).

A program has both or neither (`Program.upload_eq_map`). The upload has a line for each byte of the
image (`Upload.lines_octalText`), and what a line says in octal is the byte
(`Upload.readLines_octalText`), so no two images have one upload (`Upload.octalText_injective`).
-/

namespace CrossAssembler

/-! ## The upload is the text of the image -/

namespace Upload

/-- The octal text of bytes, one numeral to a line, and the end of the transmission if wanted. -/
def octalText (bytes : List UInt8) (eot : Bool) : String :=
  String.join (bytes.map fun byte => endLine (octal byte.toNat)) ++
    if eot then endLine endOfTransmission else ""

end Upload

open Upload

/-- The lines of a fragment are the numerals of its bytes. -/
theorem Fragment.join_codes? (fragment : Fragment) :
    String.join (fragment.codes?.toList.map endLine) =
      String.join (fragment.values.map fun byte => endLine (octal byte.toNat)) := by
  obtain ⟨location, content⟩ := fragment
  cases content with
  | operation value =>
    simp only [codes?, values, List.map_cons, List.map_nil, String.intercalate_singleton,
      Option.toList_some]
  | label name used => rfl
  | jump kind target destination =>
    simp only [codes?, values, List.map_cons, List.map_nil, String.intercalate_cons_cons,
      String.intercalate_singleton, Option.toList_some, String.join_cons, endLine,
      String.append_assoc]

theorem Upload.join_codes (fragments : List Fragment) :
    String.join ((fragments.filterMap Fragment.codes?).map endLine) =
      String.join ((fragments.flatMap Fragment.values).map
        fun byte => endLine (octal byte.toNat)) := by
  induction fragments with
  | nil => rfl
  | cons fragment fragments ih =>
    rw [List.flatMap_cons, List.map_append, String.join_append, ← fragment.join_codes?, ← ih,
      List.filterMap_cons]
    cases fragment.codes? with
    | none => exact (String.empty_append).symm
    | some code => simp only [Option.toList_some, List.map_cons, List.map_nil, String.join_cons,
        String.join_nil, String.append_empty]

/-- The upload is the octal text of the image. -/
theorem Upload.text_eq_octalText (statements : List Statement) (eot : Bool) :
    text statements eot = octalText (image statements) eot := by
  rw [text, octalText, image, List.map_append, List.map_append, String.join_append,
    String.join_append, codes, join_codes, headerCodes, List.map_map]
  rfl

/-! ## The lines of an upload -/

theorem Text.isBlank_of_isDigit {c : Char} (h : c.isDigit = true) : isBlank c = false := by
  have hrange : 48 ≤ c.toNat ∧ c.toNat ≤ 57 := by
    simpa [Char.isDigit, UInt32.le_iff_toNat_le] using h
  simp [isBlank, blankRanges]
  omega

/-- An octal numeral may be a token. -/
theorem isToken_octal (n : Nat) : Token.IsToken (octal n) := by
  have hne : (octal n).toList ≠ [] := by simp [toList_octal]
  refine ⟨⟨hne, fun c hc => Text.isBlank_of_isDigit (isDigit_of_mem_octal hc)⟩, ?_⟩
  rw [Token.opensComment, beq_eq_false_iff_ne]
  intro hmark
  exact absurd (isDigit_of_mem_octal (List.mem_of_head? hmark)) (by decide)

namespace Upload

/-- The numeral of a byte in four octal digits. -/
def fourDigits (byte : UInt8) : String := String.ofList
  ['0', (byte.toNat / 64).digitChar, (byte.toNat / 8 % 8).digitChar, (byte.toNat % 8).digitChar]

/-- What the lines of a text say in octal. -/
def readLines (text : String) : List (Option Nat) :=
  (Text.lines text).map fun line => Numeral.digits? 8 line.toList

theorem octalText_false (bytes : List UInt8) :
    octalText bytes false = String.join (bytes.map fun byte => fourDigits byte ++ "\n") := by
  have hline : ∀ byte : UInt8, endLine (octal byte.toNat) = fourDigits byte ++ "\n" := by
    intro byte
    rw [endLine, octal_toNat, fourDigits]
  simp [octalText, hline]

theorem octalText_true (bytes : List UInt8) :
    octalText bytes true = octalText bytes false ++ "s\n" := by
  simp [octalText, endLine, endOfTransmission]

/-- The octal text of bytes has one line for each of them. -/
theorem lines_octalText (bytes : List UInt8) :
    Text.lines (octalText bytes false) = bytes.map fun byte => octal byte.toNat := by
  have hunbroken : ∀ line ∈ bytes.map (fun byte => octal byte.toNat), Text.Unbroken line := by
    intro line hline
    obtain ⟨byte, -, rfl⟩ := List.mem_map.1 hline
    exact (isToken_octal byte.toNat).unbroken
  rw [← Text.lines_join_endLine hunbroken, List.map_map]
  simp [octalText, Function.comp_def]

/-- The lines of the octal text say the bytes. -/
theorem readLines_octalText (bytes : List UInt8) :
    readLines (octalText bytes false) = bytes.map fun byte => some byte.toNat := by
  simp [readLines, lines_octalText, digits?_octal]

theorem octalText_injective {bytes other : List UInt8}
    (h : octalText bytes false = octalText other false) : bytes = other := by
  have hread := congrArg readLines h
  rw [readLines_octalText, readLines_octalText] at hread
  refine List.map_injective_iff.2 ?_ hread
  intro byte byte' hbyte
  exact UInt8.toNat_inj.1 (Option.some.inj hbyte)

end Upload

namespace Program

/-- The upload is the octal text of the image, if there is one, and fails as the image does. -/
theorem upload_eq_map (program : Program) (eot : Bool) :
    (program.upload eot).1 = program.image.1.map fun bytes => Upload.octalText bytes eot := by
  have hupload : (program.upload eot).1 =
      program.layout.1.map fun layout => Upload.text layout.statements eot := rfl
  have himage : program.image.1 =
      program.layout.1.map fun layout => CrossAssembler.image layout.statements := rfl
  rw [hupload, himage]
  cases program.layout.1 with
  | error e => rfl
  | ok layout => exact congrArg Except.ok (Upload.text_eq_octalText layout.statements eot)

/-- A layout that was asked for is given once more. -/
theorem layout_layout (program : Program) : program.layout.2.layout.1 = program.layout.1 := by
  obtain ⟨layout, hknown, heq⟩ | ⟨layout, -, heq⟩ | ⟨e, -, heq⟩ := program.layout_cases
  · rw [heq, heq]
  · rw [heq]
    rfl
  · rw [heq, heq]

end Program

/-- **The upload and the image are the same data.** A program has no upload if and only if it has no
image, for the same reason. Otherwise the upload without the end of the transmission writes each
byte of the image in four octal digits on a line of its own; with it, a line with `s` follows.
Reading the lines in octal gives the bytes of the image, so that a program with the same upload has
the same image. It does not matter whether the image or the upload was asked for before. -/
theorem upload_says_image (program : Program) :
    (∀ eot e, (program.upload eot).1 = .error e ↔ program.image.1 = .error e) ∧
    (∀ bytes, program.image.1 = .ok bytes → ∃ text,
      (program.upload false).1 = .ok text ∧ (program.upload true).1 = .ok (text ++ "s\n") ∧
      text = String.join (bytes.map fun byte => Upload.fourDigits byte ++ "\n") ∧
      Upload.readLines text = bytes.map (fun byte => some byte.toNat) ∧
      ∀ other : Program, (other.upload false).1 = .ok text → other.image.1 = .ok bytes) ∧
    ∀ eot eot', (program.image.2.upload eot).1 = (program.upload eot).1 ∧
      (program.upload eot').2.image.1 = program.image.1 := by
  refine ⟨fun eot e => ?_, fun bytes hbytes => ?_, fun eot eot' => ⟨?_, ?_⟩⟩
  · rw [Program.upload_eq_map]
    exact Fallible.map_eq_error
  · refine ⟨Upload.octalText bytes false, ?_, ?_, Upload.octalText_false bytes,
      Upload.readLines_octalText bytes, fun other hother => ?_⟩
    · rw [Program.upload_eq_map, hbytes]
      rfl
    · rw [Program.upload_eq_map, hbytes, ← Upload.octalText_true]
      rfl
    · rw [Program.upload_eq_map] at hother
      obtain ⟨bytes', hbytes', htext⟩ := Fallible.map_eq_ok.1 hother
      rw [hbytes', Upload.octalText_injective htext]
  · exact congrArg (Except.map _) program.layout_layout
  · exact congrArg (Except.map _) program.layout_layout

/-- A jump over a byte to a label, which leaves no trace in the image. -/
def jumpOverByte : List Statement :=
  [.ofInstruction ["GOTO", "end"] (.goto "end"), .ofInstruction ["BYTES", "255"] (.bytes [255]),
   .ofInstruction ["LABEL", "end"] (.label "end")]

theorem upload_says_image_jumpOverByte : ∃ text,
    (Program.ofStatements jumpOverByte).image.1 = .ok [0, 0, 0, 4, 0o344, 7, 255] ∧
    ((Program.ofStatements jumpOverByte).upload true).1 = .ok (text ++ "s\n") ∧
    text = "0000\n0000\n0000\n0004\n0344\n0007\n0377\n" ∧
    Upload.readLines text =
      [some 0, some 0, some 0, some 4, some 0o344, some 7, some 255] := by
  have himage : (Program.ofStatements jumpOverByte).image.1 =
      .ok [0, 0, 0, 4, 0o344, 7, 255] := rfl
  obtain ⟨text, -, hupload, htext, hread, -⟩ :=
    (upload_says_image (.ofStatements jumpOverByte)).2.1 _ himage
  exact ⟨text, himage, hupload, htext, hread⟩

end CrossAssembler
