import CrossAssembler.Statement

/-!
# What is written of a program

The image of laid-out statements is the header of the memory followed by the bytes of their
fragments. The upload is the text that is sent to the machine: the same bytes in octal, one to a
line, closed by a line with the end-of-transmission mark if that is wanted.

A listing is an HTML page with a row for each statement: its number, its text, and the address and
byte of each of its cells, the byte in octal and in binary with the bits coloured by octal digit.
Names and statement texts are escaped.
-/

namespace CrossAssembler

/-! ## The memory image and the upload -/

/-- The bytes of laid-out statements, from address zero on. -/
def image (statements : List Statement) : List UInt8 :=
  Memory.header ++ (statements.flatMap Statement.fragments).flatMap Fragment.values

namespace Upload

/-- The line that ends a transmission. -/
def endOfTransmission : String := "s"

/-- A line with its end. -/
def endLine (line : String) : String := line ++ "\n"

/-- The lines of the header. -/
def headerCodes : List String := Memory.header.map fun value => octal value.toNat

/-- The texts of the fragments, each of one or two lines. -/
def codes (statements : List Statement) : List String :=
  (statements.flatMap Statement.fragments).filterMap Fragment.codes?

/-- The upload of laid-out statements. -/
def text (statements : List Statement) (eot : Bool) : String :=
  String.join ((headerCodes ++ codes statements).map endLine) ++
    (if eot then endLine endOfTransmission else "")

end Upload

/-! ## Listings -/

namespace Listing

/-- The characters of a text that markup could be read into, replaced by entities. -/
def escapeChar : Char → List Char
  | '&' => "&amp;".toList
  | '<' => "&lt;".toList
  | '>' => "&gt;".toList
  | c => [c]

/-- A text that shows as it is. -/
def escape (text : String) : String := String.ofList (text.toList.flatMap escapeChar)

/-- The eight bits of a byte, the highest first. -/
def bits (value : UInt8) : List Char := (Nat.toDigits 2 value.toNat).leftpad 8 '0'

/-- The widths of the three octal digits of a byte in bits, and their colours. -/
def digitColours : List (Nat × String) := [(2, "#cca43b"), (3, "#0075f2"), (3, "#d81e5b")]

/-- The bits of one octal digit on their colour. -/
def colouredBits (colour : String) (digits : List Char) : String :=
  "<font color=\"#ffffff\" style=\"background-color: " ++ colour ++ ";\">&nbsp;" ++
    String.ofList digits ++ "&nbsp;</font>"

/-- Bits cut into groups of the given widths and coloured. -/
def colourGroups : List (Nat × String) → List Char → List String
  | [], _ => []
  | (width, colour) :: groups, digits =>
    colouredBits colour (digits.take width) :: colourGroups groups (digits.drop width)

/-- A byte in binary. -/
def binary (value : UInt8) : String :=
  " (" ++ String.join (colourGroups digitColours (bits value)) ++ ")"

/-- The lines of a fragment: one for each of its cells, or one for a label. -/
def cellLines (fragment : Fragment) : List String :=
  match fragment.content with
  | .label _ _ => [octal fragment.location ++ ": " ++ escape fragment.display]
  | _ => fragment.placedValues.map fun (address, value) =>
      octal address ++ ": " ++ octal value.toNat ++ binary value

/-- The background of the row of a statement; rows alternate. -/
def rowColour (index : Nat) : String := if index % 2 = 0 then "#d0f0d0" else "#ffffff"

/-- The line of a cell in the row of a statement. -/
def cellRow (colour line : String) : String :=
  "        <tr><td bgcolor=\"" ++ colour ++ "\">" ++ line ++ "</td></tr>"

/-- The lines of the row of a statement. -/
def row (index : Nat) (statement : Statement) : List String :=
  let colour := rowColour index
  let cell := "      <td bgcolor=\"" ++ colour ++ "\">"
  ["    <tr>",
   cell ++ toString (index + 1) ++ "</td>",
   cell ++ escape statement.text ++ "</td>",
   cell,
   "        <table border=\"0\">"] ++
  (statement.fragments.flatMap cellLines).map (cellRow colour) ++
  ["        </table>",
   "      </td>",
   "    </tr>"]

/-- The lines of the listing of laid-out statements. -/
def pageLines (name : String) (statements : List Statement) : List String :=
  ["<html>",
   "<head><title>" ++ escape name ++ "</title></head>",
   "<body>",
   "<h1>Operation Codes for " ++ escape name ++ "</h1>",
   "  <table border=\"1\">",
   "    <tr><th>Statement Number</th><th>Statement</th>" ++
     "<th>Memory Location, Op Codes, and Values</th></tr>"] ++
  statements.zipIdx.flatMap (fun (statement, index) => row index statement) ++
  ["  </table>",
   "</body>",
   "</html>"]

/-- The listing of laid-out statements under a name. -/
def page (name : String) (statements : List Statement) : String :=
  String.join ((pageLines name statements).map (· ++ "\n"))

end Listing

end CrossAssembler
