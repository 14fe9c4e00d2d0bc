import CrossAssembler.Text

/-!
# Files

A path is a text whose parts are divided by `/`. Paths are shown as they were given, so joining two
of them is done on the text.

A `FileTree` is given by the list of what stands at which place. A place is the list of names that
leads to it from the working directory; `..` at its front climbs out of the working directory, and
`/` at its front is the root. The root and the directories above the working directory are always
there, and nothing else outside the working directory is unless it was written.

A path is followed from the working directory, or from the root if it starts with a slash: an empty
part and `.` stay in a directory, `..` goes to the directory above, and every other part goes to the
entry of that name.
-/

namespace CrossAssembler

/-! ## Why a file cannot be read or written -/

/-- Why an operation on a file fails. -/
inductive FileError where
  /-- There is nothing at the path. -/
  | missing
  /-- A part of the path is followed by another, or has to be a directory, and is a file. -/
  | notDirectory
  /-- A directory stands where a file is read or written. -/
  | isDirectory
  /-- The path, or a name in it, has too many bytes. -/
  | nameTooLong
  /-- The path holds a NUL. -/
  | nulInName
  /-- The file does not hold UTF-8 text. -/
  | notText
  /-- Any other failure of the system, with its text and number. -/
  | other (text : String) (code : Nat)
  deriving DecidableEq, Repr

/-- The message about the error. -/
def FileError.message : FileError → String
  | .missing => "No such file or directory (os error 2)"
  | .notDirectory => "Not a directory (os error 20)"
  | .isDirectory => "Is a directory (os error 21)"
  | .nameTooLong => "File name too long (os error 36)"
  | .nulInName => "file name contained an unexpected NUL byte"
  | .notText => "stream did not contain valid UTF-8"
  | .other text code => s!"{text} (os error {code})"

/-! ## Paths -/

namespace Path

/-- The parts of a path between its slashes, some of which may be empty. -/
def parts (path : String) : List String :=
  (Text.split (· == '/') path.toList).map String.ofList

/-- Whether a path starts from the root. -/
def isAbsolute (path : String) : Bool := path.toList.head? == some '/'

/-- The path `path` as seen from `base`: an absolute path stands for itself, and a slash goes
between the two unless `base` is empty or has one at its end. -/
def join (base path : String) : String :=
  if isAbsolute path then path
  else if base.toList.getLast?.all (· == '/') then base ++ path
  else base ++ "/" ++ path

/-- The most bytes that a path may have. -/
def sizeLimit : Nat := 4095

/-- The most bytes that a name may have. -/
def nameLimit : Nat := 255

/-- A file name cut at its last dot into stem and extension. A name without a dot, or whose only dot
comes first, has no extension. -/
def splitExtension? (name : String) : Option (String × String) :=
  let reversed := name.toList.reverse
  let extension := (reversed.takeWhile (· != '.')).reverse
  match reversed.dropWhile (· != '.') with
  | [] => none
  | [_] => none
  | _ :: stem => some (String.ofList stem.reverse, String.ofList extension)

/-- A path with an extension added to it. -/
def addExtension (path extension : String) : String := path ++ "." ++ extension

/-- The name with a given stem and extension. The stem is marked off by the dot that follows it, and
where the two together are `..` they name the directory above, which takes no extension. -/
def withExtension (stem extension : String) : String :=
  if stem ++ "." = ".." then ".." else addExtension stem extension

end Path

/-! ## File trees -/

/-- What stands at a place. -/
inductive Node where
  | file (content : List UInt8)
  | directory
  deriving DecidableEq

/-- The file that holds a text. -/
def Node.ofText (text : String) : Node := .file text.toUTF8.data.toList

/-- The names that lead to a place. -/
abbrev Place := List String

namespace Place

/-- The working directory. -/
def working : Place := []

/-- The directory that an absolute path starts from. -/
def root : Place := ["/"]

/-- Whether a place is the root, the working directory or a directory above that one. -/
def isOuter (place : Place) : Bool := place == root || place.all (· == "..")

/-- Whether a place lies in the working directory. -/
def isInner (place : Place) : Bool := place.head?.all fun name => name != "/" && name != ".."

/-- The directory above a place. The root is its own. -/
def parent (place : Place) : Place :=
  if place = root then root
  else if place.isOuter then place ++ [".."]
  else place.dropLast

end Place

/-- A tree of files and directories. -/
structure FileTree where
  entries : List (Place × Node)

namespace FileTree

/-- The tree without entries. -/
def empty : FileTree := ⟨[]⟩

/-- What stands at a place. -/
def node? (tree : FileTree) (place : Place) : Option Node :=
  if place.isOuter then some .directory else tree.entries.lookup place

/-- Puts a node at a place, in place of what stands there. -/
def put (tree : FileTree) (place : Place) (node : Node) : FileTree :=
  if (tree.node? place).isSome then
    ⟨tree.entries.map fun entry => if entry.1 = place then (place, node) else entry⟩
  else ⟨tree.entries ++ [(place, node)]⟩

/-- The places of the directories that a place lies in. -/
def above (place : Place) : List Place :=
  ((List.range place.length).map place.take).drop 1

/-- Puts a node at a place and makes the directories above it. -/
def grow (tree : FileTree) (place : Place) (node : Node) : FileTree :=
  let tree := (above place).foldl (fun tree directory =>
    if (tree.node? directory).isSome then tree else tree.put directory .directory) tree
  tree.put place node

/-- Fails unless there is a directory at a place. -/
def enter (tree : FileTree) (place : Place) : Except FileError Unit :=
  match tree.node? place with
  | none => .error .missing
  | some (.file _) => .error .notDirectory
  | some .directory => .ok ()

/-- The place of a name in a directory, unless the name is too long. -/
def child (directory : Place) (name : String) : Except FileError Place :=
  if name.utf8ByteSize ≤ Path.nameLimit then .ok (directory ++ [name]) else .error .nameTooLong

/-- The place that the parts of a path lead to from another. Nothing needs to stand there. -/
def follow (tree : FileTree) : Place → List String → Except FileError Place
  | place, [] => .ok place
  | place, part :: parts => do
    tree.enter place
    if part = "" ∨ part = "." then tree.follow place parts
    else if part = ".." then tree.follow place.parent parts
    else
      let next ← child place part
      tree.follow next parts

/-- The place that a path starts from. A path that holds a NUL, is empty or is too long leads
nowhere. -/
def start (path : String) : Except FileError Place :=
  if '\x00' ∈ path.toList then .error .nulInName
  else if path = "" then .error .missing
  else if Path.sizeLimit < path.utf8ByteSize then .error .nameTooLong
  else if Path.isAbsolute path then .ok Place.root
  else .ok Place.working

/-- The place that a path leads to. -/
def locate (tree : FileTree) (path : String) : Except FileError Place := do
  let place ← start path
  tree.follow place (Path.parts path)

/-- The text of a file. -/
def readText (tree : FileTree) (path : String) : Except FileError String := do
  let place ← tree.locate path
  match tree.node? place with
  | none => .error .missing
  | some .directory => .error .isDirectory
  | some (.file content) =>
    match String.fromUTF8? ⟨content.toArray⟩ with
    | some text => .ok text
    | none => .error .notText

/-- The place of a file to be written: the last part of the path names it in a directory that has to
exist, and it may not be a directory. -/
def locateNew (tree : FileTree) (path : String) : Except FileError Place := do
  let place ← start path
  -- The parts from the last to the first, without those that only slashes at the end make.
  match (Path.parts path).reverse.dropWhile (· == "") with
  | [] => .error .isDirectory
  | name :: parents =>
    let directory ← tree.follow place parents.reverse
    tree.enter directory
    if name = "." ∨ name = ".." ∨ path.toList.getLast? = some '/' then .error .isDirectory
    else
      let new ← child directory name
      match tree.node? new with
      | some .directory => .error .isDirectory
      | _ => .ok new

/-- The tree after a text was written to a file. -/
def writeText (tree : FileTree) (path text : String) : Except FileError FileTree := do
  let place ← tree.locateNew path
  .ok (tree.put place (.ofText text))

/-- The name of an entry, if it is a file right in a directory. -/
def fileIn? (directory : Place) (entry : Place × Node) : Option String :=
  match entry.2, entry.1.getLast? with
  | .file _, some name => if entry.1.dropLast = directory then some name else none
  | _, _ => none

/-- The names of the files in a directory. -/
def fileNames (tree : FileTree) (path : String) : Except FileError (List String) := do
  let place ← tree.locate path
  tree.enter place
  .ok (tree.entries.filterMap (fileIn? place))

/-- The files of the working directory whose content is not what another tree has at their place,
with that content. -/
def changedFrom (tree before : FileTree) : List (Place × List UInt8) :=
  tree.entries.filterMap fun (place, node) =>
    match node with
    | .directory => none
    | .file content =>
      if place.isInner ∧ before.node? place ≠ some (.file content) then some (place, content)
      else none

end FileTree

end CrossAssembler
