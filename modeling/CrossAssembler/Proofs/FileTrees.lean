import CrossAssembler.Files
import CrossAssembler.Proofs.Fallible
import CrossAssembler.Proofs.Lines

/-!
# Writing to a file tree

A write that succeeds puts a text at one place, which its path leads to, and changes nothing else
(`node?_writeText`). Afterwards every path leads where it led before, since only files have changed
(`SameDirectories.locate_eq_ok_iff`, `SameDirectories.locateNew_eq_ok_iff`), and a text that stands
at a place is read under each path that leads there (`readText_of_node?`).
-/

namespace CrossAssembler

open Fallible

/-! ## Parts of a path -/

namespace Text

/-- If a text does not end in a separator, neither does its last piece end before the text does. -/
theorem exists_split_concat {p : Char → Bool} {c : Char} (h : p c = false) (cs : List Char) :
    ∃ pieces piece, split p (cs ++ [c]) = pieces ++ [piece ++ [c]] := by
  induction cs with
  | nil => exact ⟨[], [], by simp [split, h, consFirst]⟩
  | cons d cs ih =>
    obtain ⟨pieces, piece, hsplit⟩ := ih
    rw [List.cons_append, split_cons, hsplit]
    by_cases hd : p d = true
    · exact ⟨[] :: pieces, piece, by simp [hd]⟩
    · cases pieces with
      | nil => exact ⟨[], d :: piece, by simp [hd, consFirst]⟩
      | cons first pieces => exact ⟨(d :: first) :: pieces, piece, by simp [hd, consFirst]⟩

end Text

namespace Path

/-- No part of a path holds a slash. -/
theorem slash_notMem_part {path part : String} (h : part ∈ parts path) : '/' ∉ part.toList := by
  obtain ⟨piece, hpiece, rfl⟩ := List.mem_map.1 h
  intro hslash
  rw [String.toList_ofList] at hslash
  simpa using Text.eq_false_of_mem_split hpiece '/' hslash

/-- The last part of a path that does not end in a slash is not empty. -/
theorem exists_parts_concat {path : String} (hne : path ≠ "")
    (hlast : path.toList.getLast? ≠ some '/') :
    ∃ front name, parts path = front ++ [name] ∧ name ≠ "" := by
  obtain ⟨cs, c, hcs⟩ : ∃ cs c, path.toList = cs ++ [c] := by
    have hnil : path.toList ≠ [] := by simpa using hne
    exact ⟨_, _, (List.dropLast_append_getLast hnil).symm⟩
  have hc : (c == '/') = false := by
    simpa [hcs] using hlast
  obtain ⟨pieces, piece, hsplit⟩ := Text.exists_split_concat (p := (· == '/')) hc cs
  refine ⟨pieces.map String.ofList, String.ofList (piece ++ [c]), ?_, by simp⟩
  rw [parts, hcs, hsplit, List.map_append]
  rfl

end Path

namespace FileTree

variable {tree after : FileTree} {path text : String} {place : Place}

/-! ## Where a path leads -/

theorem enter_eq_ok_iff : tree.enter place = .ok () ↔ tree.node? place = some .directory := by
  unfold enter
  rcases tree.node? place with _ | _ | _ <;> simp

/-- Two trees with their directories at the same places. -/
def SameDirectories (tree after : FileTree) : Prop :=
  ∀ place, after.node? place = some .directory ↔ tree.node? place = some .directory

theorem SameDirectories.enter_eq_ok_iff (h : SameDirectories tree after) :
    after.enter place = .ok () ↔ tree.enter place = .ok () := by
  rw [FileTree.enter_eq_ok_iff, FileTree.enter_eq_ok_iff]
  exact h place

theorem follow_cons (tree : FileTree) (place : Place) (part : String) (parts : List String) :
    tree.follow place (part :: parts) = (tree.enter place >>= fun _ =>
      if part = "" ∨ part = "." then tree.follow place parts
      else if part = ".." then tree.follow place.parent parts
      else child place part >>= fun next => tree.follow next parts) := rfl

/-- Following a path enters directories and nothing else. -/
theorem SameDirectories.follow_eq_ok_iff (h : SameDirectories tree after) {goal : Place}
    {parts : List String} :
    after.follow place parts = .ok goal ↔ tree.follow place parts = .ok goal := by
  induction parts generalizing place with
  | nil => exact Iff.rfl
  | cons part parts ih =>
    simp only [follow_cons, bind_eq_ok]
    refine exists_congr fun _ => and_congr h.enter_eq_ok_iff ?_
    split_ifs
    · exact ih
    · exact ih
    · simp only [bind_eq_ok, ih]

theorem follow_append (tree : FileTree) (place : Place) (first second : List String) :
    tree.follow place (first ++ second) =
      tree.follow place first >>= fun next => tree.follow next second := by
  induction first generalizing place with
  | nil => rfl
  | cons part first ih =>
    simp only [List.cons_append, follow_cons, ih]
    cases tree.enter place with
    | error e => rfl
    | ok _ =>
      show (if _ then _ else _) = (if _ then _ else _) >>= _
      split_ifs
      · rfl
      · rfl
      · cases child place part <;> rfl

theorem SameDirectories.locate_eq_ok_iff (h : SameDirectories tree after) :
    after.locate path = .ok place ↔ tree.locate path = .ok place := by
  simp only [locate, bind_eq_ok, h.follow_eq_ok_iff]

theorem child_eq_ok_iff {directory new : Place} {name : String} : child directory name = .ok new ↔
    name.utf8ByteSize ≤ Path.nameLimit ∧ directory ++ [name] = new := by
  unfold child
  split_ifs with h <;> simp [h]

theorem ne_empty_of_start {origin : Place} (h : start path = .ok origin) : path ≠ "" := by
  rintro rfl
  simp [start] at h

/-- The place of a name in a directory, unless a directory has the name. -/
def vacant (tree : FileTree) (parent : Place) (name : String) : Except FileError Place := do
  let new ← child parent name
  match tree.node? new with
  | some .directory => .error .isDirectory
  | _ => .ok new

theorem vacant_eq_ok_iff {parent : Place} {name : String} : tree.vacant parent name = .ok place ↔
    name.utf8ByteSize ≤ Path.nameLimit ∧ tree.node? place ≠ some .directory ∧
      parent ++ [name] = place := by
  simp only [vacant, bind_eq_ok, child_eq_ok_iff]
  constructor
  · rintro ⟨new, ⟨hshort, rfl⟩, h⟩
    split at h
    · cases h
    · rename_i hfree
      obtain rfl := Except.ok.inj h
      exact ⟨hshort, hfree, rfl⟩
  · rintro ⟨hshort, hfree, rfl⟩
    refine ⟨_, ⟨hshort, rfl⟩, ?_⟩
    split
    · rename_i hdirectory
      exact absurd hdirectory hfree
    · rfl

/-- A file is written under the last part of its path, in the directory the others lead to. -/
theorem locateNew_of_parts {front : List String} {name : String}
    (hparts : Path.parts path = front ++ [name]) (hne : name ≠ "") :
    tree.locateNew path = (start path >>= fun origin => tree.follow origin front >>= fun parent =>
      tree.enter parent >>= fun _ =>
        if name = "." ∨ name = ".." ∨ path.toList.getLast? = some '/' then .error .isDirectory
        else tree.vacant parent name) := by
  have hreverse : (Path.parts path).reverse.dropWhile (· == "") = name :: front.reverse := by
    simp [hparts, hne]
  simp only [locateNew, hreverse, List.reverse_reverse]
  rfl

/-- A path with a slash at its end is not that of a file. -/
theorem locateNew_ne_ok_of_slash (hslash : path.toList.getLast? = some '/') :
    tree.locateNew path ≠ .ok place := by
  intro h
  obtain ⟨origin, -, h⟩ := bind_eq_ok.1 h
  split at h
  · cases h
  · obtain ⟨parent, -, h⟩ := bind_eq_ok.1 h
    obtain ⟨-, -, h⟩ := bind_eq_ok.1 h
    simp [hslash] at h

/-- A path that names a file to be written: its last part is a name in a directory, and no directory
has this name. -/
structure NamesFile (tree : FileTree) (path : String) (parent : Place) (name : String) : Prop where
  leads : ∃ origin front, start path = .ok origin ∧ Path.parts path = front ++ [name] ∧
    tree.follow origin front = .ok parent
  directory : tree.node? parent = some .directory
  proper : name ≠ "" ∧ name ≠ "." ∧ name ≠ ".."
  short : name.utf8ByteSize ≤ Path.nameLimit
  free : tree.node? (parent ++ [name]) ≠ some .directory

theorem NamesFile.last_ne_slash {parent : Place} {name : String}
    (h : tree.NamesFile path parent name) : path.toList.getLast? ≠ some '/' := by
  intro hlast
  obtain ⟨-, front, -, hparts, -⟩ := h.leads
  obtain ⟨cs, hcs⟩ := List.getLast?_eq_some_iff.1 hlast
  have hempty : Path.parts path = Path.parts (String.ofList cs) ++ [""] := by
    rw [Path.parts, hcs, Text.split_append_cons (by rfl)]
    simp [Path.parts, Text.split]
  rw [hparts] at hempty
  exact h.proper.1 (by simpa using congrArg List.getLast? hempty)

/-- A place can be written to under a path if and only if the path names the file there. -/
theorem locateNew_eq_ok_iff : tree.locateNew path = .ok place ↔
    ∃ parent name, tree.NamesFile path parent name ∧ parent ++ [name] = place := by
  constructor
  · intro h
    have hslash : path.toList.getLast? ≠ some '/' := fun hslash => locateNew_ne_ok_of_slash hslash h
    obtain ⟨origin, hstart, -⟩ := bind_eq_ok.1 h
    obtain ⟨front, name, hparts, hne⟩ := Path.exists_parts_concat (ne_empty_of_start hstart) hslash
    rw [locateNew_of_parts hparts hne] at h
    obtain ⟨origin, hstart, h⟩ := bind_eq_ok.1 h
    obtain ⟨parent, hfollow, h⟩ := bind_eq_ok.1 h
    obtain ⟨_, henter, h⟩ := bind_eq_ok.1 h
    split_ifs at h with hname
    obtain ⟨hshort, hfree, rfl⟩ := vacant_eq_ok_iff.1 h
    simp only [not_or] at hname
    exact ⟨parent, name, ⟨⟨origin, front, hstart, hparts, hfollow⟩, enter_eq_ok_iff.1 henter,
      ⟨hne, hname.1, hname.2.1⟩, hshort, hfree⟩, rfl⟩
  · rintro ⟨parent, name, h, rfl⟩
    obtain ⟨origin, front, hstart, hparts, hfollow⟩ := h.leads
    obtain ⟨hne, hdot, hdots⟩ := h.proper
    rw [locateNew_of_parts hparts hne]
    refine bind_eq_ok.2 ⟨origin, hstart, bind_eq_ok.2 ⟨parent, hfollow,
      bind_eq_ok.2 ⟨(), enter_eq_ok_iff.2 h.directory, ?_⟩⟩⟩
    rw [if_neg (by simp [hdot, hdots, h.last_ne_slash])]
    exact vacant_eq_ok_iff.2 ⟨h.short, h.free, rfl⟩

/-- The path of a file to be written leads to the place of the file. -/
theorem locate_of_locateNew (h : tree.locateNew path = .ok place) :
    tree.locate path = .ok place := by
  obtain ⟨parent, name, hnames, rfl⟩ := locateNew_eq_ok_iff.1 h
  obtain ⟨origin, front, hstart, hparts, hfollow⟩ := hnames.leads
  obtain ⟨hne, hdot, hdots⟩ := hnames.proper
  refine bind_eq_ok.2 ⟨origin, hstart, ?_⟩
  rw [hparts, follow_append]
  refine bind_eq_ok.2 ⟨parent, hfollow, ?_⟩
  rw [follow_cons]
  refine bind_eq_ok.2 ⟨(), enter_eq_ok_iff.2 hnames.directory, ?_⟩
  rw [if_neg (by simp [hne, hdot]), if_neg hdots]
  exact bind_eq_ok.2 ⟨_, child_eq_ok_iff.2 ⟨hnames.short, rfl⟩, rfl⟩

/-- A place whose last name is neither `..` nor `/` is not one that is always there. -/
theorem isOuter_concat {parent : Place} {name : String} (hdots : name ≠ "..") (hroot : name ≠ "/") :
    Place.isOuter (parent ++ [name]) = false := by
  simp [Place.isOuter, Place.root, hdots, List.append_eq_singleton_iff, hroot]

/-- No file is written in place of a directory that is always there. -/
theorem isOuter_of_locateNew (h : tree.locateNew path = .ok place) : place.isOuter = false := by
  obtain ⟨parent, name, hnames, rfl⟩ := locateNew_eq_ok_iff.1 h
  obtain ⟨-, front, -, hparts, -⟩ := hnames.leads
  have hmem : name ∈ Path.parts path := by simp [hparts]
  have hslash := Path.slash_notMem_part hmem
  refine isOuter_concat hnames.proper.2.2 ?_
  rintro rfl
  exact hslash (by decide)

theorem NamesFile.congr (h : SameDirectories tree after) {parent : Place} {name : String}
    (hnames : tree.NamesFile path parent name) : after.NamesFile path parent name := by
  obtain ⟨origin, front, hstart, hparts, hfollow⟩ := hnames.leads
  exact ⟨⟨origin, front, hstart, hparts, h.follow_eq_ok_iff.2 hfollow⟩,
    (h parent).2 hnames.directory, hnames.proper, hnames.short, fun hdirectory =>
      hnames.free ((h _).1 hdirectory)⟩

theorem SameDirectories.symm (h : SameDirectories tree after) : SameDirectories after tree :=
  fun place => (h place).symm

/-- Which places can be written to under a path depends on the directories alone. -/
theorem SameDirectories.locateNew_eq_ok_iff (h : SameDirectories tree after) :
    after.locateNew path = .ok place ↔ tree.locateNew path = .ok place := by
  simp only [FileTree.locateNew_eq_ok_iff]
  constructor
  · rintro ⟨parent, name, hnames, hplace⟩
    exact ⟨parent, name, hnames.congr h.symm, hplace⟩
  · rintro ⟨parent, name, hnames, hplace⟩
    exact ⟨parent, name, hnames.congr h, hplace⟩

/-! ## What stands at a place -/

/-- What is found at a place after one node has been exchanged for another. -/
theorem lookup_map_replace (entries : List (Place × Node)) (place : Place) (node : Node)
    (other : Place) :
    (entries.map fun entry => if entry.1 = place then (place, node) else entry).lookup other =
      if other = place then (entries.lookup place).map fun _ => node
      else entries.lookup other := by
  induction entries with
  | nil => simp
  | cons entry entries ih =>
    obtain ⟨first, stands⟩ := entry
    by_cases hfirst : first = place
    · subst hfirst
      by_cases hother : other = first
      · simp [hother]
      · have hne : (other == first) = false := by simpa using hother
        simp [List.lookup_cons, hne, ih, hother]
    · have hne : (place == first) = false := by simpa using Ne.symm hfirst
      rw [List.map_cons, if_neg hfirst, List.lookup_cons, List.lookup_cons, List.lookup_cons, ih,
        hne]
      by_cases hother : other = first
      · simp [hother, hfirst]
      · have hne' : (other == first) = false := by simpa using hother
        simp [hne']

/-- A node that is put at a place stands there, and nothing else has changed. -/
theorem node?_put (hplace : place.isOuter = false) (node : Node) (other : Place) :
    (tree.put place node).node? other = if other = place then some node else tree.node? other := by
  have hnode : tree.node? place = tree.entries.lookup place := by simp [node?, hplace]
  by_cases hother : other.isOuter = true
  · have hne : other ≠ place := by
      rintro rfl
      simp [hplace] at hother
    simp [node?, hother, hne]
  · rw [node?, if_neg hother, put, hnode]
    cases hfound : tree.entries.lookup place with
    | some stands =>
      rw [if_pos Option.isSome_some, lookup_map_replace, hfound]
      simp [node?, hother]
    | none =>
      rw [if_neg (by simp), List.lookup_append]
      by_cases heq : other = place
      · simp [heq, hfound]
      · have hne : (other == place) = false := by simpa using heq
        simp [List.lookup_cons, hne, heq, node?, hother]

/-! ## Writing and reading -/

theorem writeText_eq_ok_iff : tree.writeText path text = .ok after ↔
    ∃ place, tree.locateNew path = .ok place ∧ after = tree.put place (.ofText text) := by
  rw [writeText, bind_eq_ok]
  exact exists_congr fun place => and_congr_right fun _ => ⟨fun h => (Except.ok.inj h).symm,
    fun h => congrArg Except.ok h.symm⟩

/-- A write puts its text at the place that its path names, and changes nothing else. -/
theorem node?_writeText (h : tree.writeText path text = .ok after)
    (hplace : tree.locateNew path = .ok place) (other : Place) :
    after.node? other = if other = place then some (.ofText text) else tree.node? other := by
  obtain ⟨found, hfound, rfl⟩ := writeText_eq_ok_iff.1 h
  obtain rfl := Except.ok.inj (hplace.symm.trans hfound)
  exact node?_put (isOuter_of_locateNew hplace) _ other

theorem sameDirectories_writeText (h : tree.writeText path text = .ok after) :
    SameDirectories tree after := by
  obtain ⟨place, hplace, -⟩ := writeText_eq_ok_iff.1 h
  intro other
  rw [node?_writeText h hplace]
  split_ifs with heq
  · obtain ⟨parent, name, hnames, rfl⟩ := locateNew_eq_ok_iff.1 hplace
    simp [heq, hnames.free, Node.ofText]
  · exact Iff.rfl

theorem fromUTF8?_toUTF8 (text : String) :
    String.fromUTF8? ⟨text.toUTF8.data.toList.toArray⟩ = some text := by
  simp [String.fromUTF8?, text.isValidUTF8, String.fromUTF8]

/-- A text that stands at a place is what is read there. -/
theorem readText_of_node? (hplace : tree.locate path = .ok place)
    (hnode : tree.node? place = some (.ofText text)) : tree.readText path = .ok text := by
  refine bind_eq_ok.2 ⟨place, hplace, ?_⟩
  simp only [hnode, Node.ofText, fromUTF8?_toUTF8]

end FileTree

end CrossAssembler
