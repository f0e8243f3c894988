import ChipEight.Text.Pieces

/-!
# Paths and files

A path is a list of names, absolute or not. Reading one drops what says nothing: empty names and the names that stand
for the directory itself. A `FileSystem` gives the contents of the file at a path, if there is one, and `FileTree.files`
makes a file system from a list of files and directories. A file system does not follow names that are too long.
-/

namespace ChipEight

/-- A path as a list of names; the root is empty for a path that starts from the present directory. -/
structure Path where
  root : String
  names : List String
  deriving DecidableEq, Repr

namespace Path

/-- The root that the leading slashes of a text stand for: two of them are kept, any other number means one. -/
def rootOf (text : List Char) : String :=
  match (text.takeWhile (· == '/')).length with
  | 0 => ""
  | 2 => "//"
  | _ => "/"

/-- Reads a path. -/
def ofString (text : String) : Path where
  root := rootOf text.toList
  names := ((Text.pieces '/' text.toList).map String.ofList).filter fun name => name ≠ "" && name ≠ "."

/-- A path in its shortest spelling; the present directory is a dot. -/
def text (p : Path) : String :=
  if p.root = "" ∧ p.names = [] then "." else p.root ++ "/".intercalate p.names

/-- The last name of a path. -/
def lastName (p : Path) : String :=
  p.names.getLast?.getD ""

end Path

/-- What a file system answers to a path. -/
inductive Lookup where
  /-- A file of these bytes is there. -/
  | found (bytes : List UInt8)
  /-- No file is there. -/
  | missing
  /-- The path, or a name that has to be looked up on the way, is too long. -/
  | nameTooLong
  deriving DecidableEq, Repr

/-- Looks up the file at a path. -/
abbrev FileSystem := Path → Lookup

/-- The most bytes that a name in a path can have. -/
def maxNameBytes : Nat := 255

/-- The most bytes that a path can have. -/
def maxPathBytes : Nat := 4095

/-- What stands at a path. -/
inductive FileNode where
  | file (bytes : List UInt8)
  | directory
  deriving DecidableEq, Repr

/-- The files and directories below the present directory, each with the names that lead to it. -/
structure FileTree where
  entries : List (List String × FileNode)

namespace FileTree

/-- What the given names lead to; whatever lies above an entry is a directory. -/
def node? (t : FileTree) (names : List String) : Option FileNode :=
  match t.entries.lookup names with
  | some node => some node
  | none =>
    if names.isEmpty || t.entries.any fun entry => names.isPrefixOf entry.1 then some .directory else none

/-- Follows names outside of the tree, where nothing is known but that two dots lead to a directory. -/
def followOutside (names : List String) : Lookup :=
  match names.dropWhile (· == "..") with
  | [] => .missing
  | name :: _ => if maxNameBytes < name.utf8ByteSize then .nameTooLong else .missing

/-- Follows names from a directory, whose own names are given last first, to a file. Two dots lead one directory up,
and out of the tree from its top. -/
def follow (t : FileTree) (here : List String) : List String → Lookup
  | [] =>
    match t.node? here.reverse with
    | some (.file bytes) => .found bytes
    | _ => .missing
  | name :: rest =>
    if t.node? here.reverse ≠ some .directory then .missing
    else if maxNameBytes < name.utf8ByteSize then .nameTooLong
    else if name ≠ ".." then t.follow (name :: here) rest
    else match here with
      | [] => followOutside rest
      | _ :: up => t.follow up rest

/-- The file system of a tree. No path leads through a name with a zero character. -/
def files (t : FileTree) : FileSystem := fun path =>
  if path.names.any (·.toList.contains '\x00') then .missing
  else if maxPathBytes < path.text.utf8ByteSize then .nameTooLong
  else if path.root = "" then t.follow [] path.names
  else followOutside path.names

/-- The tree of the given files; a path without contents is a directory. -/
def ofList (files : List (String × Option (List UInt8))) : FileTree where
  entries := files.map fun (path, bytes) =>
    ((Path.ofString path).names, match bytes with
      | some bytes => .file bytes
      | none => .directory)

end FileTree

end ChipEight
