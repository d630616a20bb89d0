import TokenEdit.Text.Replaced

/-!
# Paths

A path is what the system takes for the name of a file: bytes, which need not be those of a text.
A slash parts the names on the way to the file from each other.

* `Path.parts`: the names, some of which may be empty.
* `Path.display`: a path in messages.
-/

namespace TokenEdit

/-- The name of a file or directory in the directory that holds it. -/
abbrev Name := List UInt8

/-- A path. -/
structure Path where
  bytes : List UInt8
  deriving DecidableEq

namespace Path

/-- The path that a text spells. -/
def ofString (text : String) : Path :=
  ⟨text.toUTF8.data.toList⟩

/-- A path as it stands in messages. -/
def display (path : Path) : String :=
  String.ofList (Text.replaced path.bytes)

/-- The byte of a slash. -/
def slash : UInt8 := 0x2F

/-- Whether a path starts at the root, and not in the current directory. -/
def isAbsolute (path : Path) : Bool :=
  path.bytes.head? = some slash

/-- Whether a path can only be that of a directory. -/
def endsWithSlash (path : Path) : Bool :=
  path.bytes.getLast? = some slash

/-- Whether a path has a zero byte, with which the system would take it to end. -/
def hasZero (path : Path) : Bool :=
  path.bytes.contains 0

/-- Cuts bytes at the slashes. -/
def split (bytes : List UInt8) : List Name :=
  bytes.foldr
    (fun byte parts =>
      if byte = slash then [] :: parts
      else match parts with
        | [] => [[byte]]
        | part :: parts => (byte :: part) :: parts)
    [[]]

/-- The parts of a path between its slashes. -/
def parts (path : Path) : List Name :=
  split path.bytes

end Path

/-- A name that stays in a directory: none at all, or a single dot. -/
def Name.staysHere (name : Name) : Bool :=
  name = [] || name = [0x2E]

/-- A name that goes up to the directory above: two dots. -/
def Name.goesUp (name : Name) : Bool :=
  name = [0x2E, 0x2E]

end TokenEdit
