import TokenEdit.Files

/-!
# Trees of files

A tree of files is a file store that is a value.  It has a root, and it holds files under the names
that lead to them from the root.  What lies above a file is a directory; a directory may also be
there without a file in it, and the current directory always is.  A file has one location, since
there are no links.

A path is followed name by name, from the root if it starts with a slash, and else from the current
directory.  An empty name and a single dot stay in a directory, and two dots go up to the directory
above, which is the root itself for the root.  Any other name is looked for.

To write a file, only the directory for it has to be there.  A path that ends with a slash is
refused then, since it can only be that of a directory.

* `FileTree.locate`, `FileTree.target`: where a path leads, to read a file and to write one.
* `FileTree.get?_put`: writing changes one file and no other.
-/

namespace TokenEdit

/-- The names that lead from the root of a tree to a file or directory. -/
abbrev Location := List Name

/-- Files and directories with their locations. -/
structure FileTree where
  files : List (Location × ByteArray)
  /-- Directories that may be empty. -/
  directories : List Location
  /-- The current directory. -/
  current : Location

namespace FileTree

/-! ## Locations -/

/-- The content of the file at a location. -/
def get? (tree : FileTree) (l : Location) : Option ByteArray :=
  tree.files.lookup l

/-- The tree with a file put at a location, in place of the file that may be there. -/
def put (tree : FileTree) (l : Location) (content : ByteArray) : FileTree :=
  { tree with files := (l, content) :: tree.files.filter fun file => file.1 != l }

/-- Whether a location is that of a directory. -/
def isDirectory (tree : FileTree) (l : Location) : Bool :=
  (tree.current :: tree.directories).any (fun d => l.isPrefixOf d)
    || tree.files.any fun file => l.isPrefixOf file.1 && file.1 != l

theorem lookup_filter_of_ne {l l' : Location} (h : l' ≠ l) :
    ∀ files : List (Location × ByteArray),
      (files.filter fun file => file.1 != l).lookup l' = files.lookup l'
  | [] => rfl
  | (k, content) :: files => by
    have ih := lookup_filter_of_ne h files
    by_cases hk : k = l
    · subst hk
      simp only [List.filter_cons, bne_self_eq_false, Bool.false_eq_true, if_false,
        List.lookup_cons, beq_eq_false_iff_ne.2 h, ih]
    · simp only [List.filter_cons, bne_iff_ne.2 hk, if_true, List.lookup_cons, ih]

/-- Putting a file changes that file and no other. -/
theorem get?_put (tree : FileTree) (l l' : Location) (content : ByteArray) :
    (tree.put l content).get? l' = if l' = l then some content else tree.get? l' := by
  by_cases h : l' = l
  · simp only [get?, put, List.lookup_cons, h, beq_self_eq_true, if_true]
  · simp only [get?, put, List.lookup_cons, beq_eq_false_iff_ne.2 h, lookup_filter_of_ne h,
      if_neg h]

/-! ## Following a path -/

/-- Where a path starts. -/
def start (tree : FileTree) (path : Path) : Location :=
  if path.isAbsolute then [] else tree.current

/-- Follows one name. -/
def followName (tree : FileTree) (l : Location) (name : Name) : Except FileFault Location :=
  if (tree.get? l).isSome then .error .throughFile
  else if name.staysHere then .ok l
  else if name.goesUp then .ok l.dropLast
  else if (tree.get? (l ++ [name])).isSome || tree.isDirectory (l ++ [name]) then
    .ok (l ++ [name])
  else .error .missing

/-- Follows names one after the other. -/
def follow (tree : FileTree) (l : Location) (names : List Name) : Except FileFault Location :=
  names.foldlM tree.followName l

/-! ## Reading and writing -/

/-- Refuses a path that the system does not even look for. -/
def checkPath (path : Path) : Except FileFault Unit :=
  if path.hasZero then .error .zeroByte
  else if path.bytes = [] then .error .missing
  else .ok ()

/-- The location that a path leads to. -/
def locate (tree : FileTree) (path : Path) : Except FileFault Location := do
  checkPath path
  tree.follow (tree.start path) path.parts

/-- The content of the file that a path stands for. -/
def read (tree : FileTree) (path : Path) : Except FileFault ByteArray := do
  match tree.get? (← tree.locate path) with
  | some content => .ok content
  | none => .error .directory

/-- The location at which a path lets a file be written. -/
def target (tree : FileTree) (path : Path) : Except FileFault Location := do
  checkPath path
  match path.parts.reverse.dropWhile List.isEmpty with
  | [] => .error .directory
  | name :: directoryReversed =>
    if Name.staysHere name || Name.goesUp name then do
      let _ ← tree.follow (tree.start path) (name :: directoryReversed).reverse
      .error .directory
    else do
      let l ← tree.follow (tree.start path) directoryReversed.reverse
      if (tree.get? l).isSome then .error .throughFile
      else if path.endsWithSlash || tree.isDirectory (l ++ [name]) then .error .directory
      else .ok (l ++ [name])

/-- A tree of files as a file store. -/
def store : FileStore (StateM FileTree) where
  read path := do return (← get).read path
  write path content := do
    match (← get).target path with
    | .error fault => return .error fault
    | .ok l =>
      modify fun tree => tree.put l content
      return .ok ()

end FileTree

end TokenEdit
