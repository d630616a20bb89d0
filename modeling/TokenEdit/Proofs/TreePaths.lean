import TokenEdit.Files.Tree
import TokenEdit.Proofs.Except

/-!
# Paths in a tree of files

A file is written where there is a directory for it and no directory in its place
(`FileTree.Fits`).  Then it is in the way of no path: what was a directory still is one, and a path
that led somewhere leads to the same place.  So all paths that stand for the file have the new
content, and all others have what they had before.

* `FileTree.isDirectory_put`: the directories stay the same.
* `FileTree.followName_put`, `FileTree.locate_put`: a name, and so a path, leads where it led.
* `FileTree.fits_of_target`, `FileTree.read_put_of_target`: a path that lets a file be written leads
  to that file afterwards.
-/

namespace TokenEdit

/-! ## The parts of a path -/

namespace Path

theorem split_cons (byte : UInt8) (bytes : List UInt8) :
    split (byte :: bytes) =
      if byte = slash then [] :: split bytes
      else match split bytes with
        | [] => [[byte]]
        | part :: parts => (byte :: part) :: parts := rfl

theorem split_ne_nil (bytes : List UInt8) : split bytes ≠ [] := by
  cases bytes with
  | nil => exact List.cons_ne_nil _ _
  | cons byte bytes =>
    rw [split_cons]
    split
    · exact List.cons_ne_nil _ _
    · split
      all_goals exact List.cons_ne_nil _ _

/-- A path has a last name unless it ends with a slash. -/
theorem getLast?_split_ne {bytes : List UInt8} (hne : bytes ≠ [])
    (hlast : bytes.getLast? ≠ some slash) : (split bytes).getLast? ≠ some [] := by
  induction bytes with
  | nil => exact absurd rfl hne
  | cons byte bytes ih =>
    rw [split_cons]
    cases bytes with
    | nil =>
      have hbyte : byte ≠ slash := by
        rintro rfl
        exact hlast rfl
      rw [if_neg hbyte]
      simp [split]
    | cons next bytes =>
      rw [List.getLast?_cons_cons] at hlast
      have hrest := ih (List.cons_ne_nil _ _) hlast
      obtain ⟨part, parts, hparts⟩ := List.exists_cons_of_ne_nil (split_ne_nil (next :: bytes))
      rw [hparts] at hrest ⊢
      split
      · rwa [List.getLast?_cons_cons]
      · cases parts with
        | nil => simp
        | cons next parts => rwa [List.getLast?_cons_cons] at hrest ⊢

/-- Only a path that ends with a slash has empty names at its end. -/
theorem dropWhile_isEmpty_reverse_parts {path : Path} (hne : path.bytes ≠ [])
    (hlast : path.endsWithSlash = false) :
    path.parts.reverse.dropWhile List.isEmpty = path.parts.reverse := by
  have hname : path.parts.getLast? ≠ some [] :=
    getLast?_split_ne hne (of_decide_eq_false hlast)
  rw [← List.head?_reverse] at hname
  cases hparts : path.parts.reverse with
  | nil => rfl
  | cons name directory =>
    rw [hparts, List.head?_cons] at hname
    refine List.dropWhile_cons_of_neg fun hempty => hname ?_
    rw [List.isEmpty_iff.1 hempty]

end Path

namespace FileTree

/-! ## Directories -/

/-- A directory is above, or is, one that is always there, or something lies in it. -/
theorem isDirectory_iff {tree : FileTree} {d : Location} :
    tree.isDirectory d = true ↔
      (∃ kept ∈ tree.current :: tree.directories, d <+: kept) ∨
        ∃ file ∈ tree.files, d <+: file.1 ∧ file.1 ≠ d := by
  simp [isDirectory]

/-- What is above a directory is a directory. -/
theorem isDirectory_above {tree : FileTree} {d below : Location}
    (h : tree.isDirectory below = true) (habove : d <+: below) : tree.isDirectory d = true := by
  rw [isDirectory_iff] at h ⊢
  obtain ⟨kept, hmem, hkept⟩ | ⟨file, hmem, hbelow, hne⟩ := h
  · exact .inl ⟨kept, hmem, habove.trans hkept⟩
  · refine .inr ⟨file, hmem, habove.trans hbelow, ?_⟩
    rintro rfl
    exact hne (hbelow.eq_of_length_le habove.length_le).symm

/-- What is above a location is the one right above it, or above that. -/
theorem isPrefix_dropLast {d l : Location} (h : d <+: l) (hne : l ≠ d) : d <+: l.dropLast := by
  obtain ⟨rest, rfl⟩ := h
  have hrest : rest ≠ [] := by
    rintro rfl
    exact hne (List.append_nil d)
  rw [List.dropLast_append_of_ne_nil hrest]
  exact List.prefix_append _ _

/-- A file can be put at a location: there is a directory for it, and no directory in its place. -/
structure Fits (tree : FileTree) (l : Location) : Prop where
  parent : tree.isDirectory l.dropLast = true
  free : tree.isDirectory l = false

/-- **The directories stay the same** when a file is put where it fits. -/
theorem isDirectory_put {tree : FileTree} {l : Location} (hl : tree.Fits l) (content : ByteArray)
    (d : Location) : (tree.put l content).isDirectory d = tree.isDirectory d := by
  rw [Bool.eq_iff_iff]
  constructor
  · intro h
    obtain hkept | ⟨file, hmem, hbelow, hne⟩ := isDirectory_iff.1 h
    · exact isDirectory_iff.2 (.inl hkept)
    · obtain rfl | hold := List.mem_cons.1 hmem
      · -- the new file lies in a directory that was there
        exact isDirectory_above hl.parent (isPrefix_dropLast hbelow hne)
      · exact isDirectory_iff.2 (.inr ⟨file, (List.mem_filter.1 hold).1, hbelow, hne⟩)
  · intro h
    obtain hkept | ⟨file, hmem, hbelow⟩ := isDirectory_iff.1 h
    · exact isDirectory_iff.2 (.inl hkept)
    · rw [isDirectory_iff]
      by_cases heq : file.1 = l
      · exact .inr ⟨(l, content), List.mem_cons_self, by rwa [← heq]⟩
      · exact .inr ⟨file, List.mem_cons_of_mem _ (List.mem_filter.2 ⟨hmem, by simp [heq]⟩), hbelow⟩

/-! ## Where paths lead -/

/-- A file or directory of the tree. -/
def Found (tree : FileTree) (l : Location) : Prop :=
  (tree.get? l).isSome = true ∨ tree.isDirectory l = true

/-- A path starts in a directory. -/
theorem found_start (tree : FileTree) (path : Path) : tree.Found (tree.start path) := by
  refine .inr (isDirectory_iff.2 (.inl ⟨tree.current, List.mem_cons_self, ?_⟩))
  rw [start]
  split
  · exact List.nil_prefix
  · exact List.prefix_rfl

theorem Found.isDirectory {tree : FileTree} {d : Location} (h : tree.Found d)
    (hfile : tree.get? d = none) : tree.isDirectory d = true :=
  h.resolve_left (by simp [hfile])

theorem Found.put {tree : FileTree} {d l : Location} (h : tree.Found d) (hl : tree.Fits l)
    (content : ByteArray) : (tree.put l content).Found d := by
  refine Or.imp (fun hfile => ?_) (fun hdir => ?_) h
  · rw [get?_put]
    split
    · rfl
    · exact hfile
  · rwa [isDirectory_put hl]

/-- Where a name leads from a directory. -/
theorem followName_eq_ok_iff {tree : FileTree} {d l : Location} {name : Name} :
    tree.followName d name = .ok l ↔
      tree.get? d = none ∧
        if name.staysHere then d = l
        else if name.goesUp then d.dropLast = l
        else tree.Found (d ++ [name]) ∧ d ++ [name] = l := by
  rw [followName]
  by_cases hfile : (tree.get? d).isSome = true
  · rw [if_pos hfile]
    refine ⟨nofun, fun h => ?_⟩
    rw [h.1] at hfile
    exact absurd hfile (by decide)
  · rw [if_neg hfile, and_iff_right (Option.not_isSome_iff_eq_none.1 hfile)]
    by_cases hstays : name.staysHere = true
    · rw [if_pos hstays, if_pos hstays, Except.ok.injEq]
    · rw [if_neg hstays, if_neg hstays]
      by_cases hup : name.goesUp = true
      · rw [if_pos hup, if_pos hup, Except.ok.injEq]
      · rw [if_neg hup, if_neg hup]
        by_cases hfound : tree.Found (d ++ [name])
        · rw [if_pos (Bool.or_eq_true_iff.2 hfound), and_iff_right hfound, Except.ok.injEq]
        · rw [if_neg (mt Bool.or_eq_true_iff.1 hfound)]
          exact ⟨nofun, fun h => absurd h.1 hfound⟩

/-- A name leads to what is there. -/
theorem Found.of_followName {tree : FileTree} {d l : Location} (hd : tree.Found d) {name : Name}
    (h : tree.followName d name = .ok l) : tree.Found l := by
  obtain ⟨hfile, h⟩ := followName_eq_ok_iff.1 h
  split at h
  · rwa [← h]
  · split at h
    · rw [← h]
      exact .inr (isDirectory_above (hd.isDirectory hfile) (List.dropLast_prefix d))
    · rw [← h.2]
      exact h.1

/-- A file that is put where it fits is in the way of no name that leads on from a directory. -/
theorem followName_put {tree : FileTree} {d d' : Location} (hd : tree.Found d) {name : Name}
    (h : tree.followName d name = .ok d') {l : Location} (hl : tree.Fits l) (content : ByteArray) :
    (tree.put l content).followName d name = .ok d' := by
  rw [followName_eq_ok_iff] at h ⊢
  obtain ⟨hfile, h⟩ := h
  have hne : d ≠ l := by
    rintro rfl
    exact absurd (hd.isDirectory hfile) (by simp [hl.free])
  refine ⟨by rw [get?_put, if_neg hne, hfile], ?_⟩
  by_cases hstays : name.staysHere = true
  · rwa [if_pos hstays] at h ⊢
  · by_cases hup : name.goesUp = true
    · rwa [if_neg hstays, if_pos hup] at h ⊢
    · rw [if_neg hstays, if_neg hup] at h ⊢
      exact ⟨h.1.put hl content, h.2⟩

/-- Names lead to what is there. -/
theorem Found.of_follow {tree : FileTree} {d l : Location} (hd : tree.Found d) {names : List Name}
    (h : tree.follow d names = .ok l) : tree.Found l := by
  induction names generalizing d with
  | nil =>
    obtain rfl : d = l := Except.ok.inj h
    exact hd
  | cons name names ih =>
    rw [follow, List.foldlM_cons] at h
    obtain ⟨next, hname, h⟩ := exists_of_bind_eq_ok h
    exact ih (hd.of_followName hname) h

theorem follow_put {tree : FileTree} {d d' : Location} (hd : tree.Found d) {names : List Name}
    (h : tree.follow d names = .ok d') {l : Location} (hl : tree.Fits l) (content : ByteArray) :
    (tree.put l content).follow d names = .ok d' := by
  induction names generalizing d with
  | nil => exact h
  | cons name names ih =>
    rw [follow, List.foldlM_cons] at h ⊢
    obtain ⟨next, hname, h⟩ := exists_of_bind_eq_ok h
    rw [followName_put hd hname hl content]
    exact ih (hd.of_followName hname) h

/-- **Paths lead where they led** when a file has been put where it fits. -/
theorem locate_put {tree : FileTree} {path : Path} {d l : Location}
    (h : tree.locate path = .ok d) (hl : tree.Fits l) (content : ByteArray) :
    (tree.put l content).locate path = .ok d := by
  rw [locate] at h ⊢
  obtain ⟨_, hcheck, h⟩ := exists_of_bind_eq_ok h
  rw [hcheck]
  exact follow_put (tree.found_start path) h hl content

/-! ## The path of a file that is written -/

/-- What it takes for a file to be written. -/
theorem exists_of_target_eq_ok {tree : FileTree} {path : Path} {l : Location}
    (h : tree.target path = .ok l) :
    checkPath path = .ok () ∧ ∃ directory name d, path.parts = directory ++ [name] ∧
      tree.follow (tree.start path) directory = .ok d ∧ tree.get? d = none ∧
      Name.staysHere name = false ∧ Name.goesUp name = false ∧ tree.isDirectory l = false ∧
      l = d ++ [name] := by
  obtain ⟨_, hcheck, h⟩ := exists_of_bind_eq_ok h
  refine ⟨hcheck, ?_⟩
  have hne : path.bytes ≠ [] := by
    intro hempty
    rw [checkPath, if_neg (by simp [Path.hasZero, hempty]), if_pos hempty] at hcheck
    exact absurd hcheck nofun
  split at h
  case h_1 => exact absurd h nofun
  case h_2 name directory hparts =>
    split at h
    case isTrue =>
      obtain ⟨_, -, h⟩ := exists_of_bind_eq_ok h
      exact absurd h nofun
    case isFalse hname =>
      obtain ⟨d, hfollow, h⟩ := exists_of_bind_eq_ok h
      split at h
      case isTrue => exact absurd h nofun
      case isFalse hfile =>
        split at h
        case isTrue => exact absurd h nofun
        case isFalse hfree =>
          obtain rfl : d ++ [name] = l := Except.ok.inj h
          simp only [Bool.or_eq_true, not_or, Bool.not_eq_true] at hname hfree
          rw [Path.dropWhile_isEmpty_reverse_parts hne hfree.1] at hparts
          exact ⟨directory.reverse, name, d, by simpa using congrArg List.reverse hparts, hfollow,
            Option.not_isSome_iff_eq_none.1 hfile, hname.1, hname.2, hfree.2, rfl⟩

/-- A file fits where it is written. -/
theorem fits_of_target {tree : FileTree} {path : Path} {l : Location}
    (h : tree.target path = .ok l) : tree.Fits l := by
  obtain ⟨-, directory, name, d, -, hfollow, hfile, -, -, hdir, rfl⟩ := exists_of_target_eq_ok h
  refine ⟨?_, hdir⟩
  rw [List.dropLast_concat]
  exact ((tree.found_start path).of_follow hfollow).isDirectory hfile

theorem follow_concat (tree : FileTree) (l : Location) (names : List Name) (name : Name) :
    tree.follow l (names ++ [name]) = tree.follow l names >>= fun l => tree.followName l name := by
  simp [follow]

theorem locate_put_of_target {tree : FileTree} {path : Path} {l : Location}
    (h : tree.target path = .ok l) (content : ByteArray) :
    (tree.put l content).locate path = .ok l := by
  have hl := fits_of_target h
  obtain ⟨hcheck, directory, name, d, hparts, hfollow, hfile, hstays, hup, -, rfl⟩ :=
    exists_of_target_eq_ok h
  have hdirectory := follow_put (tree.found_start path) hfollow hl content
  have hname : (tree.put (d ++ [name]) content).followName d name = .ok (d ++ [name]) := by
    rw [followName_eq_ok_iff, if_neg (by simp [hstays]), if_neg (by simp [hup])]
    refine ⟨?_, .inl ?_, rfl⟩
    · rw [get?_put, if_neg (by simp), hfile]
    · rw [get?_put, if_pos rfl]
      rfl
  rw [locate, hcheck, hparts]
  refine (follow_concat _ _ _ _).trans ?_
  exact (congrArg (· >>= _) hdirectory).trans hname

/-- **What has been written is read back.** -/
theorem read_put_of_target {tree : FileTree} {path : Path} {l : Location}
    (h : tree.target path = .ok l) (content : ByteArray) :
    (tree.put l content).read path = .ok content := by
  rw [read, locate_put_of_target h content]
  simp [bind, Except.bind, get?_put]

end FileTree

end TokenEdit
