import Fndr.Library.Strings
import Mathlib.Logic.Function.Basic

set_option autoImplicit false

/-! # Paths and files

A `Path` is the list of its components, with the functions of `std::path` that look at the last one.
A `FileSystem` says which file or directory is at each path. Paths are equal when their components
are, and there are no links. A path that ends in `..`, or in no component, is a directory or
nothing; that a regular file has a name is a field of the structure.

An operation gives the files it leaves, or why it failed. It changes nothing at another path
(`create_eq_ok`, `put_eq_ok`, `removeFile_eq_ok`, `write_other`). -/

namespace RustStd

/-- What a file operation reports. -/
structure IoError where
  message : Str
  deriving DecidableEq

/-! ## Paths -/

/-- One part of a path. -/
inductive Component
  | rootDir
  | curDir
  | parentDir
  | normal (name : Str)
  deriving DecidableEq

/-- A path as `std::path` takes it apart. -/
structure Path where
  components : List Component
  deriving DecidableEq

/-- `Path::file_name`. -/
def Path.fileName (path : Path) : Option Str :=
  match path.components.getLast? with
  | some (.normal name) => some name
  | _ => none

/-- `Path::parent`. -/
def Path.parent (path : Path) : Option Path :=
  match path.components.getLast? with
  | none => none
  | some .rootDir => none
  | some _ => some ⟨path.components.dropLast⟩

/-- The character is no dot. -/
def notDot (c : Char) : Bool := decide (c ≠ '.')

/-- A name split at its last dot, unless it has none but its first character. -/
def rsplitFileAtDot (file : Str) : Option Str × Option Str :=
  if file = "..".toList then (some file, none)
  else
    let upToDot := file.rdropWhile notDot
    if upToDot = [] then (none, some file)
    else if upToDot.dropLast = [] then (some file, none)
    else (some upToDot.dropLast, some (file.rtakeWhile notDot))

/-- `Path::file_stem`. -/
def Path.fileStem (path : Path) : Option Str :=
  path.fileName.bind (fun file => (rsplitFileAtDot file).1.or (rsplitFileAtDot file).2)

/-- `Path::extension`. -/
def Path.extension (path : Path) : Option Str :=
  path.fileName.bind (fun file => (rsplitFileAtDot file).1.bind (fun _ => (rsplitFileAtDot file).2))

/-- `Path::with_extension`. -/
def Path.withExtension (path : Path) (extension : Str) : Path :=
  match path.fileStem with
  | none => path
  | some stem =>
      let name := if extension = [] then stem else stem ++ '.' :: extension
      ⟨path.components.dropLast ++ [.normal name]⟩

theorem eq_of_upToDot {file : Str} (h : file.rdropWhile notDot ≠ []) :
    file = (file.rdropWhile notDot).dropLast ++ '.' :: file.rtakeWhile notDot := by
  have hdot : (file.rdropWhile notDot).getLast h = '.' := by
    simpa [notDot] using List.rdropWhile_last_not notDot file h
  calc file = file.rdropWhile notDot ++ file.rtakeWhile notDot :=
        List.rdropWhile_append_rtakeWhile.symm
    _ = ((file.rdropWhile notDot).dropLast ++ ['.']) ++ file.rtakeWhile notDot := by
        rw [← hdot, List.dropLast_append_getLast h]
    _ = _ := List.append_assoc _ _ _

/-- A name without an extension is its own stem, and one with an extension is its stem, a dot and
    the extension. -/
theorem Path.stem_cases {path : Path} {file : Str} (h : path.fileName = some file) :
    (path.fileStem = some file ∧ path.extension = none) ∨
      ∃ stem extension, path.fileStem = some stem ∧ path.extension = some extension ∧
        file = stem ++ '.' :: extension := by
  simp only [fileStem, extension, h, Option.bind_some, rsplitFileAtDot]
  split_ifs with hparent hnone hfirst
  · exact Or.inl ⟨rfl, rfl⟩
  · exact Or.inl ⟨rfl, rfl⟩
  · exact Or.inl ⟨rfl, rfl⟩
  · exact Or.inr ⟨_, _, rfl, rfl, eq_of_upToDot hnone⟩

theorem Path.withExtension_of_nameless {path : Path} (h : path.fileName = none) (extension : Str) :
    path.withExtension extension = path := by
  rw [withExtension, fileStem, h, Option.bind_none]

theorem Path.fileName_withExtension {path : Path} {stem extension : Str}
    (h : path.fileStem = some stem) (hext : extension ≠ []) :
    (path.withExtension extension).fileName = some (stem ++ '.' :: extension) := by
  simp only [withExtension, h, if_neg hext, fileName, List.getLast?_concat]

theorem Path.withExtension_named {path : Path} {extension : Str} (hext : extension ≠ [])
    (hnamed : path.fileName.isSome = true) :
    (path.withExtension extension).fileName.isSome = true := by
  obtain ⟨file, hfile⟩ := Option.isSome_iff_exists.1 hnamed
  rcases path.stem_cases hfile with ⟨hstem, -⟩ | ⟨stem, -, hstem, -, -⟩
  · rw [Path.fileName_withExtension hstem hext]; rfl
  · rw [Path.fileName_withExtension hstem hext]; rfl

/-- Changing the extension to another one changes the path. -/
theorem Path.withExtension_ne {path : Path} {extension : Str} (hext : extension ≠ [])
    (hother : path.extension ≠ some extension) (hnamed : path.fileName.isSome = true) :
    path.withExtension extension ≠ path := by
  intro hsame
  obtain ⟨file, hfile⟩ := Option.isSome_iff_exists.1 hnamed
  rcases path.stem_cases hfile with ⟨hstem, -⟩ | ⟨stem, old, hstem, hold, hsplit⟩
  · have hname := Path.fileName_withExtension hstem hext
    rw [hsame, hfile, Option.some_inj] at hname
    simpa using congrArg List.length hname
  · have hname := Path.fileName_withExtension hstem hext
    rw [hsame, hfile, Option.some_inj, hsplit] at hname
    have htail := List.append_cancel_left hname
    rw [List.cons.injEq] at htail
    exact hother (hold.trans (congrArg some htail.2))

/-! ## Files -/

/-- What is at a path. The length of a directory is whatever the system reports. -/
inductive Node
  | file (content : List UInt8)
  | directory (len : ℕ)
  deriving DecidableEq

/-- The length that the metadata give. -/
def Node.len : Node → ℕ
  | .file content => content.length
  | .directory len => len

/-- What stands under each path; a file has a name. -/
structure FileSystem where
  node : Path → Option Node
  named : ∀ path content, node path = some (.file content) → path.fileName.isSome = true

/-- Nothing is there. -/
def FileSystem.empty : FileSystem := ⟨fun _ => none, fun _ _ h => nomatch h⟩

/-- A regular file with a content. -/
def FileSystem.set (files : FileSystem) (path : Path) (content : List UInt8)
    (h : path.fileName.isSome = true) : FileSystem where
  node := Function.update files.node path (some (.file content))
  named other content' hother := by
    by_cases hsame : other = path
    · rw [hsame]; exact h
    · rw [Function.update_of_ne hsame] at hother
      exact files.named other content' hother

/-- The path with nothing under it. -/
def FileSystem.erase (files : FileSystem) (path : Path) : FileSystem where
  node := Function.update files.node path none
  named other content hother := by
    by_cases hsame : other = path
    · rw [hsame, Function.update_self] at hother
      cases hother
    · rw [Function.update_of_ne hsame] at hother
      exact files.named other content hother

@[simp] theorem FileSystem.set_self (files : FileSystem) (path : Path) (content : List UInt8)
    (h : path.fileName.isSome = true) : (files.set path content h).node path = some (.file content) :=
  Function.update_self ..

theorem FileSystem.set_other {files : FileSystem} {path other : Path} {content : List UInt8}
    {h : path.fileName.isSome = true} (hother : other ≠ path) :
    (files.set path content h).node other = files.node other :=
  Function.update_of_ne hother ..

@[simp] theorem FileSystem.erase_self (files : FileSystem) (path : Path) :
    (files.erase path).node path = none :=
  Function.update_self ..

theorem FileSystem.erase_other {files : FileSystem} {path other : Path} (hother : other ≠ path) :
    (files.erase path).node other = files.node other :=
  Function.update_of_ne hother ..

/-- `ENOENT`. -/
def noEntry : IoError := ⟨"No such file or directory (os error 2)".toList⟩

/-- `EISDIR`. -/
def isDirectory : IoError := ⟨"Is a directory (os error 21)".toList⟩

/-- The bytes of the file at a path, as an open for reading or for writing finds them. -/
def FileSystem.content (files : FileSystem) (path : Path) : Except IoError (List UInt8) :=
  match files.node path with
  | some (.file content) => .ok content
  | some (.directory _) => .error isDirectory
  | none => .error noEntry

/-- `fs::metadata(path)?.len()`. -/
def FileSystem.len (files : FileSystem) (path : Path) : Except IoError ℕ :=
  match files.node path with
  | some node => .ok node.len
  | none => .error noEntry

/-- `File::create`: a new file, or one that is made empty. -/
def FileSystem.create (path : Path) (files : FileSystem) : Except IoError FileSystem :=
  match files.node path with
  | some (.directory _) => .error isDirectory
  | _ => if h : path.fileName.isSome = true then .ok (files.set path [] h) else .error noEntry

/-- A file with a content, unless a directory is in the way. -/
def FileSystem.put (path : Path) (content : List UInt8) (files : FileSystem) :
    Except IoError FileSystem :=
  match files.node path with
  | some (.directory _) => .error isDirectory
  | _ =>
      if h : path.fileName.isSome = true then .ok (files.set path content h) else .error noEntry

/-- `fs::remove_file`. -/
def FileSystem.removeFile (path : Path) (files : FileSystem) : Except IoError FileSystem :=
  match files.node path with
  | some (.file _) => .ok (files.erase path)
  | some (.directory _) => .error isDirectory
  | none => .error noEntry

/-- `fs::rename` of a regular file, which replaces a regular file. -/
def FileSystem.rename (source target : Path) (files : FileSystem) : Except IoError FileSystem :=
  match files.node source, files.node target with
  | none, _ => .error noEntry
  | some (.directory _), _ => .error isDirectory
  | some (.file _), some (.directory _) => .error isDirectory
  | some (.file content), _ =>
      if h : target.fileName.isSome = true then
        if source = target then .ok files else .ok ((files.erase source).set target content h)
      else .error noEntry

/-- An open file and the position of its next write. -/
structure OpenFile where
  path : Path
  position : ℕ

/-- The content after one byte is written at a position; a gap is filled with zeros. -/
def overwrite (content : List UInt8) (position : ℕ) (byte : UInt8) : List UInt8 :=
  content.take position ++ List.replicate (position - content.length) 0 ++
    byte :: content.drop (position + 1)

/-- One byte written. A file that is gone takes it with it. -/
def FileSystem.write (files : FileSystem) (file : OpenFile) (byte : UInt8) : FileSystem :=
  match h : files.node file.path with
  | some (.file content) =>
      files.set file.path (overwrite content file.position byte) (files.named _ _ h)
  | _ => files

/-! ## What the operations do -/

variable {files after : FileSystem} {path other source target : Path} {content : List UInt8}

theorem FileSystem.content_eq_ok : files.content path = .ok content ↔
    files.node path = some (.file content) := by
  unfold FileSystem.content
  constructor
  · intro h
    split at h
    · next hnode => rw [hnode, Except.ok.inj h]
    · cases h
    · cases h
  · intro h
    rw [h]

theorem FileSystem.create_eq_ok (h : create path files = .ok after) :
    path.fileName.isSome = true ∧ after.node path = some (.file []) ∧
      ∀ other, other ≠ path → after.node other = files.node other := by
  unfold create at h
  split at h
  · cases h
  · split_ifs at h with hnamed
    obtain rfl := Except.ok.inj h
    exact ⟨hnamed, set_self .., fun other hother => set_other hother⟩

theorem FileSystem.create_ok (hnamed : path.fileName.isSome = true)
    (hfile : ∀ len, files.node path ≠ some (.directory len)) :
    ∃ after, create path files = .ok after := by
  unfold create
  split
  · next len hnode => exact absurd hnode (hfile len)
  · exact ⟨_, dif_pos hnamed⟩

theorem FileSystem.put_eq_ok (h : put path content files = .ok after) :
    after.node path = some (.file content) ∧
      ∀ other, other ≠ path → after.node other = files.node other := by
  unfold put at h
  split at h
  · cases h
  · split_ifs at h with hnamed
    obtain rfl := Except.ok.inj h
    exact ⟨set_self .., fun other hother => set_other hother⟩

theorem FileSystem.removeFile_eq_ok (h : removeFile path files = .ok after) :
    path.fileName.isSome = true ∧ after = files.erase path := by
  unfold removeFile at h
  split at h
  · next content hnode => exact ⟨files.named path content hnode, (Except.ok.inj h).symm⟩
  · cases h
  · cases h

theorem FileSystem.removeFile_ok (h : files.node path = some (.file content)) :
    removeFile path files = .ok (files.erase path) := by
  rw [removeFile, h]

theorem FileSystem.rename_eq_ok (h : rename source target files = .ok after) :
    ∃ content, files.node source = some (.file content) ∧
      after.node target = some (.file content) := by
  unfold rename at h
  split at h
  · cases h
  · cases h
  · cases h
  · next content hsource htarget =>
    split_ifs at h with hnamed hsame
    · obtain rfl := Except.ok.inj h
      exact ⟨content, hsource, hsame ▸ hsource⟩
    · obtain rfl := Except.ok.inj h
      exact ⟨content, hsource, set_self ..⟩

theorem FileSystem.rename_ok (hsource : files.node source = some (.file content))
    (htarget : ∀ len, files.node target ≠ some (.directory len))
    (hnamed : target.fileName.isSome = true) : ∃ after, rename source target files = .ok after := by
  unfold rename
  split
  · next hnone => rw [hsource] at hnone; cases hnone
  · next hdirectory => rw [hsource] at hdirectory; cases hdirectory
  · next hdirectory => exact absurd hdirectory (htarget _)
  · rw [dif_pos hnamed]
    split_ifs
    · exact ⟨_, rfl⟩
    · exact ⟨_, rfl⟩

/-- The path of a file that is written has a name. -/
theorem FileSystem.write_other {file : OpenFile} {byte : UInt8}
    (h : file.path.fileName.isSome = true → other ≠ file.path) :
    (files.write file byte).node other = files.node other := by
  unfold write
  split
  · next content hnode => exact set_other (h (files.named _ content hnode))
  · rfl

theorem FileSystem.write_self {file : OpenFile} {byte : UInt8}
    (h : files.node file.path = some (.file content)) :
    (files.write file byte).node file.path = some (.file (overwrite content file.position byte)) := by
  unfold write
  split
  · next content' hnode =>
    rw [h] at hnode
    cases hnode
    exact set_self ..
  · next hnone => exact absurd h (hnone content)

theorem overwrite_length (content : List UInt8) (byte : UInt8) :
    overwrite content content.length byte = content ++ [byte] := by
  rw [overwrite, List.take_length, Nat.sub_self, List.replicate_zero, List.append_nil,
    List.drop_eq_nil_of_le (Nat.le_succ _)]

end RustStd
