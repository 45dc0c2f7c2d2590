import ViewBundle.Settings

/-!
# From references to files

An entry of a run is a path; a reference in an import is a path if it begins like one, and else
the name of a module.  A path stands for the file it names, for that file with a recognized
extension left out, or for the `index` file of a directory.  A module is looked for in the module
directories of every enclosing directory, nearest first.

Which files are asked for on behalf of a reference or an entry, whatever files there are, is known
before any of them is looked for (`candidates`, `entryCandidates`).
-/

namespace ViewBundle

/-- What a reference is taken to be, judged by its text alone. -/
inductive ReferenceKind where
  /-- A path to a file or a directory. -/
  | path
  /-- A path that can only name a directory. -/
  | directory
  /-- A name that is looked for in module directories. -/
  | moduleName
  deriving DecidableEq, Repr

/-- What a reference is taken to be. -/
def ReferenceKind.of (reference : String) : ReferenceKind :=
  let text := reference.toList
  let namesDirectory := reference == "." || reference == ".." || text.getLast? == some '/'
  if namesDirectory && (text.head? == some '.' || text.head? == some '/') then .directory
  else if "./".toList.isPrefixOf text || "../".toList.isPrefixOf text ||
    Path.isAbsolute ⟨reference⟩ then .path
  else .moduleName

namespace Settings

variable {κ σ : Type} [FileStore σ]

/-- A path as it is, and with each recognized extension added. -/
def fileCandidates (settings : Settings κ) (candidate : Path) : List Path :=
  candidate :: settings.extensions.map candidate.withSuffix

/-- The file that a path stands for as it is or with a recognized extension added. -/
def fileAt? (settings : Settings κ) (store : σ) (candidate : Path) : Option Path :=
  (settings.fileCandidates candidate).find? (FileStore.isFile store)

/-- The index file of a directory. -/
def indexAt? (settings : Settings κ) (store : σ) (directory : Path) : Option Path :=
  if FileStore.isDirectory store directory then
    settings.fileAt? store (directory.join ⟨"index"⟩)
  else none

/-- The file that a path stands for, or the index file of the directory that it names. -/
def placeAt? (settings : Settings κ) (store : σ) (candidate : Path) : Option Path :=
  (settings.fileAt? store candidate).or (settings.indexAt? store candidate)

/-- The module directories of a directory and of those around it, nearest first; a directory that
is itself a module directory has none. -/
def moduleSearchPaths (settings : Settings κ) (base : Path) : List Path :=
  (Component.ancestors base.normalize.components).flatMap fun components =>
    if (components.getLast?.bind Component.name?).any (settings.moduleDirectories.contains ·) then
      []
    else settings.moduleDirectories.map fun directory =>
      (Path.ofComponents components).join ⟨directory⟩

/-- The file that a module name stands for. -/
def moduleAt? (settings : Settings κ) (store : σ) (reference : String) (base : Path) :
    Option Path :=
  (settings.moduleSearchPaths base).findSome? fun directory =>
    settings.placeAt? store (directory.join ⟨reference⟩).normalize

/-- The file that a reference stands for, if there is one. -/
def resolve? (settings : Settings κ) (store : σ) (reference : String) (base : Path) :
    Option Path :=
  match ReferenceKind.of reference with
  | .path => settings.placeAt? store (base.join ⟨reference⟩).normalize
  | .directory => settings.indexAt? store (base.join ⟨reference⟩).normalize
  | .moduleName => settings.moduleAt? store reference base

/-- The file that a reference in a file of the directory `base` stands for. -/
def resolve (settings : Settings κ) (store : σ) (reference : String) (base : Path) :
    Except Failure Path :=
  match settings.resolve? store reference base with
  | some file => .ok file
  | none => .error (.fileNotFound reference base)

/-- The file that an entry stands for, which is a path and never the name of a module. -/
def resolveEntry (settings : Settings κ) (store : σ) (entry base : Path) : Except Failure Path :=
  match settings.placeAt? store (base.join entry).normalize with
  | some file => .ok file
  | none => .error (.fileNotFound entry.text base)

/-! ## What a reference can stand for at all -/

/-- The files that a path can stand for: itself or with an extension, then an index file. -/
def placeCandidates (settings : Settings κ) (candidate : Path) : List Path :=
  settings.fileCandidates candidate ++ settings.fileCandidates (candidate.join ⟨"index"⟩)

/-- The files that a reference in a file of the directory `base` can stand for. -/
def candidates (settings : Settings κ) (reference : String) (base : Path) : List Path :=
  match ReferenceKind.of reference with
  | .path => settings.placeCandidates (base.join ⟨reference⟩).normalize
  | .directory => settings.fileCandidates ((base.join ⟨reference⟩).normalize.join ⟨"index"⟩)
  | .moduleName =>
    (settings.moduleSearchPaths base).flatMap fun directory =>
      settings.placeCandidates (directory.join ⟨reference⟩).normalize

/-- The files that an entry can stand for. -/
def entryCandidates (settings : Settings κ) (entry base : Path) : List Path :=
  settings.placeCandidates (base.join entry).normalize

end Settings

end ViewBundle
