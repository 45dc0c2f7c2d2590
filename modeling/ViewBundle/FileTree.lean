import ViewBundle.FileStore

/-!
# File trees in memory

Files are kept by the components of their paths, so that equal paths name one file however they
are written.  Directories are never made on their own: every proper ancestor of a file is one.
They are kept as a list, to which an insertion adds ancestors only up to the first one that is
already there.
-/

namespace ViewBundle

/-- A tree of text files. -/
structure FileTree where
  /-- The files by the components of their paths. -/
  files : List (List Component × String)
  /-- The components of the directories. -/
  directories : List (List Component)
  deriving DecidableEq

namespace FileTree

/-- The tree without files. -/
def empty : FileTree :=
  ⟨[], []⟩

/-- Adds directories, nearest to the file first, up to the first one that is already there. -/
def addDirectories (known : List (List Component)) :
    List (List Component) → List (List Component)
  | [] => known
  | directory :: outer =>
    if directory ∈ known then known else addDirectories (known ++ [directory]) outer

/-- Replaces the text of the file with these components, or adds a file. -/
def putFile (components : List Component) (contents : String) :
    List (List Component × String) → List (List Component × String)
  | [] => [(components, contents)]
  | file :: rest =>
    if file.1 = components then (components, contents) :: rest
    else file :: putFile components contents rest

/-- The tree with a file added or replaced. -/
def insert (tree : FileTree) (path : Path) (contents : String) : FileTree where
  files := putFile path.components contents tree.files
  directories := addDirectories tree.directories (Component.properAncestors path.components)

/-- The tree that insertions leave when they are made in order. -/
def ofList (files : List (Path × String)) : FileTree :=
  files.foldl (fun tree file => tree.insert file.1 file.2) empty

/-- The text of the file at a path. -/
def contents? (tree : FileTree) (path : Path) : Option String :=
  tree.files.lookup path.components

/-- Whether there is a file at a path. -/
def isFile (tree : FileTree) (path : Path) : Bool :=
  (tree.contents? path).isSome

/-- Whether there is a directory at a path. -/
def isDirectory (tree : FileTree) (path : Path) : Bool :=
  tree.directories.contains path.components

/-- The text of the file at a path, or the failure to find it. -/
def read (tree : FileTree) (path : Path) : Except ReadFailure String :=
  match tree.contents? path with
  | some contents => .ok contents
  | none => .error (.missing path)

/-- A chain of imports holds every file of the tree at most once. -/
instance : FileStore FileTree where
  isFile := isFile
  isDirectory := isDirectory
  read := read
  chainBound tree _ := tree.files.length

end FileTree

end ViewBundle
