import ViewBundle.FileStore

/-!
# Disks

A file system with directories of their own and files of bytes, as an operating system sees it: a
path is walked from the root or from the working directory, every component that is walked
through must be a directory, and a path that ends in a slash or a dot names a directory only.  The
length of paths and of the names in them is limited.  Files can be written and directories made.
-/

namespace ViewBundle

/-- The names that lead from the root to a place. -/
abbrev Location := List String

/-- What stands at a location. -/
inductive DiskNode where
  | directory
  | file (bytes : ByteArray)

instance : DecidableEq DiskNode
  | .directory, .directory => isTrue rfl
  | .directory, .file _ => isFalse nofun
  | .file _, .directory => isFalse nofun
  | .file bytes, .file other =>
    match ByteArray.instDecidableEq bytes other with
    | isTrue h => isTrue (congrArg DiskNode.file h)
    | isFalse h => isFalse fun hnode => h (DiskNode.file.inj hnode)

/-- A file system and the directory from which relative paths are walked. -/
structure Disk where
  /-- What stands where; the root is a directory in any case. -/
  nodes : List (Location × DiskNode)
  /-- Where relative paths begin. -/
  workingDirectory : Location

namespace Disk

/-- What stands at a location. -/
def node? (disk : Disk) (location : Location) : Option DiskNode :=
  if location = [] then some .directory else disk.nodes.lookup location

/-- Replaces what stands at a location, or puts something there. -/
def putNode (location : Location) (node : DiskNode) :
    List (Location × DiskNode) → List (Location × DiskNode)
  | [] => [(location, node)]
  | entry :: rest =>
    if entry.1 = location then (location, node) :: rest else entry :: putNode location node rest

/-- The disk with something put at a location. -/
def put (disk : Disk) (location : Location) (node : DiskNode) : Disk :=
  { disk with nodes := putNode location node disk.nodes }

/-- Where a path begins. -/
def start (disk : Disk) (path : Path) : Location :=
  if path.isAbsolute then [] else disk.workingDirectory

/-- The location that one component leads to. -/
def enter (location : Location) : Component → Location
  | .root => []
  | .current => location
  | .parent => location.dropLast
  | .normal name => location ++ [name]

/-- The location that components lead to, each of them entered from a directory. -/
def walk (disk : Disk) : Location → List Component → Option Location
  | location, [] => some location
  | location, component :: more =>
    if disk.node? location = some .directory then disk.walk (enter location component) more
    else none

/-- Whether a path can only name a directory, because it ends in a slash or a dot. -/
def namesDirectory (path : Path) : Bool :=
  match (Text.pieces '/' path.text.toList).getLast? with
  | some last => path.text ≠ "" && Path.isSilent last
  | none => false

/-- Whether a path is short enough: it has less than 4096 bytes, and no name in it has more than
255. -/
def isShort (path : Path) : Bool :=
  path.text.utf8ByteSize < 4096 && path.components.all (·.text.utf8ByteSize ≤ 255)

/-- The location that a path names, if the path is short enough. -/
def locate (disk : Disk) (path : Path) : Option Location :=
  if isShort path then disk.walk (disk.start path) path.components else none

/-- What a path names. -/
def at? (disk : Disk) (path : Path) : Option DiskNode :=
  match (disk.locate path).bind disk.node? with
  | some (.file bytes) => if namesDirectory path then none else some (.file bytes)
  | node => node

/-- Whether there is a file at a path. -/
def isFile (disk : Disk) (path : Path) : Bool :=
  match disk.at? path with
  | some (.file _) => true
  | _ => false

/-- Whether there is a directory at a path. -/
def isDirectory (disk : Disk) (path : Path) : Bool :=
  disk.at? path = some .directory

/-- The text of the file at a path. -/
def read (disk : Disk) (path : Path) : Except ReadFailure String :=
  match disk.at? path with
  | some (.file bytes) =>
    match String.fromUTF8? bytes with
    | some text => .ok text
    | none => .error .notText
  | _ => .error (.missing path)

/-- A file that is found as it is written has a path in normal form, and one that is found by an
extension has the path in normal form of a file or a directory in front of that extension. -/
instance : FileStore Disk where
  isFile := isFile
  isDirectory := isDirectory
  read := read
  chainBound disk extensions := (disk.nodes.length + 1) * (extensions.length + 1)

/-- The disk with the directories made that components lead through. -/
def makeDirectoriesFrom (disk : Disk) : Location → List Component → Option Disk
  | _, [] => some disk
  | location, component :: more =>
    let next := enter location component
    match disk.node? next with
    | some .directory => disk.makeDirectoriesFrom next more
    | some (.file _) => none
    | none => (disk.put next .directory).makeDirectoriesFrom next more

/-- The disk with a directory made at a path, and those around it. -/
def makeDirectories (disk : Disk) (path : Path) : Option Disk :=
  if isShort path then disk.makeDirectoriesFrom (disk.start path) path.components else none

/-- The disk with a text written to a file, whose directory must be there. -/
def write (disk : Disk) (path : Path) (text : String) : Option Disk :=
  match path.components.getLast? with
  | some (.normal _) =>
    if namesDirectory path then none
    else match disk.locate path with
      | none => none
      | some location =>
        if disk.node? location = some .directory ∨
            disk.node? location.dropLast ≠ some .directory then none
        else some (disk.put location (.file text.toUTF8))
  | _ => none

/-- The absolute path of a location. -/
def pathOf (location : Location) : Path :=
  .ofComponents (.root :: location.map .normal)

/-- The texts of the files that are new or changed against an earlier disk, ordered by the names
that lead to them. -/
def changes (disk earlier : Disk) : List (Location × String) :=
  let changed := disk.nodes.filterMap fun (location, node) =>
    match node with
    | .directory => none
    | .file bytes =>
      if earlier.node? location = some (.file bytes) then none
      else some (location, (String.fromUTF8? bytes).getD "")
  changed.mergeSort fun one other => (compare one.1 other.1).isLE

/-- The disk with a file that components lead to, and with the directories that they lead
through. -/
def addFileFrom (disk : Disk) (bytes : ByteArray) : Location → List Component → Disk
  | location, [] => disk.put location (.file bytes)
  | location, component :: more =>
    let disk := if (disk.node? location).isSome then disk else disk.put location .directory
    disk.addFileFrom bytes (enter location component) more

/-- The disk with a file at a path, and with the directories that the path leads through. -/
def addFile (disk : Disk) (path : Path) (bytes : ByteArray) : Disk :=
  disk.addFileFrom bytes (disk.start path) path.components

/-- The disk that holds nothing but its working directory, and the directories around that. -/
def empty (workingDirectory : Location) : Disk where
  nodes := (List.range workingDirectory.length).map fun n =>
    (workingDirectory.take (n + 1), .directory)
  workingDirectory

end Disk

end ViewBundle
