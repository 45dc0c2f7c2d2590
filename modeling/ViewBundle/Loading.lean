import ViewBundle.Digest.Sha256
import ViewBundle.ViewFile

/-!
# Loading

Files are loaded along their imports, depth first and in order.  Every visit of a file leaves its
path, the digest of its text and the views it declares, behind the visits of its imports.  A file
that is imported several times is visited each time; a file that imports itself, directly or
through others, is refused.

The depth of nested imports is bounded by the place that holds the files, because files of a chain
are pairwise different.
-/

namespace ViewBundle

/-- One visit of a file. -/
structure Visit where
  /-- The file that was read. -/
  file : Path
  /-- The digest of its text. -/
  digest : String
  /-- The views that it declares itself. -/
  views : List View
  deriving DecidableEq

/-- The part of a chain of files that begins with the file of a given path. -/
def chainFrom (file : Path) (chain : List Path) : List Path :=
  chain.dropWhile fun earlier => !decide (earlier.Same file)

namespace Settings

variable {κ σ : Type} [CompilerKind κ] [FileStore σ]

/-- The text of a file and what it declares under a scope. -/
def readFile (settings : Settings κ) (store : σ) (file : Path) (scope : Option String) :
    Except Failure (String × ViewFile) := do
  let text ← (FileStore.read store file).mapError (.unreadable file)
  let markup ← settings.compilers.compile file.dottedExtension text file
  let contents ← ViewFile.parse settings store scope markup file
  return (text, contents)

/-- The visits that loading a file takes when imports may be nested as deeply as `levels` says;
`chain` holds the files that are being loaded, outermost first. -/
def loadNested (settings : Settings κ) (store : σ) :
    (levels : Nat) → (chain : List Path) → (file : Path) → (scope : Option String) →
      Except Failure (List Visit)
  | 0, _, file, _ => .error (.nestingTooDeep file)
  | levels + 1, chain, file, scope =>
    match chainFrom file chain with
    | first :: circle => .error (.importCycle (first :: circle ++ [file]))
    | [] => do
      let (text, contents) ← settings.readFile store file scope
      let imported ← contents.imports.mapM fun entry =>
        loadNested settings store levels (chain ++ [file]) entry.file entry.scope
      return imported.flatten ++ [⟨file, Digest.hex text, contents.views⟩]

/-- The visits that loading a file under a scope takes. -/
def loadFile (settings : Settings κ) (store : σ) (file : Path) (scope : Option String) :
    Except Failure (List Visit) :=
  settings.loadNested store (FileStore.chainBound store settings.extensions + 1) [] file scope

/-- The visits that loading the file of a reference takes. -/
def load (settings : Settings κ) (store : σ) (reference : String) (base : Path)
    (scope : Option String) : Except Failure (List Visit) := do
  let file ← settings.resolve store reference base
  settings.loadFile store file scope

/-- The visits that loading one entry takes. -/
def loadEntry (settings : Settings κ) (store : σ) (base entry : Path) :
    Except Failure (List Visit) := do
  let file ← settings.resolveEntry store entry base
  settings.loadFile store file none

/-- The visits that loading several entries takes, in order. -/
def loadEntries (settings : Settings κ) (store : σ) (entries : List Path) (base : Path) :
    Except Failure (List Visit) :=
  (entries.mapM (settings.loadEntry store base)).map List.flatten

end Settings

end ViewBundle
