import ViewBundle.FileStore
import ViewBundle.Template

/-!
# Why a run fails

The causes that end a run, and the wording of each.  The first cause that arises anywhere among
the files that a run loads is the one that is reported.
-/

namespace ViewBundle

/-- A cause that ends a run. -/
inductive Failure where
  /-- No file was found for a reference or an entry, taken from a directory. -/
  | fileNotFound (reference : String) (base : Path)
  /-- No compiler is registered for an extension. -/
  | missingCompiler (extension : String)
  /-- The settings name a compiler that does not exist; `choices` are those that do. -/
  | unknownCompiler (name extension : String) (choices : List String)
  /-- A tag of a view file does not declare a view. -/
  | malformedTag (tag : String) (file : Path)
  /-- A tag lacks an attribute that it cannot do without. -/
  | missingAttribute (tag name : String) (file : Path)
  /-- Files import one another in a circle, whose first file is also given as the last one. -/
  | importCycle (circle : List Path)
  /-- Imports are nested more deeply than the place that holds the files allows for. -/
  | nestingTooDeep (file : Path)
  /-- A file cannot be read. -/
  | unreadable (file : Path) (cause : ReadFailure)
  /-- The source of a view is no template. -/
  | template (view : String) (fault : TemplateFault)
  /-- The bundle is to be exposed under no name. -/
  | emptyModuleName
  deriving DecidableEq

/-- The wording of a cause. -/
def Failure.message : Failure → String
  | fileNotFound reference base =>
    "View template file not found: " ++ reference ++ " (searched from " ++ base.text ++ ")"
  | missingCompiler extension => "Unable to find compiler for: " ++ extension
  | unknownCompiler name extension choices =>
    "Unknown compiler `" ++ name ++ "` for " ++ extension ++ " (expected one of: " ++
      ", ".intercalate choices ++ ")"
  | malformedTag tag file =>
    "Expected tag ending in colon (:) instead of " ++ tag ++ " in " ++ file.text
  | missingAttribute tag name file =>
    "Missing `" ++ name ++ "` attribute on " ++ tag ++ " in " ++ file.text
  | importCycle circle =>
    "Import cycle detected: " ++ " -> ".intercalate (circle.map Path.text)
  | nestingTooDeep file => "Imports are nested too deeply at " ++ file.text
  | unreadable file cause => "I/O error reading " ++ file.text ++ ": " ++ cause.message
  | template view fault => "Failed to compile view `" ++ view ++ "`: " ++ fault.message
  | emptyModuleName => "Bundling failed: exposed module name is empty"

end ViewBundle
