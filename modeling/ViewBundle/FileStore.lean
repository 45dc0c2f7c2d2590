import ViewBundle.Path

/-!
# Places that hold files

Resolving a reference asks whether a path is a file or a directory, and loading reads files as
text.  Both work alike on every place that answers these questions.
-/

namespace ViewBundle

/-- Why a file cannot be read as text. -/
inductive ReadFailure where
  /-- There is no file at this path. -/
  | missing (path : Path)
  /-- The bytes of the file are not UTF-8. -/
  | notText
  deriving DecidableEq, Repr

/-- The wording of a read failure. -/
def ReadFailure.message : ReadFailure → String
  | missing path => path.text ++ " does not exist"
  | notText => "stream did not contain valid UTF-8"

/-- A place that holds files. -/
class FileStore (σ : Type) where
  /-- Whether there is a file at a path. -/
  isFile : σ → Path → Bool
  /-- Whether there is a directory at a path. -/
  isDirectory : σ → Path → Bool
  /-- The text of the file at a path. -/
  read : σ → Path → Except ReadFailure String
  /-- A bound on the number of files, different by components, that can import one another in a
  chain when references may be completed by these extensions. -/
  chainBound : σ → List String → Nat

end ViewBundle
