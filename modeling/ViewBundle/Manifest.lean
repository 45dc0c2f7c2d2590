import ViewBundle.Path

/-!
# Manifests

The files that a run has read, one on a line: the digest of the file's text, two blanks, and the
path.  A path that comes again, however it is written, is left out.
-/

namespace ViewBundle.Manifest

/-- The pairs whose path is none of those seen, each path once. -/
def firstOccurrences (seen : List (List Component)) : List (Path × String) → List (Path × String)
  | [] => []
  | file :: more =>
    if file.1.components ∈ seen then firstOccurrences seen more
    else file :: firstOccurrences (file.1.components :: seen) more

@[simp] theorem firstOccurrences_nil (seen : List (List Component)) :
    firstOccurrences seen [] = [] := rfl

theorem firstOccurrences_cons (seen : List (List Component)) (file : Path × String)
    (more : List (Path × String)) :
    firstOccurrences seen (file :: more) =
      if file.1.components ∈ seen then firstOccurrences seen more
      else file :: firstOccurrences (file.1.components :: seen) more := rfl

/-- The line of one file. -/
def line (file : Path × String) : String :=
  file.2 ++ "  " ++ file.1.text ++ "\n"

/-- The manifest of files and the digests of their texts. -/
def text (files : List (Path × String)) : String :=
  String.join ((firstOccurrences [] files).map line)

end ViewBundle.Manifest
