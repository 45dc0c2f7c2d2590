import ViewBundle.Markup.Token
import ViewBundle.Reference
import ViewBundle.View

/-!
# View files

A view file is markup in which every start tag declares a view, whose source is the tag's body, or
is an `import` tag, which names another file.  Imports are resolved in the directory of the file
as they are met, so that the first fault in the text is the one that is reported.  A line feed is
added to the markup before it is read, so a view whose body runs to the end of the file ends in
one more line feed.
-/

namespace ViewBundle

/-- What a view file declares: imports and views, each in the order in which they stand. -/
structure ViewFile where
  imports : List Import
  views : List View
  deriving DecidableEq

namespace ViewFile

/-- The name of the tag that imports a file, without its colon. -/
def importStem : List Char := "import".toList

/-- A text without an ending that it has; an empty ending, or one that is the whole text, is
kept. -/
def dropEnding (ending s : List Char) : List Char :=
  if ending.isSuffixOf s && ending.length < s.length then s.take (s.length - ending.length) else s

/-- The base name of a reference without the extension of the file that it stands for: what
follows the last slash, the slashes at the end of the reference aside. -/
def baseName (reference extension : String) : String :=
  let trimmed := (reference.toList.reverse.dropWhile (· == '/')).reverse
  let base := (Text.pieces '/' trimmed).getLast?.getD []
  String.ofList (dropEnding extension.toList base)

/-- Where a view file stands: its path, and the scope under which it is loaded. -/
structure Origin where
  file : Path
  scope : Option String
  deriving DecidableEq

/-- The directory in which the references of a file are resolved. -/
def Origin.directory (origin : Origin) : Path :=
  origin.file.parent?.getD ⟨""⟩

variable {κ σ : Type} [FileStore σ]

/-- The import that a tag with these attributes asks for. -/
def importOf (settings : Settings κ) (store : σ) (origin : Origin) (tag : String)
    (attributes : Markup.Attributes) : Except Failure Import :=
  match attributes.get? "src" with
  | none => .error (.missingAttribute tag "src" origin.file)
  | some reference => do
    let file ← settings.resolve store reference origin.directory
    let name := (attributes.get? "ns").getD (baseName reference file.dottedExtension)
    return ⟨file, nestedScope origin.scope name⟩

/-- A tag whose body has not been met yet. -/
structure Opened where
  stem : List Char
  attributes : Markup.Attributes
  deriving DecidableEq

/-- The view that an opened tag and its body declare; an import tag declares none. -/
def Opened.views (opened : Opened) (origin : Origin) (body : String) : List View :=
  if opened.stem = importStem then []
  else [⟨qualified origin.scope (String.ofList opened.stem), body, opened.attributes, origin.file⟩]

/-- The imports that an opened tag asks for: one for an import tag, else none. -/
def Opened.imports (settings : Settings κ) (store : σ) (opened : Opened) (origin : Origin)
    (tag : String) : Except Failure (List Import) :=
  if opened.stem = importStem then
    (importOf settings store origin tag opened.attributes).map ([·])
  else .ok []

/-- What tokens declare when `pending` is the tag whose body has not been met yet. -/
def ofTokens (settings : Settings κ) (store : σ) (origin : Origin) :
    (pending : Option Opened) → List Markup.Token → Except Failure ViewFile
  | _, [] => .ok ⟨[], []⟩
  | pending, token :: more =>
    match token with
    | .opening source name attributes =>
      match Markup.viewStem? name.toList with
      | none => .error (.malformedTag source origin.file)
      | some stem => do
        let opened : Opened := ⟨stem, attributes⟩
        let imports ← opened.imports settings store origin source
        let later ← ofTokens settings store origin (some opened) more
        return { later with imports := imports ++ later.imports }
    | .body text => do
      let later ← ofTokens settings store origin none more
      let views := (pending.map (·.views origin text)).getD []
      return { later with views := views ++ later.views }
    | _ => ofTokens settings store origin pending more

/-- What the markup of a file declares under a scope; an empty scope is none. -/
def parse (settings : Settings κ) (store : σ) (scope : Option String) (markup : String)
    (file : Path) : Except Failure ViewFile :=
  ofTokens settings store ⟨file, scope.filter (· ≠ "")⟩ none
    (Markup.events Markup.isOpaqueTag (markup ++ "\n"))

end ViewFile

end ViewBundle
