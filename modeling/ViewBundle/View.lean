import ViewBundle.Markup.Attributes
import ViewBundle.Path

/-!
# Views and imports

What the files of a run declare: views, which are named pieces of template source, and imports of
the views of other files.  The names of all views of a file stand under the scope under which the
file is loaded; parts of a name are joined by colons.
-/

namespace ViewBundle

/-- A named piece of template source. -/
structure View where
  /-- The name, with the scope in front of it. -/
  name : String
  /-- The body of the view's tag. -/
  source : String
  /-- The attributes of the view's tag. -/
  options : Markup.Attributes
  /-- The file that declares the view. -/
  file : Path
  deriving DecidableEq

/-- An import whose reference has been resolved. -/
structure Import where
  /-- The file whose views are imported. -/
  file : Path
  /-- The scope under which they are imported. -/
  scope : Option String
  deriving DecidableEq

/-- A name under a scope. -/
def qualified (scope : Option String) (name : String) : String :=
  match scope with
  | some scope => scope ++ ":" ++ name
  | none => name

/-- The scope within a scope; an empty name adds nothing. -/
def nestedScope (scope : Option String) (name : String) : Option String :=
  if name = "" then scope else some (qualified scope name)

end ViewBundle
