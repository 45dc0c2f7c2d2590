import ViewBundle.Text

/-!
# Paths

A path is kept as it is written and compared by its components: `/a//b`, `/a/./b` and `/a/b/`
are written differently and name the same place.  The normal form of a path has no dots, has
double dots only in front of a path without root, and is found from the components alone.
-/

namespace ViewBundle

/-- One step of a path. -/
inductive Component where
  /-- The root of the file system; only the first component is one. -/
  | root
  /-- The directory itself; only the first component of a path that begins with a dot is one. -/
  | current
  /-- The enclosing directory. -/
  | parent
  /-- An entry of the directory. -/
  | normal (name : String)
  deriving DecidableEq, Repr

/-- A path as it is written. -/
structure Path where
  text : String
  deriving DecidableEq, Repr

namespace Component

/-- The written form of one component. -/
def text : Component → String
  | root => "/"
  | current => "."
  | parent => ".."
  | normal name => name

/-- The component that a piece between slashes stands for; an empty piece and a dot stand for
none. -/
def ofPiece? : List Char → Option Component
  | [] => none
  | ['.'] => none
  | ['.', '.'] => some parent
  | piece => some (normal (String.ofList piece))

/-- The name of a normal component. -/
def name? : Component → Option String
  | normal name => some name
  | _ => none

/-- The components of a path, then those of each directory around it, nearest first; given and
taken apart from the last component on. -/
def ancestorsFromLast : List Component → List (List Component)
  | [] => [[]]
  | [root] => [[root]]
  | last :: up => (last :: up).reverse :: ancestorsFromLast up

/-- The components of a path, then those of each directory around it, nearest first: up to the
root, or up to the empty path where there is no root. -/
def ancestors (components : List Component) : List (List Component) :=
  ancestorsFromLast components.reverse

/-- The components of the directories around a path, nearest first. -/
def properAncestors (components : List Component) : List (List Component) :=
  (ancestors components).drop 1

/-- One more step on a path in normal form, whose components are given from the last one on: a
dot stays, a double dot takes back a name, is kept where only double dots precede it, and stays at
the root. -/
def step : List Component → Component → List Component
  | done, current => done
  | normal _ :: up, parent => up
  | root :: up, parent => root :: up
  | done, component => component :: done

/-- The components of the normal form: no dots, and double dots only in front of a path without
root. -/
def normalize (components : List Component) : List Component :=
  (components.foldl step []).reverse

end Component

namespace Path

/-- The components of a written path. -/
def components (p : Path) : List Component :=
  match p.text.toList with
  | '/' :: body => .root :: (Text.pieces '/' body).filterMap Component.ofPiece?
  | body =>
    match Text.pieces '/' body with
    | ['.'] :: more => .current :: more.filterMap Component.ofPiece?
    | all => all.filterMap Component.ofPiece?

/-- The plainest way to write a path with these components. -/
def ofComponents : List Component → Path
  | .root :: rest => ⟨"/" ++ "/".intercalate (rest.map Component.text)⟩
  | all => ⟨"/".intercalate (all.map Component.text)⟩

/-- Whether two paths name the same place. -/
def Same (p q : Path) : Prop :=
  p.components = q.components

instance (p q : Path) : Decidable (p.Same q) :=
  inferInstanceAs (Decidable (_ = _))

/-- Whether a path begins at the root. -/
def isAbsolute (p : Path) : Bool :=
  p.text.toList.head? == some '/'

/-- The path `q` taken from the directory `p`: an absolute path stands for itself. -/
def join (p q : Path) : Path :=
  if q.isAbsolute then q
  else if p.text = "" || p.text.toList.getLast? == some '/' then ⟨p.text ++ q.text⟩
  else ⟨p.text ++ "/" ++ q.text⟩

/-- The path with a text added to its end. -/
def withSuffix (p : Path) (suffix : String) : Path :=
  ⟨p.text ++ suffix⟩

/-- Whether a piece between slashes stands for no component. -/
def isSilent (piece : List Char) : Bool :=
  (Component.ofPiece? piece).isNone

/-- The pieces without the last component and the silent pieces on either side of it. -/
def dropLastComponent? (segments : List (List Char)) : Option (List (List Char)) :=
  match segments.reverse.dropWhile isSilent with
  | [] => none
  | _ :: up => some (up.dropWhile isSilent).reverse

/-- The directory around a path, written as the path is: none around the root and the empty
path. -/
def parent? (p : Path) : Option Path :=
  match p.text.toList with
  | '/' :: body =>
    (dropLastComponent? (Text.pieces '/' body)).map fun up =>
      ⟨String.ofList ('/' :: ['/'].intercalate up)⟩
  | body =>
    match Text.pieces '/' body with
    | [] => none
    | first :: more =>
      match dropLastComponent? more with
      | some up => some ⟨String.ofList (['/'].intercalate (first :: up))⟩
      | none => if first = [] then none else some ⟨""⟩

/-- The last component of a path, if it is a name. -/
def fileName? (p : Path) : Option String :=
  p.components.getLast?.bind Component.name?

/-- What follows the last dot of a file name, if anything precedes that dot. -/
def extension? (p : Path) : Option String :=
  p.fileName?.bind fun name =>
    match (Text.pieces '.' name.toList).reverse with
    | last :: up => if up = [] || up = [[]] then none else some (String.ofList last)
    | [] => none

/-- The path in normal form: no dots, double dots only in front of a path without root, single
slashes. -/
def normalize (p : Path) : Path :=
  ofComponents (Component.normalize p.components)

end Path

end ViewBundle
