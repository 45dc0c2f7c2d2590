import ViewBundle.Failure
import ViewBundle.View

/-!
# The registry of views

A registry holds each name once, with the source and options of its last registration, in the
order of those registrations.  The template of a view is read from its source when it is first
needed and kept from then on.
-/

namespace ViewBundle

/-- A registered view, with its template once that has been read. -/
structure RegisteredView where
  name : String
  source : String
  options : Markup.Attributes
  template : Option Template
  deriving DecidableEq

namespace RegisteredView

/-- The template that the source is written for. -/
def parse (view : RegisteredView) : Except Failure Template :=
  (Template.parse view.source).mapError (.template view.name)

/-- The template, read from the source if that has not been done, and the results of the readings
that this takes. -/
def ensure (view : RegisteredView) : Except Failure Template × List (Except Failure Template) :=
  match view.template with
  | some template => (.ok template, [])
  | none =>
    let reading := view.parse
    (reading, [reading])

end RegisteredView

/-- The views of a run. -/
structure Registry where
  views : List RegisteredView
  deriving DecidableEq

namespace Registry

/-- The registry without views. -/
def empty : Registry :=
  ⟨[]⟩

/-- Registers a view behind all others; an earlier view of that name is forgotten. -/
def register (registry : Registry) (name source : String) (options : Markup.Attributes) :
    Registry :=
  ⟨registry.views.filter (·.name ≠ name) ++ [⟨name, source, options, none⟩]⟩

/-- The registry that views leave when they are registered in order. -/
def ofViews (views : List View) : Registry :=
  views.foldl (fun registry view => registry.register view.name view.source view.options) empty

/-- The view of a name. -/
def get? (registry : Registry) (name : String) : Option RegisteredView :=
  registry.views.find? (·.name = name)

/-- The names of all views, in order. -/
def names (registry : Registry) : List String :=
  registry.views.map RegisteredView.name

/-- The number of views. -/
def size (registry : Registry) : Nat :=
  registry.views.length

/-- What a step on a registry answers, the registry that it leaves, and the results of the
readings of templates that it takes. -/
structure Step (α : Type) where
  answer : α
  registry : Registry
  readings : List (Except Failure Template)

/-- The registry in which the views of a name keep a template, or have none. -/
def keep (registry : Registry) (name : String) (template : Option Template) : Registry :=
  ⟨registry.views.map fun view => if view.name = name then { view with template } else view⟩

/-- The template of a view, read if need be and kept from then on. -/
def ensure (registry : Registry) (name : String) : Step (Option (Except Failure Template)) :=
  match registry.get? name with
  | none => ⟨none, registry, []⟩
  | some view =>
    let (answer, readings) := view.ensure
    ⟨some answer, registry.keep name answer.toOption, readings⟩

/-- The views and their templates, in order, up to the first view whose source is no template;
with the views that this leaves and the results of the readings that it takes. -/
def compileViews : List RegisteredView →
    Except Failure (List (RegisteredView × Template)) × List RegisteredView ×
      List (Except Failure Template)
  | [] => (.ok [], [], [])
  | view :: more =>
    match view.ensure with
    | (.error failure, readings) => (.error failure, view :: more, readings)
    | (.ok template, readings) =>
      let (answer, left, later) := compileViews more
      (answer.map ((view, template) :: ·), { view with template := some template } :: left,
        readings ++ later)

/-- All views with their templates, read if need be and kept from then on. -/
def compile (registry : Registry) : Step (Except Failure (List (RegisteredView × Template))) :=
  let (answer, left, readings) := compileViews registry.views
  ⟨answer, ⟨left⟩, readings⟩

end Registry

end ViewBundle
