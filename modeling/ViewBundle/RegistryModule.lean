import ViewBundle.Literal
import ViewBundle.Registry

/-!
# The module of a registry

A registry is written as a module that exports one function.  Given an object of views, that
function registers every view on it, in the order of the registry, and gives it its template.
Each view stands on one line.
-/

namespace ViewBundle

/-- A segment as an expression of the generated module. -/
def Segment.expression : Segment → String
  | .text content => "new templates.Text(" ++ Literal.string content ++ ")"
  | .value path unescaped =>
    (if unescaped then "new templates.DynamicHtml(" else "new templates.DynamicText(") ++
      "new expressions.PathExpression(" ++ Literal.array path ++ "))"

/-- A template as an expression of the generated module. -/
def Template.expression (template : Template) : String :=
  "new templates.Template([" ++
    ", ".intercalate (template.segments.map Segment.expression) ++ "])"

/-- How the module of a registry is written. -/
structure ModuleStyle where
  /-- Whether sources are left out. -/
  minify : Bool
  /-- The module that the templates are run by. -/
  runtimeModule : String
  deriving DecidableEq, Repr

namespace RegisteredView

/-- The arguments with which a view is registered. -/
def arguments (view : RegisteredView) (minify : Bool) : List String :=
  [Literal.string view.name, if minify then "null" else Literal.string view.source] ++
    if view.options.entries = [] then [] else [Literal.object view.options.entries]

/-- The line of the module that registers a view and gives it its template. -/
def registerLine (view : RegisteredView) (template : Template) (minify : Bool) : String :=
  "  views.register(" ++ ", ".intercalate (view.arguments minify) ++ ").template = " ++
    template.expression ++ ";\n"

end RegisteredView

namespace Registry

/-- The lines of the module above the views. -/
def moduleHead (runtimeModule : String) : String :=
  "module.exports = function(views) \x7b\n" ++
    "  var runtime = require(" ++ Literal.string runtimeModule ++ ");\n" ++
    "  var expressions = runtime.expressions;\n" ++
    "  var templates = runtime.templates;\n\n"

/-- The module that registers views and gives them their templates. -/
def moduleText (style : ModuleStyle) (views : List (RegisteredView × Template)) : String :=
  moduleHead style.runtimeModule ++
    String.join (views.map fun (view, template) => view.registerLine template style.minify) ++
    "\x7d\n"

/-- The module of a registry. -/
def serialize (registry : Registry) (style : ModuleStyle) : Step (Except Failure String) :=
  let step := registry.compile
  { step with answer := step.answer.map (moduleText style) }

end Registry

end ViewBundle
