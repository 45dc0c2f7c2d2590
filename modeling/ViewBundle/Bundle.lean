import ViewBundle.Failure
import ViewBundle.Literal

/-!
# Bundles

A module is wrapped so that it loads as a module where there are modules, and else puts itself
on the global object under a name.  The lines of the module are indented; a minified bundle has
neither indentation nor blank lines.
-/

namespace ViewBundle.Bundle

/-- The lines above the module. -/
def head (name : String) : String :=
  "(function(root, factory) \x7b\n" ++
    "  if (typeof module === \"object\" && module.exports) \x7b\n" ++
    "    module.exports = factory(require);\n" ++
    "  \x7d else \x7b\n" ++
    "    root[" ++ Literal.string name ++ "] = factory(root.require);\n" ++
    "  \x7d\n" ++
    "\x7d)(this, function(require) \x7b\n" ++
    "  var module = \x7b exports: \x7b\x7d \x7d;\n"

/-- The lines below the module. -/
def foot : String :=
  "  return module.exports;\n\x7d);\n"

/-- A line of the module, indented if it is not empty. -/
def indented (line : List Char) : String :=
  if line = [] then "\n" else "  " ++ String.ofList line ++ "\n"

/-- A module wrapped under a name. -/
def wrapped (name source : String) : String :=
  head name ++ String.join ((Text.lines source.toList).map indented) ++ foot

/-- A text without indentation and blank lines. -/
def minified (text : String) : String :=
  "\n".intercalate
    ((((Text.lines text.toList).map Text.trimStart).filter (· ≠ [])).map String.ofList) ++ "\n"

/-- The bundle of a module under a name, which must not be empty. -/
def artifact (name : String) (minify : Bool) (source : String) : Except Failure String :=
  if name = "" then .error .emptyModuleName
  else .ok (if minify then minified (wrapped name source) else wrapped name source)

end ViewBundle.Bundle
