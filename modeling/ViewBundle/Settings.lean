import ViewBundle.Dictionary
import ViewBundle.Failure

/-!
# Compilers and settings

A compiler turns the text of a file into the markup that views are read from.  The settings of a
run say which file extensions are recognized, in the order in which they are tried, which compiler
each of them has, and in which directories modules are looked for.  An extension is kept with the
dot it begins with.  Settings hold compilers of any kind; those of the program hold the ones that
are known by name.
-/

namespace ViewBundle

/-- A way to turn the text of a file into markup. -/
inductive Compiler where
  /-- The file is markup. -/
  | html
  /-- The whole file is the body of one view, named `index`. -/
  | view
  deriving DecidableEq, Repr

namespace Compiler

/-- The compiler of a name. -/
def ofName? (name : String) : Option Compiler :=
  if name = "html" then some html
  else if name = "view" then some view
  else none

/-- The names of all compilers. -/
def names : List String := ["html", "view"]

/-- The markup that a compiler makes of the text of a file. -/
def markup : Compiler → String → String
  | html, text => text
  | view, text => "<index:>" ++ text

end Compiler

/-- A kind of compilers: what each of them makes of the text of a file, and the one that takes the
text as it is. -/
class CompilerKind (κ : Type) where
  /-- What a compiler makes of the text of a file, of which it is told the path. -/
  run : κ → String → Path → Except Failure String
  /-- The compiler of files that are markup. -/
  html : κ
  run_html : ∀ (text : String) (file : Path), run html text file = .ok text

/-- The compilers that are known by name never fail, and do not ask for the path. -/
instance : CompilerKind Compiler where
  run compiler text _ := .ok (compiler.markup text)
  html := .html
  run_html _ _ := rfl

/-- A compiler of its own making, which can ask for the path and can fail. -/
def CompilerFunction : Type :=
  String → Path → Except Failure String

instance : CompilerKind CompilerFunction where
  run compiler := compiler
  html text _ := .ok text
  run_html _ _ := rfl

/-- An extension with the dot it begins with. -/
def dotted (extension : String) : String :=
  if extension.toList.head? = some '.' then extension else "." ++ extension

/-- The extension of a path with the dot it begins with; empty if there is none. -/
def Path.dottedExtension (path : Path) : String :=
  match path.extension? with
  | some extension => "." ++ extension
  | none => ""

/-- The extension that is always recognized. -/
def defaultExtension : String := ".html"

/-- The compilers of extensions, in the order in which the extensions first came; those that are
known by name, where no kind is named. -/
abbrev Compilers (κ : Type := Compiler) := Dictionary κ

namespace Compilers

variable {κ : Type}

/-- The default extension alone, which is markup. -/
def standard (κ : Type := Compiler) [CompilerKind κ] : Compilers κ :=
  Dictionary.empty.put defaultExtension CompilerKind.html

/-- Gives an extension its compiler; the dot may be left out. -/
def register (compilers : Compilers κ) (extension : String) (compiler : κ) : Compilers κ :=
  compilers.put (dotted extension) compiler

/-- What the compiler of an extension, which is looked up as it is given, makes of the text of a
file; a text that is of no file has the empty path. -/
def compile [CompilerKind κ] (compilers : Compilers κ) (extension text : String)
    (file : Path := ⟨""⟩) : Except Failure String :=
  match compilers.get? extension with
  | some compiler => CompilerKind.run compiler text file
  | none => .error (.missingCompiler extension)

end Compilers

/-- The settings that all stages of a run share; those of the program itself, where no kind of
compilers is named. -/
structure Settings (κ : Type := Compiler) where
  /-- The extensions that may be left out in a reference, in the order in which they are tried. -/
  extensions : List String
  /-- The compiler of each extension. -/
  compilers : Compilers κ
  /-- The names of the directories in which modules are looked for. -/
  moduleDirectories : List String
  deriving DecidableEq

namespace Settings

variable {κ : Type}

/-- Only markup files are recognized, and modules are looked for in `node_modules`. -/
def standard (κ : Type := Compiler) [CompilerKind κ] : Settings κ where
  extensions := [defaultExtension]
  compilers := .standard κ
  moduleDirectories := ["node_modules"]

/-- Gives an extension its compiler, and recognizes the extension if it is new. -/
def addCompiler (settings : Settings κ) (extension : String) (compiler : κ) : Settings κ where
  extensions :=
    if dotted extension ∈ settings.extensions then settings.extensions
    else settings.extensions ++ [dotted extension]
  compilers := settings.compilers.register extension compiler
  moduleDirectories := settings.moduleDirectories

/-- Replaces the names of the directories in which modules are looked for. -/
def withModuleDirectories (settings : Settings κ) (directories : List String) : Settings κ :=
  { settings with moduleDirectories := directories }

end Settings

end ViewBundle
