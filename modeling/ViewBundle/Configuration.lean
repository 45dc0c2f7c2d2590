import ViewBundle.Compilation
import ViewBundle.Configuration.Document

/-!
# Configurations

The settings that a file or a command line asks for.  What is not said is left to the layer below,
and in the end to the standard settings.
-/

namespace ViewBundle

/-- What a settings file or a command line asks for. -/
structure Configuration where
  /-- The name under which the bundle is exposed. -/
  moduleName : Option String
  /-- Whether the output is minified. -/
  minify : Option Bool
  /-- The module that the templates are run by. -/
  runtimeModule : Option String
  /-- The names of the directories in which modules are looked for. -/
  moduleDirectories : Option (List String)
  /-- The name of the compiler of each extension, as they are written. -/
  compilers : Dictionary String
  deriving DecidableEq

namespace Configuration

/-- The configuration that asks for nothing. -/
def empty : Configuration :=
  ⟨none, none, none, none, .empty⟩

/-- The layer `overrides` over the layer `base`; the compilers of both are kept. -/
def merge (base overrides : Configuration) : Configuration where
  moduleName := overrides.moduleName.or base.moduleName
  minify := overrides.minify.or base.minify
  runtimeModule := overrides.runtimeModule.or base.runtimeModule
  moduleDirectories := overrides.moduleDirectories.or base.moduleDirectories
  compilers := base.compilers.merge overrides.compilers

/-- Adds the compilers of a configuration to settings, in order. -/
def addCompilers (settings : Settings Compiler) :
    List (String × String) → Except Failure (Settings Compiler)
  | [] => .ok settings
  | (extension, name) :: more =>
    match Compiler.ofName? name with
    | some compiler => addCompilers (settings.addCompiler extension compiler) more
    | none => .error (.unknownCompiler name extension Compiler.names)

/-- The settings that a configuration asks for. -/
def settings (configuration : Configuration) : Except Failure (Settings Compiler) :=
  (addCompilers .standard configuration.compilers.entries).map fun settings =>
    match configuration.moduleDirectories with
    | some directories => settings.withModuleDirectories directories
    | none => settings

/-- The output options that a configuration asks for. -/
def outputOptions (configuration : Configuration) : OutputOptions where
  moduleName := configuration.moduleName.getD OutputOptions.standard.moduleName
  minify := configuration.minify.getD OutputOptions.standard.minify
  runtimeModule := configuration.runtimeModule.getD OutputOptions.standard.runtimeModule

/-! ## Settings files -/

/-- How far the table of compilers has been written in a settings file. -/
inductive TableState where
  /-- Nothing has been said about it. -/
  | unsaid
  /-- Entries have been given by dotted keys. -/
  | dotted
  /-- It has been given whole. -/
  | closed
  /-- Its header has been met, and its entries follow. -/
  | current
  deriving DecidableEq, Repr

/-- A settings file read in part. -/
structure Draft where
  /-- What has been asked for; the compilers are kept apart. -/
  said : Configuration
  /-- The compilers in the order in which they have been given. -/
  compilers : List (String × String)
  /-- How far the table of compilers has been written. -/
  table : TableState
  deriving DecidableEq

namespace Draft

/-- The draft with a compiler given to an extension that has none yet. -/
def addCompiler (draft : Draft) (table : TableState) (extension name : String) : Option Draft :=
  if extension ∈ draft.compilers.map Prod.fst then none
  else some { draft with compilers := draft.compilers ++ [(extension, name)], table }

/-- The draft with the table of compilers given whole. -/
def addTable (draft : Draft) (entries : List (String × String)) : Option Draft :=
  if draft.table = .unsaid ∧ (entries.map Prod.fst).Nodup then
    some { draft with compilers := entries, table := .closed }
  else none

/-- The key under which a date or time stands in the table that it is read as. -/
def dateTimeKey : String := "$__toml_private_datetime"

/-- The draft behind a value that is given to a key of the document itself.  Where a table is
expected, a date or time is read as a table of one entry. -/
def assignTop (draft : Draft) (keys : List String) (value : Document.Value) : Option Draft :=
  let said := draft.said
  match keys, value with
  | ["module_name"], .text name =>
    if said.moduleName.isSome then none
    else some { draft with said := { said with moduleName := some name } }
  | ["minify"], .flag minify =>
    if said.minify.isSome then none
    else some { draft with said := { said with minify := some minify } }
  | ["runtime_module"], .text name =>
    if said.runtimeModule.isSome then none
    else some { draft with said := { said with runtimeModule := some name } }
  | ["module_directories"], .texts directories =>
    if said.moduleDirectories.isSome then none
    else some { draft with said := { said with moduleDirectories := some directories } }
  | ["compilers"], .table entries => draft.addTable entries
  | ["compilers"], .dateTime moment => draft.addTable [(dateTimeKey, moment.text)]
  | ["compilers", extension], .text name =>
    if draft.table = .closed then none else draft.addCompiler .dotted extension name
  | _, _ => none

/-- The draft behind a statement. -/
def addLine (draft : Draft) : Document.Line → Option Draft
  | .header keys =>
    if keys = ["compilers"] ∧ draft.table = .unsaid then some { draft with table := .current }
    else none
  | .assign keys value =>
    if draft.table = .current then
      match keys, value with
      | [extension], .text name => draft.addCompiler .current extension name
      | _, _ => none
    else draft.assignTop keys value

end Draft

/-- The configuration that a settings file asks for, if the file is valid; its compilers are
ordered by their extensions. -/
def ofText? (text : String) : Option Configuration := do
  let lines ← Document.read text
  let draft ← lines.foldlM Draft.addLine ⟨empty, [], .unsaid⟩
  let compilers := draft.compilers.mergeSort fun one other => decide (one.1 ≤ other.1)
  return { draft.said with compilers := Dictionary.ofList compilers }

end Configuration

end ViewBundle
