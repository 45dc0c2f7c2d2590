import ViewBundle.Bundle
import ViewBundle.Loading
import ViewBundle.Manifest
import ViewBundle.RegistryModule

/-!
# Compilations

A run from entries to a bundle: files are loaded, their views registered, the registry written as
a module, and the module bundled.
-/

namespace ViewBundle

/-- What is asked of the output of a run. -/
structure OutputOptions where
  /-- The name under which the bundle is exposed. -/
  moduleName : String
  /-- Whether sources, indentation and blank lines are left out. -/
  minify : Bool
  /-- The module that the templates are run by. -/
  runtimeModule : String
  deriving DecidableEq, Repr

/-- The output options that hold where nothing is said. -/
def OutputOptions.standard : OutputOptions :=
  ⟨"views", false, "derby-templates"⟩

/-- The output of a run. -/
structure Compilation where
  /-- The module of the registry, before it is bundled. -/
  source : String
  /-- The bundle. -/
  artifact : String
  /-- The visits of files, in order. -/
  visits : List Visit
  /-- The number of different names of views. -/
  viewCount : Nat
  deriving DecidableEq

namespace Compilation

/-- The files that were read, in order. -/
def files (compilation : Compilation) : List Path :=
  compilation.visits.map Visit.file

/-- The digests of those files' texts, in the same order. -/
def digests (compilation : Compilation) : List String :=
  compilation.visits.map Visit.digest

/-- The manifest of the files that were read. -/
def manifest (compilation : Compilation) : String :=
  Manifest.text (compilation.visits.map fun visit => (visit.file, visit.digest))

end Compilation

/-- The output of a run over entries, which are taken from the directory `base`. -/
def Settings.compile {κ σ : Type} [CompilerKind κ] [FileStore σ] (settings : Settings κ)
    (store : σ) (entries : List Path) (base : Path) (options : OutputOptions) :
    Except Failure Compilation := do
  let visits ← settings.loadEntries store entries base
  let registry := Registry.ofViews (visits.flatMap Visit.views)
  let source ← (registry.serialize ⟨options.minify, options.runtimeModule⟩).answer
  let artifact ← Bundle.artifact options.moduleName options.minify source
  return ⟨source, artifact, visits, registry.size⟩

end ViewBundle
