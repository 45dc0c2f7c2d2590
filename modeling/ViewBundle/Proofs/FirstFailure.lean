import ViewBundle.Proofs.Dependency
import ViewBundle.Proofs.Termination

/-!
# Which failure of a load is reported

A file is read to its end before any of its imports is loaded.  So what is wrong with the file
itself is reported in any case, whatever the files hold that it imports
(`loadFile_eq_error_of_parse`).  If nothing is wrong with it, its imports are loaded in their order,
each while the file itself is being loaded, and the load fails as the first of them that fails
(`loadFile_eq_error_iff_of_readFile`).  Main statement: `loadFile_firstFailure`.
-/

namespace ViewBundle.Settings

variable {κ : Type} [CompilerKind κ] {settings : Settings κ}

theorem readFile_eq_error_of_parse {σ : Type} [FileStore σ] {store : σ} {file : Path}
    {scope : Option String} {text markup : String} {failure : Failure}
    (htext : FileStore.read store file = .ok text)
    (hmarkup : settings.compilers.compile file.dottedExtension text file = .ok markup)
    (hparse : ViewFile.parse settings store scope markup file = .error failure) :
    settings.readFile store file scope = .error failure := by
  refine Outcome.bind_eq_error_iff.2 (.inr ⟨text, Outcome.mapError_eq_ok_iff.2 htext, ?_⟩)
  refine Outcome.bind_eq_error_iff.2 (.inr ⟨markup, hmarkup, ?_⟩)
  exact Outcome.bind_eq_error_iff.2 (.inl hparse)

/-- A file that cannot be read itself is not loaded, for the same reason. -/
theorem loadFile_eq_error_of_readFile {σ : Type} [FileStore σ] {store : σ} {file : Path}
    {scope : Option String} {failure : Failure}
    (hread : settings.readFile store file scope = .error failure) :
    settings.loadFile store file scope = .error failure :=
  loadNested_of_unreadable rfl hread

/-- What is wrong with a file itself is found in every tree with the same paths that holds the same
text for the file. -/
theorem loadFile_eq_error_of_parse {files files' : List (Path × String)} {file : Path}
    {scope : Option String} {text markup : String} {failure : Failure}
    (htext : (FileTree.ofList files).contents? file = some text)
    (hmarkup : settings.compilers.compile file.dottedExtension text file = .ok markup)
    (hparse : ViewFile.parse settings (FileTree.ofList files) scope markup file = .error failure)
    (hsame : ∀ path, (FileTree.ofList files).isFile path = (FileTree.ofList files').isFile path)
    (hcontents : (FileTree.ofList files').contents? file = some text) :
    settings.loadFile (FileTree.ofList files') file scope = .error failure := by
  have hlayout : SameLayout (FileTree.ofList files) (FileTree.ofList files') :=
    FileTree.sameLayout_of_isFile_eq (FileTree.wellFormed_ofList files)
      (FileTree.wellFormed_ofList files') hsame
  have htext : FileStore.read (FileTree.ofList files) file = .ok text :=
    FileTree.read_eq_ok_iff.2 htext
  have htext' : FileStore.read (FileTree.ofList files') file = .ok text :=
    FileTree.read_eq_ok_iff.2 hcontents
  apply loadFile_eq_error_of_readFile
  rw [← hlayout.readFile_eq settings (htext.trans htext'.symm)]
  exact readFile_eq_error_of_parse htext hmarkup hparse

/-- A file that can be read itself fails to load as the first of its imports that fails. -/
theorem loadFile_eq_error_iff_of_readFile {files : FileTree} {file : Path}
    {scope : Option String} {text : String} {contents : ViewFile} {failure : Failure}
    (hread : settings.readFile files file scope = .ok (text, contents)) :
    settings.loadFile files file scope = .error failure ↔
      ∃ before entry after, contents.imports = before ++ entry :: after ∧
        (∀ earlier ∈ before, ∃ visits, settings.Loads files [file] [earlier] (.ok visits)) ∧
        settings.Loads files [file] [entry] (.error failure) := by
  -- The file takes up one of the levels, and as many are left as its imports need.
  have hroom : files.LeavesRoom files.files.length [file] :=
    FileTree.LeavesRoom.append (.nil (Nat.lt_succ_self _)) rfl (read_of_readFile hread)
  have hloads (entry : Import) (outcome : Except Failure (List Visit)) :
      settings.Loads files [file] [entry] outcome ↔
        settings.loadNested files files.files.length [file] entry.file entry.scope = outcome := by
    rw [loads_iff hroom, loadImports_singleton]
  simp only [hloads]
  show settings.loadNested files (files.files.length + 1) [] file scope = _ ↔ _
  rw [loadNested_of_readFile rfl hread, Outcome.map_eq_error_iff, loadImports,
    Outcome.map_eq_error_iff, Outcome.mapM_eq_error_iff]
  rfl

/-- Where a file can be read and compiled, what is wrong with its markup is the failure of a load,
in the tree and in every tree with the same paths and the same text for the file, whatever becomes
of the imports.  If nothing is wrong with the markup, a load fails exactly as the first import, in
the order of the file, that fails while the file is being loaded. -/
theorem loadFile_firstFailure (settings : Settings κ) (files : List (Path × String)) (file : Path)
    (scope : Option String) (text markup : String)
    (htext : (FileTree.ofList files).contents? file = some text)
    (hmarkup : settings.compilers.compile file.dottedExtension text file = .ok markup) :
    (∀ failure,
      ViewFile.parse settings (FileTree.ofList files) scope markup file = .error failure →
      settings.loadFile (FileTree.ofList files) file scope = .error failure ∧
        ∀ files', (∀ path, (FileTree.ofList files).isFile path =
            (FileTree.ofList files').isFile path) →
          (FileTree.ofList files').contents? file = some text →
          settings.loadFile (FileTree.ofList files') file scope = .error failure) ∧
    ∀ contents,
      ViewFile.parse settings (FileTree.ofList files) scope markup file = .ok contents →
      ∀ failure, settings.loadFile (FileTree.ofList files) file scope = .error failure ↔
        ∃ before entry after, contents.imports = before ++ entry :: after ∧
          (∀ earlier ∈ before, ∃ visits,
            settings.Loads (FileTree.ofList files) [file] [earlier] (.ok visits)) ∧
          settings.Loads (FileTree.ofList files) [file] [entry] (.error failure) := by
  constructor
  · intro failure hparse
    refine ⟨?_, ?_⟩
    · exact loadFile_eq_error_of_parse htext hmarkup hparse (fun _ => rfl) htext
    · intro files' hsame hcontents
      exact loadFile_eq_error_of_parse htext hmarkup hparse hsame hcontents
  · intro contents hparse failure
    have hread : settings.readFile (FileTree.ofList files) file scope = .ok (text, contents) :=
      readFile_eq_ok_iff.2 ⟨FileTree.read_eq_ok_iff.2 htext, markup, hmarkup, hparse⟩
    exact loadFile_eq_error_iff_of_readFile hread

/-- A page whose second import names no file, and one that imports a note, a file and the first
page. -/
def tangledFiles (imported : String) : List (Path × String) :=
  [(⟨"/v/broken.html"⟩, "<import: src=\"./loop\"><import:>"),
    (⟨"/v/whole.html"⟩,
      "<import: src=\"./note\"><import: src=\"./loop\"><import: src=\"./broken\">"),
    (⟨"/v/note.html"⟩, "<Body:>b"), (⟨"/v/loop.html"⟩, imported)]

/-- The page with the cycle. -/
def loopText : String := "<import: src=\"./whole\">"

/-- The imports of the second page. -/
def wholeImports : List Import :=
  [⟨⟨"/v/note.html"⟩, some "note"⟩, ⟨⟨"/v/loop.html"⟩, some "loop"⟩,
    ⟨⟨"/v/broken.html"⟩, some "broken"⟩]

theorem isFile_tangledFiles (imported imported' : String) (path : Path) :
    (FileTree.ofList (tangledFiles imported)).isFile path =
      (FileTree.ofList (tangledFiles imported')).isFile path := by
  rw [Bool.eq_iff_iff, FileTree.isFile_iff, FileTree.isFile_iff, FileTree.mem_keys_ofList_iff,
    FileTree.mem_keys_ofList_iff]
  simp [tangledFiles]

/-- The import without a file is reported, whether or not the file that is imported before it leads
into a cycle.  The other page fails for that cycle, which comes before the fault of the page that it
imports last. -/
theorem loadFile_firstFailure_tangledFiles :
    standard.loadFile (FileTree.ofList (tangledFiles loopText)) ⟨"/v/broken.html"⟩ none =
        .error (.missingAttribute "<import:>" "src" ⟨"/v/broken.html"⟩) ∧
      standard.loadFile (FileTree.ofList (tangledFiles "<a:>")) ⟨"/v/broken.html"⟩ none =
        .error (.missingAttribute "<import:>" "src" ⟨"/v/broken.html"⟩) ∧
      ∃ before entry after, wholeImports = before ++ entry :: after ∧
        (∀ earlier ∈ before, ∃ visits, standard.Loads (FileTree.ofList (tangledFiles loopText))
          [⟨"/v/whole.html"⟩] [earlier] (.ok visits)) ∧
        standard.Loads (FileTree.ofList (tangledFiles loopText)) [⟨"/v/whole.html"⟩] [entry]
          (.error (.importCycle [⟨"/v/whole.html"⟩, ⟨"/v/loop.html"⟩, ⟨"/v/whole.html"⟩])) := by
  obtain ⟨hbroken, -⟩ := loadFile_firstFailure standard (tangledFiles loopText)
    ⟨"/v/broken.html"⟩ none "<import: src=\"./loop\"><import:>"
    "<import: src=\"./loop\"><import:>" (by decide +kernel) rfl
  obtain ⟨-, hwhole⟩ := loadFile_firstFailure standard (tangledFiles loopText)
    ⟨"/v/whole.html"⟩ none
    "<import: src=\"./note\"><import: src=\"./loop\"><import: src=\"./broken\">"
    "<import: src=\"./note\"><import: src=\"./loop\"><import: src=\"./broken\">"
    (by decide +kernel) rfl
  obtain ⟨hhere, hthere⟩ := hbroken
    (.missingAttribute "<import:>" "src" ⟨"/v/broken.html"⟩) (by decide +kernel)
  refine ⟨hhere, ?_, ?_⟩
  · exact hthere (tangledFiles "<a:>") (isFile_tangledFiles _ _) (by decide +kernel)
  · exact (hwhole ⟨wholeImports, []⟩ (by decide +kernel) _).1 (by decide +kernel)

end ViewBundle.Settings
