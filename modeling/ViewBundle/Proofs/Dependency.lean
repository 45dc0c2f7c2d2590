import ViewBundle.Proofs.FileTree
import ViewBundle.Proofs.Loading

/-!
# What a run depends on

A run looks at which paths are files and directories, and reads the files that it lists.  Another
tree with the same paths that agrees on those files gives the same output
(`compile_eq_of_contents_eq`): whoever keeps an output for later need only watch the paths and the
listed files.
-/

namespace ViewBundle

variable {κ σ : Type} [FileStore σ]

/-- Two places hold files and directories at the same paths. -/
structure SameLayout (store₁ store₂ : σ) : Prop where
  isFile_eq : FileStore.isFile store₁ = FileStore.isFile store₂
  isDirectory_eq : FileStore.isDirectory store₁ = FileStore.isDirectory store₂
  chainBound_eq : FileStore.chainBound store₁ = FileStore.chainBound store₂

namespace SameLayout

variable {store₁ store₂ : σ} (h : SameLayout store₁ store₂) (settings : Settings κ)

include h

/-! ## References -/

theorem placeAt?_eq (candidate : Path) :
    settings.placeAt? store₁ candidate = settings.placeAt? store₂ candidate := by
  simp only [Settings.placeAt?, Settings.indexAt?, Settings.fileAt?, h.isFile_eq,
    h.isDirectory_eq]

theorem resolve_eq (reference : String) (base : Path) :
    settings.resolve store₁ reference base = settings.resolve store₂ reference base := by
  have hindex (directory : Path) :
      settings.indexAt? store₁ directory = settings.indexAt? store₂ directory := by
    simp only [Settings.indexAt?, Settings.fileAt?, h.isFile_eq, h.isDirectory_eq]
  simp only [Settings.resolve, Settings.resolve?, Settings.moduleAt?, h.placeAt?_eq, hindex]

theorem resolveEntry_eq (entry base : Path) :
    settings.resolveEntry store₁ entry base = settings.resolveEntry store₂ entry base := by
  simp only [Settings.resolveEntry, h.placeAt?_eq]

/-! ## Files -/

theorem ofTokens_eq (origin : ViewFile.Origin) (pending : Option ViewFile.Opened)
    (tokens : List Markup.Token) :
    ViewFile.ofTokens settings store₁ origin pending tokens =
      ViewFile.ofTokens settings store₂ origin pending tokens := by
  have himports (opened : ViewFile.Opened) (tag : String) :
      opened.imports settings store₁ origin tag = opened.imports settings store₂ origin tag := by
    simp only [ViewFile.Opened.imports, ViewFile.importOf, h.resolve_eq]
  induction tokens generalizing pending with
  | nil => rfl
  | cons token more ih =>
    cases token with
    | opening source name attributes => simp only [ViewFile.ofTokens, himports, ih]
    | body text => simp only [ViewFile.ofTokens, ih]
    | plain text => exact ih pending
    | closing source name => exact ih pending
    | silent source => exact ih pending

variable [CompilerKind κ]

/-- Which file is read decides, with the layout, what it declares. -/
theorem readFile_eq {file : Path} (hread : FileStore.read store₁ file = FileStore.read store₂ file)
    (scope : Option String) :
    settings.readFile store₁ file scope = settings.readFile store₂ file scope := by
  simp only [Settings.readFile, ViewFile.parse, hread, h.ofTokens_eq]

/-! ## Loads -/

/-- A load that succeeds goes the same way wherever the files that it visits read the same. -/
theorem loadNested_eq_ok {levels : Nat} {chain : List Path} {file : Path} {scope : Option String}
    {visits : List Visit} (hload : settings.loadNested store₁ levels chain file scope = .ok visits)
    (hread : ∀ visit ∈ visits,
      FileStore.read store₁ visit.file = FileStore.read store₂ visit.file) :
    settings.loadNested store₂ levels chain file scope = .ok visits := by
  -- The visits of an imported file are among those of the file that imports it, so the agreement
  -- on what is read is handed down with the levels.
  induction levels generalizing chain file scope visits with
  | zero => simp [Settings.loadNested] at hload
  | succ levels ih =>
    obtain ⟨hfresh, text, contents, imported, hfile, himported, rfl⟩ :=
      Settings.loadNested_eq_ok_iff.1 hload
    have hsame : FileStore.read store₁ file = FileStore.read store₂ file :=
      hread ⟨file, Digest.hex text, contents.views⟩ (by simp)
    refine Settings.loadNested_eq_ok_iff.2
      ⟨hfresh, text, contents, imported, ?_, ?_, rfl⟩
    · rw [← h.readFile_eq settings hsame]
      exact hfile
    · apply Outcome.mapM_eq_ok_of_imp himported
      intro entry _ nested hnested hload
      apply ih hload
      intro visit hvisit
      have hmem : visit ∈ imported.flatten := List.mem_flatten.2 ⟨nested, hnested, hvisit⟩
      exact hread visit (List.mem_append_left _ hmem)

theorem loadEntry_eq_ok {base entry : Path} {visits : List Visit}
    (hload : settings.loadEntry store₁ base entry = .ok visits)
    (hread : ∀ visit ∈ visits,
      FileStore.read store₁ visit.file = FileStore.read store₂ visit.file) :
    settings.loadEntry store₂ base entry = .ok visits := by
  obtain ⟨file, hfile, hload⟩ := Outcome.bind_eq_ok_iff.1 hload
  refine Outcome.bind_eq_ok_iff.2 ⟨file, ?_, ?_⟩
  · rw [← h.resolveEntry_eq]
    exact hfile
  · -- The number of levels is taken from the place itself.
    rw [Settings.loadFile, h.chainBound_eq] at hload
    exact h.loadNested_eq_ok settings hload hread

theorem loadEntries_eq_ok {entries : List Path} {base : Path} {visits : List Visit}
    (hload : settings.loadEntries store₁ entries base = .ok visits)
    (hread : ∀ visit ∈ visits,
      FileStore.read store₁ visit.file = FileStore.read store₂ visit.file) :
    settings.loadEntries store₂ entries base = .ok visits := by
  obtain ⟨loaded, hloaded, rfl⟩ := Settings.loadEntries_eq_ok_iff.1 hload
  refine Settings.loadEntries_eq_ok_iff.2 ⟨loaded, ?_, rfl⟩
  apply Outcome.mapM_eq_ok_of_imp hloaded
  intro entry _ nested hnested hload
  apply h.loadEntry_eq_ok settings hload
  intro visit hvisit
  exact hread visit (List.mem_flatten.2 ⟨nested, hnested, hvisit⟩)

end SameLayout

/-- Trees in memory with the same paths have the same layout. -/
theorem FileTree.sameLayout_of_isFile_eq {tree₁ tree₂ : FileTree} (h₁ : tree₁.WellFormed)
    (h₂ : tree₂.WellFormed) (hsame : ∀ path, tree₁.isFile path = tree₂.isFile path) :
    SameLayout tree₁ tree₂ where
  isFile_eq := funext hsame
  isDirectory_eq := funext (isDirectory_eq_of_isFile_eq h₁ h₂ hsame)
  chainBound_eq := funext fun _ => length_files_eq_of_isFile_eq h₁ h₂ hsame

/-- The output of a run depends on which paths hold files and on the files that it lists: another
tree with the same paths and the same contents at the listed ones gives the same output, whatever
else it holds. -/
theorem Settings.compile_eq_of_contents_eq [CompilerKind κ] (settings : Settings κ)
    (files₁ files₂ : List (Path × String)) (entries : List Path) (base : Path)
    (options : OutputOptions) {compilation : Compilation}
    (hsame : ∀ path, (FileTree.ofList files₁).isFile path = (FileTree.ofList files₂).isFile path)
    (hcompile : settings.compile (FileTree.ofList files₁) entries base options = .ok compilation)
    (hcontents : ∀ path ∈ compilation.files,
      (FileTree.ofList files₁).contents? path = (FileTree.ofList files₂).contents? path) :
    settings.compile (FileTree.ofList files₂) entries base options = .ok compilation := by
  have hlayout : SameLayout (FileTree.ofList files₁) (FileTree.ofList files₂) :=
    FileTree.sameLayout_of_isFile_eq (FileTree.wellFormed_ofList files₁)
      (FileTree.wellFormed_ofList files₂) hsame
  have hread : ∀ visit ∈ compilation.visits,
      FileStore.read (FileTree.ofList files₁) visit.file =
        FileStore.read (FileTree.ofList files₂) visit.file := by
    intro visit hvisit
    show FileTree.read _ _ = FileTree.read _ _
    unfold FileTree.read
    rw [hcontents visit.file (List.mem_map_of_mem hvisit)]
  have hload₁ := Settings.loadEntries_of_compile hcompile
  have hload₂ := hlayout.loadEntries_eq_ok settings hload₁ hread
  unfold Settings.compile at hcompile ⊢
  rw [hload₁] at hcompile
  rw [hload₂]
  exact hcompile

/-- A page with its menu, and a note that neither of them imports. -/
def filesWithNote (note : String) : List (Path × String) :=
  [(⟨"/v/page.html"⟩, "<import: src=\"./menu\"><Body:>\x7b\x7bname\x7d\x7d"),
    (⟨"/v/menu.html"⟩, "<list:>l"), (⟨"/v/note.html"⟩, note)]

theorem Settings.compile_eq_of_contents_eq_filesWithNote :
    ∃ compilation,
      (∀ path, (FileTree.ofList (filesWithNote "old")).isFile path =
        (FileTree.ofList (filesWithNote "<new")).isFile path) ∧
      standard.compile (FileTree.ofList (filesWithNote "old")) [⟨"page"⟩] ⟨"/v"⟩ .standard =
        .ok compilation ∧
      compilation.files = [⟨"/v/menu.html"⟩, ⟨"/v/page.html"⟩] ∧
      (∀ path ∈ compilation.files, (FileTree.ofList (filesWithNote "old")).contents? path =
        (FileTree.ofList (filesWithNote "<new")).contents? path) ∧
      standard.compile (FileTree.ofList (filesWithNote "<new")) [⟨"page"⟩] ⟨"/v"⟩ .standard =
        .ok compilation := by
  have hsame : ∀ path, (FileTree.ofList (filesWithNote "old")).isFile path =
      (FileTree.ofList (filesWithNote "<new")).isFile path := by
    intro path
    have hkeys : (FileTree.ofList (filesWithNote "old")).files.map Prod.fst =
        (FileTree.ofList (filesWithNote "<new")).files.map Prod.fst := by decide +kernel
    rw [Bool.eq_iff_iff, FileTree.isFile_iff, FileTree.isFile_iff, hkeys]
  -- The run computes digests, which only the kernel evaluates in reasonable time.
  have hrun : (standard.compile (FileTree.ofList (filesWithNote "old")) [⟨"page"⟩] ⟨"/v"⟩
      .standard).map Compilation.files = .ok [⟨"/v/menu.html"⟩, ⟨"/v/page.html"⟩] := by
    decide +kernel
  obtain ⟨compilation, hcompile, hfiles⟩ := Outcome.map_eq_ok_iff.1 hrun
  have hcontents : ∀ path ∈ compilation.files,
      (FileTree.ofList (filesWithNote "old")).contents? path =
        (FileTree.ofList (filesWithNote "<new")).contents? path := by
    rw [hfiles]
    decide +kernel
  exact ⟨compilation, hsame, hcompile, hfiles, hcontents,
    compile_eq_of_contents_eq standard _ _ _ _ _ hsame hcompile hcontents⟩

end ViewBundle
