import ViewBundle.Compilation
import ViewBundle.Proofs.Outcome

/-!
# What a load takes

When reading a file succeeds (`readFile_eq_ok_iff`); when loading a file succeeds, and what it then
leaves, in terms of the loads of the files that it imports (`loadNested_eq_ok_iff`); and why it
fails (`loadNested_eq_error_iff`).
-/

namespace ViewBundle.Settings

variable {κ σ : Type} [CompilerKind κ] [FileStore σ] {settings : Settings κ} {store : σ}

theorem readFile_eq_ok_iff {file : Path} {scope : Option String} {text : String}
    {contents : ViewFile} :
    settings.readFile store file scope = .ok (text, contents) ↔
      FileStore.read store file = .ok text ∧
        ∃ markup, settings.compilers.compile file.dottedExtension text file = .ok markup ∧
          ViewFile.parse settings store scope markup file = .ok contents := by
  constructor
  · intro h
    obtain ⟨text', htext, h⟩ := Outcome.bind_eq_ok_iff.1 h
    obtain ⟨markup, hmarkup, h⟩ := Outcome.bind_eq_ok_iff.1 h
    obtain ⟨contents', hparse, h⟩ := Outcome.bind_eq_ok_iff.1 h
    obtain ⟨rfl, rfl⟩ := Prod.mk.inj (Except.ok.inj h)
    exact ⟨Outcome.mapError_eq_ok_iff.1 htext, markup, hmarkup, hparse⟩
  · rintro ⟨htext, markup, hmarkup, hparse⟩
    refine Outcome.bind_eq_ok_iff.2 ⟨text, Outcome.mapError_eq_ok_iff.2 htext, ?_⟩
    refine Outcome.bind_eq_ok_iff.2 ⟨markup, hmarkup, ?_⟩
    exact Outcome.bind_eq_ok_iff.2 ⟨contents, hparse, rfl⟩

theorem read_of_readFile {file : Path} {scope : Option String} {text : String}
    {contents : ViewFile} (h : settings.readFile store file scope = .ok (text, contents)) :
    FileStore.read store file = .ok text :=
  (readFile_eq_ok_iff.1 h).1

theorem loadNested_eq_ok_iff {levels : Nat} {chain : List Path} {file : Path}
    {scope : Option String} {visits : List Visit} :
    settings.loadNested store (levels + 1) chain file scope = .ok visits ↔
      chainFrom file chain = [] ∧ ∃ text contents imported,
        settings.readFile store file scope = .ok (text, contents) ∧
        contents.imports.mapM (fun entry =>
          settings.loadNested store levels (chain ++ [file]) entry.file entry.scope) =
            .ok imported ∧
        visits = imported.flatten ++ [⟨file, Digest.hex text, contents.views⟩] := by
  rw [loadNested]
  cases chainFrom file chain with
  | cons first circle => simp
  | nil =>
    constructor
    · intro h
      obtain ⟨⟨text, contents⟩, hread, h⟩ := Outcome.bind_eq_ok_iff.1 h
      obtain ⟨imported, himported, h⟩ := Outcome.bind_eq_ok_iff.1 h
      exact ⟨rfl, text, contents, imported, hread, himported, (Except.ok.inj h).symm⟩
    · rintro ⟨-, text, contents, imported, hread, himported, rfl⟩
      refine Outcome.bind_eq_ok_iff.2 ⟨(text, contents), hread, ?_⟩
      exact Outcome.bind_eq_ok_iff.2 ⟨imported, himported, rfl⟩

/-- A load fails because the file is being loaded already, because it cannot be read, or as the
first of its imports that fails. -/
theorem loadNested_eq_error_iff {levels : Nat} {chain : List Path} {file : Path}
    {scope : Option String} {failure : Failure} :
    settings.loadNested store (levels + 1) chain file scope = .error failure ↔
      (∃ first circle, chainFrom file chain = first :: circle ∧
        failure = .importCycle (first :: circle ++ [file])) ∨
      chainFrom file chain = [] ∧
        (settings.readFile store file scope = .error failure ∨
          ∃ text contents before entry after,
            settings.readFile store file scope = .ok (text, contents) ∧
            contents.imports = before ++ entry :: after ∧
            (∀ earlier ∈ before, ∃ visits, settings.loadNested store levels (chain ++ [file])
              earlier.file earlier.scope = .ok visits) ∧
            settings.loadNested store levels (chain ++ [file]) entry.file entry.scope =
              .error failure) := by
  rw [loadNested]
  cases chainFrom file chain with
  | cons first circle =>
    constructor
    · intro h
      exact .inl ⟨first, circle, rfl, (Except.error.inj h).symm⟩
    · rintro (⟨_, _, hcircle, rfl⟩ | ⟨hnil, -⟩)
      · obtain ⟨rfl, rfl⟩ := List.cons.inj hcircle
        rfl
      · cases hnil
  | nil =>
    constructor
    · intro h
      refine .inr ⟨rfl, ?_⟩
      rcases Outcome.bind_eq_error_iff.1 h with hread | ⟨⟨text, contents⟩, hread, h⟩
      · exact .inl hread
      · have himports : (contents.imports.mapM fun entry => settings.loadNested store levels
            (chain ++ [file]) entry.file entry.scope) = .error failure := by
          rcases Outcome.bind_eq_error_iff.1 h with h | ⟨imported, -, h⟩
          · exact h
          · cases h
        obtain ⟨before, entry, after, hsplit, hbefore, hentry⟩ :=
          Outcome.mapM_eq_error_iff.1 himports
        exact .inr ⟨text, contents, before, entry, after, hread, hsplit, hbefore, hentry⟩
    · rintro (⟨_, _, hcircle, -⟩ | ⟨-, hread | ⟨text, contents, before, entry, after, hread,
        hsplit, hbefore, hentry⟩⟩)
      · cases hcircle
      · exact Outcome.bind_eq_error_iff.2 (.inl hread)
      · refine Outcome.bind_eq_error_iff.2 (.inr ⟨(text, contents), hread, ?_⟩)
        exact Outcome.bind_eq_error_iff.2 (.inl (Outcome.mapM_eq_error_iff.2
          ⟨before, entry, after, hsplit, hbefore, hentry⟩))

theorem loadEntry_eq_ok_iff {base entry : Path} {visits : List Visit} :
    settings.loadEntry store base entry = .ok visits ↔
      ∃ file, settings.resolveEntry store entry base = .ok file ∧
        settings.loadFile store file none = .ok visits :=
  Outcome.bind_eq_ok_iff

theorem loadEntry_eq_error_iff {base entry : Path} {failure : Failure} :
    settings.loadEntry store base entry = .error failure ↔
      settings.resolveEntry store entry base = .error failure ∨
        ∃ file, settings.resolveEntry store entry base = .ok file ∧
          settings.loadFile store file none = .error failure :=
  Outcome.bind_eq_error_iff

theorem loadEntries_eq_ok_iff {entries : List Path} {base : Path} {visits : List Visit} :
    settings.loadEntries store entries base = .ok visits ↔
      ∃ loaded, entries.mapM (settings.loadEntry store base) = .ok loaded ∧
        loaded.flatten = visits :=
  Outcome.map_eq_ok_iff

/-- A run keeps the visits of its entries. -/
theorem loadEntries_of_compile {entries : List Path} {base : Path} {options : OutputOptions}
    {compilation : Compilation}
    (h : settings.compile store entries base options = .ok compilation) :
    settings.loadEntries store entries base = .ok compilation.visits := by
  obtain ⟨visits, hvisits, h⟩ := Outcome.bind_eq_ok_iff.1 h
  obtain ⟨source, -, h⟩ := Outcome.bind_eq_ok_iff.1 h
  obtain ⟨artifact, -, h⟩ := Outcome.bind_eq_ok_iff.1 h
  rw [hvisits, ← Except.ok.inj h]

end ViewBundle.Settings
