import ViewBundle.Proofs.Registration

/-!
# Recognized extensions

Settings keep the extensions that they recognize and the compilers of these in two lists, and every
change is made to both of them.  The lists hold the same extensions in the same order, since one
change keeps that so (`extensions_change_eq_keys`), and each extension stays where it first came
(`extensions_addCompilers`).  Main statement: what settings recognize after any changes, and what
compiles it (`Settings.changeAll_recognizes`).
-/

namespace ViewBundle

variable {κ : Type}

/-- What is done with settings before a run. -/
inductive SettingsChange (κ : Type) where
  /-- An extension, with or without its dot, is given a compiler. -/
  | addCompiler (extension : String) (compiler : κ)
  /-- The names of the module directories are replaced. -/
  | withModuleDirectories (directories : List String)

/-- The extension and the compiler that a change registers. -/
def SettingsChange.registration? : SettingsChange κ → Option (String × κ)
  | addCompiler extension compiler => some (extension, compiler)
  | withModuleDirectories _ => none

namespace Settings

/-- The settings behind a change. -/
def change (settings : Settings κ) : SettingsChange κ → Settings κ
  | .addCompiler extension compiler => settings.addCompiler extension compiler
  | .withModuleDirectories directories => settings.withModuleDirectories directories

/-- The settings behind changes that are made in order. -/
def changeAll (settings : Settings κ) (changes : List (SettingsChange κ)) : Settings κ :=
  changes.foldl change settings

variable {settings : Settings κ}

/-! ## Two lists of extensions -/

theorem extensions_change_eq_keys (h : settings.extensions = settings.compilers.keys)
    (next : SettingsChange κ) :
    (settings.change next).extensions = (settings.change next).compilers.keys := by
  cases next with
  | addCompiler extension compiler =>
    have hkeys : (settings.addCompiler extension compiler).compilers.keys =
        if dotted extension ∈ settings.compilers.keys then settings.compilers.keys
        else settings.compilers.keys ++ [dotted extension] :=
      Dictionary.keys_put settings.compilers (dotted extension) compiler
    rw [change, hkeys, ← h]
    rfl
  | withModuleDirectories directories => exact h

theorem extensions_changeAll_eq_keys (h : settings.extensions = settings.compilers.keys)
    (changes : List (SettingsChange κ)) :
    (settings.changeAll changes).extensions = (settings.changeAll changes).compilers.keys := by
  induction changes generalizing settings with
  | nil => exact h
  | cons next changes ih => exact ih (extensions_change_eq_keys h next)

/-- An extension that comes again keeps its place, and a new one comes last. -/
theorem extensions_addCompilers (h : settings.extensions.eraseDups = settings.extensions)
    (registrations : List (String × κ)) :
    (settings.addCompilers registrations).extensions =
      (settings.extensions ++ registrations.map (dotted ·.1)).eraseDups := by
  induction registrations using List.reverseRecOn with
  | nil => rw [List.map_nil, List.append_nil, h]; rfl
  | append_singleton registrations registration ih =>
    obtain ⟨before, hbefore⟩ : ∃ before, before =
        settings.extensions ++ registrations.map (dotted ·.1) := ⟨_, rfl⟩
    have hstep : (settings.addCompilers (registrations ++ [registration])).extensions =
        if dotted registration.1 ∈ before then before.eraseDups
        else before.eraseDups ++ [dotted registration.1] := by
      rw [addCompilers_concat, addCompiler, ih, ← hbefore]
      simp only [List.mem_eraseDups]
    rw [hstep, List.map_append, ← List.append_assoc, ← hbefore, List.eraseDups_append]
    by_cases hmem : dotted registration.1 ∈ before
    · simp [List.removeAll, hmem]
    · simp [List.removeAll, hmem, List.eraseDups_cons]

/-! ## Changes and registrations -/

/-- Module directories have no part in what is recognized. -/
theorem changeAll_eq (settings : Settings κ) (changes : List (SettingsChange κ)) :
    ∃ directories, settings.changeAll changes =
      (settings.addCompilers (changes.filterMap SettingsChange.registration?)).withModuleDirectories
        directories := by
  induction changes using List.reverseRecOn with
  | nil => exact ⟨settings.moduleDirectories, rfl⟩
  | append_singleton changes last ih =>
    obtain ⟨directories, hdirectories⟩ := ih
    have hstep : settings.changeAll (changes ++ [last]) =
        (settings.changeAll changes).change last := by
      rw [changeAll, List.foldl_append]
      rfl
    rw [hstep, hdirectories, List.filterMap_append]
    cases last with
    | addCompiler extension compiler =>
      refine ⟨directories, ?_⟩
      show _ = (settings.addCompilers (_ ++ [(extension, compiler)])).withModuleDirectories _
      rw [addCompilers_concat]
      rfl
    | withModuleDirectories later =>
      refine ⟨later, ?_⟩
      show _ = (settings.addCompilers (_ ++ [])).withModuleDirectories _
      rw [List.append_nil]
      rfl

/-! ## What settings recognize -/

/-- A recognized extension is compiled by the compiler that was registered last for it. -/
theorem compile_addCompilers [CompilerKind κ] {registrations : List (String × κ)}
    {extension : String}
    (h : extension ∈ ((standard κ).addCompilers registrations).extensions) :
    (∃ compiler, lastRegistered? registrations extension = some compiler ∧
      ∀ (text : String) (file : Path),
        ((standard κ).addCompilers registrations).compilers.compile extension text file =
          CompilerKind.run compiler text file) ∨
    extension = ".html" ∧ lastRegistered? registrations extension = none ∧
      ∀ (text : String) (file : Path),
        ((standard κ).addCompilers registrations).compilers.compile extension text file =
          .ok text := by
  have hcompile (text : String) (file : Path) :
      ((standard κ).addCompilers registrations).compilers.compile extension text file =
        CompilerKind.run (registeredCompiler registrations extension) text file := by
    rw [Compilers.compile, get?_of_mem_extensions h]
  unfold registeredCompiler at hcompile
  cases hlast : lastRegistered? registrations extension with
  | some compiler =>
    rw [hlast] at hcompile
    exact .inl ⟨compiler, rfl, hcompile⟩
  | none =>
    rw [hlast] at hcompile
    exact .inr ⟨eq_defaultExtension_of_lastRegistered? h hlast, rfl, fun text file =>
      (hcompile text file).trans (CompilerKind.run_html text file)⟩

/-- After any changes to the standard settings, the recognized extensions are those that have
compilers, in one order: the extension that is always recognized, then every other one at the place
where it was first registered, with its dot.  Each of them is compiled by the compiler that was
registered last for it, however it was written, and markup files are left as they are if there is
none. -/
theorem changeAll_recognizes [CompilerKind κ] (changes : List (SettingsChange κ)) :
    let settings := (standard κ).changeAll changes
    let registrations := changes.filterMap SettingsChange.registration?
    settings.extensions = settings.compilers.keys ∧
      settings.extensions.Nodup ∧
      settings.extensions.head? = some ".html" ∧
      settings.extensions = (".html" :: registrations.map (dotted ·.1)).eraseDups ∧
      (∀ extension ∈ settings.extensions, extension.toList.head? = some '.') ∧
      ∀ extension ∈ settings.extensions,
        (∃ compiler, lastRegistered? registrations extension = some compiler ∧
          ∀ (text : String) (file : Path),
            settings.compilers.compile extension text file = CompilerKind.run compiler text file) ∨
        extension = ".html" ∧ lastRegistered? registrations extension = none ∧
          ∀ (text : String) (file : Path),
            settings.compilers.compile extension text file = .ok text := by
  intro settings registrations
  have hkeys : settings.extensions = settings.compilers.keys :=
    extensions_changeAll_eq_keys rfl changes
  obtain ⟨directories, hsettings⟩ := changeAll_eq (standard κ) changes
  have hextensions : settings.extensions = ((standard κ).addCompilers registrations).extensions :=
    (congrArg extensions hsettings :)
  have hcompilers : settings.compilers = ((standard κ).addCompilers registrations).compilers :=
    (congrArg compilers hsettings :)
  have hplaces : settings.extensions = (".html" :: registrations.map (dotted ·.1)).eraseDups := by
    rw [hextensions, extensions_addCompilers rfl]
    rfl
  refine ⟨hkeys, ?_, ?_, hplaces, ?_, ?_⟩
  · rw [hkeys]
    exact settings.compilers.nodup_keys
  · rw [hplaces, List.eraseDups_cons]
    rfl
  · intro extension hmem
    rw [hextensions] at hmem
    obtain ⟨letters, hletters⟩ := dotted_of_mem_extensions hmem
    rw [hletters]
    rfl
  · intro extension hmem
    rw [hextensions] at hmem
    rw [hcompilers]
    exact compile_addCompilers hmem

/-- A compiler that writes the path of a file above its text. -/
def headed : CompilerFunction :=
  fun text file => .ok (file.text ++ "\n" ++ text)

/-- A compiler that refuses every file. -/
def refusing : CompilerFunction :=
  fun _ file => .error (.missingCompiler file.text)

/-- Changes that register one extension with its dot and without it. -/
def templateChanges : List (SettingsChange CompilerFunction) :=
  [.addCompiler "tpl" refusing, .withModuleDirectories ["kit"], .addCompiler "html.md" refusing,
    .addCompiler ".tpl" headed]

theorem changeAll_recognizes_templateChanges :
    ((standard CompilerFunction).changeAll templateChanges).extensions =
        [".html", ".tpl", ".html.md"] ∧
      (∀ (text : String) (file : Path),
        ((standard CompilerFunction).changeAll templateChanges).compilers.compile ".tpl" text file =
          .ok (file.text ++ "\n" ++ text)) ∧
      ∀ (text : String) (file : Path),
        ((standard CompilerFunction).changeAll templateChanges).compilers.compile ".html" text
          file = .ok text := by
  obtain ⟨-, -, -, hplaces, -, hcompile⟩ := changeAll_recognizes templateChanges
  have hextensions : ((standard CompilerFunction).changeAll templateChanges).extensions =
      [".html", ".tpl", ".html.md"] := by
    rw [hplaces]
    decide
  refine ⟨hextensions, ?_, ?_⟩
  · rcases hcompile ".tpl" (by rw [hextensions]; decide) with ⟨compiler, hlast, htpl⟩ | ⟨hhtml, -⟩
    · obtain rfl : headed = compiler := Option.some.inj hlast
      exact htpl
    · exact absurd hhtml (by decide)
  · rcases hcompile ".html" (by rw [hextensions]; decide) with ⟨compiler, hlast, -⟩ | ⟨-, -, hhtml⟩
    · cases hlast
    · exact hhtml

end Settings

end ViewBundle
