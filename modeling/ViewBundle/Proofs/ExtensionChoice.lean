import ViewBundle.Proofs.FileTree
import ViewBundle.Proofs.Loading
import ViewBundle.Proofs.NormalPath
import ViewBundle.Proofs.Registration

/-!
# The compiler of a completed reference

A reference can leave the extension of its file out (`mem_stems_or_completedBy`).  The extension
that completes it is one of those for which compilers are registered, and its file is compiled by
what follows the last dot of the file's name.  The two are the same if and only if the extension
begins with its only dot and is added to a name (`dottedExtension_withSuffix`,
`dottedExtension_of_nameless`, `dottedExtension_eq_empty_or_isPlainExtension`).  Main statement:
`load_completedBy`.
-/

namespace ViewBundle

/-- An extension that a file name can end with: a dot, and behind it neither a dot nor a slash. -/
def IsPlainExtension (extension : String) : Prop :=
  ∃ letters, extension.toList = '.' :: letters ∧ '.' ∉ letters ∧ '/' ∉ letters

namespace Path

/-! ## The extension of a file name -/

theorem extension?_of_fileName? {p : Path} {name : String} {front letters : List Char}
    (hname : p.fileName? = some name) (hsplit : name.toList = front ++ '.' :: letters)
    (hletters : '.' ∉ letters) :
    p.extension? = if front = [] then none else some (String.ofList letters) := by
  have hpieces : (Text.pieces '.' name.toList).reverse =
      letters :: (Text.pieces '.' front).reverse := by
    rw [hsplit, Text.pieces_append_sep, Text.pieces_of_notMem hletters, List.reverse_append]
    rfl
  have hfront : (Text.pieces '.' front).reverse = [[]] ↔ front = [] := by
    rw [List.reverse_eq_iff]
    constructor
    · intro h
      rw [← Text.intercalate_pieces '.' front, h]
      rfl
    · rintro rfl
      rfl
  rw [extension?, hname, Option.bind_some, hpieces]
  have hne : (Text.pieces '.' front).reverse ≠ [] :=
    fun h => Text.pieces_ne_nil _ _ (List.reverse_eq_nil_iff.1 h)
  simp [hne, hfront]

theorem slash_notMem_of_fileName? {p : Path} {name : String} (h : p.fileName? = some name) :
    '/' ∉ name.toList := by
  obtain ⟨component, hlast, hname⟩ := Option.bind_eq_some_iff.1 h
  obtain rfl : component = .normal name := by
    cases component <;> simp_all [Component.name?]
  have hmem := List.mem_of_getLast? hlast
  rw [components_eq, List.mem_append] at hmem
  rcases hmem with hmem | hmem
  · unfold leading at hmem
    split at hmem
    · simp at hmem
    · split at hmem <;> simp at hmem
  · exact (isPiece_of_mem_pieceComponents hmem).slash_notMem

/-- A path has no extension, or one with a single dot. -/
theorem dottedExtension_eq_empty_or_isPlainExtension (p : Path) :
    p.dottedExtension = "" ∨ IsPlainExtension p.dottedExtension := by
  unfold dottedExtension
  split
  · next extension hextension =>
    obtain ⟨name, hname, hextension⟩ := Option.bind_eq_some_iff.1 hextension
    split at hextension
    · next last up hpieces =>
      have hlast : last ∈ Text.pieces '.' name.toList := by
        rw [← List.mem_reverse, hpieces]
        exact List.mem_cons_self
      split at hextension
      · contradiction
      · obtain rfl := Option.some.inj hextension
        refine .inr ⟨last, ?_, Text.notMem_of_mem_pieces hlast, ?_⟩
        · simp
        · exact fun hslash =>
            slash_notMem_of_fileName? hname (Text.mem_of_mem_pieces hlast hslash)
    · contradiction
  · exact .inl rfl

/-! ## Completed paths -/

variable {components : List Component} {last : Component} {extension : String}

theorem isPiece_append_extension (hlast : last.IsPiece) (h : IsPlainExtension extension) :
    (Component.normal (last.text ++ extension)).IsPiece := by
  obtain ⟨letters, hextension, -, hslash⟩ := h
  refine hlast.append (by simpa [hextension] using hslash) ?_
  rintro rfl
  contradiction

/-- An extension with a single dot that is added to a name is the extension of the new name. -/
theorem dottedExtension_withSuffix (hcomponents : Component.Written components)
    (hlast : last.IsPiece) (h : IsPlainExtension extension) :
    ((ofComponents (components ++ [last])).withSuffix extension).dottedExtension = extension := by
  have hlonger := isPiece_append_extension hlast h
  obtain ⟨letters, hextension, hdot, -⟩ := h
  have hname : ((ofComponents (components ++ [last])).withSuffix extension).fileName? =
      some (last.text ++ extension) := by
    rw [withSuffix_ofComponents hcomponents hlast hlonger, fileName?,
      components_ofComponents (hcomponents.concat hlonger), List.getLast?_concat]
    rfl
  have htext : (last.text ++ extension).toList = last.text.toList ++ '.' :: letters := by
    rw [String.toList_append, hextension]
  have hne : last.text.toList ≠ [] :=
    fun hnil => hlast.text_ne_empty (String.toList_eq_nil_iff.1 hnil)
  rw [dottedExtension, extension?_of_fileName? hname htext hdot, if_neg hne, ← String.toList_inj,
    hextension]
  simp

/-- An extension that is added to no name becomes a name without extension. -/
theorem dottedExtension_of_nameless (h : IsPlainExtension extension)
    (hcomponents : components = [] ∨ components = [.root]) :
    ((ofComponents components).withSuffix extension).dottedExtension = "" := by
  obtain ⟨letters, hextension, hdot, hslash⟩ := h
  suffices hnone : ((ofComponents components).withSuffix extension).extension? = none by
    rw [dottedExtension, hnone]
  by_cases hletters : letters = []
  · -- The extension is a single dot, which is no name.
    obtain rfl : extension = "." := String.toList_inj.1 (hextension.trans (by rw [hletters]; rfl))
    rcases hcomponents with rfl | rfl
    · rfl
    · rfl
  · have hpiece : (Component.normal extension).IsPiece := by
      apply Component.isPiece_normal
      · simpa [hextension] using hslash
      · rintro rfl
        contradiction
      · rintro rfl
        exact hletters (List.cons.inj hextension).2.symm
      · rintro rfl
        rw [← (List.cons.inj hextension).2] at hdot
        exact hdot (by decide)
    have hwritten : Component.Written (components ++ [.normal extension]) := by
      rcases hcomponents with rfl | rfl
      · exact .relative (List.forall_mem_singleton.2 hpiece)
      · exact .absolute (List.forall_mem_singleton.2 hpiece)
    have hname : ((ofComponents components).withSuffix extension).fileName? = some extension := by
      rw [withSuffix_ofComponents_nameless hcomponents hpiece, fileName?,
        components_ofComponents hwritten, List.getLast?_concat]
      rfl
    have hsplit : extension.toList = [] ++ '.' :: letters := hextension
    rw [extension?_of_fileName? hname hsplit hdot, if_pos rfl]

end Path

namespace Settings

/-! ## References that are completed -/

section Completion

variable {κ σ : Type} [FileStore σ]

/-- The paths that a reference can stand for when no extension is added: the path that it is taken
to be, and the index of that directory. -/
def stems (settings : Settings κ) (reference : String) (base : Path) : List Path :=
  match ReferenceKind.of reference with
  | .path =>
    [(base.join ⟨reference⟩).normalize, (base.join ⟨reference⟩).normalize.join ⟨"index"⟩]
  | .directory => [(base.join ⟨reference⟩).normalize.join ⟨"index"⟩]
  | .moduleName =>
    (settings.moduleSearchPaths base).flatMap fun directory =>
      [(directory.join ⟨reference⟩).normalize,
        (directory.join ⟨reference⟩).normalize.join ⟨"index"⟩]

/-- A reference stands for a file whose path is one that it can stand for with a recognized
extension added. -/
structure CompletedBy (settings : Settings κ) (store : σ) (reference : String)
    (base candidate : Path) (extension : String) (file : Path) : Prop where
  resolve_eq : settings.resolve store reference base = .ok file
  candidate_mem : candidate ∈ settings.stems reference base
  extension_mem : extension ∈ settings.extensions
  file_eq : file = candidate.withSuffix extension

variable {settings : Settings κ} {store : σ} {reference : String} {base file : Path}

theorem exists_stem_of_placeAt? {candidate : Path}
    (h : settings.placeAt? store candidate = some file) :
    ∃ stem ∈ [candidate, candidate.join ⟨"index"⟩], settings.fileAt? store stem = some file := by
  rcases Option.or_eq_some_iff.1 h with h | ⟨-, h⟩
  · exact ⟨candidate, by simp, h⟩
  · unfold indexAt? at h
    split at h
    · exact ⟨candidate.join ⟨"index"⟩, by simp, h⟩
    · contradiction

theorem exists_stem_of_resolve (h : settings.resolve store reference base = .ok file) :
    ∃ stem ∈ settings.stems reference base, settings.fileAt? store stem = some file := by
  have hfile := resolve_eq_ok_iff.1 h
  rw [resolve?] at hfile
  rw [stems]
  cases hkind : ReferenceKind.of reference with
  | path =>
    rw [hkind] at hfile
    exact exists_stem_of_placeAt? hfile
  | directory =>
    rw [hkind] at hfile
    dsimp only [indexAt?] at hfile
    split at hfile
    · exact ⟨_, List.mem_singleton_self _, hfile⟩
    · contradiction
  | moduleName =>
    rw [hkind] at hfile
    obtain ⟨directory, hdirectory, hplace⟩ := List.exists_of_findSome?_eq_some hfile
    obtain ⟨stem, hstem, hstems⟩ := exists_stem_of_placeAt? hplace
    exact ⟨stem, List.mem_flatMap.2 ⟨directory, hdirectory, hstem⟩, hstems⟩

/-- A reference stands for a file as it is, or is completed by a recognized extension. -/
theorem mem_stems_or_completedBy (h : settings.resolve store reference base = .ok file) :
    file ∈ settings.stems reference base ∨
      ∃ candidate extension,
        settings.CompletedBy store reference base candidate extension file := by
  obtain ⟨stem, hstem, hfile⟩ := exists_stem_of_resolve h
  rcases List.mem_cons.1 (List.mem_of_find?_eq_some hfile) with rfl | hmem
  · exact .inl hstem
  · obtain ⟨extension, hextension, rfl⟩ := List.mem_map.1 hmem
    exact .inr ⟨stem, extension, h, hstem, hextension, rfl⟩

theorem isFile_of_resolve (h : settings.resolve store reference base = .ok file) :
    FileStore.isFile store file = true := by
  obtain ⟨stem, -, hfile⟩ := exists_stem_of_resolve h
  exact List.find?_some hfile

/-- What a reference can stand for is a normal form, or the index of the directory there. -/
theorem exists_normalize_of_mem_stems {stem : Path} (h : stem ∈ settings.stems reference base) :
    ∃ place : Path, stem = place.normalize ∨ stem = place.normalize.join ⟨"index"⟩ := by
  unfold stems at h
  split at h
  · exact ⟨_, List.mem_pair.1 h⟩
  · exact ⟨_, .inr (List.mem_singleton.1 h)⟩
  · obtain ⟨directory, -, hstem⟩ := List.mem_flatMap.1 h
    exact ⟨_, List.mem_pair.1 hstem⟩

/-- What a reference can stand for is written without silent pieces. -/
theorem exists_ofComponents_of_mem_stems {stem : Path} (h : stem ∈ settings.stems reference base) :
    ∃ components, Component.Written components ∧ stem = Path.ofComponents components := by
  have hindex : (Component.normal "index").IsPiece :=
    Component.isPiece_normal (by decide) (by decide) (by decide) (by decide)
  obtain ⟨place, rfl | rfl⟩ := exists_normalize_of_mem_stems h
  · exact ⟨_, place.written_normalize, rfl⟩
  · exact ⟨_, place.written_normalize.concat hindex,
      Path.join_ofComponents place.written_normalize hindex⟩

/-! ## Loads -/

variable [CompilerKind κ]

/-- What a load takes when a compiler makes markup of the text of its file. -/
def loadWith (settings : Settings κ) (store : σ) (file : Path) (scope : Option String)
    (text : String) (compiler : κ) : Except Failure (List Visit) := do
  let markup ← CompilerKind.run compiler text file
  let contents ← ViewFile.parse settings store scope markup file
  let imported ← contents.imports.mapM fun entry =>
    settings.loadNested store (FileStore.chainBound store settings.extensions) [file] entry.file
      entry.scope
  return imported.flatten ++ [⟨file, Digest.hex text, contents.views⟩]

/-- A file is loaded with the compiler of what its name ends with. -/
theorem load_eq {text : String} (hfile : settings.resolve store reference base = .ok file)
    (htext : FileStore.read store file = .ok text) (scope : Option String) :
    settings.load store reference base scope =
      match settings.compilers.get? file.dottedExtension with
      | some compiler => settings.loadWith store file scope text compiler
      | none => .error (.missingCompiler file.dottedExtension) := by
  have hload : settings.load store reference base scope = settings.loadFile store file scope := by
    rw [load, hfile]
    rfl
  have hread : settings.readFile store file scope =
      settings.compilers.compile file.dottedExtension text file >>= fun markup =>
        ViewFile.parse settings store scope markup file >>= fun contents =>
          pure (text, contents) := by
    rw [readFile, htext]
    rfl
  rw [hload, loadFile, loadNested, chainFrom, List.dropWhile_nil, hread, Compilers.compile]
  cases settings.compilers.get? file.dottedExtension with
  | none => rfl
  | some compiler =>
    dsimp only
    rw [loadWith]
    cases CompilerKind.run compiler text file with
    | error failure => rfl
    | ok markup => exact bind_assoc (ViewFile.parse settings store scope markup file) _ _

end Completion

theorem exists_read_of_isFile {tree : FileTree} {file : Path}
    (h : FileStore.isFile tree file = true) : ∃ text, FileStore.read tree file = .ok text := by
  obtain ⟨text, htext⟩ := Option.isSome_iff_exists.1 h
  exact ⟨text, FileTree.read_eq_ok_iff.2 htext⟩

/-- A file whose reference is completed by an extension that begins with its only dot is loaded with
the compiler that was registered last for the extension, if the extension is added to a name.  If
it is added to no name, the file has no compiler.  The compiler of any other extension is looked up
under a different one. -/
theorem load_completedBy {κ : Type} [CompilerKind κ] {registrations : List (String × κ)}
    {tree : FileTree} {reference : String} {base candidate file : Path} {extension : String}
    (h : ((standard κ).addCompilers registrations).CompletedBy tree reference base candidate
      extension file) (scope : Option String) :
    ∃ text, FileStore.read tree file = .ok text ∧
      ((standard κ).addCompilers registrations).compilers.get? extension =
        some (registeredCompiler registrations extension) ∧
      (IsPlainExtension extension ∧ candidate ≠ ⟨""⟩ ∧ candidate ≠ ⟨"/"⟩ →
        ((standard κ).addCompilers registrations).load tree reference base scope =
          ((standard κ).addCompilers registrations).loadWith tree file scope text
            (registeredCompiler registrations extension)) ∧
      (IsPlainExtension extension ∧ (candidate = ⟨""⟩ ∨ candidate = ⟨"/"⟩) →
        ((standard κ).addCompilers registrations).load tree reference base scope =
          .error (.missingCompiler "")) ∧
      (¬IsPlainExtension extension → file.dottedExtension ≠ extension ∧
        ((standard κ).addCompilers registrations).load tree reference base scope =
          match ((standard κ).addCompilers registrations).compilers.get? file.dottedExtension with
          | some compiler =>
            ((standard κ).addCompilers registrations).loadWith tree file scope text compiler
          | none => .error (.missingCompiler file.dottedExtension)) := by
  obtain ⟨text, htext⟩ := exists_read_of_isFile (isFile_of_resolve h.resolve_eq)
  have hload := load_eq h.resolve_eq htext scope
  have hcompiler := get?_of_mem_extensions h.extension_mem
  obtain ⟨components, hwritten, hcandidate⟩ := exists_ofComponents_of_mem_stems h.candidate_mem
  have hfile : file = (Path.ofComponents components).withSuffix extension := by
    rw [h.file_eq, hcandidate]
  refine ⟨text, htext, hcompiler, ?_, ?_, ?_⟩
  · rintro ⟨hplain, hempty, hroot⟩
    have hdotted : file.dottedExtension = extension := by
      rcases hwritten.eq_nil_or_root_or_concat with rfl | rfl | ⟨front, last, rfl, hfront, hlast⟩
      · exact absurd hcandidate hempty
      · exact absurd hcandidate hroot
      · rw [hfile]
        exact Path.dottedExtension_withSuffix hfront hlast hplain
    rw [hload, hdotted, hcompiler]
  · rintro ⟨hplain, hnameless⟩
    have hcomponents : components = [] ∨ components = [.root] := by
      have hread : components = candidate.components := by
        rw [hcandidate, Path.components_ofComponents hwritten]
      rcases hnameless with rfl | rfl
      · exact .inl hread
      · exact .inr hread
    rw [hload, hfile, Path.dottedExtension_of_nameless hplain hcomponents,
      get?_empty_addCompilers]
  · intro hplain
    refine ⟨?_, hload⟩
    intro hdotted
    rcases file.dottedExtension_eq_empty_or_isPlainExtension with hempty | hfilePlain
    · obtain ⟨letters, hletters⟩ := dotted_of_mem_extensions h.extension_mem
      rw [← hdotted, hempty] at hletters
      contradiction
    · exact hplain (hdotted ▸ hfilePlain)

/-- Compilers of templates, one of them for templates of markup. -/
def templateCompilers : List (String × Compiler) :=
  [("tpl", .view), (".tpl.html", .view)]

/-- A note and a card, each in a template of its kind. -/
def templateFiles : FileTree :=
  .ofList [(⟨"/v/note.tpl"⟩, "Hi"), (⟨"/v/card.tpl.html"⟩, "Hi")]

theorem completedBy_note : (standard.addCompilers templateCompilers).CompletedBy templateFiles
    "./note" ⟨"/v"⟩ ⟨"/v/note"⟩ ".tpl" ⟨"/v/note.tpl"⟩ := by
  constructor <;> decide +kernel

theorem completedBy_card : (standard.addCompilers templateCompilers).CompletedBy templateFiles
    "./card" ⟨"/v"⟩ ⟨"/v/card"⟩ ".tpl.html" ⟨"/v/card.tpl.html"⟩ := by
  constructor <;> decide +kernel

/-- The note is loaded with the compiler of its extension, and the card with that of `.html`. -/
theorem load_completedBy_templates :
    (standard.addCompilers templateCompilers).load templateFiles "./note" ⟨"/v"⟩ none =
        (standard.addCompilers templateCompilers).loadWith templateFiles ⟨"/v/note.tpl"⟩ none "Hi"
          .view ∧
      (standard.addCompilers templateCompilers).load templateFiles "./card" ⟨"/v"⟩ none =
        (standard.addCompilers templateCompilers).loadWith templateFiles ⟨"/v/card.tpl.html"⟩ none
          "Hi" .html := by
  constructor
  · obtain ⟨text, htext, -, hplain, -⟩ := load_completedBy completedBy_note none
    obtain rfl : "Hi" = text := Except.ok.inj htext
    exact hplain ⟨⟨"tpl".toList, rfl, by decide, by decide⟩, by decide, by decide⟩
  · obtain ⟨text, htext, -, -, -, hother⟩ := load_completedBy completedBy_card none
    obtain rfl : "Hi" = text := Except.ok.inj htext
    refine (hother ?_).2
    rintro ⟨letters, hletters, hdot, -⟩
    rw [← (List.cons.inj hletters).2] at hdot
    exact hdot (by decide)

/-- A file need not be loaded with the compiler of the extension that completes its reference. -/
theorem not_forall_load_completedBy :
    ¬∀ (registrations : List (String × Compiler)) (tree : FileTree) (reference : String)
      (base candidate file : Path) (extension : String) (scope : Option String) (text : String),
      (standard.addCompilers registrations).CompletedBy tree reference base candidate extension
        file →
      FileStore.read tree file = .ok text →
      (standard.addCompilers registrations).load tree reference base scope =
        (standard.addCompilers registrations).loadWith tree file scope text
          (registeredCompiler registrations extension) := by
  intro h
  have hload := h _ _ _ _ _ _ _ none "Hi" completedBy_card (by decide +kernel)
  have hviews := congrArg (Except.map (List.flatMap Visit.views)) hload
  exact absurd hviews (by decide +kernel)

end Settings

end ViewBundle
