import Mathlib.Logic.Relation
import ViewBundle.Proofs.FileTree
import ViewBundle.Proofs.Loading
import ViewBundle.Proofs.Path

/-!
# The import graph

A file leads to another one if its markup holds an import tag whose reference stands for that file.
The tags decide this, whatever else the markup holds.  If all of the markup is a view file, its
imports are the files that it leads to (`imports_iff_of_readFile`).

Where a file leads does not depend on how its path is written, if its compiler does not look at that
(`Imports.of_same`).  Then places, and not only paths, lead to one another, and wherever a place
leads to, the files of that place lead to as well (`exists_reflTransGen_imports`).
-/

namespace ViewBundle

variable {κ σ : Type} [FileStore σ]

/-! ## Import tags -/

namespace ViewFile

/-- Among the tokens of a file is an import tag whose reference stands for the target. -/
def HasImport (settings : Settings κ) (store : σ) (file : Path) (tokens : List Markup.Token)
    (target : Path) : Prop :=
  ∃ tag attributes reference, .opening tag "import:" attributes ∈ tokens ∧
    attributes.get? "src" = some reference ∧
    settings.resolve store reference (Origin.directory ⟨file, none⟩) = .ok target

variable {settings : Settings κ} {store : σ} {origin : Origin}

theorem hasImport_cons_iff {token : Markup.Token} {tokens : List Markup.Token}
    {file target : Path} :
    HasImport settings store file (token :: tokens) target ↔
      HasImport settings store file [token] target ∨
        HasImport settings store file tokens target := by
  simp only [HasImport, List.mem_cons, List.not_mem_nil, or_false, or_and_right, exists_or]

theorem importOf_eq_ok_iff {tag : String} {attributes : Markup.Attributes} {entry : Import} :
    importOf settings store origin tag attributes = .ok entry ↔
      ∃ reference file, attributes.get? "src" = some reference ∧
        settings.resolve store reference origin.directory = .ok file ∧
        entry = ⟨file, nestedScope origin.scope
          ((attributes.get? "ns").getD (baseName reference file.dottedExtension))⟩ := by
  unfold importOf
  cases attributes.get? "src" with
  | none => simp
  | some reference =>
    constructor
    · intro h
      obtain ⟨file, hfile, h⟩ := Outcome.bind_eq_ok_iff.1 h
      exact ⟨reference, file, rfl, hfile, (Except.ok.inj h).symm⟩
    · rintro ⟨_, file, hreference, hfile, rfl⟩
      obtain rfl := Option.some.inj hreference
      exact Outcome.bind_eq_ok_iff.2 ⟨file, hfile, rfl⟩

theorem viewStem?_eq_importStem_iff {name : String} :
    Markup.viewStem? name.toList = some importStem ↔ name = "import:" := by
  constructor
  · intro h
    rw [← String.toList_inj]
    exact (Markup.eq_append_of_viewStem? h).1
  · rintro rfl
    rfl

/-- The imports that a tag asks for are the files that its reference stands for. -/
theorem mem_imports_iff {stem : List Char} {source name : String}
    {attributes : Markup.Attributes} {imports : List Import}
    (hstem : Markup.viewStem? name.toList = some stem)
    (h : Opened.imports settings store ⟨stem, attributes⟩ origin source = .ok imports)
    (target : Path) :
    (∃ entry ∈ imports, entry.file = target) ↔
      HasImport settings store origin.file [.opening source name attributes] target := by
  unfold Opened.imports at h
  dsimp only at h
  split at h
  · next himport =>
    obtain ⟨entry, hentry, rfl⟩ := Outcome.map_eq_ok_iff.1 h
    obtain ⟨reference, file, hreference, hfile, rfl⟩ := importOf_eq_ok_iff.1 hentry
    have hname : name = "import:" := viewStem?_eq_importStem_iff.1 (himport ▸ hstem)
    constructor
    · rintro ⟨_, hmem, rfl⟩
      rw [List.mem_singleton.1 hmem]
      exact ⟨source, attributes, reference, by simp [hname], hreference, hfile⟩
    · rintro ⟨tag, attributes', reference', hmem, hreference', htarget⟩
      obtain ⟨rfl, -, rfl⟩ : tag = source ∧ "import:" = name ∧ attributes' = attributes := by
        simpa using hmem
      obtain rfl := Option.some.inj (hreference.symm.trans hreference')
      exact ⟨_, List.mem_singleton_self _, Except.ok.inj (hfile.symm.trans htarget)⟩
  · next himport =>
    obtain rfl := Except.ok.inj h
    have hname : "import:" ≠ name := by
      rintro rfl
      exact himport (Option.some.inj (hstem.symm.trans (viewStem?_eq_importStem_iff.2 rfl)))
    simp [HasImport, hname]

/-- The imports of a view file are the files that its import tags lead to. -/
theorem imports_iff_of_ofTokens {pending : Option Opened} {tokens : List Markup.Token}
    {contents : ViewFile} (h : ofTokens settings store origin pending tokens = .ok contents)
    (target : Path) :
    (∃ entry ∈ contents.imports, entry.file = target) ↔
      HasImport settings store origin.file tokens target := by
  induction tokens generalizing pending contents with
  | nil =>
    obtain rfl := Except.ok.inj h
    simp [HasImport]
  | cons token more ih =>
    rw [hasImport_cons_iff]
    cases token with
    | opening source name attributes =>
      rw [ofTokens] at h
      split at h
      · contradiction
      · next stem hstem =>
        obtain ⟨imports, himports, h⟩ := Outcome.bind_eq_ok_iff.1 h
        obtain ⟨later, hlater, h⟩ := Outcome.bind_eq_ok_iff.1 h
        obtain rfl := Except.ok.inj h
        rw [← ih hlater, ← mem_imports_iff hstem himports]
        simp only [List.mem_append, or_and_right, exists_or]
    | body text =>
      obtain ⟨later, hlater, h⟩ := Outcome.bind_eq_ok_iff.1 h
      obtain rfl := Except.ok.inj h
      rw [← ih hlater]
      simp [HasImport]
    | plain text =>
      rw [← ih h]
      simp [HasImport]
    | closing source name =>
      rw [← ih h]
      simp [HasImport]
    | silent source =>
      rw [← ih h]
      simp [HasImport]

end ViewFile

/-! ## Imports of files and of places -/

/-- What is made of a text does not depend on how the path of its file is written. -/
def Compilers.IgnoreSpelling [CompilerKind κ] (compilers : Compilers κ) : Prop :=
  ∀ extension text, ∀ ⦃file file' : Path⦄, file.Same file' →
    compilers.compile extension text file = compilers.compile extension text file'

/-- Compilers that are known by name do not ask for the path. -/
theorem Compilers.ignoreSpelling (compilers : Compilers Compiler) : compilers.IgnoreSpelling := by
  intro extension text file file' _
  unfold compile
  cases compilers.get? extension <;> rfl

namespace Settings

open Relation (ReflTransGen TransGen)

variable [CompilerKind κ] {settings : Settings κ} {store : σ}

/-- The markup that a file is compiled to has an import tag that leads to the target. -/
def Imports (settings : Settings κ) (store : σ) (file target : Path) : Prop :=
  ∃ text markup, FileStore.read store file = .ok text ∧
    settings.compilers.compile file.dottedExtension text file = .ok markup ∧
    ViewFile.HasImport settings store file (Markup.events Markup.isOpaqueTag (markup ++ "\n"))
      target

/-- A place leads to another one if a path to the one leads to a path to the other. -/
def PlaceImports (settings : Settings κ) (store : σ) (place target : List Component) : Prop :=
  ∃ file file', file.components = place ∧ file'.components = target ∧
    settings.Imports store file file'

theorem Imports.placeImports {file target : Path} (h : settings.Imports store file target) :
    settings.PlaceImports store file.components target.components :=
  ⟨file, target, rfl, rfl, h⟩

theorem imports_iff_of_readFile {file : Path} {scope : Option String} {text : String}
    {contents : ViewFile} (h : settings.readFile store file scope = .ok (text, contents))
    (target : Path) :
    (∃ entry ∈ contents.imports, entry.file = target) ↔ settings.Imports store file target := by
  obtain ⟨htext, markup, hmarkup, hparse⟩ := readFile_eq_ok_iff.1 h
  rw [ViewFile.imports_iff_of_ofTokens hparse]
  constructor
  · intro himport
    exact ⟨text, markup, htext, hmarkup, himport⟩
  · rintro ⟨text', markup', htext', hmarkup', himport⟩
    obtain rfl := Except.ok.inj (htext.symm.trans htext')
    obtain rfl := Except.ok.inj (hmarkup.symm.trans hmarkup')
    exact himport

variable {files : FileTree} {file file' target : Path} {place : List Component}

/-- Where a file of a tree leads only depends on the place of the file. -/
theorem Imports.of_same (hcompilers : settings.compilers.IgnoreSpelling)
    (h : settings.Imports files file target) (hsame : file.Same file') :
    settings.Imports files file' target := by
  obtain ⟨text, markup, htext, hmarkup, tag, attributes, reference, hmem, hreference, htarget⟩ := h
  have hread : FileStore.read files file' = .ok text := by
    rw [FileTree.read_eq_ok_iff] at htext ⊢
    rw [← htext, FileTree.contents?, FileTree.contents?, hsame]
  refine ⟨text, markup, hread, ?_, tag, attributes, reference, hmem, hreference, ?_⟩
  · rw [← hsame.dottedExtension_eq, ← hcompilers _ _ hsame]
    exact hmarkup
  · exact resolve_eq_ok_of_same hsame.directory htarget

theorem exists_reflTransGen_imports (hcompilers : settings.compilers.IgnoreSpelling)
    (h : ReflTransGen (settings.PlaceImports files) file.components place) :
    ∃ target, target.components = place ∧ ReflTransGen (settings.Imports files) file target := by
  induction h with
  | refl => exact ⟨file, rfl, .refl⟩
  | tail _ himport ih =>
    obtain ⟨earlier, hearlier, hreach⟩ := ih
    obtain ⟨earlier', target, hsame, htarget, himport⟩ := himport
    have hback : earlier'.Same earlier := hsame.trans hearlier.symm
    exact ⟨target, htarget, hreach.tail (himport.of_same hcompilers hback)⟩

theorem exists_transGen_imports (hcompilers : settings.compilers.IgnoreSpelling)
    (h : TransGen (settings.PlaceImports files) file.components place) :
    ∃ target, target.components = place ∧ TransGen (settings.Imports files) file target := by
  obtain ⟨next, ⟨file', target', hsame, rfl, himport⟩, hrest⟩ := TransGen.head'_iff.1 h
  obtain ⟨target, htarget, hreach⟩ := exists_reflTransGen_imports hcompilers hrest
  exact ⟨target, htarget, .head' (himport.of_same hcompilers hsame) hreach⟩

end Settings

end ViewBundle
