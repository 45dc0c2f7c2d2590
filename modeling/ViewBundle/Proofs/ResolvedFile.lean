import ViewBundle.Proofs.CanonicalPath
import ViewBundle.Proofs.ExtensionChoice
import ViewBundle.Proofs.ImportGraph
import ViewBundle.Proofs.Termination

/-!
# Resolved files

What a reference or an entry stands for is a normal form, an index in a directory in normal form, or
one of these with an extension added.  An extension belongs to the last name of a path, and is a
name of its own where there is none, so that the path stays in normal form unless the extension
holds a slash or is one of the dots (`Path.normalize_withSuffix`).  So every file that a load goes
to has one spelling, and looking for a file in a chain by its components is looking for it by its
normal form.  Main statement: `resolved_canonical`.
-/

namespace ViewBundle

/-- An extension that makes a name of every name, and is a name itself if it is not empty: it holds
no slash and is not one of the dots. -/
def IsNameEnding (extension : String) : Prop :=
  '/' ∉ extension.toList ∧ extension ≠ "." ∧ extension ≠ ".."

instance : DecidablePred IsNameEnding :=
  fun extension => inferInstanceAs
    (Decidable ('/' ∉ extension.toList ∧ extension ≠ "." ∧ extension ≠ ".."))

/-! ## Paths that stay in normal form -/

namespace Path

variable {p : Path}

theorem isNormalForm_components (h : p.normalize = p) : Component.IsNormalForm p.components := by
  rw [← h, components_normalize]
  exact p.isNormalForm_normalize

theorem ofComponents_components (h : p.normalize = p) : ofComponents p.components = p := by
  rw [← h, components_normalize]
  rfl

theorem normalize_join_name (h : p.normalize = p) {name : String}
    (hname : (Component.normal name).IsPiece) : (p.join ⟨name⟩).normalize = p.join ⟨name⟩ := by
  have hnormal := isNormalForm_components h
  have hjoin := join_ofComponents hnormal.written hname
  rw [ofComponents_components h, Component.text] at hjoin
  rw [hjoin, normalize_ofComponents (hnormal.concat hname)]

theorem normalize_withSuffix (h : p.normalize = p) {suffix : String}
    (hsuffix : IsNameEnding suffix) : (p.withSuffix suffix).normalize = p.withSuffix suffix := by
  obtain ⟨hslash, hdot, hparent⟩ := hsuffix
  by_cases hempty : suffix = ""
  · have hself : p.withSuffix suffix = p := by rw [withSuffix, hempty, String.append_empty]
    rw [hself, h]
  · have hnormal := isNormalForm_components h
    have hname := Component.isPiece_normal hslash hempty hdot hparent
    rw [← ofComponents_components h]
    rcases hnormal.written.eq_nil_or_root_or_concat with
      hnil | hroot | ⟨front, last, hconcat, -, hlast⟩
    · rw [withSuffix_ofComponents_nameless (.inl hnil) hname,
        normalize_ofComponents (hnormal.concat hname)]
    · rw [withSuffix_ofComponents_nameless (.inr hroot) hname,
        normalize_ofComponents (hnormal.concat hname)]
    · rw [hconcat] at hnormal ⊢
      have hlonger := hlast.append hslash hempty
      rw [withSuffix_ofComponents hnormal.of_append.written hlast hlonger,
        normalize_ofComponents (hnormal.of_append.concat hlonger)]

end Path

namespace Settings

variable {κ σ : Type} [FileStore σ] {settings : Settings κ} {store : σ} {base file : Path}

/-- What a path stands for when no extension is added is in normal form. -/
theorem normalize_stem {place stem : Path}
    (h : stem = place.normalize ∨ stem = place.normalize.join ⟨"index"⟩) :
    stem.normalize = stem := by
  rcases h with rfl | rfl
  · exact place.normalize_normalize
  · exact Path.normalize_join_name place.normalize_normalize
      (Component.isPiece_normal (by decide) (by decide) (by decide) (by decide))

/-! ## Files in normal form -/

/-- A file whose path is in normal form. -/
structure IsCanonicalFile (store : σ) (file : Path) : Prop where
  isFile_eq : FileStore.isFile store file = true
  normalize_eq : file.normalize = file

namespace IsCanonicalFile

section

variable (hendings : ∀ extension ∈ settings.extensions, IsNameEnding extension)

include hendings

theorem of_fileAt? {stem : Path} (hstem : stem.normalize = stem)
    (h : settings.fileAt? store stem = some file) : IsCanonicalFile store file := by
  refine ⟨List.find?_some h, ?_⟩
  rcases List.mem_cons.1 (List.mem_of_find?_eq_some h) with rfl | hmem
  · exact hstem
  · obtain ⟨extension, hextension, rfl⟩ := List.mem_map.1 hmem
    exact Path.normalize_withSuffix hstem (hendings extension hextension)

theorem of_resolve {reference : String} (h : settings.resolve store reference base = .ok file) :
    IsCanonicalFile store file := by
  obtain ⟨stem, hstem, hfile⟩ := exists_stem_of_resolve h
  obtain ⟨place, hplace⟩ := exists_normalize_of_mem_stems hstem
  exact of_fileAt? hendings (normalize_stem hplace) hfile

theorem of_resolveEntry {entry : Path} (h : settings.resolveEntry store entry base = .ok file) :
    IsCanonicalFile store file := by
  rw [resolveEntry] at h
  split at h
  · next found hfound =>
    obtain rfl := Except.ok.inj h
    obtain ⟨stem, hstem, hfile⟩ := exists_stem_of_placeAt? hfound
    exact of_fileAt? hendings (normalize_stem (List.mem_pair.1 hstem)) hfile
  · contradiction

/-- The imports of a file are in normal form, however the path of the file is written. -/
theorem of_parse {scope : Option String} {markup : String} {contents : ViewFile}
    (h : ViewFile.parse settings store scope markup file = .ok contents) {entry : Import}
    (hentry : entry ∈ contents.imports) : IsCanonicalFile store entry.file := by
  obtain ⟨_, _, reference, -, -, hresolve⟩ :=
    (ViewFile.imports_iff_of_ofTokens h entry.file).1 ⟨entry, hentry, rfl⟩
  exact of_resolve hendings hresolve

variable [CompilerKind κ]

theorem of_readFile {scope : Option String} {text : String} {contents : ViewFile}
    (h : settings.readFile store file scope = .ok (text, contents)) {entry : Import}
    (hentry : entry ∈ contents.imports) : IsCanonicalFile store entry.file := by
  obtain ⟨-, _, -, hparse⟩ := readFile_eq_ok_iff.1 h
  exact of_parse hendings hparse hentry

/-- A load from a file in normal form goes to files in normal form alone. -/
theorem of_loadNested {levels : Nat} {chain : List Path} {scope : Option String}
    {visits : List Visit} (hfile : IsCanonicalFile store file)
    (h : settings.loadNested store levels chain file scope = .ok visits) :
    ∀ visit ∈ visits, IsCanonicalFile store visit.file := by
  induction levels generalizing chain file scope visits with
  | zero => simp [loadNested] at h
  | succ levels ih =>
    obtain ⟨-, text, contents, imported, hread, himported, rfl⟩ := loadNested_eq_ok_iff.1 h
    intro visit hvisit
    rcases List.mem_append.1 hvisit with hvisit | hvisit
    · obtain ⟨nested, hnested, hvisit⟩ := List.mem_flatten.1 hvisit
      obtain ⟨entry, hentry, hload⟩ := Outcome.exists_mem_of_mem_answers himported hnested
      exact ih (of_readFile hendings hread hentry) hload visit hvisit
    · rw [List.mem_singleton.1 hvisit]
      exact hfile

theorem of_load {reference : String} {scope : Option String} {visits : List Visit}
    (h : settings.load store reference base scope = .ok visits) :
    ∀ visit ∈ visits, IsCanonicalFile store visit.file := by
  obtain ⟨file, hfile, hload⟩ := Outcome.bind_eq_ok_iff.1 h
  exact of_loadNested hendings (of_resolve hendings hfile) hload

theorem of_loadEntries {entries : List Path} {visits : List Visit}
    (h : settings.loadEntries store entries base = .ok visits) :
    ∀ visit ∈ visits, IsCanonicalFile store visit.file := by
  obtain ⟨loaded, hloaded, rfl⟩ := loadEntries_eq_ok_iff.1 h
  intro visit hvisit
  obtain ⟨nested, hnested, hvisit⟩ := List.mem_flatten.1 hvisit
  obtain ⟨entry, -, hentry⟩ := Outcome.exists_mem_of_mem_answers hloaded hnested
  obtain ⟨file, hfile, hload⟩ := loadEntry_eq_ok_iff.1 hentry
  exact of_loadNested hendings (of_resolveEntry hendings hfile) hload visit hvisit

end

end IsCanonicalFile

/-! ## Chains of files in normal form -/

/-- All files of a call are in normal form. -/
structure Call.IsCanonical (store : σ) (call : Call) : Prop where
  chain : ∀ earlier ∈ call.chain, IsCanonicalFile store earlier
  file : IsCanonicalFile store call.file

section

variable [CompilerKind κ] {call next : Call} {calls : List Call}

theorem Call.Makes.isCanonical (h : call.Makes settings store next)
    (hendings : ∀ extension ∈ settings.extensions, IsNameEnding extension)
    (hcall : call.IsCanonical store) : next.IsCanonical store := by
  obtain ⟨-, text, contents, hread, entry, hentry, rfl⟩ := h
  refine ⟨?_, .of_readFile hendings hread hentry⟩
  intro earlier hearlier
  rcases List.mem_append.1 hearlier with hearlier | hearlier
  · exact hcall.chain earlier hearlier
  · rw [List.mem_singleton.1 hearlier]
    exact hcall.file

theorem isCanonical_of_isChain_makes
    (hendings : ∀ extension ∈ settings.extensions, IsNameEnding extension)
    (h : (call :: calls).IsChain (Call.Makes settings store)) (hcall : call.IsCanonical store) :
    ∀ next ∈ call :: calls, next.IsCanonical store := by
  induction calls generalizing call with
  | nil => exact List.forall_mem_singleton.2 hcall
  | cons next calls ih =>
    obtain ⟨hmakes, hcalls⟩ := List.isChain_cons_cons.1 h
    exact List.forall_mem_cons.2 ⟨hcall, ih hcalls (hmakes.isCanonical hendings hcall)⟩

/-- A file of a call is in its chain already if and only if a file with the same normal form is. -/
theorem Call.IsCanonical.chainFrom_eq_nil_iff (h : call.IsCanonical store) :
    chainFrom call.file call.chain = [] ↔
      ∀ earlier ∈ call.chain, earlier.normalize ≠ call.file.normalize := by
  rw [ViewBundle.chainFrom_eq_nil_iff]
  refine forall₂_congr fun earlier hearlier => not_congr ⟨Path.Same.normalize_eq, ?_⟩
  intro hsame
  rw [(h.chain earlier hearlier).normalize_eq, h.file.normalize_eq] at hsame
  exact congrArg Path.components hsame

end

/-- Every file that a reference or an entry stands for, every file that is imported and every file
that a load visits is a file in normal form, unless an extension that can be left out holds a slash
or is one of the dots.  So a call that a load comes to has been made for its file already if and
only if a file with the same normal form is in its chain. -/
theorem resolved_canonical [CompilerKind κ] (settings : Settings κ) (store : σ)
    (hendings : ∀ extension ∈ settings.extensions, IsNameEnding extension) :
    (∀ reference base file, settings.resolve store reference base = .ok file →
      IsCanonicalFile store file) ∧
    (∀ entry base file, settings.resolveEntry store entry base = .ok file →
      IsCanonicalFile store file) ∧
    (∀ scope markup file contents, ViewFile.parse settings store scope markup file = .ok contents →
      ∀ entry ∈ contents.imports, IsCanonicalFile store entry.file) ∧
    (∀ reference base scope visits, settings.load store reference base scope = .ok visits →
      ∀ visit ∈ visits, IsCanonicalFile store visit.file) ∧
    (∀ entries base visits, settings.loadEntries store entries base = .ok visits →
      ∀ visit ∈ visits, IsCanonicalFile store visit.file) ∧
    ∀ start scope calls, IsCanonicalFile store start →
      (⟨[], start, scope⟩ :: calls).IsChain (Call.Makes settings store) →
      ∀ call ∈ calls, (chainFrom call.file call.chain = [] ↔
        ∀ earlier ∈ call.chain, earlier.normalize ≠ call.file.normalize) := by
  refine ⟨fun _ _ _ => .of_resolve hendings, fun _ _ _ => .of_resolveEntry hendings,
    fun _ _ _ _ hparse _ => .of_parse hendings hparse, fun _ _ _ _ => .of_load hendings,
    fun _ _ _ => .of_loadEntries hendings, ?_⟩
  intro start scope calls hstart hcalls call hcall
  have hcanonical := isCanonical_of_isChain_makes hendings hcalls ⟨by simp, hstart⟩
  exact (hcanonical call (List.mem_cons_of_mem _ hcall)).chainFrom_eq_nil_iff

/-- Files whose names are extensions, or begin with double dots, and a page that imports itself. -/
def cornerFiles : FileTree :=
  .ofList
    [(⟨"/.html"⟩, ""), (⟨"...html"⟩, ""), (⟨"/v/page.html"⟩, "<import: src=\"./kit/../page\">")]

theorem resolved_canonical_cornerFiles :
    (∀ extension ∈ standard.extensions, IsNameEnding extension) ∧
    (standard.resolveEntry cornerFiles ⟨"/"⟩ ⟨"/v"⟩ = .ok ⟨"/.html"⟩ ∧
      IsCanonicalFile cornerFiles ⟨"/.html"⟩) ∧
    (standard.resolve cornerFiles "./kit/../.." ⟨""⟩ = .ok ⟨"...html"⟩ ∧
      IsCanonicalFile cornerFiles ⟨"...html"⟩) ∧
    standard.resolve cornerFiles "./page" ⟨"/v//"⟩ = .ok ⟨"/v/page.html"⟩ ∧
      chainFrom ⟨"/v/page.html"⟩ [⟨"/v/page.html"⟩] ≠ [] := by
  have hendings : ∀ extension ∈ standard.extensions, IsNameEnding extension := by decide
  have hroot : standard.resolveEntry cornerFiles ⟨"/"⟩ ⟨"/v"⟩ = .ok ⟨"/.html"⟩ := by
    decide +kernel
  have hdots : standard.resolve cornerFiles "./kit/../.." ⟨""⟩ = .ok ⟨"...html"⟩ := by
    decide +kernel
  have hpage : standard.resolve cornerFiles "./page" ⟨"/v//"⟩ = .ok ⟨"/v/page.html"⟩ := by
    decide +kernel
  have hread : standard.readFile cornerFiles ⟨"/v/page.html"⟩ none =
      .ok ("<import: src=\"./kit/../page\">", ⟨[⟨⟨"/v/page.html"⟩, some "page"⟩], []⟩) := by
    decide +kernel
  obtain ⟨hresolve, hentry, -, -, -, hcalls⟩ :=
    resolved_canonical standard cornerFiles hendings
  refine ⟨hendings, ⟨hroot, hentry _ _ _ hroot⟩, ⟨hdots, hresolve _ _ _ hdots⟩, hpage, ?_⟩
  intro hfresh
  have hmakes : Call.Makes standard cornerFiles ⟨[], ⟨"/v/page.html"⟩, none⟩
      ⟨[⟨"/v/page.html"⟩], ⟨"/v/page.html"⟩, some "page"⟩ :=
    ⟨rfl, _, _, hread, _, List.mem_singleton_self _, rfl⟩
  have hcheck := hcalls _ _ _ (hresolve _ _ _ hpage)
    (.cons_cons hmakes (.singleton _)) _ (List.mem_singleton_self _)
  exact hcheck.1 hfresh _ (List.mem_singleton_self _) rfl

-- An extension of dots alone can lead from the root to a path that is not in normal form.
example : Settings.resolveEntry ({ standard with extensions := [".."] } : Settings Compiler)
    (FileTree.ofList [(⟨"/.."⟩, "")]) ⟨"/"⟩ ⟨"/v"⟩ = .ok ⟨"/.."⟩ := by
  decide +kernel

end Settings

end ViewBundle
