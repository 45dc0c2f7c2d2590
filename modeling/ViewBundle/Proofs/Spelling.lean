import Mathlib.Data.List.Basic
import ViewBundle.FileTree
import ViewBundle.Proofs.Path
import ViewBundle.Reference

/-!
# How references and entries are written

The text of a reference alone decides where it is looked up.  One that is written as a path is taken
from the directory of its file, and any other one is looked for in module directories, unless it
begins with a dot and ends with a slash (`ReferenceKind.of_eq_moduleName_iff`).  Main statement:
`resolve_of_spelling`.

An entry is taken to be a path however it is written.  So a slash at its end, which makes an
absolute reference one to a directory, says nothing about an entry.  Main statement:
`resolveEntry_alike_iff`.
-/

namespace ViewBundle

/-! ## Spellings of references -/

/-- Whether a reference is written as a path: it begins with a slash, with `./` or with `../`, or is
`.` or `..`. -/
def isWrittenAsPath (reference : String) : Bool :=
  "/".toList.isPrefixOf reference.toList || "./".toList.isPrefixOf reference.toList ||
    "../".toList.isPrefixOf reference.toList || reference == "." || reference == ".."

/-- Whether a reference begins with a dot and ends with a slash. -/
def isDottedDirectory (reference : String) : Bool :=
  reference.toList.head? == some '.' && reference.toList.getLast? == some '/'

theorem isPrefixOf_slash_eq (s : List Char) : "/".toList.isPrefixOf s = (s.head? == some '/') := by
  cases s with
  | nil => rfl
  | cons c cs => simp [List.isPrefixOf, Bool.beq_comm]

namespace Path

/-- Whether a path that is taken from a directory is written with a slash at its end. -/
def endsInSlash (entry : Path) : Bool :=
  entry.text == "" || entry.text.toList.getLast? == some '/'

variable {p : Path}

theorem text_ne_of_isAbsolute (h : p.isAbsolute = true) : p.text ≠ "" := by
  intro htext
  rw [isAbsolute, htext] at h
  contradiction

/-- What is taken from an absolute path is absolute. -/
theorem isAbsolute_join (h : p.isAbsolute = true) (q : Path) : (p.join q).isAbsolute = true := by
  obtain ⟨cs, hp⟩ : ∃ cs, p.text.toList = '/' :: cs := by
    rw [isAbsolute, beq_iff_eq] at h
    exact List.head?_eq_some_iff.1 h
  rw [join]
  split
  · next hq => exact hq
  · split <;> simp [isAbsolute, hp]

theorem getLast?_append_text (s : List Char) (q : Path) (hs : s.getLast? = some '/') :
    ((s ++ q.text.toList).getLast? == some '/') = q.endsInSlash := by
  rw [endsInSlash]
  by_cases hq : q.text = ""
  · simp [hq, hs]
  · have hne : q.text.toList ≠ [] := fun hnil => hq (String.toList_eq_nil_iff.1 hnil)
    rw [List.getLast?_append_of_ne_nil _ hne, beq_false_of_ne hq, Bool.false_or]

/-- A path that is taken from an absolute path ends in a slash if it does when it is written on its
own, and also if nothing of it is written. -/
theorem getLast?_join (h : p.isAbsolute = true) (q : Path) :
    ((p.join q).text.toList.getLast? == some '/') = q.endsInSlash := by
  rw [join]
  split
  · next hq => rw [endsInSlash, beq_false_of_ne (text_ne_of_isAbsolute hq), Bool.false_or]
  · split
    · next hslash =>
      have hlast : p.text.toList.getLast? = some '/' := by
        simpa [text_ne_of_isAbsolute h] using hslash
      rw [String.toList_append]
      exact getLast?_append_text _ q hlast
    · rw [String.toList_append]
      refine getLast?_append_text _ q ?_
      simp

end Path

namespace ReferenceKind

variable {reference : String}

/-- A reference that is `.` or `..` begins with a dot. -/
theorem head?_eq_dot (reference : String)
    (h : (reference == "." || reference == "..") = true) :
    (reference.toList.head? == some '.') = true := by
  rw [Bool.or_eq_true, beq_iff_eq, beq_iff_eq] at h
  rcases h with rfl | rfl <;> rfl

theorem of_ne_moduleName (h : isWrittenAsPath reference = true) : of reference ≠ .moduleName := by
  have hdot := head?_eq_dot reference
  rw [isWrittenAsPath, isPrefixOf_slash_eq] at h
  rw [of, Path.isAbsolute]
  grind

theorem of_eq_ite (h : isWrittenAsPath reference = false) :
    of reference = if isDottedDirectory reference then .directory else .moduleName := by
  have hdot := head?_eq_dot reference
  rw [isWrittenAsPath, isPrefixOf_slash_eq] at h
  rw [of, Path.isAbsolute, isDottedDirectory]
  grind

/-- Modules are what is neither written as a path nor begins with a dot and ends with a slash. -/
theorem of_eq_moduleName_iff (reference : String) : of reference = .moduleName ↔
    isWrittenAsPath reference = false ∧ isDottedDirectory reference = false := by
  cases hpath : isWrittenAsPath reference with
  | true => simp [of_ne_moduleName hpath]
  | false => simp [of_eq_ite hpath]

/-- The name of a module begins with neither a slash nor a dot of its own. -/
theorem leading_of_moduleName (h : of reference = .moduleName) :
    Path.leading reference.toList = [] := by
  have hname := ((of_eq_moduleName_iff reference).1 h).1
  simp only [isWrittenAsPath, isPrefixOf_slash_eq, Bool.or_eq_false_iff] at hname
  obtain ⟨⟨⟨⟨hslash, hprefix⟩, -⟩, hdot⟩, -⟩ := hname
  rw [Path.leading, if_neg (by simpa using hslash), if_neg]
  intro hhead
  obtain ⟨more, hpieces⟩ := List.head?_eq_some_iff.1 hhead
  have htext := Text.intercalate_pieces '/' reference.toList
  rw [hpieces] at htext
  cases more with
  | nil =>
    have hsingle : reference = "." := String.toList_inj.1 htext.symm
    exact absurd hsingle (by simpa using hdot)
  | cons next more =>
    rw [List.intercalate_cons_cons] at htext
    rw [← htext] at hprefix
    simp at hprefix

/-- A path from the root stands for a directory if a slash ends it. -/
theorem of_eq_of_isAbsolute (h : Path.isAbsolute ⟨reference⟩ = true) :
    of reference = if reference.toList.getLast? == some '/' then .directory else .path := by
  have hdot := head?_eq_dot reference
  rw [Path.isAbsolute] at h
  have hhead : reference.toList.head? = some '/' := by simpa using h
  rw [of, Path.isAbsolute, hhead]
  rw [hhead] at hdot
  grind

end ReferenceKind

namespace Settings

variable {κ σ : Type} [FileStore σ] {settings : Settings κ} {store : σ}

/-! ## Where a reference is looked up -/

theorem resolve_eq_elim (settings : Settings κ) (store : σ) (reference : String) (base : Path) :
    settings.resolve store reference base = (settings.resolve? store reference base).elim
      (.error (.fileNotFound reference base)) .ok := by
  rw [resolve]
  cases settings.resolve? store reference base <;> rfl

theorem mem_placeCandidates_of_indexAt? {candidate file : Path}
    (h : settings.indexAt? store candidate = some file) :
    file ∈ settings.placeCandidates candidate := by
  rw [indexAt?] at h
  split at h
  · exact List.mem_append_right _ (List.mem_of_find?_eq_some h)
  · contradiction

theorem mem_placeCandidates_of_placeAt? {candidate file : Path}
    (h : settings.placeAt? store candidate = some file) :
    file ∈ settings.placeCandidates candidate := by
  rcases Option.or_eq_some_iff.1 h with h | ⟨-, h⟩
  · exact List.mem_append_left _ (List.mem_of_find?_eq_some h)
  · exact mem_placeCandidates_of_indexAt? h

/-- A reference that is written as a path is looked up in the directory that it is taken from, and
module directories have no say in it.  Every other reference is looked for in module directories,
nearest first, unless it begins with a dot and ends with a slash: that one is taken to be a
directory that lies in the directory that it is taken from. -/
theorem resolve_of_spelling (settings : Settings κ) (store : σ) (reference : String) (base : Path) :
    (isWrittenAsPath reference = true →
      (∀ file, settings.resolve store reference base = .ok file →
        file ∈ settings.placeCandidates (base.join ⟨reference⟩).normalize) ∧
      ∀ directories, (settings.withModuleDirectories directories).resolve store reference base =
        settings.resolve store reference base) ∧
    (isWrittenAsPath reference = false →
      settings.resolve store reference base =
        (if isDottedDirectory reference then
          settings.indexAt? store (base.join ⟨reference⟩).normalize
        else (settings.moduleSearchPaths base).findSome? fun directory =>
          settings.placeAt? store (directory.join ⟨reference⟩).normalize).elim
          (.error (.fileNotFound reference base)) .ok) := by
  constructor
  · intro hpath
    constructor
    · intro file hfile
      rw [resolve_eq_ok_iff, resolve?] at hfile
      cases hkind : ReferenceKind.of reference with
      | path =>
        rw [hkind] at hfile
        exact mem_placeCandidates_of_placeAt? hfile
      | directory =>
        rw [hkind] at hfile
        exact mem_placeCandidates_of_indexAt? hfile
      | moduleName => exact absurd hkind (ReferenceKind.of_ne_moduleName hpath)
    · intro directories
      rw [resolve_eq_elim, resolve_eq_elim, resolve?, resolve?]
      cases hkind : ReferenceKind.of reference with
      | path => rfl
      | directory => rfl
      | moduleName => exact absurd hkind (ReferenceKind.of_ne_moduleName hpath)
  · intro hname
    rw [resolve_eq_elim, resolve?, ReferenceKind.of_eq_ite hname]
    cases isDottedDirectory reference <;> rfl

/-- A kit and a hidden one, and a module of the name of the first. -/
def kitFiles : FileTree :=
  .ofList [(⟨"/v/kit.html"⟩, ""), (⟨"/v/.kit/index"⟩, ""), (⟨"/v/node_modules/kit.html"⟩, "")]

theorem resolve_of_spelling_kitFiles :
    (isWrittenAsPath "./kit" = true ∧
      standard.resolve kitFiles "./kit" ⟨"/v"⟩ = .ok ⟨"/v/kit.html"⟩ ∧
      ⟨"/v/kit.html"⟩ ∈ standard.placeCandidates ((⟨"/v"⟩ : Path).join ⟨"./kit"⟩).normalize ∧
      (standard.withModuleDirectories []).resolve kitFiles "./kit" ⟨"/v"⟩ = .ok ⟨"/v/kit.html"⟩) ∧
    (isWrittenAsPath ".kit/" = false ∧
      standard.resolve kitFiles ".kit/" ⟨"/v"⟩ = .ok ⟨"/v/.kit/index"⟩) ∧
    isWrittenAsPath "kit/" = false ∧
      standard.resolve kitFiles "kit/" ⟨"/v"⟩ = .ok ⟨"/v/node_modules/kit.html"⟩ := by
  have hpath := resolve_of_spelling standard kitFiles "./kit" ⟨"/v"⟩
  have hhidden := resolve_of_spelling standard kitFiles ".kit/" ⟨"/v"⟩
  have hkit := resolve_of_spelling standard kitFiles "kit/" ⟨"/v"⟩
  have hfile : standard.resolve kitFiles "./kit" ⟨"/v"⟩ = .ok ⟨"/v/kit.html"⟩ := by
    decide +kernel
  refine ⟨⟨by decide, hfile, ?_, ?_⟩, ⟨by decide, ?_⟩, by decide, ?_⟩
  · exact (hpath.1 (by decide)).1 _ hfile
  · rw [(hpath.1 (by decide)).2 [], hfile]
  · rw [hhidden.2 (by decide)]
    decide +kernel
  · rw [hkit.2 (by decide)]
    decide +kernel

/-- A reference that is not written as a path need not be looked for in module directories. -/
theorem not_forall_resolve_moduleSearch :
    ¬∀ (settings : Settings Compiler) (tree : FileTree) (reference : String) (base : Path),
      isWrittenAsPath reference = false →
      settings.resolve tree reference base =
        ((settings.moduleSearchPaths base).findSome? fun directory =>
          settings.placeAt? tree (directory.join ⟨reference⟩).normalize).elim
          (.error (.fileNotFound reference base)) .ok := by
  intro h
  exact absurd (h standard kitFiles ".kit/" ⟨"/v"⟩ (by decide)) (by decide +kernel)

/-! ## Entries and absolute references -/

/-- Two lookups find the same file, or neither finds one. -/
def Alike : Except Failure Path → Except Failure Path → Prop
  | .ok file, .ok file' => file = file'
  | .error (.fileNotFound _ _), .error (.fileNotFound _ _) => True
  | _, _ => False

theorem alike_elim_iff {found found' : Option Path} {reference reference' : String}
    {base base' : Path} :
    Alike (found.elim (.error (.fileNotFound reference base)) .ok)
      (found'.elim (.error (.fileNotFound reference' base')) .ok) ↔ found = found' := by
  cases found <;> cases found' <;> simp [Alike]

theorem resolveEntry_eq_elim (settings : Settings κ) (store : σ) (entry base : Path) :
    settings.resolveEntry store entry base =
      (settings.placeAt? store (base.join entry).normalize).elim
        (.error (.fileNotFound entry.text base)) .ok := by
  rw [resolveEntry]
  cases settings.placeAt? store (base.join entry).normalize <;> rfl

/-- A reference from the root is looked up as a file first, unless a slash ends it. -/
theorem resolve?_of_isAbsolute {place : Path} (h : place.isAbsolute = true) (settings : Settings κ)
    (store : σ) (base : Path) :
    settings.resolve? store place.text base =
      if place.text.toList.getLast? == some '/' then settings.indexAt? store place.normalize
      else settings.placeAt? store place.normalize := by
  have hjoin : base.join ⟨place.text⟩ = place := by rw [Path.join, if_pos h]
  rw [resolve?, ReferenceKind.of_eq_of_isAbsolute h, hjoin]
  cases place.text.toList.getLast? == some '/' <;> rfl

/-- The place where a file is found and the index file of the directory there are the same unless
another file is found first. -/
theorem placeAt?_eq_indexAt?_iff {candidate : Path} :
    settings.placeAt? store candidate = settings.indexAt? store candidate ↔
      ∀ file, settings.fileAt? store candidate = some file →
        settings.indexAt? store candidate = some file := by
  rw [placeAt?]
  cases settings.fileAt? store candidate with
  | none => simp
  | some file => simp [eq_comm]

/-- An entry and the absolute reference to its place find the same file, or neither finds one, if
and only if the entry is written without a slash at its end, or no file at its place is found before
the index file of the directory there. -/
theorem resolveEntry_alike_iff {base : Path} (h : base.isAbsolute = true) (settings : Settings κ)
    (store : σ) (entry base' : Path) :
    Alike (settings.resolveEntry store entry base)
        (settings.resolve store (base.join entry).text base') ↔
      (entry.endsInSlash = true →
        ∀ file, settings.fileAt? store (base.join entry).normalize = some file →
          settings.indexAt? store (base.join entry).normalize = some file) := by
  rw [resolveEntry_eq_elim, resolve_eq_elim, alike_elim_iff,
    resolve?_of_isAbsolute (Path.isAbsolute_join h entry), Path.getLast?_join h]
  cases entry.endsInSlash with
  | true =>
    rw [if_pos rfl, placeAt?_eq_indexAt?_iff]
    simp
  | false => simp

/-- A card and a directory of cards. -/
def cardFiles : FileTree :=
  .ofList [(⟨"/v/card.html"⟩, ""), (⟨"/v/card/index.html"⟩, "")]

theorem resolveEntry_alike_iff_cardFiles :
    Path.isAbsolute ⟨"/v"⟩ = true ∧
      Alike (standard.resolveEntry cardFiles ⟨"card"⟩ ⟨"/v"⟩)
        (standard.resolve cardFiles "/v/card" ⟨"/"⟩) ∧
      ¬Alike (standard.resolveEntry cardFiles ⟨"card/"⟩ ⟨"/v"⟩)
        (standard.resolve cardFiles "/v/card/" ⟨"/"⟩) := by
  have habsolute : Path.isAbsolute ⟨"/v"⟩ = true := by decide
  refine ⟨habsolute, ?_, ?_⟩
  · refine (resolveEntry_alike_iff habsolute standard cardFiles ⟨"card"⟩ ⟨"/"⟩).2 ?_
    intro hslash
    exact absurd hslash (by decide)
  · intro halike
    have hfile := (resolveEntry_alike_iff habsolute standard cardFiles ⟨"card/"⟩ ⟨"/"⟩).1 halike
      (by decide) ⟨"/v/card.html"⟩ (by decide +kernel)
    exact absurd hfile (by decide +kernel)

/-- An entry need not be looked up as the absolute reference to its place is. -/
theorem not_forall_resolveEntry_alike :
    (¬∀ (settings : Settings Compiler) (tree : FileTree) (entry base base' : Path),
      base.isAbsolute = true → entry.isAbsolute = false →
      Alike (settings.resolveEntry tree entry base)
        (settings.resolve tree (base.join entry).text base')) ∧
    standard.resolveEntry cardFiles ⟨"card/"⟩ ⟨"/v"⟩ = .ok ⟨"/v/card.html"⟩ ∧
      standard.resolve cardFiles "/v/card/" ⟨"/v"⟩ = .ok ⟨"/v/card/index.html"⟩ := by
  have hentry : standard.resolveEntry cardFiles ⟨"card/"⟩ ⟨"/v"⟩ = .ok ⟨"/v/card.html"⟩ := by
    decide +kernel
  have hreference : standard.resolve cardFiles "/v/card/" ⟨"/v"⟩ =
      .ok ⟨"/v/card/index.html"⟩ := by
    decide +kernel
  refine ⟨?_, hentry, hreference⟩
  intro h
  have halike := h standard cardFiles ⟨"card/"⟩ ⟨"/v"⟩ ⟨"/v"⟩ (by decide) (by decide)
  have hjoin : ((⟨"/v"⟩ : Path).join ⟨"card/"⟩).text = "/v/card/" := by decide
  rw [hjoin, hentry, hreference] at halike
  have hfile : (⟨"/v/card.html"⟩ : Path) = ⟨"/v/card/index.html"⟩ := halike
  contradiction

end Settings

end ViewBundle
