import ViewBundle.Proofs.FileTree
import ViewBundle.Proofs.NormalPath
import ViewBundle.Reference

/-!
# The first candidate

A reference stands for the first file among its candidates, which are listed whatever files there
are.  Looking for an index file only in what is a directory passes over no candidate: every file is
behind its directories, so that the place of an index file is a directory, however the file's name
goes on behind `index` (`isDirectory_of_mem_fileCandidates`).  Main statement: `resolve_eq_find?`.
-/

namespace ViewBundle

namespace Path

/-! ## Paths that go on with a name -/

theorem leading_cons {c : Char} (hslash : c ≠ '/') (hdot : c ≠ '.') (cs : List Char) :
    leading (c :: cs) = [] := by
  have hpieces : (Text.pieces '/' (c :: cs)).head? ≠ some ['.'] := by
    rw [Text.pieces, if_neg hslash]
    split <;> simp [hdot]
  rw [leading, if_neg (by simpa using hslash), if_neg hpieces]

/-- A text at the end of a name that a path goes on with is at the end of the path. -/
theorem withSuffix_join {p q : Path} (hne : q.text ≠ "") (hq : q.isAbsolute = false)
    (suffix : String) : (p.join q).withSuffix suffix = p.join (q.withSuffix suffix) := by
  have hsuffix : (q.withSuffix suffix).isAbsolute = false := by
    obtain ⟨c, cs, htext⟩ :=
      List.exists_cons_of_ne_nil fun h => hne (String.toList_eq_nil_iff.1 h)
    rw [isAbsolute, withSuffix, String.toList_append, htext]
    rwa [isAbsolute, htext] at hq
  simp only [join, hq, hsuffix, Bool.false_eq_true, if_false]
  split
  · simp only [withSuffix, String.append_assoc]
  · simp only [withSuffix, String.append_assoc]

/-- What a directory is left for adds components to those of the directory, and none is a root. -/
theorem exists_components_join {q : Path} (hleading : leading q.text.toList = [])
    (hne : q.text ≠ "") (p : Path) :
    ∃ behind, behind ≠ [] ∧ .root ∉ behind ∧ (p.join q).components = p.components ++ behind := by
  refine ⟨q.components, ?_, ?_, components_join_of_leading hleading p⟩
  · rwa [Ne, components_eq_nil_iff]
  · rw [components_of_leading hleading]
    exact root_notMem_pieceComponents q.text.toList

end Path

/-! ## Files behind a directory -/

namespace FileTree

/-- A path is a directory if a file is behind it. -/
theorem WellFormed.isDirectory_of_isFile_join {tree : FileTree} (h : tree.WellFormed)
    {directory q : Path} {c : Char} {cs : List Char} (hq : q.text.toList = c :: cs)
    (hslash : c ≠ '/') (hdot : c ≠ '.') (hfile : tree.isFile (directory.join q) = true) :
    tree.isDirectory directory = true := by
  have hleading : Path.leading q.text.toList = [] := by rw [hq, Path.leading_cons hslash hdot]
  have htext : q.text ≠ "" := by
    rw [Ne, ← String.toList_eq_nil_iff, hq]
    exact List.cons_ne_nil c cs
  obtain ⟨behind, hne, hroot, hcomponents⟩ :=
    Path.exists_components_join hleading htext directory
  rw [isFile_iff, hcomponents] at hfile
  rw [isDirectory_iff, h.mem_directories_iff]
  exact ⟨_, hfile, Component.mem_properAncestors_append _ hne hroot⟩

end FileTree

namespace Settings

variable {κ : Type} {settings : Settings κ} {tree : FileTree}

/-- Every place of an index file is the directory, joined with a name that begins as `index`. -/
theorem eq_join_of_mem_fileCandidates {directory candidate : Path}
    (h : candidate ∈ settings.fileCandidates (directory.join ⟨"index"⟩)) :
    ∃ suffix, candidate = directory.join ⟨"index" ++ suffix⟩ := by
  rw [fileCandidates, List.mem_cons, List.mem_map] at h
  rcases h with rfl | ⟨extension, -, rfl⟩
  · exact ⟨"", by rw [String.append_empty]⟩
  · exact ⟨extension, Path.withSuffix_join (by simp) rfl extension⟩

/-- An index file is only in what is a directory. -/
theorem isDirectory_of_mem_fileCandidates (h : tree.WellFormed) {directory candidate : Path}
    (hcandidate : candidate ∈ settings.fileCandidates (directory.join ⟨"index"⟩))
    (hfile : tree.isFile candidate = true) : tree.isDirectory directory = true := by
  obtain ⟨suffix, rfl⟩ := eq_join_of_mem_fileCandidates hcandidate
  have htext : ("index" ++ suffix).toList = 'i' :: ("ndex".toList ++ suffix.toList) := by
    rw [String.toList_append]
    rfl
  exact h.isDirectory_of_isFile_join htext (by decide) (by decide) hfile

/-! ## The first candidate that is a file -/

theorem indexAt?_eq_find? (h : tree.WellFormed) (settings : Settings κ) (directory : Path) :
    settings.indexAt? tree directory =
      (settings.fileCandidates (directory.join ⟨"index"⟩)).find? tree.isFile := by
  rw [indexAt?]
  split
  · rfl
  · next hdirectory =>
    refine (List.find?_eq_none.2 ?_).symm
    intro candidate hcandidate hfile
    exact hdirectory (isDirectory_of_mem_fileCandidates h hcandidate hfile)

theorem placeAt?_eq_find? (h : tree.WellFormed) (settings : Settings κ) (candidate : Path) :
    settings.placeAt? tree candidate =
      (settings.placeCandidates candidate).find? tree.isFile := by
  rw [placeAt?, indexAt?_eq_find? h, placeCandidates, List.find?_append]
  rfl

theorem resolve?_eq_find? (h : tree.WellFormed) (settings : Settings κ) (reference : String)
    (base : Path) :
    settings.resolve? tree reference base =
      (settings.candidates reference base).find? tree.isFile := by
  rw [resolve?, candidates]
  cases ReferenceKind.of reference with
  | path => exact placeAt?_eq_find? h settings _
  | directory => exact indexAt?_eq_find? h settings _
  | moduleName =>
    show settings.moduleAt? tree reference base = _
    rw [moduleAt?, List.find?_flatMap]
    simp only [placeAt?_eq_find? h]

/-- In a tree that insertions leave, a reference stands for the first file among its candidates,
and an index file is the first file among those that the directory can have, whether or not the
directory is one.  If no candidate is a file, the failure names the reference and the directory
that it was taken from. -/
theorem resolve_eq_find? (settings : Settings κ) (files : List (Path × String))
    (reference : String) (base : Path) :
    settings.resolve (FileTree.ofList files) reference base =
        ((settings.candidates reference base).find? (FileTree.ofList files).isFile).elim
          (.error (.fileNotFound reference base)) .ok ∧
      ∀ directory, settings.indexAt? (FileTree.ofList files) directory =
        (settings.fileCandidates (directory.join ⟨"index"⟩)).find?
          (FileTree.ofList files).isFile := by
  have htree := FileTree.wellFormed_ofList files
  refine ⟨?_, indexAt?_eq_find? htree settings⟩
  rw [resolve, resolve?_eq_find? htree]
  cases (settings.candidates reference base).find? (FileTree.ofList files).isFile <;> rfl

-- An extension can hold a slash, so that an index file is not in the directory itself.
example : (standard.addCompiler "./part.html" .html).resolve
    (FileTree.ofList [(⟨"/v/kit/index./part.html"⟩, "")]) "./kit/" ⟨"/v"⟩ =
      .ok ⟨"/v/kit/index./part.html"⟩ := by
  decide +kernel

end Settings

end ViewBundle
