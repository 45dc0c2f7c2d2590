import Mathlib.Algebra.Order.BigOperators.Group.List
import Mathlib.Algebra.Order.Group.Nat
import ViewBundle.Proofs.Descent
import ViewBundle.Proofs.FirstCandidate
import ViewBundle.Proofs.Spelling

/-!
# Files of modules

A module is looked for behind the module directories, but its name can hold double dots, and it can
be empty.  An extension or an index file never leads out of a directory that the name leads into
(`mem_properAncestors_of_mem_placeCandidates`).  So it is the name alone that decides whether the
file is inside of a module directory: it always is if the normal form of the name has names only,
and has one, and else it need not be.  Main statement: `resolve_moduleName_inside_iff`.
-/

namespace ViewBundle

namespace Component

/-- There is always a name besides those that are listed. -/
theorem exists_isPiece_notMem (components : List Component) :
    ∃ name, (normal name).IsPiece ∧ normal name ∉ components := by
  obtain ⟨length, hlong⟩ : ∃ length, length = (components.map (·.text.length)).sum + 3 := ⟨_, rfl⟩
  obtain ⟨name, hname⟩ : ∃ name : String, name.toList = List.replicate length 'm' :=
    ⟨_, String.toList_ofList⟩
  have hlength : name.length = length := by
    rw [← String.length_toList, hname, List.length_replicate]
  have hne {other : String} (hother : other.length < 3) : name ≠ other := by
    rintro rfl
    omega
  refine ⟨name, isPiece_normal ?_ (hne (by decide)) (hne (by decide)) (hne (by decide)), ?_⟩
  · rw [hname, List.mem_replicate]
    exact fun h => absurd h.2 (by decide)
  · intro hmem
    have hle : (Component.normal name).text.length ≤ (components.map (·.text.length)).sum :=
      List.le_sum_of_mem (List.mem_map_of_mem hmem)
    rw [Component.text] at hle
    omega

end Component

namespace Path

theorem leading_text_append {last : Component} (h : last.IsPiece) (s : List Char) :
    leading (last.text.toList ++ s) = [] := by
  obtain ⟨first, more, hfirst⟩ := List.exists_cons_of_ne_nil (Text.pieces_ne_nil '/' s)
  rw [leading_of_pieces (Text.pieces_append h.slash_notMem hfirst) (h.head?_text_append_ne s),
    if_neg]
  intro hdot
  rcases List.append_eq_singleton_iff.1 hdot with ⟨hnil, -⟩ | ⟨htext, -⟩
  · exact h.toList_text_ne_nil hnil
  · exact h.text_ne_dot (String.toList_inj.1 htext)

theorem join_ofComponents_normal {components : List Component}
    (h : Component.Written components) {name : String} (hname : (Component.normal name).IsPiece) :
    (ofComponents components).join ⟨name⟩ = ofComponents (components ++ [.normal name]) := by
  simpa only [Component.text] using join_ofComponents h hname

/-- A text that is added to a path changes no other component than the last one. -/
theorem exists_components_withSuffix {front : List Component} (hfront : Component.Written front)
    {last : Component} (hlast : last.IsPiece) (suffix : String) :
    ∃ behind, behind ≠ [] ∧ .root ∉ behind ∧
      ((ofComponents (front ++ [last])).withSuffix suffix).components = front ++ behind := by
  have hleading : leading (last.text ++ suffix).toList = [] := by
    rw [String.toList_append]
    exact leading_text_append hlast suffix.toList
  have hne : last.text ++ suffix ≠ "" := by
    intro hempty
    rw [String.append_eq_empty_iff] at hempty
    exact hlast.text_ne_empty hempty.1
  obtain ⟨behind, hbehind, hroot, hcomponents⟩ :=
    exists_components_join (q := ⟨last.text ++ suffix⟩) hleading hne (ofComponents front)
  rw [components_ofComponents hfront] at hcomponents
  refine ⟨behind, hbehind, hroot, ?_⟩
  rw [← hcomponents, ← join_ofComponents hfront hlast,
    withSuffix_join (q := ⟨last.text⟩) hlast.text_ne_empty hlast.isAbsolute_text]
  rfl

end Path

namespace Settings

variable {κ : Type} {settings : Settings κ}

/-! ## Candidates inside of a directory -/

theorem exists_components_of_mem_fileCandidates {front : List Component}
    (hfront : Component.Written front) {last : Component} (hlast : last.IsPiece) {file : Path}
    (h : file ∈ settings.fileCandidates (Path.ofComponents (front ++ [last]))) :
    ∃ behind, behind ≠ [] ∧ .root ∉ behind ∧ file.components = front ++ behind := by
  rw [fileCandidates, List.mem_cons, List.mem_map] at h
  rcases h with rfl | ⟨extension, -, rfl⟩
  · refine ⟨[last], by simp, ?_, Path.components_ofComponents (hfront.concat hlast)⟩
    rw [List.mem_singleton]
    exact hlast.ne_root.symm
  · exact Path.exists_components_withSuffix hfront hlast extension

/-- Every file that a path inside of a directory can stand for is inside of that directory. -/
theorem mem_properAncestors_of_mem_placeCandidates {components behind : List Component}
    (hcomponents : Component.Written components) (hne : behind ≠ [])
    (hbehind : ∀ component ∈ behind, component.IsPiece) {file : Path}
    (h : file ∈ settings.placeCandidates (Path.ofComponents (components ++ behind))) :
    components ∈ Component.properAncestors file.components := by
  have hroot {inner : List Component} (hinner : ∀ component ∈ inner, component.IsPiece) :
      .root ∉ inner := fun hmem => (hinner _ hmem).ne_root rfl
  rcases List.mem_append.1 h with hfile | hindex
  · obtain ⟨inner, last, rfl⟩ := (List.eq_nil_or_concat' behind).resolve_left hne
    rw [List.forall_mem_append, List.forall_mem_singleton] at hbehind
    rw [← List.append_assoc] at hfile
    obtain ⟨outer, houter, hfree, hfile⟩ := exists_components_of_mem_fileCandidates
      (hcomponents.append hbehind.1) hbehind.2 hfile
    rw [hfile, List.append_assoc]
    refine Component.mem_properAncestors_append components (by simp [houter]) ?_
    rw [List.mem_append, not_or]
    exact ⟨hroot hbehind.1, hfree⟩
  · have hname : (Component.normal "index").IsPiece :=
      Component.isPiece_normal (by decide) (by decide) (by decide) (by decide)
    have hwritten := hcomponents.append hbehind
    rw [Path.join_ofComponents_normal hwritten hname] at hindex
    obtain ⟨outer, houter, hfree, hfile⟩ :=
      exists_components_of_mem_fileCandidates hwritten hname hindex
    rw [hfile, List.append_assoc]
    refine Component.mem_properAncestors_append components (by simp [houter]) ?_
    rw [List.mem_append, not_or]
    exact ⟨hroot hbehind, hfree⟩

/-! ## Module directories -/

/-- Module directories that have plain names are searched in normal form. -/
theorem normalize_of_mem_moduleSearchPaths {base directory : Path}
    (hnames : ∀ name ∈ settings.moduleDirectories, (Component.normal name).IsPiece)
    (h : directory ∈ settings.moduleSearchPaths base) : directory.normalize = directory := by
  obtain ⟨components, hancestor, hmem⟩ := List.mem_flatMap.1 h
  split at hmem
  · simp at hmem
  · obtain ⟨name, hname, rfl⟩ := List.mem_map.1 hmem
    have hpiece := hnames name hname
    obtain ⟨behind, hbehind⟩ := Component.exists_eq_append_of_mem_ancestors hancestor
    rw [Path.components_normalize] at hbehind
    have hnormal : Component.IsNormalForm components :=
      (hbehind ▸ Path.isNormalForm_normalize base).of_append
    rw [Path.join_ofComponents_normal hnormal.written hpiece,
      Path.normalize_ofComponents (hnormal.concat hpiece)]

/-! ## Modules outside of module directories -/

theorem placeAt?_of_isFile {σ : Type} [FileStore σ] {store : σ} {candidate : Path}
    (h : FileStore.isFile store candidate = true) :
    settings.placeAt? store candidate = some candidate := by
  rw [placeAt?, fileAt?, fileCandidates, List.find?_cons_of_pos h]
  rfl

/-- Settings that name one module directory, and no extension that can be left out. -/
def oneDirectory (κ : Type) [CompilerKind κ] (name : String) : Settings κ :=
  ⟨[], .standard κ, [name]⟩

variable (κ : Type) [CompilerKind κ]

theorem moduleSearchPaths_oneDirectory {name : String} (h : (Component.normal name).IsPiece) :
    (oneDirectory κ name).moduleSearchPaths ⟨"/"⟩ = [.ofComponents [.root, .normal name]] := by
  have hbase : (Path.normalize ⟨"/"⟩).components = [.root] := by decide
  have hjoin : (Path.ofComponents [.root]).join ⟨name⟩ = .ofComponents [.root, .normal name] :=
    Path.join_ofComponents_normal (.absolute (by simp)) h
  rw [moduleSearchPaths, hbase]
  exact congrArg ([·]) hjoin

/-- A module is found where its name leads from the only module directory, if there is a file. -/
theorem resolve_oneDirectory {reference name : String}
    (h : ReferenceKind.of reference = .moduleName) (hname : (Component.normal name).IsPiece)
    {file : Path}
    (hfile : file = ((Path.ofComponents [.root, .normal name]).join ⟨reference⟩).normalize) :
    (oneDirectory κ name).resolve (FileTree.ofList [(file, "")]) reference ⟨"/"⟩ = .ok file := by
  have hisFile : (FileTree.ofList [(file, "")]).isFile file = true := by
    rw [FileTree.isFile_iff, FileTree.mem_keys_ofList_iff]
    exact List.mem_singleton_self _
  rw [resolve_eq_ok_iff, resolve?, h]
  show (oneDirectory κ name).moduleAt? _ reference ⟨"/"⟩ = some file
  rw [moduleAt?, moduleSearchPaths_oneDirectory κ hname, List.findSome?_singleton, ← hfile]
  exact placeAt?_of_isFile hisFile

/-- A module whose name does not lead inside can be found outside of all module directories: where
the name leads when it is taken from a directory that it does not name. -/
theorem exists_resolve_outside {reference : String} (h : ReferenceKind.of reference = .moduleName)
    (hinside : Path.leadsInside ⟨reference⟩ = false) :
    ∃ (settings : Settings κ) (files : List (Path × String)) (base file : Path),
      settings.resolve (FileTree.ofList files) reference base = .ok file ∧
        ∀ directory ∈ settings.moduleSearchPaths base,
          directory.normalize.components ∉ Component.properAncestors file.components := by
  obtain ⟨name, hname, hnew⟩ :=
    Component.exists_isPiece_notMem (Path.components ⟨reference⟩)
  have hdirectory : (Path.ofComponents [.root, .normal name]).components =
      [.root, .normal name] :=
    Path.components_ofComponents (.absolute (List.forall_mem_singleton.2 hname))
  refine ⟨oneDirectory κ name, _, ⟨"/"⟩, _, resolve_oneDirectory κ h hname rfl, ?_⟩
  intro directory hmem hancestor
  rw [moduleSearchPaths_oneDirectory κ hname, List.mem_singleton] at hmem
  obtain ⟨behind, hne, hbehind⟩ := Component.exists_eq_append_of_mem_properAncestors hancestor
  rw [hmem, Path.components_normalize, Path.components_normalize, hdirectory] at hbehind
  exact Path.normalize_join_ne (ReferenceKind.leading_of_moduleName h) hinside hdirectory hnew hne
    hbehind

/-- A module is found inside of a module directory, whatever files, settings and directories there
are, if and only if the normal form of its name has names only, and has one.  Module directories
with plain names are searched as they are, and others in their normal form. -/
theorem resolve_moduleName_inside_iff {reference : String}
    (h : ReferenceKind.of reference = .moduleName) :
    (Path.leadsInside ⟨reference⟩ = true ↔
      ∀ (settings : Settings κ) (files : List (Path × String)) (base file : Path),
        settings.resolve (FileTree.ofList files) reference base = .ok file →
          ∃ directory ∈ settings.moduleSearchPaths base,
            directory.normalize.components ∈ Component.properAncestors file.components) ∧
    ∀ (settings : Settings κ) (base : Path),
      (∀ name ∈ settings.moduleDirectories, (Component.normal name).IsPiece) →
      ∀ directory ∈ settings.moduleSearchPaths base, directory.normalize = directory := by
  refine ⟨⟨?_, ?_⟩, fun settings base hnames directory hmem =>
    normalize_of_mem_moduleSearchPaths hnames hmem⟩
  · intro hinside settings files base file hfile
    rw [resolve_eq_ok_iff, resolve?, h] at hfile
    obtain ⟨directory, hmem, hplace⟩ := List.exists_of_findSome?_eq_some hfile
    obtain ⟨behind, hne, hpieces, hnormal⟩ := Path.exists_normalize_join
      (ReferenceKind.leading_of_moduleName h) hinside directory
    have hcandidate := mem_placeCandidates_of_placeAt? hplace
    rw [Path.normalize, hnormal] at hcandidate
    refine ⟨directory, hmem, ?_⟩
    rw [Path.components_normalize]
    exact mem_properAncestors_of_mem_placeCandidates directory.written_normalize hne hpieces
      hcandidate
  · intro hall
    by_contra hinside
    obtain ⟨settings, files, base, file, hfile, houtside⟩ :=
      exists_resolve_outside κ h (by simpa using hinside)
    obtain ⟨directory, hmem, hancestor⟩ := hall settings files base file hfile
    exact houtside directory hmem hancestor

/-- A module, and a file that is none. -/
def headerFiles : List (Path × String) :=
  [(⟨"/app/node_modules/kit/button.html"⟩, ""), (⟨"/app/views/header.html"⟩, "")]

theorem resolve_moduleName_inside_iff_headerFiles :
    (ReferenceKind.of "kit/parts/../button" = .moduleName ∧
      standard.resolve (FileTree.ofList headerFiles) "kit/parts/../button" ⟨"/app/views"⟩ =
        .ok ⟨"/app/node_modules/kit/button.html"⟩ ∧
      ∃ directory ∈ standard.moduleSearchPaths ⟨"/app/views"⟩, directory.components ∈
        Component.properAncestors (Path.components ⟨"/app/node_modules/kit/button.html"⟩)) ∧
    ReferenceKind.of "kit/../../header" = .moduleName ∧
      ¬∀ (settings : Settings Compiler) (files : List (Path × String)) (base file : Path),
        settings.resolve (FileTree.ofList files) "kit/../../header" base = .ok file →
          ∃ directory ∈ settings.moduleSearchPaths base,
            directory.normalize.components ∈ Component.properAncestors file.components := by
  have hkit : ReferenceKind.of "kit/parts/../button" = .moduleName := by decide
  have hheader : ReferenceKind.of "kit/../../header" = .moduleName := by decide
  have hfile : standard.resolve (FileTree.ofList headerFiles) "kit/parts/../button"
      ⟨"/app/views"⟩ = .ok ⟨"/app/node_modules/kit/button.html"⟩ := by
    decide +kernel
  obtain ⟨hinside, hnormal⟩ := resolve_moduleName_inside_iff Compiler hkit
  refine ⟨⟨hkit, hfile, ?_⟩, hheader, ?_⟩
  · obtain ⟨directory, hmem, hancestor⟩ := hinside.1 (by decide +kernel) _ _ _ _ hfile
    have hnames : ∀ name ∈ standard.moduleDirectories, (Component.normal name).IsPiece :=
      List.forall_mem_singleton.2
        (Component.isPiece_normal (by decide) (by decide) (by decide) (by decide))
    rw [hnormal standard ⟨"/app/views"⟩ hnames directory hmem] at hancestor
    exact ⟨directory, hmem, hancestor⟩
  · intro hall
    exact absurd ((resolve_moduleName_inside_iff Compiler hheader).1.2 hall) (by decide +kernel)

/-- A module need not be found inside of a module directory: double dots lead out of it, to a file
that lies where the reference is written, and an empty name leads to a file beside it. -/
theorem not_forall_resolve_moduleName_inside :
    (¬∀ (settings : Settings Compiler) (files : List (Path × String)) (reference : String)
      (base file : Path), ReferenceKind.of reference = .moduleName →
      settings.resolve (FileTree.ofList files) reference base = .ok file →
        ∃ directory ∈ settings.moduleSearchPaths base,
          directory.components ∈ Component.properAncestors file.components) ∧
    ReferenceKind.of "" = .moduleName ∧
      standard.resolve (FileTree.ofList [(⟨"/v/node_modules.html"⟩, "")]) "" ⟨"/v"⟩ =
        .ok ⟨"/v/node_modules.html"⟩ := by
  refine ⟨?_, by decide, by decide +kernel⟩
  intro h
  have hfile : standard.resolve (FileTree.ofList headerFiles) "kit/../../header" ⟨"/app/views"⟩ =
      .ok ⟨"/app/views/header.html"⟩ := by
    decide +kernel
  exact absurd (h _ _ _ _ _ (by decide) hfile) (by decide +kernel)

end Settings

end ViewBundle
