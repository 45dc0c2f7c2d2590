import ViewBundle.Proofs.FileTree
import ViewBundle.Proofs.Loading

/-!
# The import tree of a file

A load walks a tree that is never built: its root is the file that is loaded, and below a file
stand the files that it imports, each under its scope and in the order of the imports.  There is at
most one such tree (`FollowsImports.eq_of_root_eq`), and a load that succeeds has visited all its
places in post-order (`exists_importTree`).  Main statement: `loadFile_postorder`.
-/

namespace ViewBundle

/-- A tree of files, each with the scope under which it is loaded. -/
inductive ImportTree where
  | node (place : Import) (children : List ImportTree)

namespace ImportTree

/-- The file on top, with its scope. -/
def root : ImportTree → Import
  | node place _ => place

mutual

/-- The places of a tree: those below the root in their order, and the root behind them. -/
def postorder : ImportTree → List Import
  | node place children => postorderAll children ++ [place]

/-- The places of several trees, one tree after the other. -/
def postorderAll : List ImportTree → List Import
  | [] => []
  | tree :: more => tree.postorder ++ postorderAll more

end

end ImportTree

namespace Settings

variable {κ σ : Type} [CompilerKind κ] [FileStore σ] {settings : Settings κ} {store : σ}

/-- Loading the file of a place under its scope, one finds that the file declares this. -/
def Declares (settings : Settings κ) (store : σ) (place : Import) (contents : ViewFile) : Prop :=
  ∃ text markup, FileStore.read store place.file = .ok text ∧
    settings.compilers.compile place.file.dottedExtension text place.file = .ok markup ∧
    ViewFile.parse settings store place.scope markup place.file = .ok contents

theorem Declares.eq {place : Import} {contents contents' : ViewFile}
    (h : settings.Declares store place contents) (h' : settings.Declares store place contents') :
    contents = contents' := by
  obtain ⟨text, markup, htext, hmarkup, hcontents⟩ := h
  obtain ⟨text', markup', htext', hmarkup', hcontents'⟩ := h'
  obtain rfl : text = text' := Except.ok.inj (htext.symm.trans htext')
  obtain rfl : markup = markup' := Except.ok.inj (hmarkup.symm.trans hmarkup')
  exact Except.ok.inj (hcontents.symm.trans hcontents')

/-- A visit holds the digest of the text of a place's file, and the views that the file declares
under the scope of the place. -/
structure IsVisit (settings : Settings κ) (store : σ) (place : Import) (visit : Visit) : Prop where
  file_eq : visit.file = place.file
  digest_eq : ∃ text, FileStore.read store place.file = .ok text ∧ visit.digest = Digest.hex text
  views_eq : ∃ imports, settings.Declares store place ⟨imports, visit.views⟩

end Settings

namespace ImportTree

variable {κ σ : Type} [CompilerKind κ] [FileStore σ] {settings : Settings κ} {store : σ}

/-- Below every file of a tree stand the files that it imports, in their order. -/
inductive FollowsImports (settings : Settings κ) (store : σ) : ImportTree → Prop
  | node {place : Import} {contents : ViewFile} {children : List ImportTree}
      (declares : settings.Declares store place contents)
      (roots : children.map root = contents.imports)
      (follow : ∀ child ∈ children, FollowsImports settings store child) :
      FollowsImports settings store (node place children)

/-- A file under a scope is the root of at most one tree of imports. -/
theorem FollowsImports.eq_of_root_eq {tree other : ImportTree}
    (htree : tree.FollowsImports settings store) (hother : other.FollowsImports settings store)
    (hroot : other.root = tree.root) : other = tree := by
  induction htree generalizing other with
  | @node place contents children declares roots _ ih =>
    cases hother with
    | @node place' contents' children' declares' roots' follow' =>
      obtain rfl : place' = place := hroot
      have hroots : children'.map root = children.map root := by
        rw [roots', roots, declares'.eq declares]
      have hchildren : children' = children := by
        apply List.ext_getElem (by simpa using congrArg List.length hroots)
        intro n h' h
        apply ih _ (List.getElem_mem h) (follow' _ (List.getElem_mem h'))
        have hnth := congrArg (·[n]?) hroots
        simpa [h, h'] using hnth
      rw [hchildren]

/-! ## Loads -/

/-- Where every file of a list is visited along a tree, the files are visited along as many
trees. -/
theorem exists_children {entries : List Import} {loads : List (List Visit)}
    (h : List.Forall₂ (fun entry visits => ∃ tree : ImportTree, tree.root = entry ∧
      tree.FollowsImports settings store ∧
      List.Forall₂ (settings.IsVisit store) tree.postorder visits) entries loads) :
    ∃ children : List ImportTree, children.map root = entries ∧
      (∀ child ∈ children, child.FollowsImports settings store) ∧
      List.Forall₂ (settings.IsVisit store) (postorderAll children) loads.flatten := by
  induction h with
  | nil => exact ⟨[], rfl, by simp, .nil⟩
  | cons hload _ ih =>
    obtain ⟨tree, rfl, hfollows, hvisits⟩ := hload
    obtain ⟨children, rfl, hchildren, hmore⟩ := ih
    refine ⟨tree :: children, rfl, List.forall_mem_cons.2 ⟨hfollows, hchildren⟩, ?_⟩
    rw [postorderAll, List.flatten_cons]
    exact List.rel_append hvisits hmore

/-- A load that succeeds visits the places of a tree of imports in post-order. -/
theorem exists_importTree {levels : Nat} {chain : List Path} {file : Path}
    {scope : Option String} {visits : List Visit}
    (h : settings.loadNested store levels chain file scope = .ok visits) :
    ∃ tree : ImportTree, tree.root = ⟨file, scope⟩ ∧ tree.FollowsImports settings store ∧
      List.Forall₂ (settings.IsVisit store) tree.postorder visits := by
  induction levels generalizing chain file scope visits with
  | zero => simp [Settings.loadNested] at h
  | succ levels ih =>
    obtain ⟨-, text, contents, imported, hread, himported, rfl⟩ :=
      Settings.loadNested_eq_ok_iff.1 h
    obtain ⟨htext, markup, hmarkup, hparse⟩ := Settings.readFile_eq_ok_iff.1 hread
    have hdeclares : settings.Declares store ⟨file, scope⟩ contents :=
      ⟨text, markup, htext, hmarkup, hparse⟩
    obtain ⟨children, hroots, hchildren, hvisits⟩ := exists_children
      ((Outcome.mapM_eq_ok_iff.1 himported).imp fun entry visits hload => ih hload)
    refine ⟨node ⟨file, scope⟩ children, rfl, .node hdeclares hroots hchildren, ?_⟩
    rw [postorder]
    refine List.rel_append hvisits (.cons ?_ .nil)
    exact ⟨rfl, ⟨text, htext, rfl⟩, contents.imports, hdeclares⟩

end ImportTree

/-! ## The lists that a load leaves -/

namespace Settings

section Visits

variable {κ : Type} [CompilerKind κ] {settings : Settings κ} {files : FileTree}
  {places : List Import} {visits : List Visit}
  (h : List.Forall₂ (settings.IsVisit files) places visits)

include h

theorem map_file_of_isVisit : visits.map Visit.file = places.map Import.file := by
  rw [← List.forall₂_eq_eq_eq, List.forall₂_map_left_iff, List.forall₂_map_right_iff]
  exact h.flip.imp fun visit place hvisit => hvisit.file_eq

theorem digests_of_isVisit :
    List.Forall₂ (fun file digest => ∃ text, files.contents? file = some text ∧
      digest = Digest.hex text) (visits.map Visit.file) (visits.map Visit.digest) := by
  induction h with
  | nil => exact .nil
  | cons hvisit _ ih =>
    obtain ⟨text, htext, hdigest⟩ := hvisit.digest_eq
    rw [← hvisit.file_eq] at htext
    exact .cons ⟨text, FileTree.read_eq_ok_iff.1 htext, hdigest⟩ ih

theorem views_of_isVisit :
    List.Forall₂ (fun place views => ∃ imports, settings.Declares files place ⟨imports, views⟩)
      places (visits.map Visit.views) := by
  rw [List.forall₂_map_right_iff]
  exact h.imp fun place visit hvisit => hvisit.views_eq

end Visits

/-- A load that succeeds leaves its lists in the post-order of the one tree of imports that has the
file, under its scope, on top: the files of the places, the digest of the text of each of them, and
the views that they declare.  A load of several entries leaves what the loads of their files leave,
one behind the other, or fails as the first of them that fails. -/
theorem loadFile_postorder {κ : Type} [CompilerKind κ] (settings : Settings κ)
    (files : FileTree) :
    (∀ (file : Path) (scope : Option String) (visits : List Visit),
      settings.loadFile files file scope = .ok visits →
      ∃ tree : ImportTree, tree.root = ⟨file, scope⟩ ∧ tree.FollowsImports settings files ∧
        (∀ other : ImportTree, other.root = ⟨file, scope⟩ →
          other.FollowsImports settings files → other = tree) ∧
        visits.map Visit.file = tree.postorder.map Import.file ∧
        List.Forall₂ (fun file digest => ∃ text, files.contents? file = some text ∧
          digest = Digest.hex text) (visits.map Visit.file) (visits.map Visit.digest) ∧
        ∃ declared : List (List View),
          List.Forall₂ (fun place views =>
            ∃ imports, settings.Declares files place ⟨imports, views⟩) tree.postorder declared ∧
          visits.flatMap Visit.views = declared.flatten) ∧
    ∀ (entries : List Path) (base : Path),
      (∀ visits, settings.loadEntries files entries base = .ok visits ↔
        ∃ loads, List.Forall₂ (fun entry visits => ∃ file,
            settings.resolveEntry files entry base = .ok file ∧
            settings.loadFile files file none = .ok visits) entries loads ∧
          loads.flatten = visits) ∧
      ∀ failure, settings.loadEntries files entries base = .error failure ↔
        ∃ before entry after, entries = before ++ entry :: after ∧
          (∀ earlier ∈ before, ∃ visits file,
            settings.resolveEntry files earlier base = .ok file ∧
            settings.loadFile files file none = .ok visits) ∧
          (settings.resolveEntry files entry base = .error failure ∨
            ∃ file, settings.resolveEntry files entry base = .ok file ∧
              settings.loadFile files file none = .error failure) := by
  constructor
  · intro file scope visits hload
    obtain ⟨tree, hroot, hfollows, hvisits⟩ := ImportTree.exists_importTree hload
    refine ⟨tree, hroot, hfollows, ?_, map_file_of_isVisit hvisits, digests_of_isVisit hvisits,
      visits.map Visit.views, views_of_isVisit hvisits, rfl⟩
    intro other hother hfollows'
    exact hfollows.eq_of_root_eq hfollows' (hother.trans hroot.symm)
  · intro entries base
    constructor
    · intro visits
      simp only [loadEntries_eq_ok_iff, Outcome.mapM_eq_ok_iff, loadEntry_eq_ok_iff]
    · intro failure
      simp only [loadEntries, Outcome.map_eq_error_iff, Outcome.mapM_eq_error_iff,
        loadEntry_eq_error_iff, loadEntry_eq_ok_iff]

/-- A page whose two imports take in one file, the second of them under no name. -/
def sharedFiles : FileTree :=
  .ofList
    [(⟨"/v/page.html"⟩, "<import: src=\"./left\"><import: src=\"./right\"><Body:>b"),
      (⟨"/v/left.html"⟩, "<import: src=\"./icons\" ns=\"s\">"),
      (⟨"/v/right.html"⟩, "<import: src=\"./icons\" ns=\"\">"),
      (⟨"/v/icons.html"⟩, "<star:>*")]

theorem loadFile_postorder_sharedFiles :
    ∃ visits, standard.loadFile sharedFiles ⟨"/v/page.html"⟩ (some "app") = .ok visits ∧
      (visits.flatMap Visit.views).map View.name =
        ["app:left:s:star", "app:right:star", "app:Body"] ∧
      ∃ tree : ImportTree, tree.root = ⟨⟨"/v/page.html"⟩, some "app"⟩ ∧
        tree.FollowsImports standard sharedFiles ∧
        tree.postorder.map Import.file = [⟨"/v/icons.html"⟩, ⟨"/v/left.html"⟩,
          ⟨"/v/icons.html"⟩, ⟨"/v/right.html"⟩, ⟨"/v/page.html"⟩] := by
  have hrun : (standard.loadFile sharedFiles ⟨"/v/page.html"⟩ (some "app")).map (fun visits =>
      (visits.map Visit.file, (visits.flatMap Visit.views).map View.name)) =
      .ok ([⟨"/v/icons.html"⟩, ⟨"/v/left.html"⟩, ⟨"/v/icons.html"⟩, ⟨"/v/right.html"⟩,
        ⟨"/v/page.html"⟩], ["app:left:s:star", "app:right:star", "app:Body"]) := by
    decide +kernel
  obtain ⟨visits, hload, hlists⟩ := Outcome.map_eq_ok_iff.1 hrun
  obtain ⟨hfiles, hnames⟩ := Prod.mk.inj hlists
  obtain ⟨tree, hroot, hfollows, -, hpostorder, -⟩ :=
    (loadFile_postorder standard sharedFiles).1 ⟨"/v/page.html"⟩ (some "app") visits hload
  exact ⟨visits, hload, hnames, tree, hroot, hfollows, hpostorder.symm.trans hfiles⟩

end Settings

end ViewBundle
