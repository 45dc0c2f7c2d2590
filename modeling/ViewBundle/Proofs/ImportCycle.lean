import Mathlib.Data.List.Chain
import ViewBundle.Proofs.ImportGraph
import ViewBundle.Proofs.Termination

/-!
# Import cycles

The files that are being loaded form a walk through the import graph on which no file comes twice.
So a load that reports a cycle has walked along it, unless a compiler has reported the cycle by
itself (`isImportCircle_of_loadNested`), and a load that succeeds has come to no file again while
that file was being loaded (`not_same_of_loadFile`).  Main statement: `loadFile_importCycle`.
-/

namespace ViewBundle.Settings

open Relation (ReflTransGen TransGen)

section Walk

variable {κ σ : Type} [CompilerKind κ] [FileStore σ] {settings : Settings κ} {store : σ}
  {start file : Path} {chain circle : List Path}

/-- The files that are being loaded when a load of the first file has come to the last one: each of
them leads to the next one, and none comes twice before the last one. -/
structure IsImportWalk (settings : Settings κ) (store : σ) (start : Path) (chain : List Path)
    (file : Path) : Prop where
  reachable : ∀ visited ∈ chain ++ [file], ReflTransGen (settings.Imports store) start visited
  isChain : (chain ++ [file]).IsChain (settings.Imports store)
  distinct : chain.Pairwise fun earlier later => ¬earlier.Same later

/-- Files that can be reached from the start, each of which leads to the next one, and the last of
which is the first one again; up to there no file comes twice. -/
def IsImportCircle (settings : Settings κ) (store : σ) (start : Path) (circle : List Path) : Prop :=
  ∃ first inner last, circle = first :: inner ++ [last] ∧ last.Same first ∧
    (first :: inner).Pairwise (fun earlier later => ¬earlier.Same later) ∧
    ReflTransGen (settings.Imports store) start first ∧
    circle.IsChain (settings.Imports store)

/-- The compiler of a file that can be reached from the start refuses the file in this way. -/
def IsCompilerReport (settings : Settings κ) (store : σ) (start : Path) (failure : Failure) :
    Prop :=
  ∃ file text, ReflTransGen (settings.Imports store) start file ∧
    FileStore.read store file = .ok text ∧
    settings.compilers.compile file.dottedExtension text file = .error failure

theorem IsImportWalk.nil (settings : Settings κ) (store : σ) (start : Path) :
    settings.IsImportWalk store start [] start where
  reachable := by
    intro visited hvisited
    rw [List.mem_singleton.1 hvisited]
  isChain := .singleton start
  distinct := .nil

/-- An import of a file that is not being loaded yet goes on with the walk. -/
theorem IsImportWalk.append (h : settings.IsImportWalk store start chain file)
    (hfresh : chainFrom file chain = []) {target : Path}
    (himport : settings.Imports store file target) :
    settings.IsImportWalk store start (chain ++ [file]) target where
  reachable := by
    intro visited hvisited
    rcases List.mem_append.1 hvisited with hvisited | hvisited
    · exact h.reachable visited hvisited
    · rw [List.mem_singleton.1 hvisited]
      exact (h.reachable file (by simp)).tail himport
  isChain := by
    refine h.isChain.append (.singleton target) ?_
    intro last hlast next hnext
    obtain rfl : file = last := by simpa using hlast
    obtain rfl : target = next := by simpa using hnext
    exact himport
  distinct := by
    refine List.pairwise_append.2 ⟨h.distinct, List.pairwise_singleton _ _, ?_⟩
    intro earlier hearlier later hlater
    rw [List.mem_singleton.1 hlater]
    exact chainFrom_eq_nil_iff.1 hfresh earlier hearlier

/-- A walk that comes back to a file has gone round in a circle from that file on. -/
theorem IsImportWalk.isImportCircle (h : settings.IsImportWalk store start chain file)
    {first : Path} (hcircle : chainFrom file chain = first :: circle) :
    settings.IsImportCircle store start (first :: circle ++ [file]) := by
  obtain ⟨hsame, hsuffix⟩ := chainFrom_eq_cons hcircle
  refine ⟨first, circle, file, rfl, hsame.symm, h.distinct.sublist hsuffix.sublist, ?_, ?_⟩
  · exact h.reachable first (List.mem_append_left _ (hsuffix.subset List.mem_cons_self))
  · exact h.isChain.suffix ((List.suffix_append_inj_of_length_eq rfl).2 ⟨hsuffix, rfl⟩)

/-- What a load reports as a cycle is a circle of imports, if it is not a compiler's report. -/
theorem isImportCircle_of_loadNested {levels : Nat} {scope : Option String}
    (hwalk : settings.IsImportWalk store start chain file)
    (h : settings.loadNested store levels chain file scope = .error (.importCycle circle)) :
    settings.IsCompilerReport store start (.importCycle circle) ∨
      settings.IsImportCircle store start circle := by
  induction levels generalizing chain file scope with
  | zero => simp [loadNested] at h
  | succ levels ih =>
    rcases loadNested_eq_error_iff.1 h with ⟨first, inner, hcircle, h⟩ | ⟨hfresh, hread | h⟩
    · obtain rfl := Failure.importCycle.inj h
      exact .inr (hwalk.isImportCircle hcircle)
    · obtain ⟨text, htext, hcompile⟩ := compile_eq_error_of_readFile rfl hread
      exact .inl ⟨file, text, hwalk.reachable file (by simp), htext, hcompile⟩
    · obtain ⟨text, contents, before, entry, after, hread, hsplit, -, hentry⟩ := h
      have himport : settings.Imports store file entry.file :=
        (imports_iff_of_readFile hread entry.file).1 ⟨entry, by simp [hsplit], rfl⟩
      exact ih (hwalk.append hfresh himport) hentry

/-- A circle of imports leads from its first file to that file again. -/
theorem IsImportCircle.exists_transGen (h : settings.IsImportCircle store start circle) :
    ∃ first again, ReflTransGen (settings.Imports store) start first ∧
      TransGen (settings.Imports store) first again ∧ again.Same first := by
  obtain ⟨first, inner, last, rfl, hsame, -, hreach, hchain⟩ := h
  refine ⟨first, last, hreach, ?_, hsame⟩
  cases inner with
  | nil => exact .single (List.isChain_cons_cons.1 hchain).1
  | cons second inner =>
    obtain ⟨hfirst, hrest⟩ := List.isChain_cons_cons.1 hchain
    exact .head' hfirst (List.relationReflTransGen_of_exists_isChain_cons _ hrest (by simp))

/-! ## Loads that succeed -/

/-- A file loads without a failure while the files of a chain are being loaded. -/
def LoadsBelow (settings : Settings κ) (store : σ) (chain : List Path) (file : Path) : Prop :=
  ∃ levels scope visits, settings.loadNested store levels chain file scope = .ok visits

variable {target : Path}

theorem LoadsBelow.not_same (h : settings.LoadsBelow store chain file) {earlier : Path}
    (hearlier : earlier ∈ chain) : ¬earlier.Same file := by
  obtain ⟨levels, scope, visits, hload⟩ := h
  cases levels with
  | zero => simp [loadNested] at hload
  | succ levels => exact chainFrom_eq_nil_iff.1 (loadNested_eq_ok_iff.1 hload).1 earlier hearlier

/-- Where a file has been loaded, so have the files that it leads to, while it was being loaded
itself. -/
theorem LoadsBelow.step (h : settings.LoadsBelow store chain file)
    (himport : settings.Imports store file target) :
    settings.LoadsBelow store (chain ++ [file]) target := by
  obtain ⟨levels, scope, visits, hload⟩ := h
  cases levels with
  | zero => simp [loadNested] at hload
  | succ levels =>
    obtain ⟨-, text, contents, imported, hread, himported, -⟩ := loadNested_eq_ok_iff.1 hload
    obtain ⟨entry, hentry, rfl⟩ := (imports_iff_of_readFile hread target).2 himport
    obtain ⟨visits', hvisits'⟩ := Outcome.exists_eq_ok_of_mem himported hentry
    exact ⟨levels, entry.scope, visits', hvisits'⟩

theorem LoadsBelow.reflTransGen (h : settings.LoadsBelow store chain file)
    (hreach : ReflTransGen (settings.Imports store) file target) :
    ∃ longer, settings.LoadsBelow store longer target := by
  induction hreach with
  | refl => exact ⟨chain, h⟩
  | tail _ himport ih =>
    obtain ⟨longer, hlonger⟩ := ih
    exact ⟨_, hlonger.step himport⟩

/-- A file stays in the chain while the files that it leads to are being loaded. -/
theorem LoadsBelow.transGen (h : settings.LoadsBelow store chain file)
    (hreach : TransGen (settings.Imports store) file target) :
    ∃ longer, file ∈ longer ∧ settings.LoadsBelow store longer target := by
  induction hreach with
  | single himport => exact ⟨chain ++ [file], by simp, h.step himport⟩
  | @tail later _ _ himport ih =>
    obtain ⟨longer, hmem, hlonger⟩ := ih
    exact ⟨longer ++ [later], List.mem_append_left _ hmem, hlonger.step himport⟩

/-- No file that a load comes to leads to itself, if the load succeeds. -/
theorem not_same_of_loadFile {scope : Option String} {visits : List Visit}
    (h : settings.loadFile store start scope = .ok visits)
    (hreach : ReflTransGen (settings.Imports store) start file)
    (hround : TransGen (settings.Imports store) file target) : ¬target.Same file := by
  have hstart : settings.LoadsBelow store [] start := ⟨_, scope, visits, h⟩
  obtain ⟨chain, hchain⟩ := hstart.reflTransGen hreach
  obtain ⟨longer, hmem, hlonger⟩ := hchain.transGen hround
  intro hsame
  exact hlonger.not_same hmem hsame.symm

end Walk

/-! ## Reported cycles -/

/-- Compilers that are known by name report no cycles. -/
theorem not_isCompilerReport (settings : Settings Compiler) (files : FileTree) (start : Path)
    (circle : List Path) : ¬settings.IsCompilerReport files start (.importCycle circle) := by
  rintro ⟨file, text, -, -, hcompile⟩
  exact settings.compilers.compile_ne_error rfl _ _ _ hcompile

/-- Import cycles are reported exactly, whatever the compilers are.  A cycle that a load reports is
one that a compiler has reported for a file that the start leads to, or it is a circle of imports
that the start leads to, and its files are named one after the other.  Where the start leads to a
file that leads back to itself, or to such a place if no compiler looks at how a path is written,
the load fails, and does so without a bound on the depth of imports.  Where the start leads to no
such file, only a compiler reports a cycle, however often the load comes to a file. -/
theorem loadFile_importCycle {κ : Type} [CompilerKind κ] (settings : Settings κ) (files : FileTree)
    (start : Path) (scope : Option String) :
    (∀ circle, settings.loadFile files start scope = .error (.importCycle circle) →
      ¬settings.IsCompilerReport files start (.importCycle circle) →
      settings.IsImportCircle files start circle ∧
        (Failure.importCycle circle).message =
          "Import cycle detected: " ++ " -> ".intercalate (circle.map Path.text)) ∧
    (((∃ file again, ReflTransGen (settings.Imports files) start file ∧
          TransGen (settings.Imports files) file again ∧ again.Same file) ∨
        settings.compilers.IgnoreSpelling ∧
          ∃ place, ReflTransGen (settings.PlaceImports files) start.components place ∧
            TransGen (settings.PlaceImports files) place place) →
      ∃ failure, settings.loadFile files start scope = .error failure ∧
        settings.Loads files [] [⟨start, scope⟩] (.error failure)) ∧
    ((∀ file again, ReflTransGen (settings.Imports files) start file →
        TransGen (settings.Imports files) file again → ¬again.Same file) →
      ∀ circle, settings.loadFile files start scope = .error (.importCycle circle) →
        settings.IsCompilerReport files start (.importCycle circle)) := by
  have hcircle {circle : List Path}
      (h : settings.loadFile files start scope = .error (.importCycle circle)) :
      settings.IsCompilerReport files start (.importCycle circle) ∨
        settings.IsImportCircle files start circle :=
    isImportCircle_of_loadNested (.nil settings files start) h
  refine ⟨fun circle h hreport => ⟨(hcircle h).resolve_left hreport, rfl⟩, ?_, ?_⟩
  · intro hcycle
    obtain ⟨file, again, hreach, hround, hsame⟩ : ∃ file again,
        ReflTransGen (settings.Imports files) start file ∧
          TransGen (settings.Imports files) file again ∧ again.Same file := by
      rcases hcycle with hcycle | ⟨hcompilers, place, hreach, hround⟩
      · exact hcycle
      · obtain ⟨file, rfl, hfile⟩ := exists_reflTransGen_imports hcompilers hreach
        obtain ⟨again, hsame, hagain⟩ := exists_transGen_imports hcompilers hround
        exact ⟨file, again, hfile, hagain, hsame⟩
    cases hload : settings.loadFile files start scope with
    | ok visits => exact absurd hsame (not_same_of_loadFile hload hreach hround)
    | error failure =>
      refine ⟨failure, rfl, ?_⟩
      rw [loads_iff (.nil (Nat.lt_succ_self _)), loadImports_singleton]
      exact hload
  · intro hacyclic circle h
    refine (hcircle h).resolve_right fun hcircle => ?_
    obtain ⟨first, again, hreach, hround, hsame⟩ := hcircle.exists_transGen
    exact hacyclic first again hreach hround hsame

/-- A menu and its items, which import each other, and icons that several files import. -/
def menuFiles : FileTree :=
  .ofList
    [(⟨"/v/menu.html"⟩, "<import: src=\"./icons\"><import: src=\"./item\">"),
      (⟨"/v/item.html"⟩, "<import: src=\"./icons\"><import: src=\"./menu\" ns=\"sub\">"),
      (⟨"/v/icons.html"⟩, "<star:>*"),
      (⟨"/v/page.html"⟩, "<import: src=\"./icons\"><import: src=\"./icons\" ns=\"b\">")]

theorem loadFile_importCycle_menuFiles :
    (standard.IsImportCircle menuFiles ⟨"/v//menu.html"⟩
        [⟨"/v//menu.html"⟩, ⟨"/v/item.html"⟩, ⟨"/v/menu.html"⟩] ∧
      (∃ failure, standard.loadFile menuFiles ⟨"/v//menu.html"⟩ none = .error failure ∧
        failure.message =
          "Import cycle detected: /v//menu.html -> /v/item.html -> /v/menu.html") ∧
      (∃ failure, standard.Loads menuFiles [] [⟨⟨"/v//menu.html"⟩, none⟩] (.error failure))) ∧
    ∃ visits, standard.loadFile menuFiles ⟨"/v/page.html"⟩ none = .ok visits ∧
      visits.map Visit.file = [⟨"/v/icons.html"⟩, ⟨"/v/icons.html"⟩, ⟨"/v/page.html"⟩] ∧
      ∀ circle, standard.loadFile menuFiles ⟨"/v/page.html"⟩ none ≠
        .error (.importCycle circle) := by
  have hcycle : standard.loadFile menuFiles ⟨"/v//menu.html"⟩ none = .error
      (.importCycle [⟨"/v//menu.html"⟩, ⟨"/v/item.html"⟩, ⟨"/v/menu.html"⟩]) := by
    decide +kernel
  have hload : (standard.loadFile menuFiles ⟨"/v/page.html"⟩ none).map (·.map Visit.file) =
      .ok [⟨"/v/icons.html"⟩, ⟨"/v/icons.html"⟩, ⟨"/v/page.html"⟩] := by
    decide +kernel
  constructor
  · obtain ⟨hsound, hcomplete, -⟩ :=
      loadFile_importCycle standard menuFiles ⟨"/v//menu.html"⟩ none
    obtain ⟨hcircle, hmessage⟩ :=
      hsound _ hcycle (not_isCompilerReport standard menuFiles _ _)
    obtain ⟨failure, hfailure, -⟩ := hcomplete (.inl hcircle.exists_transGen)
    refine ⟨hcircle, ⟨failure, hfailure, ?_⟩, ?_⟩
    · rw [Except.error.inj (hfailure.symm.trans hcycle), hmessage]
      rfl
    · -- the same menu as a place that leads back to itself, however its path is written
      obtain ⟨first, again, hreach, hround, hsame⟩ := hcircle.exists_transGen
      have hplace : Relation.TransGen (standard.PlaceImports menuFiles) first.components
          again.components :=
        hround.lift Path.components fun _ _ himport => himport.placeImports
      rw [show again.components = first.components from hsame] at hplace
      obtain ⟨failure, -, hloads⟩ := hcomplete (.inr ⟨standard.compilers.ignoreSpelling,
        first.components, hreach.lift Path.components fun _ _ himport => himport.placeImports,
        hplace⟩)
      exact ⟨failure, hloads⟩
  · obtain ⟨visits, hvisits, hfiles⟩ := Outcome.map_eq_ok_iff.1 hload
    refine ⟨visits, hvisits, hfiles, ?_⟩
    intro circle hcycle
    exact not_isCompilerReport standard menuFiles _ circle
      ((loadFile_importCycle standard menuFiles ⟨"/v/page.html"⟩ none).2.2
        (fun file again => not_same_of_loadFile hvisits) circle hcycle)

/-- A page that imports itself. -/
def mirrorFiles : FileTree :=
  .ofList [(⟨"/v/mirror.html"⟩, "<import: src=\"./mirror\">")]

/-- A compiler that calls every file a cycle. -/
def cycleReporter : CompilerFunction :=
  fun _ _ => .error (.importCycle [⟨"x"⟩])

/-- A cycle that a compiler reports need not be a circle of imports.  The last path of one that is
need not be written like the first one. -/
theorem not_forall_loadFile_importCycle :
    (¬∀ (settings : Settings CompilerFunction) (files : FileTree) (start : Path)
      (scope : Option String) (circle : List Path),
      settings.loadFile files start scope = .error (.importCycle circle) →
        settings.IsImportCircle files start circle) ∧
    ¬∀ (settings : Settings Compiler) (files : FileTree) (start : Path) (scope : Option String)
      (circle : List Path),
      settings.loadFile files start scope = .error (.importCycle circle) →
        circle.getLast? = circle.head? := by
  constructor
  · intro h
    have hreport := h ((standard CompilerFunction).addCompiler ".html" cycleReporter) mirrorFiles
      ⟨"/v/mirror.html"⟩ none [⟨"x"⟩] (by decide +kernel)
    obtain ⟨first, inner, last, hcircle, -⟩ := hreport
    simpa using congrArg List.length hcircle
  · intro h
    have hends := h standard mirrorFiles ⟨"/v/./mirror.html"⟩ none
      [⟨"/v/./mirror.html"⟩, ⟨"/v/mirror.html"⟩] (by decide +kernel)
    exact absurd hends (by decide)

end ViewBundle.Settings
