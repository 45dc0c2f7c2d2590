import Mathlib.Data.Finset.Card
import ViewBundle.FileTree
import ViewBundle.Proofs.Loading
import ViewBundle.Proofs.RegistryModule

/-!
# The outcome of a run

Of several views of one name only the last one survives, at its own place (`mem_surviving_iff`).
The registry of a run holds the survivors in their order (`views_ofViews`), and only their sources
are ever read as templates (`serialize_ofViews`).  So a run fails as its loads do, else as the first
survivor whose source is no template, else for want of a name to expose the bundle under.  Main
statement: `compile_outcome`.
-/

namespace ViewBundle

/-! ## The views that survive -/

/-- The views that no later view of their name replaces, in their order. -/
def surviving : List View → List View
  | [] => []
  | view :: later =>
    if view.name ∈ later.map View.name then surviving later else view :: surviving later

theorem surviving_append (before after : List View) :
    surviving (before ++ after) =
      (surviving before).filter (·.name ∉ after.map View.name) ++ surviving after := by
  induction before with
  | nil => rfl
  | cons view before ih =>
    rw [List.cons_append, surviving, surviving, List.map_append, ih]
    by_cases hbefore : view.name ∈ before.map View.name
    · rw [if_pos hbefore, if_pos (List.mem_append_left _ hbefore)]
    · by_cases hafter : view.name ∈ after.map View.name
      · rw [if_neg hbefore, if_pos (List.mem_append_right _ hafter),
          List.filter_cons_of_neg (by simpa using hafter)]
      · rw [if_neg hbefore, if_neg (by rw [List.mem_append, not_or]; exact ⟨hbefore, hafter⟩),
          List.filter_cons_of_pos (by simpa using hafter), List.cons_append]

/-- A view survives if and only if no view of its name stands behind it. -/
theorem mem_surviving_iff {view : View} {views : List View} :
    view ∈ surviving views ↔
      ∃ before after, views = before ++ view :: after ∧ view.name ∉ after.map View.name := by
  induction views with
  | nil => simp [surviving]
  | cons first later ih =>
    rw [surviving]
    constructor
    · intro h
      split at h
      · obtain ⟨before, after, rfl, hlast⟩ := ih.1 h
        exact ⟨first :: before, after, rfl, hlast⟩
      · next hfirst =>
        rcases List.mem_cons.1 h with rfl | h
        · exact ⟨[], later, rfl, hfirst⟩
        · obtain ⟨before, after, rfl, hlast⟩ := ih.1 h
          exact ⟨first :: before, after, rfl, hlast⟩
    · rintro ⟨before, after, hsplit, hlast⟩
      cases before with
      | nil =>
        obtain ⟨rfl, rfl⟩ : first = view ∧ later = after := by simpa using hsplit
        rw [if_neg hlast]
        exact List.mem_cons_self
      | cons _ before =>
        obtain ⟨rfl, rfl⟩ := List.cons.inj hsplit
        have hmem := ih.2 ⟨before, after, rfl, hlast⟩
        split
        · exact hmem
        · exact List.mem_cons_of_mem _ hmem

/-- The survivors have each name once. -/
theorem map_name_surviving (views : List View) :
    (surviving views).map View.name = (views.map View.name).dedup := by
  induction views with
  | nil => rfl
  | cons view later ih =>
    rw [surviving, List.map_cons, List.dedup_cons, ← ih]
    split
    · rfl
    · rfl

/-- Views that are replaced later leave no trace. -/
theorem surviving_of_overridden (before : List View) {hidden after : List View}
    (h : ∀ view ∈ hidden, view.name ∈ after.map View.name) :
    surviving (before ++ hidden ++ after) = surviving (before ++ after) := by
  have hhidden : surviving (hidden ++ after) = surviving after := by
    induction hidden with
    | nil => rfl
    | cons view hidden ih =>
      obtain ⟨hview, hrest⟩ := List.forall_mem_cons.1 h
      rw [List.cons_append, surviving, List.map_append,
        if_pos (List.mem_append_right _ hview), ih hrest]
  have hnames (name : String) : name ∈ (hidden ++ after).map View.name ↔
      name ∈ after.map View.name := by
    rw [List.map_append, List.mem_append, or_iff_right_iff_imp]
    intro hname
    obtain ⟨view, hview, rfl⟩ := List.mem_map.1 hname
    exact h view hview
  rw [List.append_assoc, surviving_append, surviving_append before, hhidden]
  simp only [hnames]

/-! ## The registry of a run -/

namespace View

/-- A view as it is registered, without a template. -/
def registered (view : View) : RegisteredView :=
  ⟨view.name, view.source, view.options, none⟩

/-- A view as it is registered, with the template that its source is read as. -/
def compiled (view : View) : Except Failure (RegisteredView × Template) :=
  view.registered.parse.map (view.registered, ·)

theorem compiled_eq_ok_iff {view : View} {pair : RegisteredView × Template} :
    view.compiled = .ok pair ↔
      pair.1 = view.registered ∧ Template.parse view.source = .ok pair.2 := by
  unfold compiled RegisteredView.parse
  rw [Outcome.map_eq_ok_iff]
  simp only [Outcome.mapError_eq_ok_iff]
  constructor
  · rintro ⟨template, htemplate, rfl⟩
    exact ⟨rfl, htemplate⟩
  · rintro ⟨hview, htemplate⟩
    exact ⟨pair.2, htemplate, by rw [← hview]⟩

theorem exists_compiled_eq_ok_iff {view : View} :
    (∃ pair, view.compiled = .ok pair) ↔
      ∃ template, Template.parse view.source = .ok template := by
  simp only [compiled_eq_ok_iff]
  constructor
  · rintro ⟨pair, -, htemplate⟩
    exact ⟨pair.2, htemplate⟩
  · rintro ⟨template, htemplate⟩
    exact ⟨(view.registered, template), rfl, htemplate⟩

theorem compiled_eq_error_iff {view : View} {failure : Failure} :
    view.compiled = .error failure ↔
      ∃ fault, Template.parse view.source = .error fault ∧
        .template view.name fault = failure := by
  unfold compiled RegisteredView.parse
  rw [Outcome.map_eq_error_iff, Outcome.mapError_eq_error_iff]
  rfl

end View

namespace Registry

theorem views_ofViews (views : List View) :
    (ofViews views).views = (surviving views).map View.registered := by
  induction views using List.reverseRecOn with
  | nil => rfl
  | append_singleton views view ih =>
    have hstep : ofViews (views ++ [view]) =
        (ofViews views).register view.name view.source view.options := by
      unfold ofViews
      rw [List.foldl_append]
      rfl
    have hlast : (surviving views).filter (·.name ∉ [view].map View.name) =
        (surviving views).filter ((·.name ≠ view.name) ∘ View.registered) :=
      List.filter_congr fun earlier _ => decide_eq_decide.2 (by simp [View.registered])
    rw [hstep, register, ih, surviving_append, hlast, List.map_append, List.filter_map]
    rfl

/-- A registry holds as many views as there are names. -/
theorem size_ofViews (views : List View) :
    (ofViews views).size = (views.map View.name).toFinset.card := by
  rw [size, views_ofViews, List.length_map, List.card_toFinset, ← map_name_surviving,
    List.length_map]

theorem compileViews_eq_mapM (views : List RegisteredView) :
    (compileViews views).1 = views.mapM fun view => view.ensure.1.map (view, ·) := by
  induction views with
  | nil => rfl
  | cons view more ih =>
    rw [compileViews, List.mapM_cons, ← ih]
    rcases view.ensure with ⟨failure | template, readings⟩
    · rfl
    · rcases compileViews more with ⟨failure | compiled, left, later⟩
      · rfl
      · rfl

/-- The module of views is that of the survivors and their templates. -/
theorem serialize_ofViews (views : List View) (style : ModuleStyle) :
    ((ofViews views).serialize style).answer =
      ((surviving views).mapM View.compiled).map (moduleText style) := by
  show (compileViews (ofViews views).views).1.map (moduleText style) = _
  rw [compileViews_eq_mapM, views_ofViews, List.mapM_map]
  rfl

theorem serialize_ofViews_eq_ok_iff {views : List View} {style : ModuleStyle} {source : String} :
    ((ofViews views).serialize style).answer = .ok source ↔
      ∃ compiled, List.Forall₂ (fun view pair => pair.1 = view.registered ∧
          Template.parse view.source = .ok pair.2) (surviving views) compiled ∧
        moduleText style compiled = source := by
  rw [serialize_ofViews, Outcome.map_eq_ok_iff]
  simp only [Outcome.mapM_eq_ok_iff, View.compiled_eq_ok_iff]

theorem exists_serialize_ofViews_eq_ok_iff {views : List View} {style : ModuleStyle} :
    (∃ source, ((ofViews views).serialize style).answer = .ok source) ↔
      ∀ view ∈ surviving views, ∃ template, Template.parse view.source = .ok template := by
  simp only [← View.exists_compiled_eq_ok_iff]
  rw [← Outcome.exists_mapM_eq_ok_iff, serialize_ofViews]
  cases (surviving views).mapM View.compiled <;> simp [Except.map]

/-- A module fails to be written because of the first survivor whose source is no template. -/
theorem serialize_ofViews_eq_error_iff {views : List View} {style : ModuleStyle}
    {failure : Failure} :
    ((ofViews views).serialize style).answer = .error failure ↔
      ∃ before view after, surviving views = before ++ view :: after ∧
        (∀ earlier ∈ before, ∃ template, Template.parse earlier.source = .ok template) ∧
        ∃ fault, Template.parse view.source = .error fault ∧
          .template view.name fault = failure := by
  rw [serialize_ofViews, Outcome.map_eq_error_iff, Outcome.mapM_eq_error_iff]
  simp only [View.exists_compiled_eq_ok_iff, View.compiled_eq_error_iff]

end Registry

/-! ## The steps behind the loads -/

namespace Bundle

theorem exists_artifact_eq_ok_iff {name source : String} {minify : Bool} :
    (∃ text, artifact name minify source = .ok text) ↔ name ≠ "" := by
  unfold artifact
  split <;> simp_all

theorem artifact_eq_error_iff {name : String} (minify : Bool) (source : String)
    {failure : Failure} :
    artifact name minify source = .error failure ↔ name = "" ∧ failure = .emptyModuleName := by
  unfold artifact
  split <;> simp_all [eq_comm]

end Bundle

namespace Settings

variable {κ σ : Type} [CompilerKind κ] [FileStore σ] {settings : Settings κ} {store : σ}
  {entries : List Path} {base : Path} {options : OutputOptions}

theorem compile_eq_ok_iff {compilation : Compilation} :
    settings.compile store entries base options = .ok compilation ↔
      settings.loadEntries store entries base = .ok compilation.visits ∧
      ((Registry.ofViews (compilation.visits.flatMap Visit.views)).serialize
        ⟨options.minify, options.runtimeModule⟩).answer = .ok compilation.source ∧
      Bundle.artifact options.moduleName options.minify compilation.source =
        .ok compilation.artifact ∧
      compilation.viewCount =
        ((compilation.visits.flatMap Visit.views).map View.name).toFinset.card := by
  constructor
  · intro h
    obtain ⟨visits, hvisits, h⟩ := Outcome.bind_eq_ok_iff.1 h
    obtain ⟨source, hsource, h⟩ := Outcome.bind_eq_ok_iff.1 h
    obtain ⟨artifact, hartifact, h⟩ := Outcome.bind_eq_ok_iff.1 h
    obtain rfl := Except.ok.inj h
    exact ⟨hvisits, hsource, hartifact, Registry.size_ofViews _⟩
  · rintro ⟨hvisits, hsource, hartifact, hcount⟩
    refine Outcome.bind_eq_ok_iff.2 ⟨compilation.visits, hvisits, ?_⟩
    refine Outcome.bind_eq_ok_iff.2 ⟨compilation.source, hsource, ?_⟩
    refine Outcome.bind_eq_ok_iff.2 ⟨compilation.artifact, hartifact, ?_⟩
    rw [Registry.size_ofViews, ← hcount]
    rfl

theorem compile_eq_error_iff {failure : Failure} :
    settings.compile store entries base options = .error failure ↔
      settings.loadEntries store entries base = .error failure ∨
        ∃ visits, settings.loadEntries store entries base = .ok visits ∧
          (((Registry.ofViews (visits.flatMap Visit.views)).serialize
              ⟨options.minify, options.runtimeModule⟩).answer = .error failure ∨
            ∃ source, ((Registry.ofViews (visits.flatMap Visit.views)).serialize
              ⟨options.minify, options.runtimeModule⟩).answer = .ok source ∧
              options.moduleName = "" ∧ failure = .emptyModuleName) := by
  have hdone (source : String) (visits : List Visit) (viewCount : Nat) :
      (Bundle.artifact options.moduleName options.minify source >>= fun artifact =>
        pure (Compilation.mk source artifact visits viewCount)) = .error failure ↔
        options.moduleName = "" ∧ failure = .emptyModuleName := by
    rw [← Bundle.artifact_eq_error_iff options.minify source, Outcome.bind_eq_error_iff]
    simp [pure, Except.pure]
  unfold compile
  simp only [Outcome.bind_eq_error_iff, hdone]

/-- What a run writes, apart from what it has visited. -/
theorem map_output_compile {visits : List Visit}
    (h : settings.loadEntries store entries base = .ok visits) :
    (settings.compile store entries base options).map
        (fun compilation => (compilation.source, compilation.artifact)) =
      (((surviving (visits.flatMap Visit.views)).mapM View.compiled).map
        (Registry.moduleText ⟨options.minify, options.runtimeModule⟩)) >>= fun source =>
          (Bundle.artifact options.moduleName options.minify source).map (source, ·) := by
  rw [← Registry.serialize_ofViews, compile, h]
  show Except.map _ (((Registry.ofViews (visits.flatMap Visit.views)).serialize
    ⟨options.minify, options.runtimeModule⟩).answer >>= fun source =>
      Bundle.artifact options.moduleName options.minify source >>= fun artifact =>
        pure (Compilation.mk source artifact visits _)) = _
  rw [Outcome.bind_map]
  refine congrArg _ (funext fun source => ?_)
  cases Bundle.artifact options.moduleName options.minify source <;> rfl

/-- A run succeeds if and only if its entries load, every surviving view has a template, and the
bundle has a name.  It then counts the names of the views that were loaded, and its module registers
the survivors in their order, each on a line of its own.  A run that fails does so as its loads
fail, else because of the first survivor without a template, else for want of a name.  Runs with the
same survivors write the same, and a view that is replaced later is none of them, whatever its
source. -/
theorem compile_outcome (settings : Settings κ) (store : σ) (entries : List Path) (base : Path)
    (options : OutputOptions) :
    ((∃ compilation, settings.compile store entries base options = .ok compilation) ↔
      ∃ visits, settings.loadEntries store entries base = .ok visits ∧
        (∀ view ∈ surviving (visits.flatMap Visit.views),
          ∃ template, Template.parse view.source = .ok template) ∧
        options.moduleName ≠ "") ∧
    (∀ compilation, settings.compile store entries base options = .ok compilation →
      settings.loadEntries store entries base = .ok compilation.visits ∧
      compilation.viewCount =
        ((compilation.visits.flatMap Visit.views).map View.name).toFinset.card ∧
      ∃ compiled, List.Forall₂ (fun view pair => pair.1 = view.registered ∧
          Template.parse view.source = .ok pair.2)
          (surviving (compilation.visits.flatMap Visit.views)) compiled ∧
        compilation.source =
          Registry.moduleText ⟨options.minify, options.runtimeModule⟩ compiled ∧
        ModuleContents.registerLines compilation.source =
          compiled.map (fun (view, template) => view.lineText template options.minify) ∧
        Bundle.artifact options.moduleName options.minify compilation.source =
          .ok compilation.artifact) ∧
    (∀ failure, settings.compile store entries base options = .error failure ↔
      settings.loadEntries store entries base = .error failure ∨
        ∃ visits, settings.loadEntries store entries base = .ok visits ∧
          ((∃ before view after,
              surviving (visits.flatMap Visit.views) = before ++ view :: after ∧
              (∀ earlier ∈ before, ∃ template, Template.parse earlier.source = .ok template) ∧
              ∃ fault, Template.parse view.source = .error fault ∧
                .template view.name fault = failure) ∨
            (∀ view ∈ surviving (visits.flatMap Visit.views),
              ∃ template, Template.parse view.source = .ok template) ∧
              options.moduleName = "" ∧ failure = .emptyModuleName)) ∧
    (∀ (settings' : Settings κ) (store' : σ) (entries' : List Path) (base' : Path)
        (visits visits' : List Visit),
      settings.loadEntries store entries base = .ok visits →
      settings'.loadEntries store' entries' base' = .ok visits' →
      surviving (visits.flatMap Visit.views) = surviving (visits'.flatMap Visit.views) →
      (settings.compile store entries base options).map
          (fun compilation => (compilation.source, compilation.artifact)) =
        (settings'.compile store' entries' base' options).map
          fun compilation => (compilation.source, compilation.artifact)) ∧
    ∀ before hidden after : List View, (∀ view ∈ hidden, view.name ∈ after.map View.name) →
      surviving (before ++ hidden ++ after) = surviving (before ++ after) := by
  refine ⟨?_, ?_, ?_, ?_, ?_⟩
  · constructor
    · rintro ⟨compilation, h⟩
      obtain ⟨hvisits, hsource, hartifact, -⟩ := compile_eq_ok_iff.1 h
      exact ⟨compilation.visits, hvisits,
        Registry.exists_serialize_ofViews_eq_ok_iff.1 ⟨compilation.source, hsource⟩,
        Bundle.exists_artifact_eq_ok_iff.1 ⟨compilation.artifact, hartifact⟩⟩
    · rintro ⟨visits, hvisits, hparse, hname⟩
      obtain ⟨source, hsource⟩ := Registry.exists_serialize_ofViews_eq_ok_iff.2 hparse
      obtain ⟨artifact, hartifact⟩ := Bundle.exists_artifact_eq_ok_iff.2 hname
      exact ⟨⟨source, artifact, visits, ((visits.flatMap Visit.views).map View.name).toFinset.card⟩,
        compile_eq_ok_iff.2 ⟨hvisits, hsource, hartifact, rfl⟩⟩
  · intro compilation h
    obtain ⟨hvisits, hsource, hartifact, hcount⟩ := compile_eq_ok_iff.1 h
    obtain ⟨compiled, hcompiled, hsource⟩ := Registry.serialize_ofViews_eq_ok_iff.1 hsource
    refine ⟨hvisits, hcount, compiled, hcompiled, hsource.symm, ?_, hartifact⟩
    rw [← hsource, Registry.registerLines_moduleText]
  · intro failure
    simp only [compile_eq_error_iff, Registry.serialize_ofViews_eq_error_iff, exists_and_right,
      Registry.exists_serialize_ofViews_eq_ok_iff]
  · intro settings' store' entries' base' visits visits' hvisits hvisits' hsurviving
    rw [map_output_compile hvisits, map_output_compile hvisits', hsurviving]
  · intro before hidden after h
    exact surviving_of_overridden before h

/-- A page that imports a file under no name and replaces one of its views. -/
def pageFiles (imported : String) : FileTree :=
  .ofList
    [(⟨"/v/page.html"⟩, "<import: src=\"./parts\" ns=\"\"><Body:>\x7b\x7btitle\x7d\x7d</Body:>"),
      (⟨"/v/parts.html"⟩, imported)]

/-- The views that a page with a text of its own holds. -/
def pageViews : List View :=
  [⟨"Foot", "f", .empty, ⟨"/v/parts.html"⟩⟩,
    ⟨"Body", "\x7b\x7btitle\x7d\x7d", .empty, ⟨"/v/page.html"⟩⟩]

/-- A body that is no template, and is replaced by another one, is not missed where it is left
out. -/
theorem compile_outcome_pageFiles :
    ∃ compilation,
      standard.compile (pageFiles "<Body:>\x7b\x7b<Foot:>f</Foot:>") [⟨"page"⟩] ⟨"/v"⟩ .standard =
        .ok compilation ∧
      compilation.viewCount = 2 ∧
      (standard.compile (pageFiles "<Foot:>f</Foot:>") [⟨"page"⟩] ⟨"/v"⟩ .standard).map
          (fun plain => (plain.source, plain.artifact)) =
        .ok (compilation.source, compilation.artifact) := by
  have hload : (standard.loadEntries (pageFiles "<Body:>\x7b\x7b<Foot:>f</Foot:>") [⟨"page"⟩]
      ⟨"/v"⟩).map (·.flatMap Visit.views) =
        .ok (⟨"Body", "\x7b\x7b", .empty, ⟨"/v/parts.html"⟩⟩ :: pageViews) := by
    decide +kernel
  have hplain : (standard.loadEntries (pageFiles "<Foot:>f</Foot:>") [⟨"page"⟩] ⟨"/v"⟩).map
      (·.flatMap Visit.views) = .ok pageViews := by
    decide +kernel
  obtain ⟨visits, hvisits, hviews⟩ := Outcome.map_eq_ok_iff.1 hload
  obtain ⟨visits', hvisits', hviews'⟩ := Outcome.map_eq_ok_iff.1 hplain
  obtain ⟨hsuccess, hwritten, -, hsurvivors, hhidden⟩ := compile_outcome standard
    (pageFiles "<Body:>\x7b\x7b<Foot:>f</Foot:>") [⟨"page"⟩] ⟨"/v"⟩ .standard
  have hsurviving : surviving (visits.flatMap Visit.views) =
      surviving (visits'.flatMap Visit.views) := by
    rw [hviews, hviews']
    exact hhidden [] [⟨"Body", "\x7b\x7b", .empty, ⟨"/v/parts.html"⟩⟩] pageViews (by decide)
  have hparse : ∀ view ∈ surviving pageViews,
      ∃ template, Template.parse view.source = .ok template :=
    Outcome.exists_mapM_eq_ok_iff.1
      ⟨[⟨[.text "f"]⟩, ⟨[.value ["title"] false]⟩], by decide +kernel⟩
  rw [← hviews', ← hsurviving] at hparse
  obtain ⟨compilation, hcompile⟩ := hsuccess.2 ⟨visits, hvisits, hparse, by decide⟩
  refine ⟨compilation, hcompile, ?_, ?_⟩
  · obtain ⟨hkept, hcount, -⟩ := hwritten compilation hcompile
    obtain rfl := Except.ok.inj (hvisits.symm.trans hkept)
    rw [hcount, hviews]
    decide
  · rw [← hsurvivors standard (pageFiles "<Foot:>f</Foot:>") [⟨"page"⟩] ⟨"/v"⟩ visits visits'
      hvisits hvisits' hsurviving, hcompile]
    rfl

end Settings

end ViewBundle
