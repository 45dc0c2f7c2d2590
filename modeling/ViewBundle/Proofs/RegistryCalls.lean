import Mathlib.Data.List.Dedup
import Mathlib.Data.List.Induction
import ViewBundle.RegistryModule

/-!
# Calls on a registry

A registry is filled, asked for templates and written as a module in any order, and a call that
fails does not end the run.  One lemma says what a call that registers nothing leaves: the views
whose sources it has read, with the templates that this gave, and all others as they were
(`views_perform`).  What a whole run leaves is then decided by its last registration of each name
and by what has been read since.  Main statement: `views_run`.
-/

namespace ViewBundle

namespace RegisteredView

/-- The view once its source has been read: it has a template if the source is one. -/
def afterReading (view : RegisteredView) : RegisteredView :=
  { view with template := view.parse.toOption }

/-- The view as it is left where the sources of some views have been read. -/
def settled (view : RegisteredView) (read : List RegisteredView) : RegisteredView :=
  if view ∈ read then view.afterReading else view

@[simp] theorem name_settled (view : RegisteredView) (read : List RegisteredView) :
    (view.settled read).name = view.name := by
  unfold settled
  split <;> rfl

@[simp] theorem source_settled (view : RegisteredView) (read : List RegisteredView) :
    (view.settled read).source = view.source := by
  unfold settled
  split <;> rfl

@[simp] theorem options_settled (view : RegisteredView) (read : List RegisteredView) :
    (view.settled read).options = view.options := by
  unfold settled
  split <;> rfl

theorem settled_of_mem {view : RegisteredView} {read : List RegisteredView} (h : view ∈ read) :
    view.settled read = view.afterReading :=
  if_pos h

theorem settled_of_notMem {view : RegisteredView} {read : List RegisteredView}
    (h : view ∉ read) : view.settled read = view :=
  if_neg h

@[simp] theorem parse_settled (view : RegisteredView) (read : List RegisteredView) :
    (view.settled read).parse = view.parse := by
  simp [parse]

theorem template_afterReading_eq_some_iff {view : RegisteredView} {template : Template} :
    view.afterReading.template = some template ↔ view.parse = .ok template := by
  unfold afterReading
  cases view.parse <;> simp [Except.toOption]

theorem settled_cons_of_ne {view first : RegisteredView} (read : List RegisteredView)
    (h : view ≠ first) : view.settled (first :: read) = view.settled read := by
  simp [settled, h]

end RegisteredView

namespace Registry

/-- A call on a registry. -/
inductive Call where
  /-- Registers a view. -/
  | register (name source : String) (options : Markup.Attributes)
  /-- Asks for the template of a view. -/
  | ensure (name : String)
  /-- Writes the module of the registry. -/
  | serialize (style : ModuleStyle)
  deriving DecidableEq

namespace Call

/-- The name that a call registers, if it registers one. -/
def registeredName? : Call → Option String
  | register name _ _ => some name
  | _ => none

/-- The names that calls register, in order. -/
def registeredNames (calls : List Call) : List String :=
  calls.filterMap registeredName?

theorem registeredName?_eq_none_or (call : Call) :
    call.registeredName? = none ∨
      ∃ name source options, call = register name source options := by
  cases call with
  | register name source options => exact .inr ⟨name, source, options, rfl⟩
  | ensure name => exact .inl rfl
  | serialize style => exact .inl rfl

theorem registeredNames_concat_of_none {call : Call} (h : call.registeredName? = none)
    (calls : List Call) : registeredNames (calls ++ [call]) = registeredNames calls := by
  simp [registeredNames, h]

theorem registeredNames_concat_register (calls : List Call) (name source : String)
    (options : Markup.Attributes) :
    registeredNames (calls ++ [register name source options]) =
      registeredNames calls ++ [name] := by
  simp [registeredNames, registeredName?]

end Call

/-- What a call answers. -/
inductive Answer where
  | registered
  | template (template : Option (Except Failure Template))
  | module (text : Except Failure String)
  deriving DecidableEq

/-- Makes a call. -/
def perform (registry : Registry) : Call → Step Answer
  | .register name source options => ⟨.registered, registry.register name source options, []⟩
  | .ensure name =>
    let step := registry.ensure name
    { step with answer := .template step.answer }
  | .serialize style =>
    let step := registry.serialize style
    { step with answer := .module step.answer }

/-- The registry that calls leave when they are made in order. -/
def run (registry : Registry) (calls : List Call) : Registry :=
  calls.foldl (fun registry call => (registry.perform call).registry) registry

/-! ## What calls read -/

/-- The views whose sources are read where the templates of views are wanted one after the other:
those without a template, up to the first one whose source is none. -/
def readBy : List RegisteredView → List RegisteredView
  | [] => []
  | view :: more =>
    match view.template, view.parse with
    | some _, _ => readBy more
    | none, .ok _ => view :: readBy more
    | none, .error _ => [view]

/-- The views whose templates a call wants, in order. -/
def wanted (registry : Registry) : Call → List RegisteredView
  | .register _ _ _ => []
  | .ensure name => (registry.get? name).toList
  | .serialize _ => registry.views

/-- The views whose sources a call reads, in order. -/
def reads (registry : Registry) (call : Call) : List RegisteredView :=
  readBy (registry.wanted call)

/-- The views whose sources calls read when they are made in order. -/
def readsOf (registry : Registry) : List Call → List RegisteredView
  | [] => []
  | call :: more => registry.reads call ++ (registry.perform call).registry.readsOf more

theorem readBy_sublist (views : List RegisteredView) :
    (readBy views).Sublist (views.filter (·.template.isNone)) := by
  induction views with
  | nil => exact .slnil
  | cons view more ih =>
    cases htemplate : view.template with
    | some template => simpa [readBy, htemplate] using ih
    | none =>
      cases hparse : view.parse with
      | error failure => simp [readBy, htemplate, hparse]
      | ok template => simpa [readBy, htemplate, hparse] using ih

theorem mem_of_mem_readBy {view : RegisteredView} {views : List RegisteredView}
    (h : view ∈ readBy views) : view ∈ views ∧ view.template = none := by
  simpa using (readBy_sublist views).subset h

theorem reads_register (registry : Registry) (name source : String)
    (options : Markup.Attributes) : registry.reads (.register name source options) = [] := rfl

theorem reads_sublist (registry : Registry) (call : Call) :
    (registry.reads call).Sublist registry.views := by
  refine ((readBy_sublist _).trans List.filter_sublist).trans ?_
  cases call with
  | register name source options => exact List.nil_sublist _
  | serialize style => exact .refl _
  | ensure name =>
    show (registry.get? name).toList.Sublist registry.views
    cases hfound : registry.get? name with
    | none => exact List.nil_sublist _
    | some view => exact List.singleton_sublist.2 (List.mem_of_find?_eq_some hfound)

theorem mem_of_mem_reads {registry : Registry} {call : Call} {view : RegisteredView}
    (h : view ∈ registry.reads call) : view ∈ registry.views ∧ view.template = none :=
  ⟨(registry.reads_sublist call).subset h, (mem_of_mem_readBy h).2⟩

theorem readings_compileViews (views : List RegisteredView) :
    (compileViews views).2.2 = (readBy views).map RegisteredView.parse := by
  induction views with
  | nil => rfl
  | cons view more ih =>
    cases htemplate : view.template with
    | some template => simp [compileViews, readBy, RegisteredView.ensure, htemplate, ih]
    | none =>
      cases hparse : view.parse with
      | error failure => simp [compileViews, readBy, RegisteredView.ensure, htemplate, hparse]
      | ok template => simp [compileViews, readBy, RegisteredView.ensure, htemplate, hparse, ih]

/-- The results of the readings that a call takes are those of the views that it reads. -/
theorem readings_perform (registry : Registry) (call : Call) :
    (registry.perform call).readings = (registry.reads call).map RegisteredView.parse := by
  cases call with
  | register name source options => rfl
  | serialize style => exact readings_compileViews registry.views
  | ensure name =>
    show (registry.ensure name).readings = (readBy (registry.get? name).toList).map _
    unfold ensure
    cases registry.get? name with
    | none => rfl
    | some view =>
      cases htemplate : view.template with
      | some template => simp [readBy, RegisteredView.ensure, htemplate]
      | none =>
        cases hparse : view.parse <;> simp [readBy, RegisteredView.ensure, htemplate, hparse]

/-! ## What calls leave -/

theorem views_compileViews {views : List RegisteredView} (hnodup : views.Nodup) :
    (compileViews views).2.1 = views.map (·.settled (readBy views)) := by
  induction views with
  | nil => rfl
  | cons view more ih =>
    obtain ⟨hview, hmore⟩ := List.nodup_cons.1 hnodup
    have hlater (read : List RegisteredView) :
        more.map (·.settled (view :: read)) = more.map (·.settled read) :=
      List.map_congr_left fun later hlater =>
        later.settled_cons_of_ne read fun heq => hview (heq ▸ hlater)
    cases htemplate : view.template with
    | some template =>
      have hkept : { view with template := some template } = view := by rw [← htemplate]
      have hread : readBy (view :: more) = readBy more := by simp [readBy, htemplate]
      rw [hread, List.map_cons, ← ih hmore, RegisteredView.settled_of_notMem]
      · simp [compileViews, RegisteredView.ensure, htemplate, hkept]
      · intro hmem
        exact hview (mem_of_mem_readBy hmem).1
    | none =>
      cases hparse : view.parse with
      | error failure =>
        have hread : readBy (view :: more) = [view] := by simp [readBy, htemplate, hparse]
        have hsettled : view.settled [view] = view := by
          rw [RegisteredView.settled_of_mem (by simp), RegisteredView.afterReading, hparse]
          show { view with template := none } = view
          rw [← htemplate]
        rw [hread, List.map_cons, hlater, hsettled]
        simp [compileViews, RegisteredView.ensure, RegisteredView.settled, htemplate, hparse]
      | ok template =>
        have hread : readBy (view :: more) = view :: readBy more := by
          simp [readBy, htemplate, hparse]
        rw [hread, List.map_cons, hlater, ← ih hmore, RegisteredView.settled_of_mem (by simp),
          RegisteredView.afterReading, hparse]
        simp [compileViews, RegisteredView.ensure, htemplate, hparse, Except.toOption]

theorem nodup_views {registry : Registry} (h : registry.names.Nodup) : registry.views.Nodup :=
  List.Nodup.of_map _ h

/-- In a registry that has each name once, a name stands for one view. -/
theorem eq_of_name_eq {registry : Registry} (hnodup : registry.names.Nodup)
    {view other : RegisteredView} (hview : view ∈ registry.views) (hother : other ∈ registry.views)
    (h : view.name = other.name) : view = other :=
  List.inj_on_of_nodup_map hnodup hview hother h

theorem settled_readBy_singleton (view : RegisteredView) :
    { view with template := view.ensure.1.toOption } = view.settled (readBy [view]) := by
  cases htemplate : view.template with
  | some template =>
    have hread : readBy [view] = [] := by simp [readBy, htemplate]
    rw [hread, RegisteredView.settled_of_notMem (by simp), RegisteredView.ensure, htemplate]
    show { view with template := some template } = view
    rw [← htemplate]
  | none =>
    have hread : readBy [view] = [view] := by
      cases hparse : view.parse <;> simp [readBy, htemplate, hparse]
    rw [hread, RegisteredView.settled_of_mem (by simp), RegisteredView.ensure, htemplate]
    rfl

/-- A call that registers nothing leaves every view where it is, and as it is if its source has not
been read. -/
theorem views_perform {registry : Registry} (hnodup : registry.names.Nodup) {call : Call}
    (hcall : call.registeredName? = none) :
    (registry.perform call).registry.views =
      registry.views.map (·.settled (registry.reads call)) := by
  cases call with
  | register name source options => cases hcall
  | serialize style => exact views_compileViews (nodup_views hnodup)
  | ensure name =>
    show (registry.ensure name).registry.views =
      registry.views.map (·.settled (readBy (registry.get? name).toList))
    unfold ensure
    cases hfound : registry.get? name with
    | none => simp [readBy, RegisteredView.settled]
    | some view =>
      obtain rfl : view.name = name := by simpa using List.find?_some hfound
      have hview : view ∈ registry.views := List.mem_of_find?_eq_some hfound
      refine List.map_congr_left fun other hother => ?_
      by_cases hname : other.name = view.name
      · obtain rfl := eq_of_name_eq hnodup hother hview hname
        rw [if_pos rfl]
        exact settled_readBy_singleton other
      · rw [if_neg hname, RegisteredView.settled_of_notMem]
        intro hmem
        have hsame := (mem_of_mem_readBy hmem).1
        exact hname (congrArg RegisteredView.name (List.mem_singleton.1 hsame))

theorem names_perform {registry : Registry} (hnodup : registry.names.Nodup) {call : Call}
    (hcall : call.registeredName? = none) :
    (registry.perform call).registry.names = registry.names := by
  unfold names
  rw [views_perform hnodup hcall, List.map_map]
  exact List.map_congr_left fun view _ => view.name_settled _

theorem names_register (registry : Registry) (name source : String)
    (options : Markup.Attributes) :
    (registry.register name source options).names = registry.names.filter (· ≠ name) ++ [name] := by
  unfold names register
  rw [List.map_append, List.filter_map]
  rfl

/-! ## Runs -/

theorem run_concat (registry : Registry) (calls : List Call) (call : Call) :
    registry.run (calls ++ [call]) = ((registry.run calls).perform call).registry :=
  List.foldl_concat _ _ _ _

theorem run_append (registry : Registry) (calls more : List Call) :
    registry.run (calls ++ more) = (registry.run calls).run more :=
  List.foldl_append

theorem readsOf_concat (registry : Registry) (calls : List Call) (call : Call) :
    registry.readsOf (calls ++ [call]) =
      registry.readsOf calls ++ (registry.run calls).reads call := by
  induction calls generalizing registry with
  | nil => simp [readsOf, run]
  | cons first more ih =>
    rw [List.cons_append, readsOf, ih, ← List.append_assoc]
    rfl

theorem dedup_concat (names : List String) (name : String) :
    (names ++ [name]).dedup = names.dedup.filter (· ≠ name) ++ [name] := by
  induction names with
  | nil => rfl
  | cons first names ih =>
    rw [List.cons_append, List.dedup_cons, List.dedup_cons, ih]
    by_cases hfirst : first ∈ names
    · rw [if_pos hfirst, if_pos (List.mem_append_left _ hfirst)]
    · rw [if_neg hfirst]
      by_cases hname : first = name
      · simp [hname]
      · simp [hfirst, hname]

theorem mem_register_iff {registry : Registry} {name source : String}
    {options : Markup.Attributes} {view : RegisteredView} :
    view ∈ (registry.register name source options).views ↔
      view ∈ registry.views ∧ view.name ≠ name ∨ view = ⟨name, source, options, none⟩ := by
  simp [register]

/-- The names of a registry are the names that have been registered, each at the place of its last
registration. -/
theorem names_run (calls : List Call) :
    (empty.run calls).names = (Call.registeredNames calls).dedup := by
  induction calls using List.reverseRecOn with
  | nil => rfl
  | append_singleton calls call ih =>
    rw [run_concat]
    rcases call.registeredName?_eq_none_or with hcall | ⟨name, source, options, rfl⟩
    · rw [Call.registeredNames_concat_of_none hcall,
        names_perform (ih ▸ List.nodup_dedup _) hcall, ih]
    · rw [Call.registeredNames_concat_register, dedup_concat, ← ih]
      exact names_register _ name source options

theorem nodup_names_run (calls : List Call) : (empty.run calls).names.Nodup :=
  names_run calls ▸ List.nodup_dedup _

/-- A template that a registry keeps is the one that the view's source is written for. -/
theorem parse_of_template {calls : List Call} {view : RegisteredView} {template : Template}
    (hview : view ∈ (empty.run calls).views) (h : view.template = some template) :
    view.parse = .ok template := by
  induction calls using List.reverseRecOn generalizing view with
  | nil => simp [run, empty] at hview
  | append_singleton calls call ih =>
    rw [run_concat] at hview
    rcases call.registeredName?_eq_none_or with hcall | ⟨name, source, options, rfl⟩
    · rw [views_perform (nodup_names_run calls) hcall] at hview
      obtain ⟨earlier, hearlier, rfl⟩ := List.mem_map.1 hview
      rw [RegisteredView.parse_settled]
      by_cases hread : earlier ∈ (empty.run calls).reads call
      · rw [RegisteredView.settled_of_mem hread] at h
        exact RegisteredView.template_afterReading_eq_some_iff.1 h
      · rw [RegisteredView.settled_of_notMem hread] at h
        exact ih hearlier h
    · rcases mem_register_iff.1 hview with ⟨hearlier, -⟩ | rfl
      · exact ih hearlier h
      · cases h

/-! ## The views of a run -/

/-- Among calls, the last registration of a view's name gives the view its source and its options.
The view has a template if and only if its source has been read as that template since. -/
def IsLeftBy (view : RegisteredView) (calls : List Call) : Prop :=
  ∃ before after,
    calls = before ++ .register view.name view.source view.options :: after ∧
    view.name ∉ Call.registeredNames after ∧
    ∀ template, view.template = some template ↔
      ∃ read ∈ (empty.run
          (before ++ [.register view.name view.source view.options])).readsOf after,
        read.name = view.name ∧ read.parse = .ok template

theorem isLeftBy_registered (calls : List Call) (name source : String)
    (options : Markup.Attributes) :
    IsLeftBy ⟨name, source, options, none⟩ (calls ++ [.register name source options]) :=
  ⟨calls, [], rfl, List.not_mem_nil, by simp [readsOf]⟩

/-- A later registration of another name does not touch the view. -/
theorem IsLeftBy.register {view : RegisteredView} {calls : List Call} (h : IsLeftBy view calls)
    {name : String} (hname : view.name ≠ name) (source : String) (options : Markup.Attributes) :
    IsLeftBy view (calls ++ [.register name source options]) := by
  obtain ⟨before, after, rfl, hlast, htemplate⟩ := h
  refine ⟨before, after ++ [.register name source options], by simp, ?_, ?_⟩
  · rw [Call.registeredNames_concat_register, List.mem_append, List.mem_singleton, not_or]
    exact ⟨hlast, hname⟩
  · intro template
    rw [htemplate, readsOf_concat]
    exact Iff.of_eq (by rw [reads_register, List.append_nil])

/-- A later call that registers nothing settles the view. -/
theorem IsLeftBy.settled {view : RegisteredView} {calls : List Call} (h : IsLeftBy view calls)
    (hview : view ∈ (empty.run calls).views) {call : Call}
    (hcall : call.registeredName? = none) :
    IsLeftBy (view.settled ((empty.run calls).reads call)) (calls ++ [call]) := by
  have hreads {read : RegisteredView} (hread : read ∈ (empty.run calls).reads call)
      (hname : read.name = view.name) : read = view ∧ view.template = none := by
    obtain ⟨hmem, hnone⟩ := mem_of_mem_reads hread
    obtain rfl := eq_of_name_eq (nodup_names_run calls) hmem hview hname
    exact ⟨rfl, hnone⟩
  obtain ⟨before, after, hcalls, hlast, htemplate⟩ := h
  refine ⟨before, after ++ [call], ?_, ?_, ?_⟩
  · rw [RegisteredView.name_settled, RegisteredView.source_settled,
      RegisteredView.options_settled, hcalls]
    simp
  · rwa [RegisteredView.name_settled, Call.registeredNames_concat_of_none hcall]
  · intro template
    have hsince : (empty.run (before ++
        [.register view.name view.source view.options])).run after = empty.run calls := by
      rw [hcalls, ← run_append]
      simp
    simp only [RegisteredView.name_settled, RegisteredView.source_settled,
      RegisteredView.options_settled, readsOf_concat, hsince, List.mem_append, or_and_right,
      exists_or, ← htemplate]
    by_cases hread : view ∈ (empty.run calls).reads call
    · rw [RegisteredView.settled_of_mem hread, RegisteredView.template_afterReading_eq_some_iff,
        (hreads hread rfl).2]
      constructor
      · intro hparse
        exact .inr ⟨view, hread, rfl, hparse⟩
      · rintro (h | ⟨read, hmem, hname, hparse⟩)
        · cases h
        · rwa [← (hreads hmem hname).1]
    · rw [RegisteredView.settled_of_notMem hread, iff_self_or]
      rintro ⟨read, hmem, hname, -⟩
      exact absurd ((hreads hmem hname).1 ▸ hmem) hread

theorem isLeftBy_of_mem_run {calls : List Call} {view : RegisteredView}
    (h : view ∈ (empty.run calls).views) : IsLeftBy view calls := by
  induction calls using List.reverseRecOn generalizing view with
  | nil => simp [run, empty] at h
  | append_singleton calls call ih =>
    rw [run_concat] at h
    rcases call.registeredName?_eq_none_or with hcall | ⟨name, source, options, rfl⟩
    · rw [views_perform (nodup_names_run calls) hcall] at h
      obtain ⟨earlier, hearlier, rfl⟩ := List.mem_map.1 h
      exact (ih hearlier).settled hearlier hcall
    · rcases mem_register_iff.1 h with ⟨hearlier, hname⟩ | rfl
      · exact (ih hearlier).register hname source options
      · exact isLeftBy_registered calls name source options

/-- A registry that calls have filled has each name once, at the place of its last registration.
Each view has the source and the options of that registration, and a template if and only if its
source has been read with success since, which is the template that the source is written for.  The
readings that any further call takes are those of the views that it is said to read. -/
theorem views_run (calls : List Call) :
    (empty.run calls).names.Nodup ∧
      (empty.run calls).names = (Call.registeredNames calls).dedup ∧
      (∀ view ∈ (empty.run calls).views, IsLeftBy view calls ∧
        ∀ template, view.template = some template → view.parse = .ok template) ∧
      ∀ call, ((empty.run calls).perform call).readings =
        ((empty.run calls).reads call).map RegisteredView.parse := by
  refine ⟨nodup_names_run calls, names_run calls, ?_, readings_perform (empty.run calls)⟩
  intro view hview
  exact ⟨isLeftBy_of_mem_run hview, fun _ htemplate => parse_of_template hview htemplate⟩

/-- The style of a module with sources, for the runtime that is used where nothing is said. -/
def fullStyle : ModuleStyle := ⟨false, "derby-templates"⟩

/-- A registry that cannot be written because of one of its views, which is mended, while another
one that has been read meanwhile is replaced. -/
def mended : List Call :=
  [.register "Body" "\x7b\x7bname\x7d\x7d" .empty, .register "Foot" "\x7b\x7b" .empty,
    .serialize fullStyle, .register "Foot" "f" .empty, .ensure "Foot",
    .register "Body" "b" .empty]

theorem views_run_mended :
    (empty.run mended).names = ["Foot", "Body"] ∧
      ⟨"Foot", "f", .empty, some ⟨[.text "f"]⟩⟩ ∈ (empty.run mended).views ∧
      IsLeftBy ⟨"Foot", "f", .empty, some ⟨[.text "f"]⟩⟩ mended ∧
      RegisteredView.parse ⟨"Foot", "f", .empty, some ⟨[.text "f"]⟩⟩ = .ok ⟨[.text "f"]⟩ ∧
      ⟨"Body", "b", .empty, none⟩ ∈ (empty.run mended).views ∧
      IsLeftBy ⟨"Body", "b", .empty, none⟩ mended := by
  obtain ⟨-, hnames, hviews, -⟩ := views_run mended
  have hfoot : ⟨"Foot", "f", .empty, some ⟨[.text "f"]⟩⟩ ∈ (empty.run mended).views := by
    decide +kernel
  have hbody : ⟨"Body", "b", .empty, none⟩ ∈ (empty.run mended).views := by decide +kernel
  exact ⟨hnames.trans (by decide), hfoot, (hviews _ hfoot).1, (hviews _ hfoot).2 _ rfl, hbody,
    (hviews _ hbody).1⟩

end Registry

end ViewBundle
