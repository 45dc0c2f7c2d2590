import ViewBundle.Proofs.CompileOutcome
import ViewBundle.Proofs.RegistryCalls

/-!
# Templates are kept

A template is read from its source when it is first needed and kept from then on.  Nobody can tell
from what calls answer: they answer as if nothing had been read before (`answer_perform_forget`),
since a kept template is the one that its source is written for.  What does tell is the number of
readings.  Each successful one uses up a view without a template, and only a registration brings a
new one (`successes_readsOf_le`).  Main statement: `run_memoized`.
-/

namespace ViewBundle

namespace RegisteredView

/-- The view without its template. -/
def forgotten (view : RegisteredView) : RegisteredView :=
  { view with template := none }

theorem forgotten_settled (view : RegisteredView) (read : List RegisteredView) :
    (view.settled read).forgotten = view.forgotten := by
  simp [forgotten]

theorem ensure_forgotten (view : RegisteredView) : view.forgotten.ensure.1 = view.parse := rfl

/-- What is kept for a view is what its source is read as. -/
def IsSound (view : RegisteredView) : Prop :=
  ∀ template, view.template = some template → view.parse = .ok template

theorem IsSound.ensure_eq {view : RegisteredView} (h : view.IsSound) :
    view.ensure.1 = view.parse := by
  unfold ensure
  cases htemplate : view.template with
  | none => rfl
  | some template => exact (h template htemplate).symm

end RegisteredView

namespace Registry

namespace Call

/-- The registrations among calls. -/
def registrations (calls : List Call) : List Call :=
  calls.filter (·.registeredName?.isSome)

end Call

/-- The results of the readings that calls take when they are made in order. -/
def readingsOf (registry : Registry) : List Call → List (Except Failure Template)
  | [] => []
  | call :: more =>
    (registry.perform call).readings ++ (registry.perform call).registry.readingsOf more

theorem readingsOf_eq_map (registry : Registry) (calls : List Call) :
    registry.readingsOf calls = (registry.readsOf calls).map RegisteredView.parse := by
  induction calls generalizing registry with
  | nil => rfl
  | cons call more ih => rw [readingsOf, readsOf, List.map_append, readings_perform, ih]

/-! ## What calls answer -/

/-- The registry as it were if nothing had been read. -/
def forget (registry : Registry) : Registry :=
  ⟨registry.views.map RegisteredView.forgotten⟩

theorem forget_register (registry : Registry) (name source : String)
    (options : Markup.Attributes) :
    (registry.register name source options).forget =
      registry.forget.register name source options := by
  unfold register forget
  rw [List.map_append, List.filter_map]
  rfl

theorem forget_perform {registry : Registry} (hnodup : registry.names.Nodup) {call : Call}
    (hcall : call.registeredName? = none) :
    (registry.perform call).registry.forget = registry.forget := by
  unfold forget
  rw [views_perform hnodup hcall, List.map_map]
  exact congrArg Registry.mk
    (List.map_congr_left fun view _ => view.forgotten_settled _)

/-- Registrations alone leave what all calls leave, the templates aside. -/
theorem run_registrations (calls : List Call) :
    empty.run (Call.registrations calls) = (empty.run calls).forget := by
  induction calls using List.reverseRecOn with
  | nil => rfl
  | append_singleton calls call ih =>
    rw [Call.registrations, List.filter_append, run_append, run_concat]
    rcases call.registeredName?_eq_none_or with hcall | ⟨name, source, options, rfl⟩
    · rw [forget_perform (nodup_names_run calls) hcall, ← ih]
      simp [hcall, run, Call.registrations]
    · show (empty.run (Call.registrations calls)).register name source options =
        ((empty.run calls).register name source options).forget
      rw [ih, forget_register]

theorem moduleText_map_forgotten (style : ModuleStyle)
    (views : List (RegisteredView × Template)) :
    moduleText style (views.map fun (view, template) => (view.forgotten, template)) =
      moduleText style views := by
  unfold moduleText
  rw [List.map_map]
  rfl

theorem answer_ensure (registry : Registry) (name : String) :
    (registry.ensure name).answer = (registry.get? name).map fun view => view.ensure.1 := by
  unfold ensure
  cases registry.get? name <;> rfl

theorem answer_serialize (registry : Registry) (style : ModuleStyle) :
    (registry.serialize style).answer =
      (registry.views.mapM fun view : RegisteredView => view.ensure.1.map (view, ·)).map
        (moduleText style) :=
  congrArg (Except.map (moduleText style)) (compileViews_eq_mapM registry.views)

/-- A registry in which all that is kept is sound answers every call as if nothing had been read. -/
theorem answer_perform_forget {registry : Registry}
    (hsound : ∀ view ∈ registry.views, view.IsSound) (call : Call) :
    (registry.forget.perform call).answer = (registry.perform call).answer := by
  cases call with
  | register name source options => rfl
  | ensure name =>
    have hfound : registry.forget.get? name = (registry.get? name).map .forgotten :=
      List.find?_map
    show Answer.template (registry.forget.ensure name).answer =
      Answer.template (registry.ensure name).answer
    rw [answer_ensure, answer_ensure, hfound, Option.map_map]
    refine congrArg Answer.template (Option.map_congr fun view hview => ?_)
    have hmem : view ∈ registry.views := List.mem_of_find?_eq_some hview
    exact view.ensure_forgotten.trans (hsound view hmem).ensure_eq.symm
  | serialize style =>
    have hviews : registry.forget.views.mapM
          (fun view : RegisteredView => view.ensure.1.map (view, ·)) =
        (registry.views.mapM fun view : RegisteredView => view.ensure.1.map (view, ·)).map
          (List.map fun (view, template) => (view.forgotten, template)) := by
      rw [forget, List.mapM_map]
      apply Outcome.mapM_eq_map_of_eq_map
      intro view hview
      rw [(hsound view hview).ensure_eq]
      show (view.forgotten.ensure.1.map _) = _
      rw [view.ensure_forgotten]
      cases view.parse <;> rfl
    show Answer.module (registry.forget.serialize style).answer =
      Answer.module (registry.serialize style).answer
    rw [answer_serialize, answer_serialize, hviews]
    cases registry.views.mapM fun view : RegisteredView => view.ensure.1.map (view, ·) with
    | error failure => rfl
    | ok views =>
      exact congrArg (Answer.module ∘ Except.ok) (moduleText_map_forgotten style views)

/-! ## How often sources are read -/

/-- The number of views, among those of some names, whose sources are read with success. -/
def successes (among : String → Bool) (read : List RegisteredView) : Nat :=
  read.countP fun view => view.parse.isOk && among view.name

/-- The number of views of some names that have no template. -/
def unread (among : String → Bool) (registry : Registry) : Nat :=
  registry.views.countP fun view => view.template.isNone && among view.name

theorem countP_add_countP {α : Type} {p q r : α → Bool} {xs : List α}
    (h : ∀ x ∈ xs, (p x).toNat + (q x).toNat = (r x).toNat) :
    xs.countP p + xs.countP q = xs.countP r := by
  induction xs with
  | nil => rfl
  | cons x xs ih =>
    obtain ⟨hx, hxs⟩ := List.forall_mem_cons.1 h
    have hrest := ih hxs
    simp only [List.countP_cons]
    cases hp : p x <;> cases hq : q x <;> cases hr : r x <;> simp_all <;> omega

/-- Every successful reading uses up a view without a template. -/
theorem successes_reads_add_unread (among : String → Bool) {registry : Registry}
    (hnodup : registry.names.Nodup) {call : Call} (hcall : call.registeredName? = none) :
    successes among (registry.reads call) + unread among (registry.perform call).registry =
      unread among registry := by
  have hviews := nodup_views hnodup
  have hreads : (registry.reads call).Perm
      (registry.views.filter (· ∈ registry.reads call)) := by
    have hsub := registry.reads_sublist call
    refine (List.perm_ext_iff_of_nodup (hsub.nodup hviews) (hviews.filter _)).2 fun view => ?_
    simpa using fun hread => hsub.subset hread
  unfold successes unread
  rw [views_perform hnodup hcall, hreads.countP_eq, List.countP_filter, List.countP_map]
  apply countP_add_countP
  intro view hview
  by_cases hread : view ∈ registry.reads call
  · have hnone := (mem_of_mem_reads hread).2
    cases hparse : view.parse <;>
      simp [RegisteredView.settled, RegisteredView.afterReading, hread, hnone, hparse,
        Except.isOk, Except.toBool, Except.toOption]
  · simp [RegisteredView.settled, hread]

/-- A registration brings at most one view without a template. -/
theorem unread_register_le (among : String → Bool) (registry : Registry) (name source : String)
    (options : Markup.Attributes) :
    unread among (registry.register name source options) ≤
      unread among registry + [name].countP among := by
  unfold unread register
  rw [List.countP_append, List.countP_singleton, List.countP_singleton]
  exact Nat.add_le_add List.filter_sublist.countP_le (le_of_eq (by simp))

/-- Sources are read with success at most as often as there are views without a template, before
the calls or through a registration. -/
theorem successes_readsOf_le (among : String → Bool) (before calls : List Call) :
    successes among ((empty.run before).readsOf calls) +
        unread among (empty.run (before ++ calls)) ≤
      unread among (empty.run before) + (Call.registeredNames calls).countP among := by
  induction calls using List.reverseRecOn with
  | nil => simp [successes, readsOf, Call.registeredNames]
  | append_singleton calls call ih =>
    have hsplit (read read' : List RegisteredView) :
        successes among (read ++ read') = successes among read + successes among read' :=
      List.countP_append
    rw [readsOf_concat, hsplit, ← run_append, ← List.append_assoc, run_concat]
    rcases call.registeredName?_eq_none_or with hcall | ⟨name, source, options, rfl⟩
    · have hstep := successes_reads_add_unread among (nodup_names_run (before ++ calls)) hcall
      rw [Call.registeredNames_concat_of_none hcall]
      omega
    · have hstep := unread_register_le among (empty.run (before ++ calls)) name source options
      have hnone : successes among ((empty.run (before ++ calls)).reads
          (.register name source options)) = 0 := rfl
      rw [hnone, Call.registeredNames_concat_register, List.countP_append]
      exact (Nat.add_le_add_left hstep _).trans (by omega)

theorem template_ne_none_of_compileViews {views : List RegisteredView}
    {compiled : List (RegisteredView × Template)} (h : (compileViews views).1 = .ok compiled) :
    ∀ view ∈ (compileViews views).2.1, view.template ≠ none := by
  induction views generalizing compiled with
  | nil => simp [compileViews]
  | cons view more ih =>
    rw [compileViews] at h ⊢
    split at h
    · contradiction
    · obtain ⟨later, hlater, -⟩ := Outcome.map_eq_ok_iff.1 h
      exact List.forall_mem_cons.2 ⟨Option.some_ne_none _, ih hlater⟩

/-- Where every view has its template nothing is left to read. -/
theorem readsOf_eq_nil {registry : Registry} (hnodup : registry.names.Nodup)
    (hall : ∀ view ∈ registry.views, view.template ≠ none) {calls : List Call}
    (hcalls : Call.registeredNames calls = []) : registry.readsOf calls = [] := by
  induction calls with
  | nil => rfl
  | cons call more ih =>
    obtain ⟨hcall, hmore⟩ : call.registeredName? = none ∧ Call.registeredNames more = [] := by
      simpa [Call.registeredNames] using hcalls
    have hreads : registry.reads call = [] := by
      refine List.eq_nil_iff_forall_not_mem.2 fun view hview => ?_
      obtain ⟨hmem, hnone⟩ := mem_of_mem_reads hview
      exact hall view hmem hnone
    have hviews : (registry.perform call).registry.views = registry.views := by
      simp [views_perform hnodup hcall, hreads, RegisteredView.settled]
    have hkept : (registry.perform call).registry = registry := congrArg Registry.mk hviews
    rw [readsOf, hreads, hkept, ih hmore]
    rfl

/-- A name stands for at most one view without a template. -/
theorem unread_name_le_one {registry : Registry} (hnodup : registry.names.Nodup) (name : String) :
    unread (· = name) registry ≤ 1 := by
  calc unread (· = name) registry
      ≤ registry.views.countP ((· = name) ∘ RegisteredView.name) :=
        List.countP_mono_left fun view _ h => (Bool.and_eq_true_iff.1 h).2
    _ = registry.names.countP (· = name) := List.countP_map.symm
    _ = registry.names.count name := List.countP_congr fun other _ => by simp
    _ ≤ 1 := List.nodup_iff_count_le_one.1 hnodup name

/-- While a view stays registered its source is read with success at most once. -/
theorem successes_registration_le_one {before between : List Call} {name source : String}
    {options : Markup.Attributes} (hlast : name ∉ Call.registeredNames between) :
    successes (· = name)
      ((empty.run (before ++ [.register name source options])).readsOf between) ≤ 1 := by
  have hruns := successes_readsOf_le (· = name) (before ++ [.register name source options]) between
  have hone := unread_name_le_one
    (nodup_names_run (before ++ [.register name source options])) name
  have hnone : (Call.registeredNames between).countP (· = name) = 0 := by
    rw [List.countP_eq_zero]
    intro other hother hname
    exact hlast (of_decide_eq_true hname ▸ hother)
  omega

/-- Kept templates cannot be told from what calls answer: each answers as it would where the same
registrations have been made and nothing has been read.  They can be told from the readings: while a
view stays registered its source is read with success at most once, so that successful readings
never outnumber registrations; and once a module has been written nothing is read until the next
registration. -/
theorem run_memoized (calls : List Call) :
    (∀ call, ((empty.run calls).perform call).answer =
        ((empty.run (Call.registrations calls)).perform call).answer) ∧
      (∀ view ∈ (empty.run (Call.registrations calls)).views, view.template = none) ∧
      empty.readingsOf calls = (empty.readsOf calls).map RegisteredView.parse ∧
      (∀ before name source options between after,
        calls = before ++ .register name source options :: (between ++ after) →
        name ∉ Call.registeredNames between →
        successes (· = name)
          ((empty.run (before ++ [.register name source options])).readsOf between) ≤ 1) ∧
      (empty.readingsOf calls).countP (·.isOk) ≤ (Call.registeredNames calls).length ∧
      ∀ before style between after text,
        calls = before ++ .serialize style :: (between ++ after) →
        ((empty.run before).perform (.serialize style)).answer = .module (.ok text) →
        Call.registeredNames between = [] →
        (empty.run (before ++ [.serialize style])).readingsOf between = [] := by
  refine ⟨?_, ?_, readingsOf_eq_map empty calls, ?_, ?_, ?_⟩
  · intro call
    have hsound : ∀ view ∈ (empty.run calls).views, view.IsSound :=
      fun _ hview _ => parse_of_template hview
    rw [run_registrations, answer_perform_forget hsound]
  · intro view hview
    rw [run_registrations] at hview
    obtain ⟨kept, -, rfl⟩ := List.mem_map.1 hview
    rfl
  · intro before name source options between after _ hlast
    exact successes_registration_le_one hlast
  · have hruns := successes_readsOf_le (fun _ => true) [] calls
    have hnone : unread (fun _ => true) (empty.run []) = 0 := rfl
    have hsuccesses : successes (fun _ => true) ((empty.run []).readsOf calls) =
        (empty.readingsOf calls).countP (·.isOk) := by
      rw [readingsOf_eq_map, List.countP_map]
      exact List.countP_congr fun view _ => by simp
    rw [hnone, hsuccesses, List.countP_true] at hruns
    omega
  · intro before style between after text _ hanswer hbetween
    have hserialize : ((empty.run before).serialize style).answer = .ok text :=
      Answer.module.inj hanswer
    obtain ⟨compiled, hcompiled, -⟩ := Outcome.map_eq_ok_iff.1 hserialize
    rw [readingsOf_eq_map, readsOf_eq_nil (nodup_names_run _) ?_ hbetween, List.map_nil]
    rw [run_concat]
    exact template_ne_none_of_compileViews hcompiled

/-- What is asked of the mended registry once it has been written. -/
def askedAgain : List Call :=
  [.ensure "Body", .serialize ⟨true, "other-templates"⟩, .ensure "Foot"]

/-- Nothing is read for what is asked again, and the view that was mended has been read once. -/
theorem run_memoized_mended :
    ∃ text, ((empty.run mended).perform (.serialize fullStyle)).answer = .module (.ok text) ∧
      Call.registeredNames askedAgain = [] ∧
      (empty.run (mended ++ [.serialize fullStyle])).readingsOf askedAgain = [] ∧
      "Foot" ∉ Call.registeredNames [.ensure "Foot", .register "Body" "b" .empty] ∧
      successes (· = "Foot") ((empty.run (mended.take 4)).readsOf
        [.ensure "Foot", .register "Body" "b" .empty]) ≤ 1 := by
  obtain ⟨-, -, -, honce, -, hwritten⟩ :=
    run_memoized (mended ++ .serialize fullStyle :: (askedAgain ++ []))
  have hsuccess : ((empty.run mended).serialize fullStyle).answer.isOk = true := by decide +kernel
  cases hanswer : ((empty.run mended).serialize fullStyle).answer with
  | error failure => simp [hanswer, Except.isOk, Except.toBool] at hsuccess
  | ok text =>
    have hmodule : ((empty.run mended).perform (.serialize fullStyle)).answer =
        .module (.ok text) := congrArg Answer.module hanswer
    refine ⟨text, hmodule, rfl, hwritten mended fullStyle askedAgain [] text rfl hmodule rfl,
      by decide, ?_⟩
    exact honce (mended.take 3) "Foot" "f" .empty [.ensure "Foot", .register "Body" "b" .empty]
      (.serialize fullStyle :: askedAgain) rfl (by decide)

end Registry

end ViewBundle
