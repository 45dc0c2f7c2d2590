import Mathlib.Data.List.Infix
import ViewBundle.Proofs.Descent
import ViewBundle.Proofs.FileTree
import ViewBundle.Reference

/-!
# Enclosing directories

A normal form is the root or a climb, which is a run of double dots, with names behind it
(`exists_eq_append_names`).  What is left of it when names are taken from its end encloses it.  The
chain of directories goes on from there with shorter climbs, which enclose nothing of it
(`ancestors_normalize`).  A module directory that is written with a slash, or with several names, is
not recognized where it comes again.  So modules are searched in the enclosing directories, and in
those alone, if and only if none of this happens.  Main statement:
`Settings.moduleSearchPaths_eq_iff`.
-/

namespace ViewBundle

namespace Component

variable {components directory : List Component} {last : Component}

/-! ## What encloses a path -/

/-- The components of the directories that enclose a path, nearest first: those behind which the
path has names only. -/
def enclosing (components : List Component) : List (List Component) :=
  (components.inits.filter fun directory =>
    (components.drop directory.length).all (·.name?.isSome)).reverse

theorem all_isSome_name?_iff :
    components.all (·.name?.isSome) = true ↔
      ∃ names : List String, components = names.map normal := by
  constructor
  · intro h
    induction components with
    | nil => exact ⟨[], rfl⟩
    | cons first more ih =>
      rw [List.all_cons, Bool.and_eq_true] at h
      obtain ⟨names, rfl⟩ := ih h.2
      cases first with
      | normal name => exact ⟨name :: names, rfl⟩
      | _ => cases h.1
  · rintro ⟨names, rfl⟩
    simp [name?]

theorem mem_enclosing_iff :
    directory ∈ enclosing components ↔
      ∃ names : List String, components = directory ++ names.map normal := by
  rw [enclosing, List.mem_reverse, List.mem_filter, List.mem_inits, all_isSome_name?_iff]
  constructor
  · rintro ⟨⟨behind, rfl⟩, hnames⟩
    rw [List.drop_left] at hnames
    obtain ⟨names, rfl⟩ := hnames
    exact ⟨names, rfl⟩
  · rintro ⟨names, rfl⟩
    exact ⟨List.prefix_append _ _, names, List.drop_left⟩

/-- A path encloses itself, and what encloses it without the name that it ends with encloses it. -/
theorem enclosing_concat (components : List Component) (last : Component) :
    enclosing (components ++ [last]) =
      (components ++ [last]) :: if last.name?.isSome then enclosing components else [] := by
  have hfilter : components.inits.filter (fun directory =>
      ((components ++ [last]).drop directory.length).all (·.name?.isSome)) =
        components.inits.filter fun directory =>
          (components.drop directory.length).all (·.name?.isSome) && last.name?.isSome := by
    apply List.filter_congr
    intro directory hdirectory
    have hlength := ((List.mem_inits _ _).1 hdirectory).length_le
    rw [List.drop_append_of_le_length hlength, List.all_append, List.all_cons, List.all_nil,
      Bool.and_true]
  have hself : [components ++ [last]].filter (fun directory =>
      ((components ++ [last]).drop directory.length).all (·.name?.isSome)) =
        [components ++ [last]] := by
    rw [List.filter_cons_of_pos (by simp), List.filter_nil]
  have hinits : (components ++ [last]).inits = components.inits ++ [components ++ [last]] := by
    rw [List.inits_append]
    rfl
  rw [enclosing, hinits, List.filter_append, hfilter, hself, List.reverse_append]
  cases last.name?.isSome with
  | true => simp [enclosing]
  | false => simp

/-! ## Chains of directories -/

/-- The climbs that end before the one of a path does, the longest first. -/
def shorterClimbs (components : List Component) : List (List Component) :=
  (List.range (components.count parent)).reverse.map (List.replicate · parent)

theorem ancestors_replicate_parent (height : Nat) :
    ancestors (List.replicate height parent) =
      (List.range (height + 1)).reverse.map (List.replicate · parent) := by
  induction height with
  | zero => rfl
  | succ height ih =>
    rw [List.replicate_succ', ancestors_concat (by simp), ih, ← List.replicate_succ',
      List.range_succ (n := height + 1), List.reverse_append]
    rfl

theorem enclosing_replicate_parent (height : Nat) :
    enclosing (List.replicate height parent) = [List.replicate height parent] := by
  cases height with
  | zero => rfl
  | succ height =>
    rw [List.replicate_succ', enclosing_concat]
    rfl

/-! ## Normal forms -/

/-- What a normal form begins with, in front of its names. -/
inductive IsStart : List Component → Prop
  | root : IsStart [root]
  | climb (height : Nat) : IsStart (List.replicate height parent)

theorem exists_eq_append_names (h : IsNormalForm components) :
    ∃ (start : List Component) (names : List String),
      components = start ++ names.map normal ∧ IsStart start := by
  induction components using List.reverseRecOn with
  | nil => exact ⟨[], [], rfl, .climb 0⟩
  | append_singleton components last ih =>
    have hreverse : (components ++ [last]).reverse = last :: components.reverse := by simp
    have hsettled := h.settled
    rw [hreverse] at hsettled
    cases hsettled with
    | cons _ hstep =>
      obtain ⟨start, names, hcomponents, hstart⟩ := ih h.of_append
      cases last with
      | root =>
        rcases h.written.eq_nil_or_root_or_concat with
          hnil | hroot | ⟨before, piece, heq, -, hpiece⟩
        · simp at hnil
        · exact ⟨[root], [], hroot, .root⟩
        · exact absurd (List.append_inj_right' heq rfl) (by simpa using hpiece.ne_root.symm)
      | current => exact absurd hstep (List.cons_ne_self _ _).symm
      | parent =>
        -- One goes further up from a climb only: the root stays, and a name is taken back.
        rcases List.eq_nil_or_concat' names with rfl | ⟨names, name, rfl⟩
        · rw [List.map_nil, List.append_nil] at hcomponents
          cases hstart with
          | root =>
            subst hcomponents
            cases hstep
          | climb height =>
            refine ⟨_, [], ?_, .climb (height + 1)⟩
            rw [hcomponents, List.map_nil, List.append_nil, List.replicate_succ']
        · have hlast : components.reverse =
              normal name :: (start ++ names.map normal).reverse := by
            rw [hcomponents, List.map_append, List.map_singleton, ← List.append_assoc]
            simp
          have hlength := congrArg List.length hstep
          rw [hlast] at hlength
          simp only [step, List.length_cons] at hlength
          omega
      | normal name =>
        refine ⟨start, names ++ [name], ?_, hstart⟩
        rw [hcomponents, List.map_append, List.map_singleton, List.append_assoc]

/-- The directories in the chain of a normal form enclose it, up to the shorter climbs at the end of
the chain. -/
theorem ancestors_append_names {start : List Component} (hstart : IsStart start)
    (names : List String) :
    ancestors (start ++ names.map normal) =
      enclosing (start ++ names.map normal) ++ shorterClimbs (start ++ names.map normal) := by
  induction names using List.reverseRecOn with
  | nil =>
    rw [List.map_nil, List.append_nil]
    cases hstart with
    | root => rfl
    | climb height =>
      rw [ancestors_replicate_parent, enclosing_replicate_parent, shorterClimbs,
        List.count_replicate_self, List.range_succ, List.reverse_append]
      rfl
  | append_singleton names name ih =>
    have hclimbs : shorterClimbs (start ++ names.map normal ++ [normal name]) =
        shorterClimbs (start ++ names.map normal) := by
      rw [shorterClimbs, List.count_append, List.count_singleton]
      rfl
    rw [List.map_append, List.map_singleton, ← List.append_assoc,
      ancestors_concat (by simp), enclosing_concat, hclimbs, ih]
    rfl

end Component

theorem Path.ancestors_normalize (p : Path) :
    Component.ancestors p.normalize.components =
      Component.enclosing p.normalize.components ++
        Component.shorterClimbs p.normalize.components := by
  rw [Path.components_normalize]
  obtain ⟨start, names, heq, hstart⟩ :=
    Component.exists_eq_append_names p.isNormalForm_normalize
  rw [heq]
  exact Component.ancestors_append_names hstart names

namespace Settings

variable {κ : Type} {settings : Settings κ} {directory : List Component}

/-! ## Module directories in a directory -/

/-- The module directories in a directory, which is given by its components. -/
def modulesIn (settings : Settings κ) (directory : List Component) : List Path :=
  settings.moduleDirectories.map fun name => (Path.ofComponents directory).join ⟨name⟩

/-- Whether a directory ends, by its components, in a module directory. -/
def EndsInModules (settings : Settings κ) (directory : List Component) : Prop :=
  ∃ name ∈ settings.moduleDirectories, Path.components ⟨name⟩ <:+ directory

instance (settings : Settings κ) : DecidablePred settings.EndsInModules :=
  fun directory => inferInstanceAs
    (Decidable (∃ name ∈ settings.moduleDirectories, Path.components ⟨name⟩ <:+ directory))

/-- Whether the last name of a directory is how a module directory is written. -/
def IsNamedModules (settings : Settings κ) (directory : List Component) : Prop :=
  ∃ name ∈ settings.moduleDirectories, directory.getLast? = some (.normal name)

instance (settings : Settings κ) : DecidablePred settings.IsNamedModules :=
  fun directory => inferInstanceAs
    (Decidable (∃ name ∈ settings.moduleDirectories, directory.getLast? = some (.normal name)))

/-- The module directories in the directories that enclose a path, nearest first; a directory that
ends in a module directory has none. -/
def enclosingModulePaths (settings : Settings κ) (base : Path) : List Path :=
  ((Component.enclosing base.normalize.components).filter fun directory =>
    ¬settings.EndsInModules directory).flatMap settings.modulesIn

theorem length_flatMap_modulesIn (directories : List (List Component)) :
    (directories.flatMap settings.modulesIn).length =
      directories.length * settings.moduleDirectories.length := by
  simp [List.length_flatMap, modulesIn]

theorem components_of_isPiece {name : String} (h : (Component.normal name).IsPiece) :
    Path.components ⟨name⟩ = [.normal name] := by
  have hwritten : Component.Written [.normal name] :=
    .relative (List.forall_mem_singleton.2 h)
  exact Path.components_ofComponents hwritten

/-- A directory whose last name is how a module directory is written ends in it. -/
theorem IsNamedModules.endsInModules (h : settings.IsNamedModules directory)
    (hwritten : Component.Written directory) : settings.EndsInModules directory := by
  obtain ⟨name, hmem, hlast⟩ := h
  obtain ⟨front, rfl⟩ := List.getLast?_eq_some_iff.1 hlast
  have hpiece : (Component.normal name).IsPiece := by
    rcases hwritten.eq_nil_or_root_or_concat with hnil | hroot | ⟨before, piece, heq, -, hpiece⟩
    · simp at hnil
    · simp [List.append_eq_singleton_iff] at hroot
    · rwa [List.singleton_inj.1 (List.append_inj_right' heq rfl)]
  exact ⟨name, hmem, front, by rw [components_of_isPiece hpiece]⟩

theorem EndsInModules.isNamedModules
    (hnames : ∀ name ∈ settings.moduleDirectories, (Component.normal name).IsPiece)
    (h : settings.EndsInModules directory) : settings.IsNamedModules directory := by
  obtain ⟨name, hmem, front, rfl⟩ := h
  refine ⟨name, hmem, ?_⟩
  rw [components_of_isPiece (hnames name hmem), List.getLast?_concat]

/-! ## Search paths -/

theorem any_contains_iff (settings : Settings κ) (directory : List Component) :
    (directory.getLast?.bind Component.name?).any (settings.moduleDirectories.contains ·) = true ↔
      settings.IsNamedModules directory := by
  unfold IsNamedModules
  cases directory.getLast? with
  | none => simp
  | some last =>
    cases last with
    | normal name => simp [Component.name?]
    | _ => simp [Component.name?]

/-- Of the directories in a chain those that are named like a module directory are passed over. -/
theorem moduleSearchPaths_eq_flatMap (settings : Settings κ) (base : Path) :
    settings.moduleSearchPaths base =
      ((Component.ancestors base.normalize.components).filter fun directory =>
        ¬settings.IsNamedModules directory).flatMap settings.modulesIn := by
  unfold moduleSearchPaths
  induction Component.ancestors base.normalize.components with
  | nil => rfl
  | cons directory directories ih =>
    rw [List.flatMap_cons, ih]
    split
    · next hnamed =>
      rw [List.filter_cons_of_neg (by simpa using (any_contains_iff settings directory).1 hnamed)]
      rfl
    · next hnamed =>
      rw [List.filter_cons_of_pos
        (by simpa using mt (any_contains_iff settings directory).2 hnamed)]
      rfl

theorem not_isNamedModules_of_mem_shorterClimbs {components : List Component}
    (h : directory ∈ Component.shorterClimbs components) : ¬settings.IsNamedModules directory := by
  rintro ⟨name, -, hlast⟩
  obtain ⟨height, -, rfl⟩ := List.mem_map.1 h
  cases List.eq_of_mem_replicate (List.mem_of_getLast? hlast)

/-- Modules are searched in the enclosing directories that are not named like a module directory,
and then in the directories of the shorter climbs. -/
theorem moduleSearchPaths_eq (settings : Settings κ) (base : Path) :
    settings.moduleSearchPaths base =
      ((Component.enclosing base.normalize.components).filter fun directory =>
        ¬settings.IsNamedModules directory).flatMap settings.modulesIn ++
      (Component.shorterClimbs base.normalize.components).flatMap settings.modulesIn := by
  have hclimbs : (Component.shorterClimbs base.normalize.components).filter (fun directory =>
      ¬settings.IsNamedModules directory) = Component.shorterClimbs base.normalize.components :=
    List.filter_eq_self.2 fun directory hmem => by
      simpa using not_isNamedModules_of_mem_shorterClimbs hmem
  rw [moduleSearchPaths_eq_flatMap, Path.ancestors_normalize, List.filter_append, hclimbs,
    List.flatMap_append]

theorem shorterClimbs_eq_nil_iff {components : List Component} :
    Component.shorterClimbs components = [] ↔ .parent ∉ components := by
  simp [Component.shorterClimbs, List.count_eq_zero]

section

variable {enclosing : List (List Component)} (hnamed : ∀ directory ∈ enclosing,
  settings.IsNamedModules directory → settings.EndsInModules directory)

include hnamed

theorem filter_isNamedModules_filter :
    ((enclosing.filter fun directory => ¬settings.IsNamedModules directory).filter
        fun directory => ¬settings.EndsInModules directory) =
      enclosing.filter fun directory => ¬settings.EndsInModules directory := by
  rw [List.filter_filter]
  apply List.filter_congr
  intro directory hmem
  by_cases hends : settings.EndsInModules directory
  · simp [hends]
  · simp [hends, mt (hnamed directory hmem) hends]

/-- No directory is searched for nothing, so the directories that are searched can be told from the
number of the paths. -/
theorem flatMap_modulesIn_eq_iff (hsome : settings.moduleDirectories ≠ [])
    {climbs : List (List Component)} :
    (enclosing.filter fun directory => ¬settings.IsNamedModules directory).flatMap
          settings.modulesIn ++ climbs.flatMap settings.modulesIn =
        (enclosing.filter fun directory => ¬settings.EndsInModules directory).flatMap
          settings.modulesIn ↔
      climbs = [] ∧ ∀ directory ∈ enclosing,
        settings.EndsInModules directory → settings.IsNamedModules directory := by
  obtain ⟨searched, hsearched⟩ : ∃ searched, searched =
    enclosing.filter fun directory => ¬settings.IsNamedModules directory := ⟨_, rfl⟩
  have hmem (directory : List Component) :
      directory ∈ searched ↔ directory ∈ enclosing ∧ ¬settings.IsNamedModules directory := by
    rw [hsearched, List.mem_filter, decide_eq_true_eq]
  rw [← filter_isNamedModules_filter hnamed, ← hsearched]
  constructor
  · intro heq
    have hlength := congrArg List.length heq
    rw [List.length_append, length_flatMap_modulesIn, length_flatMap_modulesIn,
      length_flatMap_modulesIn, ← Nat.add_mul,
      Nat.mul_left_inj (List.length_eq_zero_iff.not.2 hsome)] at hlength
    have hsublist := @List.filter_sublist _ (fun directory => ¬settings.EndsInModules directory)
      searched
    have hle := hsublist.length_le
    have hself := hsublist.eq_of_length (by omega)
    refine ⟨List.length_eq_zero_iff.1 (by omega), fun directory hdirectory hends => ?_⟩
    by_contra hnot
    have hnotends := List.filter_eq_self.1 hself directory ((hmem directory).2 ⟨hdirectory, hnot⟩)
    exact absurd hends (of_decide_eq_true hnotends)
  · rintro ⟨rfl, hends⟩
    have hself :
        (searched.filter fun directory => ¬settings.EndsInModules directory) = searched := by
      apply List.filter_eq_self.2
      intro directory hdirectory
      obtain ⟨henclosing, hnot⟩ := (hmem directory).1 hdirectory
      exact decide_eq_true (mt (hends directory henclosing) hnot)
    rw [List.flatMap_nil, List.append_nil, hself]

end

/-- Modules are searched in the enclosing directories that are not named like a module directory,
and then, from a path that begins with double dots, in the directories of shorter climbs.  So if
there are module directories, they are searched in exactly the enclosing directories that do not end
in one of them if and only if the path does not climb and every enclosing directory that ends in a
module directory has the name of one as it is written.  Module directories that are plain names are
written as they are compared, so that only climbs are left. -/
theorem moduleSearchPaths_eq_iff (settings : Settings κ) (base : Path) :
    settings.moduleSearchPaths base =
        ((Component.enclosing base.normalize.components).filter fun directory =>
          ¬settings.IsNamedModules directory).flatMap settings.modulesIn ++
        (Component.shorterClimbs base.normalize.components).flatMap settings.modulesIn ∧
      (settings.moduleSearchPaths base = settings.enclosingModulePaths base ↔
        settings.moduleDirectories = [] ∨ .parent ∉ base.normalize.components ∧
          ∀ directory ∈ Component.enclosing base.normalize.components,
            settings.EndsInModules directory → settings.IsNamedModules directory) ∧
      ((∀ name ∈ settings.moduleDirectories, (Component.normal name).IsPiece) →
        (settings.moduleSearchPaths base = settings.enclosingModulePaths base ↔
          settings.moduleDirectories = [] ∨ .parent ∉ base.normalize.components)) := by
  have hnamed : ∀ directory ∈ Component.enclosing base.normalize.components,
      settings.IsNamedModules directory → settings.EndsInModules directory := by
    intro directory hmem hnamed
    obtain ⟨names, hnames⟩ := Component.mem_enclosing_iff.1 hmem
    have hwritten := base.written_normalize
    rw [← Path.components_normalize, hnames] at hwritten
    exact hnamed.endsInModules hwritten.of_append
  have hiff : settings.moduleSearchPaths base = settings.enclosingModulePaths base ↔
      settings.moduleDirectories = [] ∨ .parent ∉ base.normalize.components ∧
        ∀ directory ∈ Component.enclosing base.normalize.components,
          settings.EndsInModules directory → settings.IsNamedModules directory := by
    by_cases hnone : settings.moduleDirectories = []
    · have hnil (directories : List (List Component)) :
          directories.flatMap settings.modulesIn = [] :=
        List.flatMap_eq_nil_iff.2 fun directory _ => by rw [modulesIn, hnone, List.map_nil]
      rw [moduleSearchPaths_eq, enclosingModulePaths, hnil, hnil, hnil]
      exact iff_of_true rfl (.inl hnone)
    · rw [moduleSearchPaths_eq, enclosingModulePaths, flatMap_modulesIn_eq_iff hnamed hnone,
        shorterClimbs_eq_nil_iff]
      simp [hnone]
  refine ⟨moduleSearchPaths_eq settings base, hiff, fun hnames => ?_⟩
  rw [hiff]
  exact or_congr_right (and_iff_left fun directory _ hends => hends.isNamedModules hnames)

/-- The standard settings, with the module directory written as a directory. -/
def slashedModules : Settings Compiler :=
  standard.withModuleDirectories ["node_modules/"]

/-- A module directory is not searched in itself, a climb leads on to the directory that it starts
from, and a module directory that is written with a slash is searched in itself. -/
theorem moduleSearchPaths_eq_iff_kitDirectories :
    standard.moduleSearchPaths ⟨"/app/node_modules/kit"⟩ =
        standard.enclosingModulePaths ⟨"/app/node_modules/kit"⟩ ∧
      standard.moduleSearchPaths ⟨"../lib"⟩ ≠ standard.enclosingModulePaths ⟨"../lib"⟩ ∧
      slashedModules.moduleSearchPaths ⟨"/app/node_modules"⟩ ≠
        slashedModules.enclosingModulePaths ⟨"/app/node_modules"⟩ := by
  have hnames : ∀ name ∈ standard.moduleDirectories, (Component.normal name).IsPiece :=
    List.forall_mem_singleton.2
      (Component.isPiece_normal (by decide) (by decide) (by decide) (by decide))
  refine ⟨?_, ?_, ?_⟩
  · obtain ⟨-, -, hplain⟩ := moduleSearchPaths_eq_iff standard ⟨"/app/node_modules/kit"⟩
    exact (hplain hnames).2 (.inr (by decide +kernel))
  · obtain ⟨-, -, hplain⟩ := moduleSearchPaths_eq_iff standard ⟨"../lib"⟩
    exact fun h => absurd ((hplain hnames).1 h) (by decide +kernel)
  · obtain ⟨-, hiff, -⟩ := moduleSearchPaths_eq_iff slashedModules ⟨"/app/node_modules"⟩
    exact fun h => absurd (hiff.1 h) (by decide +kernel)

/-- Modules need not be searched in the enclosing directories alone. -/
theorem not_forall_moduleSearchPaths_eq :
    (¬∀ (settings : Settings Compiler) (base : Path),
      settings.moduleSearchPaths base = settings.enclosingModulePaths base) ∧
    standard.moduleSearchPaths ⟨"../lib"⟩ =
        [⟨"../lib/node_modules"⟩, ⟨"../node_modules"⟩, ⟨"node_modules"⟩] ∧
      standard.enclosingModulePaths ⟨"../lib"⟩ = [⟨"../lib/node_modules"⟩, ⟨"../node_modules"⟩] ∧
      slashedModules.moduleSearchPaths ⟨"/app/node_modules"⟩ =
        [⟨"/app/node_modules/node_modules/"⟩, ⟨"/app/node_modules/"⟩, ⟨"/node_modules/"⟩] ∧
      slashedModules.enclosingModulePaths ⟨"/app/node_modules"⟩ =
        [⟨"/app/node_modules/"⟩, ⟨"/node_modules/"⟩] := by
  have hlib : standard.moduleSearchPaths ⟨"../lib"⟩ =
      [⟨"../lib/node_modules"⟩, ⟨"../node_modules"⟩, ⟨"node_modules"⟩] := by
    decide +kernel
  have henclosing : standard.enclosingModulePaths ⟨"../lib"⟩ =
      [⟨"../lib/node_modules"⟩, ⟨"../node_modules"⟩] := by
    decide +kernel
  refine ⟨fun h => ?_, hlib, henclosing, by decide +kernel, by decide +kernel⟩
  have heq := h standard ⟨"../lib"⟩
  rw [hlib, henclosing] at heq
  exact absurd (congrArg List.length heq) (by decide)

end Settings

end ViewBundle
