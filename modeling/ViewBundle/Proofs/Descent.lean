import ViewBundle.Proofs.NormalPath

/-!
# Paths that lead into a directory

A relative path is put in normal form step by step, and so it is when it is taken from a directory.
As long as no double dot takes back more than the path itself has entered, the directory stays as it
is below the names that have been entered (`foldl_step_names`).  So a path leads from every
directory to a place inside of it if its normal form has names only, and has one
(`exists_normalize_join`).  Any other path leads out of some directory, or stays there
(`normalize_join_ne`).

The components of a normal form were all further steps when they were taken (`Settled`), so a normal
form is its own normal form, and so are every directory around it and every name in it
(`IsNormalForm`).
-/

namespace ViewBundle

namespace Component

variable {done up components : List Component} {next component : Component}

theorem IsPiece.ne_current (h : component.IsPiece) : component ≠ current := by
  rintro rfl
  have hpiece := h.ofPiece?_eq
  contradiction

/-! ## Steps -/

theorem step_normal (done : List Component) (name : String) :
    step done (normal name) = normal name :: done := by
  cases done with
  | nil => rfl
  | cons last up => cases last <;> rfl

/-- A double dot that nothing precedes is never taken back. -/
theorem parent_mem_step (h : parent ∈ done) : parent ∈ step done next := by
  unfold step
  split
  · exact h
  · simpa using h
  · exact h
  · exact List.mem_cons_of_mem _ h

theorem parent_mem_foldl_step (h : parent ∈ done) : parent ∈ components.foldl step done := by
  induction components generalizing done with
  | nil => exact h
  | cons next components ih => exact ih (parent_mem_step h)

/-- The steps that are left are some of those that were taken before and of those taken now. -/
theorem mem_foldl_step (h : component ∈ components.foldl step done) :
    component ∈ done ∨ component ∈ components := by
  induction components generalizing done with
  | nil => exact .inl h
  | cons next components ih =>
    rcases ih h with h | h
    · rcases mem_step h with h | ⟨rfl, -⟩
      · exact .inl h
      · exact .inr List.mem_cons_self
    · exact .inr (List.mem_cons_of_mem _ h)

/-- What lies below the names that have been entered plays no part in steps that never go further up
than from there. -/
theorem foldl_step_names (names : List String) (up : List Component)
    (hpieces : ∀ component ∈ components, component.IsPiece)
    (h : parent ∉ components.foldl step (names.map normal)) :
    ∃ left : List String, components.foldl step (names.map normal) = left.map normal ∧
      components.foldl step (names.map normal ++ up) = left.map normal ++ up := by
  induction components generalizing names with
  | nil => exact ⟨names, rfl, rfl⟩
  | cons next components ih =>
    obtain ⟨hnext, hrest⟩ := List.forall_mem_cons.1 hpieces
    rw [List.foldl_cons] at h ⊢
    rw [List.foldl_cons]
    cases next with
    | root => exact absurd rfl hnext.ne_root
    | current => exact absurd rfl hnext.ne_current
    | parent =>
      cases names with
      | nil => exact absurd (parent_mem_foldl_step List.mem_cons_self) h
      | cons name names => exact ih names hrest h
    | normal name =>
      rw [step_normal] at h ⊢
      rw [step_normal]
      exact ih (name :: names) hrest h

/-- A directory right below the root is left by steps that go further up than it, and is not
entered again by steps that do not name it. -/
theorem notMem_foldl_step (names : List String) {name : String}
    (hpieces : ∀ component ∈ components, component.IsPiece)
    (h : parent ∈ components.foldl step (names.map normal)) (hnew : normal name ∉ components)
    (hnames : name ∉ names) :
    normal name ∉ components.foldl step (names.map normal ++ [normal name, root]) := by
  induction components generalizing names with
  | nil => simp at h
  | cons next components ih =>
    obtain ⟨hnext, hrest⟩ := List.forall_mem_cons.1 hpieces
    rw [List.mem_cons, not_or] at hnew
    rw [List.foldl_cons] at h ⊢
    cases next with
    | root => exact absurd rfl hnext.ne_root
    | current => exact absurd rfl hnext.ne_current
    | parent =>
      cases names with
      | nil =>
        -- Here the directory is left, and what follows is taken from the root.
        intro hmem
        rcases mem_foldl_step hmem with hmem | hmem
        · have hroot : normal name ∈ [root] := hmem
          simp at hroot
        · exact hnew.2 hmem
      | cons other names =>
        rw [List.mem_cons, not_or] at hnames
        exact ih names hrest h hnew.2 hnames.2
    | normal other =>
      rw [step_normal] at h ⊢
      have hother : name ≠ other := fun heq => hnew.1 (congrArg normal heq)
      refine ih (other :: names) hrest h hnew.2 ?_
      rw [List.mem_cons, not_or]
      exact ⟨hother, hnames⟩

/-! ## Settled components -/

/-- Components, given from the last one on, each of which was a further step when it was taken. -/
inductive Settled : List Component → Prop
  | nil : Settled []
  | cons {up : List Component} {last : Component} (h : Settled up)
      (hstep : step up last = last :: up) : Settled (last :: up)

theorem Settled.step (h : Settled done) (next : Component) : Settled (step done next) := by
  have hpush : Component.step done next = next :: done ∨ Settled (Component.step done next) := by
    unfold Component.step
    split
    · exact .inr h
    · cases h with
      | cons hup _ => exact .inr hup
    · exact .inr h
    · exact .inl rfl
  rcases hpush with hpush | hsettled
  · rw [hpush]
    exact h.cons hpush
  · exact hsettled

theorem Settled.foldl_step (h : Settled done) (components : List Component) :
    Settled (components.foldl Component.step done) := by
  induction components generalizing done with
  | nil => exact h
  | cons next components ih => exact ih (h.step next)

theorem Settled.of_append {inner : List Component} (h : Settled (inner ++ up)) : Settled up := by
  induction inner with
  | nil => exact h
  | cons last inner ih =>
    cases h with
    | cons h _ => exact ih h

theorem Settled.normalize_reverse (h : Settled done) : normalize done.reverse = done.reverse := by
  have hfold : done.reverse.foldl Component.step [] = done := by
    induction h with
    | nil => rfl
    | cons _ hstep ih =>
      rw [List.reverse_cons, List.foldl_append, ih]
      exact hstep
  rw [normalize, hfold]

theorem settled_normalize (components : List Component) :
    Settled (normalize components).reverse := by
  rw [normalize, List.reverse_reverse]
  exact Settled.nil.foldl_step components

theorem Written.append {front behind : List Component} (h : Written front)
    (hbehind : ∀ component ∈ behind, component.IsPiece) : Written (front ++ behind) := by
  induction behind generalizing front with
  | nil => rwa [List.append_nil]
  | cons next behind ih =>
    obtain ⟨hnext, hrest⟩ := List.forall_mem_cons.1 hbehind
    rw [List.append_cons]
    exact ih (h.concat hnext) hrest

theorem Written.of_append {front behind : List Component} (h : Written (front ++ behind)) :
    Written front := by
  generalize hall : front ++ behind = all at h
  cases h with
  | relative hpieces =>
    rw [← hall] at hpieces
    exact .relative (List.forall_mem_append.1 hpieces).1
  | absolute hpieces =>
    rcases List.append_eq_cons_iff.1 hall with ⟨rfl, -⟩ | ⟨rest, rfl, rfl⟩
    · exact .relative (by simp)
    · exact .absolute (List.forall_mem_append.1 hpieces).1

/-- Components that can be written and each of which goes further than those before it. -/
structure IsNormalForm (components : List Component) : Prop where
  written : Written components
  settled : Settled components.reverse

namespace IsNormalForm

theorem normalize_eq (h : IsNormalForm components) : normalize components = components := by
  have hreverse := h.settled.normalize_reverse
  rwa [List.reverse_reverse] at hreverse

theorem of_append {front behind : List Component} (h : IsNormalForm (front ++ behind)) :
    IsNormalForm front where
  written := h.written.of_append
  settled := by
    have hsettled := h.settled
    rw [List.reverse_append] at hsettled
    exact hsettled.of_append

/-- A normal form goes on with every name. -/
theorem concat (h : IsNormalForm components) {name : String} (hname : (normal name).IsPiece) :
    IsNormalForm (components ++ [normal name]) where
  written := h.written.concat hname
  settled := by
    rw [List.reverse_append]
    exact h.settled.cons (step_normal _ name)

end IsNormalForm

end Component

namespace Path

theorem isNormalForm_normalize (p : Path) :
    Component.IsNormalForm (Component.normalize p.components) :=
  ⟨p.written_normalize, Component.settled_normalize p.components⟩

/-- What is written for a normal form is in normal form. -/
theorem normalize_ofComponents {components : List Component}
    (h : Component.IsNormalForm components) :
    (ofComponents components).normalize = ofComponents components := by
  rw [normalize, components_ofComponents h.written, h.normalize_eq]

/-- Whether a path leads from every directory to a place inside of it: its normal form has names
only, and has one. -/
def leadsInside (p : Path) : Bool :=
  !p.normalize.components.isEmpty && p.normalize.components.all (·.name?.isSome)

variable {q : Path}

theorem isPiece_of_mem_components (h : leading q.text.toList = []) :
    ∀ component ∈ q.components, component.IsPiece := by
  rw [components_of_leading h]
  exact fun _ => isPiece_of_mem_pieceComponents

theorem leadsInside_iff (h : leading q.text.toList = []) : q.leadsInside = true ↔
    Component.parent ∉ q.components.foldl Component.step [] ∧
      q.components.foldl Component.step [] ≠ [] := by
  have hcomponents : q.normalize.components = (q.components.foldl Component.step []).reverse :=
    components_normalize q
  rw [leadsInside, hcomponents, Bool.and_eq_true, List.all_reverse, List.isEmpty_reverse,
    List.all_eq_true, Bool.not_eq_true', List.isEmpty_eq_false_iff, and_comm]
  refine and_congr_left fun _ => ?_
  constructor
  · intro hnames hparent
    exact absurd (hnames _ hparent) (by decide)
  · intro hparent component hcomponent
    obtain ⟨left, hleft, -⟩ := Component.foldl_step_names [] []
      (isPiece_of_mem_components h) hparent
    rw [List.map_nil] at hleft
    rw [hleft] at hcomponent
    obtain ⟨name, -, rfl⟩ := List.mem_map.1 hcomponent
    rfl

/-- A path that leads inside adds components to the normal form of the directory that it is taken
from. -/
theorem exists_normalize_join (h : leading q.text.toList = []) (hinside : q.leadsInside = true)
    (p : Path) :
    ∃ behind, behind ≠ [] ∧ (∀ component ∈ behind, component.IsPiece) ∧
      Component.normalize (p.join q).components =
        Component.normalize p.components ++ behind := by
  obtain ⟨hparent, hne⟩ := (leadsInside_iff h).1 hinside
  have hpieces := isPiece_of_mem_components h
  obtain ⟨left, hleft, hjoin⟩ := Component.foldl_step_names []
    (p.components.foldl Component.step []) hpieces hparent
  rw [List.map_nil] at hleft
  rw [List.map_nil, List.nil_append] at hjoin
  refine ⟨(left.map .normal).reverse, ?_, ?_, ?_⟩
  · rw [← hleft, Ne, List.reverse_eq_nil_iff]
    exact hne
  · intro component hcomponent
    rw [List.mem_reverse, ← hleft] at hcomponent
    rcases Component.mem_foldl_step hcomponent with hcomponent | hcomponent
    · simp at hcomponent
    · exact hpieces component hcomponent
  · rw [components_join_of_leading h, Component.normalize, List.foldl_append, hjoin,
      List.reverse_append]
    rfl

/-- A path that does not lead inside leads out of a directory whose name it does not hold, or stays
there. -/
theorem normalize_join_ne (h : leading q.text.toList = []) (hinside : q.leadsInside = false)
    {p : Path} {name : String} (hp : p.components = [.root, .normal name])
    (hnew : .normal name ∉ q.components) {behind : List Component} (hne : behind ≠ []) :
    Component.normalize (p.join q).components ≠ [.root, .normal name] ++ behind := by
  have hpieces := isPiece_of_mem_components h
  have hstart : p.components.foldl Component.step [] = [.normal name, .root] := by
    rw [hp]
    rfl
  rw [components_join_of_leading h, Component.normalize, List.foldl_append, hstart]
  intro heq
  by_cases hparent : Component.parent ∈ q.components.foldl Component.step []
  · have hleft := Component.notMem_foldl_step [] hpieces hparent hnew (by simp)
    apply hleft
    rw [← List.mem_reverse]
    exact heq ▸ List.mem_append_left _ (by simp)
  · -- Nothing is left of the path, so nothing is added to the directory.
    obtain ⟨left, hleft, hjoin⟩ := Component.foldl_step_names []
      [.normal name, .root] hpieces hparent
    have hnil : q.components.foldl Component.step [] = [] := by
      by_contra hsome
      rw [(leadsInside_iff h).2 ⟨hparent, hsome⟩] at hinside
      contradiction
    rw [List.map_nil] at hleft
    rw [List.map_nil, List.nil_append, ← hleft, hnil, List.nil_append] at hjoin
    rw [hjoin] at heq
    exact hne (List.append_right_eq_self.1 heq.symm)

end Path

end ViewBundle
