import Mathlib.Data.List.Basic
import Mathlib.Data.List.Induction
import ViewBundle.Path

/-!
# Directories around a path

The chain of directories around a path takes its components back one by one, down to the root or to
the empty path (`properAncestors_concat`), and goes on from every directory as that directory's own
chain (`properAncestors_eq_append_of_mem`).  So the directories around a path are what stands in
front of some of its components, the root aside (`mem_properAncestors_iff`).
-/

namespace ViewBundle.Component

variable {components directory : List Component} {last : Component}

/-! ## Chains -/

/-- A path comes first, and the directories around it are the others. -/
theorem ancestors_eq_cons (components : List Component) :
    ancestors components = components :: properAncestors components := by
  obtain ⟨outer, houter⟩ : ∃ outer, ancestors components = components :: outer := by
    unfold ancestors ancestorsFromLast
    split
    · next hnil => exact ⟨[], by rw [List.reverse_eq_nil_iff.1 hnil]⟩
    · next hroot => exact ⟨[], by rw [List.reverse_eq_iff.1 hroot]; rfl⟩
    · next hcons => exact ⟨_, by rw [← hcons, List.reverse_reverse]⟩
  rw [properAncestors, houter]
  rfl

theorem ancestors_concat (h : ¬(last = root ∧ components = [])) :
    ancestors (components ++ [last]) = (components ++ [last]) :: ancestors components := by
  have hreverse : (components ++ [last]).reverse = last :: components.reverse := by simp
  have hup : last = root → components.reverse ≠ [] :=
    fun hlast hnil => h ⟨hlast, List.reverse_eq_nil_iff.1 hnil⟩
  rw [ancestors, hreverse, ancestorsFromLast.eq_3 _ _ hup, ← hreverse, List.reverse_reverse]
  rfl

/-- Around a path is the directory in which its last component is, and what is around that one. -/
theorem properAncestors_concat (h : ¬(last = root ∧ components = [])) :
    properAncestors (components ++ [last]) = ancestors components := by
  rw [properAncestors, ancestors_concat h]
  rfl

/-- Induction along the directories around a path: there are none around the root and the empty
path, and around any other path there is the nearest one with those around it. -/
@[elab_as_elim]
theorem properAncestorsInduction {motive : List Component → Prop} (components : List Component)
    (alone : ∀ components, properAncestors components = [] → motive components)
    (inside : ∀ nearest last,
      properAncestors (nearest ++ [last]) = nearest :: properAncestors nearest →
      motive nearest → motive (nearest ++ [last])) : motive components := by
  induction components using List.reverseRecOn with
  | nil => exact alone [] rfl
  | append_singleton nearest last ih =>
    by_cases hroot : last = root ∧ nearest = []
    · obtain ⟨rfl, rfl⟩ := hroot
      exact alone [root] rfl
    · refine inside nearest last ?_ ih
      rw [properAncestors_concat hroot, ancestors_eq_cons]

/-- A chain of directories goes on from any of its members as that member's own chain. -/
theorem properAncestors_eq_append_of_mem (h : directory ∈ properAncestors components) :
    ∃ nearer, properAncestors components = nearer ++ directory :: properAncestors directory := by
  induction components using properAncestorsInduction with
  | alone components hnil => simp [hnil] at h
  | inside nearest last hcons ih =>
    rw [hcons] at h ⊢
    rcases List.mem_cons.1 h with rfl | h
    · exact ⟨[], rfl⟩
    · obtain ⟨nearer, hnearer⟩ := ih h
      exact ⟨nearest :: nearer, by rw [hnearer, List.cons_append]⟩

theorem mem_properAncestors_trans {outer : List Component}
    (h : directory ∈ properAncestors components) (houter : outer ∈ properAncestors directory) :
    outer ∈ properAncestors components := by
  obtain ⟨nearer, hnearer⟩ := properAncestors_eq_append_of_mem h
  rw [hnearer]
  exact List.mem_append_right _ (List.mem_cons_of_mem _ houter)

/-! ## What stands in front of some components -/

theorem mem_ancestors_append (front : List Component) {behind : List Component}
    (h : root ∉ behind) : front ∈ ancestors (front ++ behind) := by
  induction behind using List.reverseRecOn with
  | nil =>
    rw [List.append_nil, ancestors_eq_cons]
    exact List.mem_cons_self
  | append_singleton behind last ih =>
    rw [List.mem_append, not_or, List.mem_singleton] at h
    rw [← List.append_assoc, ancestors_concat fun hroot => h.2 hroot.1.symm]
    exact List.mem_cons_of_mem _ (ih h.1)

/-- What stands in front of some components of a path is a directory around the path. -/
theorem mem_properAncestors_append (front : List Component) {behind : List Component}
    (hne : behind ≠ []) (h : root ∉ behind) : front ∈ properAncestors (front ++ behind) := by
  obtain ⟨inner, last, rfl⟩ := (List.eq_nil_or_concat' behind).resolve_left hne
  rw [List.mem_append, not_or, List.mem_singleton] at h
  rw [← List.append_assoc, properAncestors_concat fun hroot => h.2 hroot.1.symm]
  exact mem_ancestors_append front h.1

theorem exists_eq_append_of_mem_properAncestors (h : directory ∈ properAncestors components) :
    ∃ behind, behind ≠ [] ∧ components = directory ++ behind := by
  induction components using properAncestorsInduction with
  | alone components hnil => simp [hnil] at h
  | inside nearest last hcons ih =>
    rw [hcons] at h
    rcases List.mem_cons.1 h with rfl | h
    · exact ⟨[last], by simp, rfl⟩
    · obtain ⟨behind, -, hbehind⟩ := ih h
      exact ⟨behind ++ [last], by simp, by rw [hbehind, List.append_assoc]⟩

theorem exists_eq_append_of_mem_ancestors (h : directory ∈ ancestors components) :
    ∃ behind, components = directory ++ behind := by
  rw [ancestors_eq_cons] at h
  rcases List.mem_cons.1 h with rfl | h
  · exact ⟨[], (List.append_nil _).symm⟩
  · obtain ⟨behind, -, hbehind⟩ := exists_eq_append_of_mem_properAncestors h
    exact ⟨behind, hbehind⟩

/-- No chain goes from the root to the empty path. -/
theorem nil_notMem_ancestors (components : List Component) :
    [] ∉ ancestors (root :: components) := by
  induction components using List.reverseRecOn with
  | nil => decide
  | append_singleton components last ih =>
    rw [← List.cons_append, ancestors_concat (by simp), List.mem_cons, not_or]
    exact ⟨by simp, ih⟩

/-- The directories around a path that has a root at its beginning only. -/
theorem mem_properAncestors_iff (h : root ∉ components.tail) :
    directory ∈ properAncestors components ↔
      ∃ behind, behind ≠ [] ∧ root ∉ behind ∧ components = directory ++ behind := by
  constructor
  · intro hmem
    obtain ⟨behind, hne, rfl⟩ := exists_eq_append_of_mem_properAncestors hmem
    refine ⟨behind, hne, ?_, rfl⟩
    cases directory with
    | nil =>
      obtain ⟨first, more, rfl⟩ := List.exists_cons_of_ne_nil hne
      rw [List.mem_cons, not_or]
      refine ⟨?_, h⟩
      rintro rfl
      exact nil_notMem_ancestors more (List.mem_of_mem_drop hmem)
    | cons first directory =>
      rw [List.cons_append, List.tail_cons, List.mem_append, not_or] at h
      exact h.2
  · rintro ⟨behind, hne, hroot, rfl⟩
    exact mem_properAncestors_append directory hne hroot

end ViewBundle.Component
