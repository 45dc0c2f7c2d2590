import ViewBundle.Proofs.EnclosingDirectories
import ViewBundle.Proofs.Spelling

/-!
# Canonical paths

The components of a normal form are steps that go further, each from those before it, so that they
can be taken in the place of the components that they come from, whatever steps follow
(`Component.normalize_append`).  A path that is taken from a directory adds steps to those of the
directory, and so leads to one place from all directories that have one normal form
(`normalize_join`).  This is how references and entries are looked up.  Main statement:
`normalize_canonical`.
-/

namespace ViewBundle

namespace Component

variable {done components : List Component} {next : Component}

/-! ## Steps from a normal form -/

theorem foldl_step_normalize (components : List Component) :
    (normalize components).foldl step [] = components.foldl step [] :=
  List.reverse_injective (Settled.nil.foldl_step components).normalize_reverse

/-- Steps lead from a normal form to where they lead from the components that it comes from. -/
theorem normalize_append (components behind : List Component) :
    normalize (normalize components ++ behind) = normalize (components ++ behind) := by
  rw [normalize, List.foldl_append, foldl_step_normalize, ← List.foldl_append]
  rfl

/-- The root is taken back by no step. -/
theorem root_mem_step (h : root ∈ done ∨ root = next) : root ∈ step done next := by
  unfold step
  split
  · simpa using h
  · simpa using h
  · exact List.mem_cons_self
  · rwa [List.mem_cons, or_comm]

theorem root_mem_foldl_step (h : root ∈ done ∨ root ∈ components) :
    root ∈ components.foldl step done := by
  induction components generalizing done with
  | nil => simpa using h
  | cons next components ih =>
    rw [List.mem_cons, ← or_assoc] at h
    exact ih (h.imp_left root_mem_step)

end Component

namespace Path

/-! ## The root -/

theorem isAbsolute_iff (p : Path) : p.isAbsolute = true ↔ .root ∈ p.components := by
  rw [components_eq, List.mem_append, or_iff_left (root_notMem_pieceComponents _), isAbsolute,
    beq_iff_eq, leading]
  split
  · next hslash => simp [hslash]
  · next hslash =>
    refine iff_of_false hslash ?_
    split <;> simp

theorem isAbsolute_normalize (p : Path) : p.normalize.isAbsolute = p.isAbsolute := by
  rw [Bool.eq_iff_iff, isAbsolute_iff, isAbsolute_iff, components_normalize, Component.normalize,
    List.mem_reverse]
  constructor
  · intro hroot
    exact (Component.mem_foldl_step hroot).resolve_left List.not_mem_nil
  · exact fun hroot => Component.root_mem_foldl_step (.inr hroot)

/-- The root, or double dots where there is no root, and names behind them. -/
theorem components_normalize_eq (p : Path) :
    ∃ (height : Nat) (names : List String), p.normalize.components =
      (if p.isAbsolute then [.root] else List.replicate height .parent) ++ names.map .normal := by
  obtain ⟨start, names, heq, hstart⟩ :=
    Component.exists_eq_append_names p.isNormalForm_normalize
  rw [← components_normalize] at heq
  cases hstart with
  | root =>
    have habsolute : p.isAbsolute = true := by
      rw [← isAbsolute_normalize, isAbsolute_iff, heq]
      exact List.mem_cons_self
    exact ⟨0, names, by rw [heq, if_pos habsolute]⟩
  | climb height =>
    have hrelative : ¬p.isAbsolute = true := by
      rw [← isAbsolute_normalize, isAbsolute_iff, heq]
      simp
    exact ⟨height, names, by rw [heq, if_neg hrelative]⟩

/-! ## Normal forms of joined paths -/

theorem normalize_normalize (p : Path) : p.normalize.normalize = p.normalize :=
  normalize_ofComponents p.isNormalForm_normalize

/-- A relative path adds steps to those of the path that it is taken from, also of an empty one. -/
theorem normalize_components_join {q : Path} (hq : q.isAbsolute = false) (p : Path) :
    Component.normalize (p.join q).components =
      Component.normalize (p.components ++ pieceComponents q.text.toList) := by
  by_cases hp : p.text = ""
  · have hjoin : p.join q = q := by simp [join, hq, hp]
    have hslash : q.text.toList.head? ≠ some '/' := by simpa [isAbsolute] using hq
    rw [hjoin, (components_eq_nil_iff p).2 hp, components_eq, leading, if_neg hslash]
    -- A dot in front of the path takes no step.
    split <;> rfl
  · rw [components_join hp hq]

theorem normalize_join (p q : Path) : (p.normalize.join q).normalize = (p.join q).normalize := by
  cases hq : q.isAbsolute with
  | true => rw [join, join, if_pos hq, if_pos hq]
  | false =>
    rw [normalize, normalize_components_join hq, components_normalize,
      Component.normalize_append, ← normalize_components_join hq]
    rfl

end Path

namespace Settings

/-! ## Spellings of a directory -/

variable {κ σ : Type} [FileStore σ] {settings : Settings κ} {store : σ} {base base' : Path}

theorem resolve?_eq_of_normalize_eq (h : base.normalize = base'.normalize) (reference : String) :
    settings.resolve? store reference base = settings.resolve? store reference base' := by
  have hjoin : (base.join ⟨reference⟩).normalize = (base'.join ⟨reference⟩).normalize := by
    rw [← Path.normalize_join, h, Path.normalize_join]
  rw [resolve?, resolve?, hjoin, moduleAt?, moduleAt?, moduleSearchPaths, moduleSearchPaths, h]

theorem placeAt?_join_eq_of_normalize_eq (h : base.normalize = base'.normalize) (entry : Path) :
    settings.placeAt? store (base.join entry).normalize =
      settings.placeAt? store (base'.join entry).normalize := by
  rw [← Path.normalize_join, h, Path.normalize_join]

end Settings

/-- Normal forms are canonical: they keep the root, hold no dots, hold double dots only in front of
names and only without a root, are written in the plainest way, and are their own normal forms.  A
path taken from a directory has the normal form that it has when it is taken from the normal form of
the directory.  So references and entries stand for the same files however the directory is written
that they are taken from. -/
theorem Path.normalize_canonical (p q : Path) :
    (p.normalize.isAbsolute = p.isAbsolute ∧
      .current ∉ p.normalize.components ∧
      (∃ (height : Nat) (names : List String), p.normalize.components =
        (if p.isAbsolute then [.root] else List.replicate height .parent) ++ names.map .normal) ∧
      p.normalize = .ofComponents p.normalize.components ∧
      p.normalize.normalize = p.normalize) ∧
    (p.join q).normalize = (p.normalize.join q).normalize ∧
    ∀ (κ σ : Type) [FileStore σ] (settings : Settings κ) (store : σ) (p' : Path),
      p.normalize = p'.normalize →
      (∀ reference, Settings.Alike (settings.resolve store reference p)
        (settings.resolve store reference p')) ∧
      Settings.Alike (settings.resolveEntry store q p) (settings.resolveEntry store q p') := by
  obtain ⟨height, names, hcomponents⟩ := p.components_normalize_eq
  refine ⟨⟨p.isAbsolute_normalize, ?_, ⟨height, names, hcomponents⟩, ?_, p.normalize_normalize⟩,
    (p.normalize_join q).symm, ?_⟩
  · rw [hcomponents]
    split <;> simp
  · rw [components_normalize]
    rfl
  · intro κ σ _ settings store p' hsame
    constructor
    · intro reference
      rw [Settings.resolve_eq_elim, Settings.resolve_eq_elim, Settings.alike_elim_iff]
      exact Settings.resolve?_eq_of_normalize_eq hsame reference
    · rw [Settings.resolveEntry_eq_elim, Settings.resolveEntry_eq_elim, Settings.alike_elim_iff]
      exact Settings.placeAt?_join_eq_of_normalize_eq hsame q

/-- A footer that is shared by absolute paths, and a kit in a module directory further up. -/
def Path.footerFiles : FileTree :=
  .ofList [(⟨"/app/shared/footer.html"⟩, ""), (⟨"../node_modules/kit.html"⟩, "")]

theorem Path.normalize_canonical_footerFiles :
    (normalize ⟨"/app/./kit/../views"⟩ = normalize ⟨"/app//views/"⟩ ∧
      Settings.Alike
        (Settings.standard.resolve footerFiles "../shared/footer" ⟨"/app/./kit/../views"⟩)
        (Settings.standard.resolve footerFiles "../shared/footer" ⟨"/app//views/"⟩) ∧
      Settings.standard.resolve footerFiles "../shared/footer" ⟨"/app//views/"⟩ =
        .ok ⟨"/app/shared/footer.html"⟩) ∧
    normalize ⟨"lib/../../lib/.."⟩ = normalize ⟨"./.."⟩ ∧
      Settings.Alike (Settings.standard.resolve footerFiles "kit" ⟨"lib/../../lib/.."⟩)
        (Settings.standard.resolve footerFiles "kit" ⟨"./.."⟩) ∧
      Settings.standard.resolve footerFiles "kit" ⟨"./.."⟩ = .ok ⟨"../node_modules/kit.html"⟩ := by
  have hviews : normalize ⟨"/app/./kit/../views"⟩ = normalize ⟨"/app//views/"⟩ := by decide +kernel
  have hlib : normalize ⟨"lib/../../lib/.."⟩ = normalize ⟨"./.."⟩ := by decide +kernel
  refine ⟨⟨hviews, ?_, by decide +kernel⟩, hlib, ?_, by decide +kernel⟩
  · exact ((normalize_canonical ⟨"/app/./kit/../views"⟩ ⟨""⟩).2.2 _ _ _ _ _ hviews).1 _
  · exact ((normalize_canonical ⟨"lib/../../lib/.."⟩ ⟨""⟩).2.2 _ _ _ _ _ hlib).1 _

end ViewBundle
