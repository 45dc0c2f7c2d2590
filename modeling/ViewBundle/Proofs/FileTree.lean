import Mathlib.Data.List.Perm.Basic
import ViewBundle.FileTree
import ViewBundle.Proofs.Ancestors

/-!
# The directories of a file tree

An insertion adds the ancestors of a file only up to the first one that is already a directory.
Nothing is lost by that: the directories of a tree are at any time exactly the proper ancestors of
its files (`wellFormed_ofList`).  So what is a directory, and how many files there are, follow from
which paths are files (`isDirectory_eq_of_isFile_eq`, `length_files_eq_of_isFile_eq`).
-/

namespace ViewBundle

namespace FileTree

/-! ## Insertions -/

theorem keys_putFile (components : List Component) (contents : String)
    (files : List (List Component × String)) :
    (putFile components contents files).map Prod.fst =
      if components ∈ files.map Prod.fst then files.map Prod.fst
      else files.map Prod.fst ++ [components] := by
  induction files with
  | nil => simp [putFile]
  | cons file rest ih =>
    by_cases hkey : file.1 = components
    · simp [putFile, hkey]
    · have hne : components ≠ file.1 := Ne.symm hkey
      rw [putFile, if_neg hkey, List.map_cons, ih, List.map_cons]
      by_cases hmem : components ∈ rest.map Prod.fst
      · rw [if_pos hmem, if_pos (List.mem_cons_of_mem _ hmem)]
      · rw [if_neg hmem, if_neg (by simp [hne, hmem]), List.cons_append]

theorem mem_keys_putFile_iff (components other : List Component) (contents : String)
    (files : List (List Component × String)) :
    other ∈ (putFile components contents files).map Prod.fst ↔
      other ∈ files.map Prod.fst ∨ other = components := by
  rw [keys_putFile]
  split
  · next hmem =>
    constructor
    · exact Or.inl
    · rintro (h | rfl)
      · exact h
      · exact hmem
  · rw [List.mem_append, List.mem_singleton]

/-- Directories are added to those known before until one of them is known.  Those around it are
known as well, because everything shorter than the file was closed under going outwards. -/
theorem mem_addDirectories_iff (known : List (List Component)) (components : List Component)
    (hclosed : ∀ directory ∈ known, directory.length < components.length →
      ∀ outer ∈ Component.properAncestors directory, outer ∈ known)
    (other : List Component) :
    other ∈ addDirectories known (Component.properAncestors components) ↔
      other ∈ known ∨ other ∈ Component.properAncestors components := by
  induction components using Component.properAncestorsInduction generalizing known with
  | alone components hnil => simp [hnil, addDirectories]
  | inside nearest last hcons ih =>
    have hlength : (nearest ++ [last]).length = nearest.length + 1 := List.length_append
    rw [hcons]
    by_cases hknown : nearest ∈ known
    · -- Here the walk stops, and the directories around this one are known already.
      rw [addDirectories, if_pos hknown]
      constructor
      · exact Or.inl
      · rintro (h | h)
        · exact h
        · rcases List.mem_cons.1 h with rfl | h
          · exact hknown
          · exact hclosed nearest hknown (by omega) other h
    · -- The added directory is as long as the next path to go up from, so nothing is asked of it.
      have hclosed' : ∀ directory ∈ known ++ [nearest], directory.length < nearest.length →
          ∀ outer ∈ Component.properAncestors directory, outer ∈ known ++ [nearest] := by
        intro directory hdirectory hshorter outer houter
        rcases List.mem_append.1 hdirectory with hdirectory | hdirectory
        · exact List.mem_append_left _ (hclosed directory hdirectory (by omega) outer houter)
        · rw [List.mem_singleton.1 hdirectory] at hshorter
          omega
      rw [addDirectories, if_neg hknown, ih (known ++ [nearest]) hclosed', List.mem_append,
        List.mem_singleton, List.mem_cons, or_assoc]

/-! ## The invariant of insertions -/

/-- What every tree that insertions leave satisfies. -/
structure WellFormed (tree : FileTree) : Prop where
  /-- No path is kept twice. -/
  nodup_files : (tree.files.map Prod.fst).Nodup
  /-- The components of a file are those of a path as it can be written. -/
  exists_path : ∀ components ∈ tree.files.map Prod.fst, ∃ path : Path, path.components = components
  /-- The directories are the proper ancestors of the files. -/
  mem_directories_iff : ∀ directory, directory ∈ tree.directories ↔
    ∃ components ∈ tree.files.map Prod.fst, directory ∈ Component.properAncestors components

theorem wellFormed_empty : WellFormed empty where
  nodup_files := by simp [empty]
  exists_path := by simp [empty]
  mem_directories_iff := by simp [empty]

theorem WellFormed.insert {tree : FileTree} (h : tree.WellFormed) (path : Path)
    (contents : String) : (tree.insert path contents).WellFormed := by
  refine ⟨?_, ?_, ?_⟩
  · show ((putFile path.components contents tree.files).map Prod.fst).Nodup
    rw [keys_putFile]
    split
    · exact h.nodup_files
    · next hnew =>
      refine List.nodup_append.2 ⟨h.nodup_files, by simp, ?_⟩
      intro key hkey other hother
      rw [List.mem_singleton.1 hother]
      exact fun heq => hnew (heq ▸ hkey)
  · intro components hcomponents
    rcases (mem_keys_putFile_iff _ _ _ _).1 hcomponents with hold | rfl
    · exact h.exists_path components hold
    · exact ⟨path, rfl⟩
  · intro directory
    have hclosed : ∀ known ∈ tree.directories, known.length < path.components.length →
        ∀ outer ∈ Component.properAncestors known, outer ∈ tree.directories := by
      intro known hknown _ outer houter
      obtain ⟨components, hfile, hmem⟩ := (h.mem_directories_iff known).1 hknown
      exact (h.mem_directories_iff outer).2
        ⟨components, hfile, Component.mem_properAncestors_trans hmem houter⟩
    show directory ∈ addDirectories tree.directories _ ↔ ∃ components ∈
      (putFile path.components contents tree.files).map Prod.fst, _
    rw [mem_addDirectories_iff _ _ hclosed, h.mem_directories_iff]
    constructor
    · rintro (⟨components, hfile, hmem⟩ | hmem)
      · exact ⟨components, (mem_keys_putFile_iff _ _ _ _).2 (Or.inl hfile), hmem⟩
      · exact ⟨_, (mem_keys_putFile_iff _ _ _ _).2 (Or.inr rfl), hmem⟩
    · rintro ⟨components, hfile, hmem⟩
      rcases (mem_keys_putFile_iff _ _ _ _).1 hfile with hold | rfl
      · exact Or.inl ⟨components, hold, hmem⟩
      · exact Or.inr hmem

theorem wellFormed_ofList (files : List (Path × String)) : (ofList files).WellFormed := by
  unfold ofList
  have hfold (tree : FileTree) (h : tree.WellFormed) :
      (files.foldl (fun tree file => tree.insert file.1 file.2) tree).WellFormed := by
    induction files generalizing tree with
    | nil => exact h
    | cons file rest ih => exact ih _ (h.insert file.1 file.2)
  exact hfold empty wellFormed_empty

/-- There is a file where one was inserted, and nowhere else. -/
theorem mem_keys_ofList_iff (files : List (Path × String)) (components : List Component) :
    components ∈ (ofList files).files.map Prod.fst ↔
      components ∈ files.map fun file => file.1.components := by
  unfold ofList
  have hfold (tree : FileTree) : components ∈ (files.foldl (fun tree file =>
      tree.insert file.1 file.2) tree).files.map Prod.fst ↔
        components ∈ tree.files.map Prod.fst ∨
          components ∈ files.map fun file => file.1.components := by
    induction files generalizing tree with
    | nil => simp
    | cons file rest ih =>
      rw [List.foldl_cons, ih, List.map_cons, List.mem_cons, ← or_assoc]
      exact or_congr_left (mem_keys_putFile_iff _ _ _ _)
  rw [hfold]
  simp [empty]

/-! ## What the files alone decide -/

theorem read_eq_ok_iff {tree : FileTree} {path : Path} {text : String} :
    FileStore.read tree path = .ok text ↔ tree.contents? path = some text := by
  show tree.read path = .ok text ↔ _
  unfold read
  cases tree.contents? path <;> simp

theorem isFile_iff (tree : FileTree) (path : Path) :
    tree.isFile path = true ↔ path.components ∈ tree.files.map Prod.fst := by
  unfold isFile contents?
  induction tree.files with
  | nil => simp
  | cons file rest ih =>
    obtain ⟨key, contents⟩ := file
    by_cases hkey : path.components = key
    · simp [hkey]
    · rw [List.lookup_cons, beq_false_of_ne hkey, ih, List.map_cons, List.mem_cons]
      simp [hkey]

theorem isDirectory_iff (tree : FileTree) (path : Path) :
    tree.isDirectory path = true ↔ path.components ∈ tree.directories := by
  rw [isDirectory, List.contains_iff_mem]

variable {tree₁ tree₂ : FileTree}

theorem mem_files_iff_of_isFile_eq (h₁ : tree₁.WellFormed) (h₂ : tree₂.WellFormed)
    (hsame : ∀ path, tree₁.isFile path = tree₂.isFile path) (components : List Component) :
    components ∈ tree₁.files.map Prod.fst ↔ components ∈ tree₂.files.map Prod.fst := by
  have hiff (path : Path) : path.components ∈ tree₁.files.map Prod.fst ↔
      path.components ∈ tree₂.files.map Prod.fst := by
    rw [← isFile_iff, ← isFile_iff, hsame]
  constructor
  · intro hmem
    obtain ⟨path, rfl⟩ := h₁.exists_path components hmem
    exact (hiff path).1 hmem
  · intro hmem
    obtain ⟨path, rfl⟩ := h₂.exists_path components hmem
    exact (hiff path).2 hmem

/-- Trees with the same files have the same directories. -/
theorem isDirectory_eq_of_isFile_eq (h₁ : tree₁.WellFormed) (h₂ : tree₂.WellFormed)
    (hsame : ∀ path, tree₁.isFile path = tree₂.isFile path) (path : Path) :
    tree₁.isDirectory path = tree₂.isDirectory path := by
  rw [Bool.eq_iff_iff, isDirectory_iff, isDirectory_iff, h₁.mem_directories_iff,
    h₂.mem_directories_iff]
  simp only [mem_files_iff_of_isFile_eq h₁ h₂ hsame]

/-- Trees with the same files have equally many of them. -/
theorem length_files_eq_of_isFile_eq (h₁ : tree₁.WellFormed) (h₂ : tree₂.WellFormed)
    (hsame : ∀ path, tree₁.isFile path = tree₂.isFile path) :
    tree₁.files.length = tree₂.files.length := by
  -- Neither list of paths repeats one, so having the same members makes them permutations.
  have hperm : (tree₁.files.map Prod.fst).Perm (tree₂.files.map Prod.fst) :=
    (List.perm_ext_iff_of_nodup h₁.nodup_files h₂.nodup_files).2
      (mem_files_iff_of_isFile_eq h₁ h₂ hsame)
  simpa using hperm.length_eq

end FileTree

end ViewBundle
