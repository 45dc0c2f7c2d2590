import ViewBundle.Program

/-!
# Writing to a disk

Making directories puts directories where nothing was (`onlyDirectories_makeDirectories`), and
writing a file puts a file where no directory was.  So the way to a place is the same before and
after, and a file that has been written is read back, while every other file is left as it was
(`stores_of_write`).
-/

namespace ViewBundle

namespace Disk

/-! ## What stands where -/

theorem lookup_putNode (location other : Location) (node : DiskNode)
    (entries : List (Location × DiskNode)) :
    (putNode location node entries).lookup other =
      if other = location then some node else entries.lookup other := by
  induction entries with
  | nil =>
    by_cases h : other = location
    · simp [putNode, h]
    · simp [putNode, h, List.lookup_cons, beq_false_of_ne h]
  | cons entry entries ih =>
    obtain ⟨first, value⟩ := entry
    by_cases hfirst : first = location
    · subst hfirst
      by_cases h : other = first
      · simp [putNode, h]
      · simp [putNode, h, List.lookup_cons, beq_false_of_ne h]
    · by_cases h : other = first
      · subst h
        simp [putNode, hfirst]
      · simp [putNode, hfirst, List.lookup_cons, beq_false_of_ne h, ih]

theorem node?_put (disk : Disk) {location : Location} (hlocation : location ≠ [])
    (node : DiskNode) (other : Location) :
    (disk.put location node).node? other =
      if other = location then some node else disk.node? other := by
  unfold node?
  by_cases hroot : other = []
  · rw [if_pos hroot, if_pos hroot, if_neg fun h => hlocation (h.symm.trans hroot)]
  · rw [if_neg hroot, if_neg hroot]
    exact lookup_putNode location other node disk.nodes

theorem ne_nil_of_node?_ne_directory {disk : Disk} {location : Location}
    (h : disk.node? location ≠ some .directory) : location ≠ [] := by
  rintro rfl
  exact h rfl

/-! ## Directories that are made -/

/-- Two disks differ in directories alone, which stand on the second one where nothing stands on the
first one. -/
structure OnlyDirectories (disk later : Disk) : Prop where
  workingDirectory_eq : later.workingDirectory = disk.workingDirectory
  node?_eq : ∀ location, later.node? location = disk.node? location ∨
    disk.node? location = none ∧ later.node? location = some .directory

theorem OnlyDirectories.refl (disk : Disk) : disk.OnlyDirectories disk :=
  ⟨rfl, fun _ => .inl rfl⟩

theorem OnlyDirectories.trans {disk later last : Disk} (h : disk.OnlyDirectories later)
    (h' : later.OnlyDirectories last) : disk.OnlyDirectories last where
  workingDirectory_eq := h'.workingDirectory_eq.trans h.workingDirectory_eq
  node?_eq := by
    intro location
    rcases h.node?_eq location with heq | ⟨hnone, hmade⟩
    · rw [← heq]
      exact h'.node?_eq location
    · rcases h'.node?_eq location with heq' | ⟨hnone', -⟩
      · exact .inr ⟨hnone, heq'.trans hmade⟩
      · cases hmade.symm.trans hnone'

/-- The same files with the same bytes stand on two disks. -/
def SameFiles (disk other : Disk) : Prop :=
  ∀ location bytes,
    disk.node? location = some (.file bytes) ↔ other.node? location = some (.file bytes)

theorem OnlyDirectories.sameFiles {disk later : Disk} (h : disk.OnlyDirectories later) :
    later.SameFiles disk := by
  intro location bytes
  rcases h.node?_eq location with heq | ⟨hnone, hmade⟩
  · rw [heq]
  · simp [hnone, hmade]

theorem onlyDirectories_makeDirectoriesFrom {disk later : Disk} {location : Location}
    {components : List Component}
    (h : disk.makeDirectoriesFrom location components = some later) :
    disk.OnlyDirectories later := by
  induction components generalizing disk location with
  | nil =>
    obtain rfl := Option.some.inj h
    exact .refl disk
  | cons component more ih =>
    rw [makeDirectoriesFrom] at h
    cases hnext : disk.node? (enter location component) with
    | none =>
      simp only [hnext] at h
      have hput : disk.OnlyDirectories (disk.put (enter location component) .directory) := by
        have hplace : disk.node? (enter location component) ≠ some .directory := by simp [hnext]
        refine ⟨rfl, fun other => ?_⟩
        rw [node?_put disk (ne_nil_of_node?_ne_directory hplace)]
        split
        · next heq => exact .inr ⟨heq ▸ hnext, rfl⟩
        · exact .inl rfl
      exact hput.trans (ih h)
    | some node =>
      cases node with
      | directory =>
        simp only [hnext] at h
        exact ih h
      | file bytes => simp [hnext] at h

theorem onlyDirectories_makeDirectories {disk later : Disk} {path : Path}
    (h : disk.makeDirectories path = some later) : disk.OnlyDirectories later := by
  unfold makeDirectories at h
  split at h
  · exact onlyDirectories_makeDirectoriesFrom h
  · cases h

/-! ## The way to a place -/

/-- What is a directory on a disk is one on a later disk, and paths begin where they began. -/
structure KeepsDirectories (disk later : Disk) : Prop where
  workingDirectory_eq : later.workingDirectory = disk.workingDirectory
  node?_eq_directory : ∀ location, disk.node? location = some .directory →
    later.node? location = some .directory

/-- A way through directories stays where they stay. -/
theorem KeepsDirectories.walk_eq_some {disk later : Disk} (hkept : disk.KeepsDirectories later)
    {location target : Location} {components : List Component}
    (h : disk.walk location components = some target) :
    later.walk location components = some target := by
  induction components generalizing location with
  | nil => exact h
  | cons component more ih =>
    rw [walk] at h ⊢
    split at h
    · next hdirectory =>
      rw [if_pos (hkept.node?_eq_directory location hdirectory)]
      exact ih h
    · cases h

theorem KeepsDirectories.locate_eq_some {disk later : Disk} (hkept : disk.KeepsDirectories later)
    {path : Path} {target : Location} (h : disk.locate path = some target) :
    later.locate path = some target := by
  have hstart : later.start path = disk.start path := by
    rw [start, start, hkept.workingDirectory_eq]
  unfold locate at h ⊢
  split at h
  · next hshort =>
    rw [if_pos hshort, hstart]
    exact hkept.walk_eq_some h
  · cases h

theorem OnlyDirectories.keepsDirectories {disk later : Disk} (h : disk.OnlyDirectories later) :
    disk.KeepsDirectories later where
  workingDirectory_eq := h.workingDirectory_eq
  node?_eq_directory := by
    intro location hdirectory
    rcases h.node?_eq location with heq | ⟨hnone, -⟩
    · exact heq.trans hdirectory
    · cases hnone.symm.trans hdirectory

/-- Directories are kept if something is put where there is none. -/
theorem keepsDirectories_put {disk : Disk} {location : Location}
    (h : disk.node? location ≠ some .directory) (node : DiskNode) :
    disk.KeepsDirectories (disk.put location node) where
  workingDirectory_eq := rfl
  node?_eq_directory := by
    intro other hother
    have hne : other ≠ location := by
      rintro rfl
      exact h hother
    rw [node?_put disk (ne_nil_of_node?_ne_directory h), if_neg hne, hother]

theorem read_eq_ok_iff {disk : Disk} {path : Path} {text : String} :
    disk.read path = .ok text ↔ ∃ location bytes, disk.locate path = some location ∧
      disk.node? location = some (.file bytes) ∧ namesDirectory path = false ∧
      String.fromUTF8? bytes = some text := by
  unfold read at?
  cases hlocate : disk.locate path with
  | none => simp
  | some location =>
    cases hnode : disk.node? location with
    | none => simp [hnode]
    | some node =>
      cases node with
      | directory => simp [hnode]
      | file bytes =>
        cases hnames : namesDirectory path with
        | true => simp [hnode]
        | false =>
          cases htext : String.fromUTF8? bytes with
          | none => simp [hnode, htext]
          | some found => simp [hnode, htext]

/-! ## Files that are written -/

theorem fromUTF8?_toUTF8 (text : String) : String.fromUTF8? text.toUTF8 = some text := by
  have hvalid : text.toByteArray.IsValidUTF8 := text.isValidUTF8
  simp [String.fromUTF8?, String.fromUTF8, hvalid]

theorem write_eq_some {disk later : Disk} {path : Path} {text : String}
    (h : disk.write path text = some later) :
    ∃ location, disk.locate path = some location ∧ disk.node? location ≠ some .directory ∧
      namesDirectory path = false ∧ later = disk.put location (.file text.toUTF8) := by
  unfold write at h
  split at h
  · cases hnames : namesDirectory path with
    | true => simp [hnames] at h
    | false =>
      rw [hnames, if_neg Bool.false_ne_true] at h
      split at h
      · cases h
      · next location hlocate =>
        split at h
        · cases h
        · next hplace =>
          rw [not_or] at hplace
          exact ⟨location, hlocate, hplace.1, rfl, (Option.some.inj h).symm⟩
  · cases h

/-- A text is stored in a file, and no other file is touched. -/
structure Stores (disk : Disk) (file : Path) (text : String) (later : Disk) : Prop where
  read_eq : later.read file = .ok text
  node?_iff : ∀ location, later.locate file ≠ some location → ∀ bytes,
    later.node? location = some (.file bytes) ↔ disk.node? location = some (.file bytes)

theorem stores_of_write {disk later : Disk} {file : Path} {text : String}
    (h : disk.write file text = some later) : disk.Stores file text later := by
  obtain ⟨location, hlocate, hplace, hnames, rfl⟩ := write_eq_some h
  have hput := node?_put disk (ne_nil_of_node?_ne_directory hplace) (.file text.toUTF8)
  have hlater : (disk.put location (.file text.toUTF8)).locate file = some location :=
    (keepsDirectories_put hplace (.file text.toUTF8)).locate_eq_some hlocate
  constructor
  · refine read_eq_ok_iff.2 ⟨location, text.toUTF8, hlater, ?_, hnames, fromUTF8?_toUTF8 text⟩
    rw [hput, if_pos rfl]
  · intro other hother bytes
    have hne : other ≠ location := by
      rintro rfl
      exact hother hlater
    rw [hput, if_neg hne]

namespace OnlyDirectories

theorem read_eq_ok {disk later : Disk} (h : disk.OnlyDirectories later) {path : Path}
    {text : String} (htext : disk.read path = .ok text) : later.read path = .ok text := by
  obtain ⟨location, bytes, hlocate, hnode, hnames, hbytes⟩ := read_eq_ok_iff.1 htext
  exact read_eq_ok_iff.2
    ⟨location, bytes, h.keepsDirectories.locate_eq_some hlocate,
      (h.sameFiles location bytes).2 hnode, hnames, hbytes⟩

/-- A file is stored just as well if directories have been made before. -/
theorem stores {disk between later : Disk} {file : Path} {text : String}
    (h : disk.OnlyDirectories between) (hstores : between.Stores file text later) :
    disk.Stores file text later where
  read_eq := hstores.read_eq
  node?_iff location hlocation bytes :=
    (hstores.node?_iff location hlocation bytes).trans (h.sameFiles location bytes)

end OnlyDirectories

/-- A file stays stored if directories are made later on. -/
theorem Stores.onlyDirectories {disk between later : Disk} {file : Path} {text : String}
    (h : disk.Stores file text between) (hmade : between.OnlyDirectories later) :
    disk.Stores file text later where
  read_eq := hmade.read_eq_ok h.read_eq
  node?_iff location hlocation bytes := by
    have helsewhere : between.locate file ≠ some location := fun hbefore =>
      hlocation (hmade.keepsDirectories.locate_eq_some hbefore)
    exact (hmade.sameFiles location bytes).trans (h.node?_iff location helsewhere bytes)

end Disk

end ViewBundle
