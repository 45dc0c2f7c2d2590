import Mathlib.Data.List.TakeWhile
import ViewBundle.Proofs.FileTree
import ViewBundle.Proofs.Loading

/-!
# Nested imports

The files that are being loaded at one time are pairwise different, and all of them can be read.  So
in a tree there are never more of them than files, and imports are never nested more deeply than a
load allows for (`loadNested_ne_nestingTooDeep`): the bound on the depth is no cause of failure, and
only a compiler of its own making could give it as one.
-/

namespace ViewBundle

/-! ## Chains of files -/

theorem chainFrom_eq_nil_iff {file : Path} {chain : List Path} :
    chainFrom file chain = [] ↔ ∀ earlier ∈ chain, ¬earlier.Same file := by
  simp [chainFrom, List.dropWhile_eq_nil_iff]

/-- A chain that comes back to a file is taken from the file on. -/
theorem chainFrom_eq_cons {file first : Path} {chain circle : List Path}
    (h : chainFrom file chain = first :: circle) :
    first.Same file ∧ first :: circle <:+ chain := by
  unfold chainFrom at h
  have hsuffix := List.dropWhile_suffix (fun earlier : Path => !decide (earlier.Same file))
    (l := chain)
  have hfirst := List.head_dropWhile_not (fun earlier : Path => !decide (earlier.Same file))
    (l := chain) (by simp [h])
  rw [h] at hsuffix
  exact ⟨by simpa [h] using hfirst, hsuffix⟩

/-! ## Why a single file cannot be read -/

/-- Whether a cause lies in how files import one another, and not in one file by itself. -/
def Failure.isOfChain : Failure → Bool
  | importCycle _ => true
  | nestingTooDeep _ => true
  | _ => false

variable {κ σ : Type} [FileStore σ] {settings : Settings κ} {store : σ}

theorem Settings.isOfChain_of_resolve {reference : String} {base : Path} {failure : Failure}
    (h : settings.resolve store reference base = .error failure) : failure.isOfChain = false := by
  unfold resolve at h
  split at h
  · contradiction
  · obtain rfl := Except.error.inj h
    rfl

namespace ViewFile

theorem isOfChain_of_importOf {origin : Origin} {tag : String} {attributes : Markup.Attributes}
    {failure : Failure} (h : importOf settings store origin tag attributes = .error failure) :
    failure.isOfChain = false := by
  unfold importOf at h
  split at h
  · obtain rfl := Except.error.inj h
    rfl
  · rcases Outcome.bind_eq_error_iff.1 h with h | ⟨file, -, h⟩
    · exact Settings.isOfChain_of_resolve h
    · cases h

theorem isOfChain_of_ofTokens {origin : Origin} {pending : Option Opened}
    {tokens : List Markup.Token} {failure : Failure}
    (h : ofTokens settings store origin pending tokens = .error failure) :
    failure.isOfChain = false := by
  induction tokens generalizing pending with
  | nil => cases h
  | cons token more ih =>
    cases token with
    | opening source name attributes =>
      rw [ofTokens] at h
      split at h
      · obtain rfl := Except.error.inj h
        rfl
      · rcases Outcome.bind_eq_error_iff.1 h with h | ⟨imports, -, h⟩
        · unfold Opened.imports at h
          split at h
          · exact isOfChain_of_importOf (Outcome.map_eq_error_iff.1 h)
          · cases h
        · rcases Outcome.bind_eq_error_iff.1 h with h | ⟨later, -, h⟩
          · exact ih h
          · cases h
    | body text =>
      rcases Outcome.bind_eq_error_iff.1 h with h | ⟨later, -, h⟩
      · exact ih h
      · cases h
    | plain text => exact ih h
    | closing source name => exact ih h
    | silent source => exact ih h

end ViewFile

/-- Compilers that are known by name know nothing of how files import one another. -/
theorem Compilers.compile_ne_error (compilers : Compilers Compiler) {failure : Failure}
    (hchain : failure.isOfChain = true) (extension text : String) (file : Path) :
    compilers.compile extension text file ≠ .error failure := by
  intro h
  unfold compile at h
  split at h
  · cases h
  · obtain rfl := Except.error.inj h
    cases hchain

/-- A file by itself is only refused for how files import one another if its compiler does so. -/
theorem Settings.compile_eq_error_of_readFile [CompilerKind κ] {file : Path}
    {scope : Option String} {failure : Failure} (hchain : failure.isOfChain = true)
    (h : settings.readFile store file scope = .error failure) :
    ∃ text, FileStore.read store file = .ok text ∧
      settings.compilers.compile file.dottedExtension text file = .error failure := by
  rcases Outcome.bind_eq_error_iff.1 h with h | ⟨text, htext, h⟩
  · obtain ⟨cause, -, rfl⟩ := Outcome.mapError_eq_error_iff.1 h
    cases hchain
  rcases Outcome.bind_eq_error_iff.1 h with h | ⟨markup, -, h⟩
  · exact ⟨text, Outcome.mapError_eq_ok_iff.1 htext, h⟩
  rcases Outcome.bind_eq_error_iff.1 h with h | ⟨contents, -, h⟩
  · exact absurd hchain (by simp [ViewFile.isOfChain_of_ofTokens h])
  · cases h

/-! ## The depth of a load -/

/-- Pairwise different files of a tree. -/
structure FileTree.HasChain (files : FileTree) (chain : List Path) : Prop where
  nodup : (chain.map Path.components).Nodup
  subset : chain.map Path.components ⊆ files.files.map Prod.fst

namespace FileTree.HasChain

variable {files : FileTree} {chain : List Path}

theorem nil (files : FileTree) : files.HasChain [] :=
  ⟨List.nodup_nil, List.nil_subset _⟩

theorem length_le (h : files.HasChain chain) : chain.length ≤ files.files.length := by
  simpa using h.nodup.length_le_of_subset h.subset

/-- A file that is read while others are being loaded is one more file of the tree. -/
theorem append (h : files.HasChain chain) {file : Path} {text : String}
    (hfresh : chainFrom file chain = []) (hread : FileStore.read files file = .ok text) :
    files.HasChain (chain ++ [file]) := by
  have hfile : file.components ∈ files.files.map Prod.fst := by
    rw [← isFile_iff, isFile, read_eq_ok_iff.1 hread]
    rfl
  have hnotMem : file.components ∉ chain.map Path.components := by
    intro hmem
    obtain ⟨earlier, hearlier, hsame⟩ := List.mem_map.1 hmem
    exact chainFrom_eq_nil_iff.1 hfresh earlier hearlier hsame
  constructor
  · rw [List.map_append, List.map_singleton]
    exact List.nodup_append.2 ⟨h.nodup, by simp, by
      intro components hcomponents other hother heq
      rw [List.mem_singleton.1 hother] at heq
      exact hnotMem (heq ▸ hcomponents)⟩
  · rw [List.map_append, List.map_singleton]
    exact List.append_subset.2 ⟨h.subset, by simpa using hfile⟩

theorem pairwise (h : files.HasChain chain) :
    chain.Pairwise fun earlier later => ¬earlier.Same later :=
  List.pairwise_map.1 h.nodup

theorem isFile (h : files.HasChain chain) {file : Path} (hfile : file ∈ chain) :
    files.isFile file = true :=
  (isFile_iff files file).2 (h.subset (List.mem_map_of_mem hfile))

end FileTree.HasChain

/-- Pairwise different files of a tree, behind which so many levels are left that there is one for
each other file of the tree, and one to come back to a file. -/
structure FileTree.LeavesRoom (files : FileTree) (levels : Nat) (chain : List Path) : Prop where
  hasChain : files.HasChain chain
  length_lt : files.files.length < chain.length + levels

namespace FileTree.LeavesRoom

variable {files : FileTree} {levels : Nat} {chain : List Path}

theorem nil (h : files.files.length < levels) : files.LeavesRoom levels [] :=
  ⟨.nil files, by rwa [List.length_nil, Nat.zero_add]⟩

theorem exists_eq_succ (h : files.LeavesRoom levels chain) : ∃ below, levels = below + 1 := by
  have hle := h.hasChain.length_le
  have hlt := h.length_lt
  exact Nat.exists_eq_add_of_le' (by omega)

/-- A file that is read takes up one level and is one more file of the chain. -/
theorem append (h : files.LeavesRoom (levels + 1) chain) {file : Path} {text : String}
    (hfresh : chainFrom file chain = []) (hread : FileStore.read files file = .ok text) :
    files.LeavesRoom levels (chain ++ [file]) where
  hasChain := h.hasChain.append hfresh hread
  length_lt := by
    have hlt := h.length_lt
    rw [List.length_append, List.length_singleton]
    omega

end FileTree.LeavesRoom

namespace Settings

variable [CompilerKind κ] {files : FileTree}

theorem loadNested_ne_nestingTooDeep {levels : Nat} {chain : List Path}
    (hroom : files.LeavesRoom levels chain) {deep : Path}
    (hcompilers : ∀ extension text file,
      settings.compilers.compile extension text file ≠ .error (.nestingTooDeep deep))
    (file : Path) (scope : Option String) :
    settings.loadNested files levels chain file scope ≠ .error (.nestingTooDeep deep) := by
  -- Every level that is used up makes the chain longer by one file.
  induction levels generalizing chain file scope with
  | zero =>
    obtain ⟨below, hbelow⟩ := hroom.exists_eq_succ
    contradiction
  | succ levels ih =>
    intro h
    rcases loadNested_eq_error_iff.1 h with ⟨first, circle, -, hcycle⟩ | ⟨hfresh, hread | h⟩
    · cases hcycle
    · obtain ⟨text, -, hcompile⟩ := compile_eq_error_of_readFile rfl hread
      exact hcompilers _ _ _ hcompile
    · obtain ⟨text, contents, before, entry, after, hread, -, -, hentry⟩ := h
      exact ih (hroom.append hfresh (read_of_readFile hread)) entry.file entry.scope hentry

/-- Loading a file of a tree never comes to the bound on the depth of imports. -/
theorem loadFile_ne_nestingTooDeep (settings : Settings Compiler) (file : Path)
    (scope : Option String) (deep : Path) :
    settings.loadFile files file scope ≠ .error (.nestingTooDeep deep) :=
  loadNested_ne_nestingTooDeep (.nil (Nat.lt_succ_self _))
    (settings.compilers.compile_ne_error rfl) file scope

end Settings

end ViewBundle
