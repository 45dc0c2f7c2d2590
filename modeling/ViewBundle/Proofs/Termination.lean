import Mathlib.Data.List.Chain
import Mathlib.Data.List.Dedup
import ViewBundle.Proofs.Nesting

/-!
# Loads end

A load follows the imports that files are written with, and neither the files nor their scopes get
smaller on the way.  What gets smaller is the number of files that are not being loaded yet: the
files of a chain are pairwise different files of the tree, so that calls are nested at most one
deeper than there are files (`length_le_of_isChain_makes`).

Without a bound on the depth a load is a relation between imports and what loading them comes to
(`Loads`).  Every bound above the number of files leaves it as it is (`loads_iff`).  Main statement:
`loadFile_ends`.
-/

namespace ViewBundle

namespace Settings

/-! ## Loads without a bound on the depth -/

section Calls

variable {κ σ : Type} [CompilerKind κ] [FileStore σ]

/-- What loading imports one after the other comes to, however deeply their own imports are nested;
`chain` holds the files that are being loaded, outermost first. -/
inductive Loads (settings : Settings κ) (store : σ) :
    (chain : List Path) → (imports : List Import) → Except Failure (List Visit) → Prop
  /-- No import is left. -/
  | done {chain : List Path} : Loads settings store chain [] (.ok [])
  /-- The file is being loaded already. -/
  | cycle {chain : List Path} {entry : Import} {more : List Import} {first : Path}
      {circle : List Path} (hcircle : chainFrom entry.file chain = first :: circle) :
    Loads settings store chain (entry :: more)
      (.error (.importCycle (first :: circle ++ [entry.file])))
  /-- The file cannot be read. -/
  | unreadable {chain : List Path} {entry : Import} {more : List Import} {failure : Failure}
      (hfresh : chainFrom entry.file chain = [])
      (hread : settings.readFile store entry.file entry.scope = .error failure) :
    Loads settings store chain (entry :: more) (.error failure)
  /-- The imports of the file fail. -/
  | failed {chain : List Path} {entry : Import} {more : List Import} {text : String}
      {contents : ViewFile} {failure : Failure} (hfresh : chainFrom entry.file chain = [])
      (hread : settings.readFile store entry.file entry.scope = .ok (text, contents))
      (hnested : Loads settings store (chain ++ [entry.file]) contents.imports (.error failure)) :
    Loads settings store chain (entry :: more) (.error failure)
  /-- The file is visited behind its imports, and the other imports are loaded behind it. -/
  | visited {chain : List Path} {entry : Import} {more : List Import} {text : String}
      {contents : ViewFile} {imported : List Visit} {outcome : Except Failure (List Visit)}
      (hfresh : chainFrom entry.file chain = [])
      (hread : settings.readFile store entry.file entry.scope = .ok (text, contents))
      (hnested : Loads settings store (chain ++ [entry.file]) contents.imports (.ok imported))
      (hmore : Loads settings store chain more outcome) :
    Loads settings store chain (entry :: more)
      (outcome.map (imported ++ [⟨entry.file, Digest.hex text, contents.views⟩] ++ ·))

/-- One call to load a file while the files of a chain are being loaded. -/
structure Call where
  chain : List Path
  file : Path
  scope : Option String

/-- One call makes another one for each import of its file, here also for an import behind one that
fails. -/
def Call.Makes (settings : Settings κ) (store : σ) (call next : Call) : Prop :=
  chainFrom call.file call.chain = [] ∧ ∃ text contents,
    settings.readFile store call.file call.scope = .ok (text, contents) ∧
      ∃ entry ∈ contents.imports, next = ⟨call.chain ++ [call.file], entry.file, entry.scope⟩

/-! ## Loads with a bound on the depth -/

/-- The visits that loading imports one after the other takes, when they may be nested as deeply as
`levels` says. -/
def loadImports (settings : Settings κ) (store : σ) (levels : Nat) (chain : List Path)
    (imports : List Import) : Except Failure (List Visit) :=
  (imports.mapM fun entry => settings.loadNested store levels chain entry.file entry.scope).map
    List.flatten

variable {settings : Settings κ} {store : σ} {levels : Nat} {chain : List Path}

theorem loadImports_cons (entry : Import) (more : List Import) :
    settings.loadImports store levels chain (entry :: more) =
      settings.loadNested store levels chain entry.file entry.scope >>= fun visits =>
        (settings.loadImports store levels chain more).map (visits ++ ·) := by
  rw [loadImports, List.mapM_cons, loadImports]
  cases settings.loadNested store levels chain entry.file entry.scope with
  | error failure => rfl
  | ok visits =>
    cases more.mapM fun entry => settings.loadNested store levels chain entry.file entry.scope <;>
      rfl

theorem loadImports_singleton (entry : Import) :
    settings.loadImports store levels chain [entry] =
      settings.loadNested store levels chain entry.file entry.scope := by
  rw [loadImports_cons]
  cases settings.loadNested store levels chain entry.file entry.scope with
  | error failure => rfl
  | ok visits => exact congrArg Except.ok (List.append_nil visits)

theorem loadNested_of_unreadable {file : Path} {scope : Option String} {failure : Failure}
    (hfresh : chainFrom file chain = [])
    (hread : settings.readFile store file scope = .error failure) :
    settings.loadNested store (levels + 1) chain file scope = .error failure := by
  rw [loadNested, hfresh, hread]
  rfl

theorem loadNested_of_readFile {file : Path} {scope : Option String} {text : String}
    {contents : ViewFile} (hfresh : chainFrom file chain = [])
    (hread : settings.readFile store file scope = .ok (text, contents)) :
    settings.loadNested store (levels + 1) chain file scope =
      (settings.loadImports store levels (chain ++ [file]) contents.imports).map
        (· ++ [⟨file, Digest.hex text, contents.views⟩]) := by
  rw [loadNested, hfresh, hread, loadImports]
  show (contents.imports.mapM fun entry =>
    settings.loadNested store levels (chain ++ [file]) entry.file entry.scope) >>= _ = _
  cases contents.imports.mapM fun entry =>
    settings.loadNested store levels (chain ++ [file]) entry.file entry.scope <;> rfl

end Calls

/-! ## Loads in a tree -/

section Tree

variable {κ : Type} [CompilerKind κ] {settings : Settings κ} {files : FileTree} {levels : Nat}
  {chain : List Path} {imports : List Import} {outcome : Except Failure (List Visit)} {file : Path}
  {scope : Option String} {text : String} {contents : ViewFile}

theorem Loads.loadImports_eq (h : settings.Loads files chain imports outcome)
    (hroom : files.LeavesRoom levels chain) :
    settings.loadImports files levels chain imports = outcome := by
  induction h generalizing levels with
  | done => rfl
  | cycle hcircle =>
    obtain ⟨below, rfl⟩ := hroom.exists_eq_succ
    rw [loadImports_cons, loadNested, hcircle]
    rfl
  | unreadable hfresh hread =>
    obtain ⟨below, rfl⟩ := hroom.exists_eq_succ
    rw [loadImports_cons, loadNested_of_unreadable hfresh hread]
    rfl
  | failed hfresh hread _ ihnested =>
    obtain ⟨below, rfl⟩ := hroom.exists_eq_succ
    rw [loadImports_cons, loadNested_of_readFile hfresh hread,
      ihnested (hroom.append hfresh (read_of_readFile hread))]
    rfl
  | visited hfresh hread _ _ ihnested ihmore =>
    rw [loadImports_cons, ihmore hroom]
    obtain ⟨below, rfl⟩ := hroom.exists_eq_succ
    have hbelow := hroom.append hfresh (read_of_readFile hread)
    rw [loadNested_of_readFile hfresh hread, ihnested hbelow]
    rfl

theorem loads_loadImports (hroom : files.LeavesRoom levels chain) (imports : List Import) :
    settings.Loads files chain imports (settings.loadImports files levels chain imports) := by
  -- On the levels, for the imports of a file, and on the imports, for those that are left.
  induction levels generalizing chain imports with
  | zero =>
    obtain ⟨below, hbelow⟩ := hroom.exists_eq_succ
    contradiction
  | succ levels ih =>
    induction imports with
    | nil => exact .done
    | cons entry more ihmore =>
      rw [loadImports_cons]
      cases hfresh : chainFrom entry.file chain with
      | cons first circle =>
        rw [loadNested, hfresh]
        exact .cycle hfresh
      | nil =>
        cases hread : settings.readFile files entry.file entry.scope with
        | error failure =>
          rw [loadNested_of_unreadable hfresh hread]
          exact .unreadable hfresh hread
        | ok read =>
          obtain ⟨text, contents⟩ := read
          have hnested := ih (hroom.append hfresh (read_of_readFile hread)) contents.imports
          rw [loadNested_of_readFile hfresh hread]
          cases himported : settings.loadImports files levels (chain ++ [entry.file])
              contents.imports with
          | error failure => exact .failed hfresh hread (himported ▸ hnested)
          | ok imported => exact .visited hfresh hread (himported ▸ hnested) ihmore

/-- What imports come to without a bound on the depth is what they come to with any bound that
leaves room. -/
theorem loads_iff (hroom : files.LeavesRoom levels chain) :
    settings.Loads files chain imports outcome ↔
      settings.loadImports files levels chain imports = outcome := by
  constructor
  · intro h
    exact h.loadImports_eq hroom
  · rintro rfl
    exact loads_loadImports hroom imports

/-! ## Calls in a tree -/

variable {call next : Call} {calls : List Call}

theorem Call.Makes.hasChain (h : call.Makes settings files next)
    (hchain : files.HasChain call.chain) :
    files.HasChain next.chain ∧ next.chain.length = call.chain.length + 1 := by
  obtain ⟨hfresh, text, contents, hread, entry, -, rfl⟩ := h
  exact ⟨hchain.append hfresh (read_of_readFile hread), by simp⟩

/-- Calls that are made one by the other hold chains of the tree, each longer than the one before,
so that there are at most as many of them as there are files not in the first chain. -/
theorem length_le_of_isChain_makes (h : (call :: calls).IsChain (Call.Makes settings files))
    (hchain : files.HasChain call.chain) :
    call.chain.length + calls.length ≤ files.files.length ∧
      ∀ next ∈ calls, files.HasChain next.chain := by
  induction calls generalizing call with
  | nil => exact ⟨hchain.length_le, by simp⟩
  | cons next calls ih =>
    obtain ⟨hmakes, hcalls⟩ := List.isChain_cons_cons.1 h
    obtain ⟨hnext, hlength⟩ := hmakes.hasChain hchain
    obtain ⟨hle, hlater⟩ := ih hcalls hnext
    refine ⟨?_, List.forall_mem_cons.2 ⟨hnext, hlater⟩⟩
    rw [List.length_cons]
    omega

end Tree

end Settings

/-! ## Trees that insertions leave -/

namespace FileTree

/-- The number of places that files are written to, where later ones replace earlier ones. -/
def placeCount (files : List (Path × String)) : Nat :=
  (files.map fun file => file.1.components).dedup.length

theorem length_files_ofList (files : List (Path × String)) :
    (ofList files).files.length = placeCount files := by
  have hperm : ((ofList files).files.map Prod.fst).Perm
      (files.map fun file => file.1.components).dedup := by
    refine (List.perm_ext_iff_of_nodup (wellFormed_ofList files).nodup_files
      (List.nodup_dedup _)).2 ?_
    intro components
    rw [mem_keys_ofList_iff, List.mem_dedup]
  simpa [placeCount] using hperm.length_eq

end FileTree

namespace Settings

/-- Loading a file of a tree comes to one outcome, and does so without a bound on the depth of
imports.  Calls are nested at most one deeper than the tree has files, since each of them holds
pairwise different files of the tree, and every bound above the number of files gives the same
outcome, which is never that imports are nested too deeply. -/
theorem loadFile_ends (settings : Settings Compiler) (files : List (Path × String)) (start : Path)
    (scope : Option String) :
    (∀ outcome, settings.Loads (FileTree.ofList files) [] [⟨start, scope⟩] outcome ↔
        settings.loadFile (FileTree.ofList files) start scope = outcome) ∧
      (∀ calls, (⟨[], start, scope⟩ :: calls).IsChain
          (Call.Makes settings (FileTree.ofList files)) →
        calls.length + 1 ≤ FileTree.placeCount files + 1 ∧
          ∀ call ∈ calls, call.chain.Pairwise (fun earlier later => ¬earlier.Same later) ∧
            ∀ file ∈ call.chain, (FileTree.ofList files).isFile file = true) ∧
      (∀ levels, FileTree.placeCount files < levels →
        settings.loadNested (FileTree.ofList files) levels [] start scope =
          settings.loadFile (FileTree.ofList files) start scope) ∧
      ∀ deep, settings.loadFile (FileTree.ofList files) start scope ≠
        .error (.nestingTooDeep deep) := by
  have hloads {levels : Nat} (hlevels : FileTree.placeCount files < levels)
      (outcome : Except Failure (List Visit)) :
      settings.Loads (FileTree.ofList files) [] [⟨start, scope⟩] outcome ↔
        settings.loadNested (FileTree.ofList files) levels [] start scope = outcome := by
    rw [← FileTree.length_files_ofList] at hlevels
    rw [loads_iff (.nil hlevels), loadImports_singleton]
  have hbound : FileTree.placeCount files < (FileTree.ofList files).files.length + 1 := by
    rw [FileTree.length_files_ofList]
    exact Nat.lt_succ_self _
  refine ⟨hloads hbound, ?_, ?_, loadFile_ne_nestingTooDeep settings start scope⟩
  · intro calls hcalls
    obtain ⟨hle, hchains⟩ := length_le_of_isChain_makes hcalls (.nil _)
    rw [FileTree.length_files_ofList, List.length_nil, Nat.zero_add] at hle
    refine ⟨Nat.succ_le_succ hle, ?_⟩
    intro call hcall
    exact ⟨(hchains call hcall).pairwise, fun file => (hchains call hcall).isFile⟩
  · intro levels hlevels
    exact (hloads hlevels _).1 ((hloads hbound _).2 rfl)

/-- Two files that import each other, one of which is written twice. -/
def mutualImports : List (Path × String) :=
  [(⟨"/v/day.html"⟩, ""), (⟨"/v/night.html"⟩, "<import: src=\"./day\">"),
    (⟨"/v//day.html"⟩, "<import: src=\"./night\" ns=\"dark\">")]

/-- The calls up to the one that comes back to the first file. -/
def mutualCalls : List Call :=
  [⟨[⟨"/v/day.html"⟩], ⟨"/v/night.html"⟩, some "dark"⟩,
    ⟨[⟨"/v/day.html"⟩, ⟨"/v/night.html"⟩], ⟨"/v/day.html"⟩, some "dark:day"⟩]

theorem isChain_mutualCalls : (⟨[], ⟨"/v/day.html"⟩, none⟩ :: mutualCalls).IsChain
    (Call.Makes standard (FileTree.ofList mutualImports)) := by
  have hday : standard.readFile (FileTree.ofList mutualImports) ⟨"/v/day.html"⟩ none =
      .ok ("<import: src=\"./night\" ns=\"dark\">", ⟨[⟨⟨"/v/night.html"⟩, some "dark"⟩], []⟩) := by
    decide +kernel
  have hnight : standard.readFile (FileTree.ofList mutualImports) ⟨"/v/night.html"⟩
      (some "dark") =
      .ok ("<import: src=\"./day\">", ⟨[⟨⟨"/v/day.html"⟩, some "dark:day"⟩], []⟩) := by
    decide +kernel
  exact .cons_cons ⟨rfl, _, _, hday, _, List.mem_singleton_self _, rfl⟩
    (.cons_cons ⟨by decide +kernel, _, _, hnight, _, List.mem_singleton_self _, rfl⟩
      (.singleton _))

/-- Calls are nested one deeper than the two files, and the load comes to one outcome, with as many
levels as there are calls and without a bound. -/
theorem loadFile_ends_mutualImports :
    FileTree.placeCount mutualImports = 2 ∧ mutualCalls.length + 1 = 3 ∧
      (⟨[], ⟨"/v/day.html"⟩, none⟩ :: mutualCalls).IsChain
        (Call.Makes standard (FileTree.ofList mutualImports)) ∧
      mutualCalls.length + 1 ≤ FileTree.placeCount mutualImports + 1 ∧
      standard.Loads (FileTree.ofList mutualImports) [] [⟨⟨"/v/day.html"⟩, none⟩]
        (.error (.importCycle [⟨"/v/day.html"⟩, ⟨"/v/night.html"⟩, ⟨"/v/day.html"⟩])) ∧
      standard.loadNested (FileTree.ofList mutualImports) 3 [] ⟨"/v/day.html"⟩ none =
        standard.loadFile (FileTree.ofList mutualImports) ⟨"/v/day.html"⟩ none := by
  obtain ⟨hloads, hcalls, hlevels, -⟩ :=
    loadFile_ends standard mutualImports ⟨"/v/day.html"⟩ none
  have hcount : FileTree.placeCount mutualImports = 2 := by decide +kernel
  refine ⟨hcount, rfl, isChain_mutualCalls, (hcalls _ isChain_mutualCalls).1, (hloads _).2 ?_,
    hlevels 3 (hcount ▸ by decide)⟩
  decide +kernel

end Settings

end ViewBundle
