import Mathlib.Logic.Relation
import ViewBundle.Proofs.FileTree
import ViewBundle.Proofs.NormalPath

/-!
# Insertions into a file tree

What a tree answers can be read off the list of insertions that it was made by: a path is a file if
a file was inserted at its place, and reads as the text that was inserted there last
(`contents?_ofList`); it is a directory if a file was inserted behind it (`isDirectory_ofList_iff`).
So insertions at different places can be made in any order.  Main statement: `ofList_answers`.
-/

namespace ViewBundle

namespace Path

/-- Whether a path names a directory around another path: by its components, the other path goes on
from there, and does not begin at the root anew. -/
def IsAround (directory p : Path) : Prop :=
  ∃ behind, behind ≠ [] ∧ .root ∉ behind ∧ p.components = directory.components ++ behind

theorem root_notMem_tail (p : Path) : .root ∉ p.components.tail := by
  have hpieces := root_notMem_pieceComponents p.text.toList
  rw [components_eq, leading]
  split
  · exact hpieces
  · split
    · exact hpieces
    · exact fun h => hpieces (List.mem_of_mem_tail h)

theorem isAround_iff {directory p : Path} :
    directory.IsAround p ↔ directory.components ∈ Component.properAncestors p.components :=
  (Component.mem_properAncestors_iff p.root_notMem_tail).symm

end Path

namespace FileTree

/-! ## What was inserted -/

/-- The texts that are inserted at the place of a path, in their order. -/
def textsAt (path : Path) (files : List (Path × String)) : List String :=
  (files.filter fun file => decide (file.1.Same path)).map Prod.snd

theorem textsAt_append (path : Path) (files more : List (Path × String)) :
    textsAt path (files ++ more) = textsAt path files ++ textsAt path more := by
  rw [textsAt, List.filter_append, List.map_append]
  rfl

theorem textsAt_cons (path : Path) (file : Path × String) (files : List (Path × String)) :
    textsAt path (file :: files) =
      (if file.1.Same path then [file.2] else []) ++ textsAt path files := by
  by_cases h : file.1.Same path
  · rw [if_pos h, textsAt, List.filter_cons_of_pos (by simpa using h), List.map_cons]
    rfl
  · rw [if_neg h, textsAt, List.filter_cons_of_neg (by simpa using h)]
    rfl

theorem lookup_putFile (components other : List Component) (contents : String)
    (files : List (List Component × String)) :
    (putFile components contents files).lookup other =
      if components = other then some contents else files.lookup other := by
  induction files with
  | nil =>
    by_cases h : components = other
    · simp [putFile, h]
    · simp [putFile, h, List.lookup_cons, beq_false_of_ne (Ne.symm h)]
  | cons file rest ih =>
    obtain ⟨first, text⟩ := file
    by_cases hfirst : first = components
    · subst hfirst
      by_cases h : first = other
      · simp [putFile, h]
      · simp [putFile, h, List.lookup_cons, beq_false_of_ne (Ne.symm h)]
    · rw [putFile, if_neg hfirst, List.lookup_cons, List.lookup_cons, ih]
      by_cases hother : other = first
      · subst hother
        simp [Ne.symm hfirst]
      · rw [beq_false_of_ne hother]

/-- An insertion changes what is read at its own place alone. -/
theorem contents?_insert (tree : FileTree) (path other : Path) (contents : String) :
    (tree.insert path contents).contents? other =
      if path.Same other then some contents else tree.contents? other :=
  lookup_putFile path.components other.components contents tree.files

theorem contents?_ofList (files : List (Path × String)) (path : Path) :
    (ofList files).contents? path = (textsAt path files).getLast? := by
  induction files using List.reverseRecOn with
  | nil => rfl
  | append_singleton files file ih =>
    have hinsert : ofList (files ++ [file]) = (ofList files).insert file.1 file.2 :=
      List.foldl_concat ..
    have hnil : textsAt path [] = [] := rfl
    rw [hinsert, contents?_insert, textsAt_append, textsAt_cons, hnil, List.append_nil, ih]
    by_cases hsame : file.1.Same path
    · rw [if_pos hsame, if_pos hsame, List.getLast?_concat]
    · rw [if_neg hsame, if_neg hsame, List.append_nil]

theorem read_ofList (files : List (Path × String)) (path : Path) :
    (ofList files).read path =
      (textsAt path files).getLast?.elim (.error (.missing path)) .ok := by
  rw [read, contents?_ofList]
  cases (textsAt path files).getLast? <;> rfl

theorem isFile_ofList_iff {files : List (Path × String)} {path : Path} :
    (ofList files).isFile path = true ↔ ∃ file ∈ files, path.Same file.1 := by
  rw [isFile_iff, mem_keys_ofList_iff, List.mem_map]
  simp only [Path.Same, eq_comm]

theorem isDirectory_ofList_iff {files : List (Path × String)} {directory : Path} :
    (ofList files).isDirectory directory = true ↔
      ∃ file ∈ files, directory.IsAround file.1 := by
  rw [isDirectory_iff, (wellFormed_ofList files).mem_directories_iff]
  constructor
  · rintro ⟨components, hcomponents, hmem⟩
    rw [mem_keys_ofList_iff] at hcomponents
    obtain ⟨file, hfile, rfl⟩ := List.mem_map.1 hcomponents
    exact ⟨file, hfile, Path.isAround_iff.2 hmem⟩
  · rintro ⟨file, hfile, haround⟩
    refine ⟨file.1.components, ?_, Path.isAround_iff.1 haround⟩
    rw [mem_keys_ofList_iff]
    exact List.mem_map_of_mem hfile

/-! ## The order of insertions -/

/-- Two insertions, one right behind the other and at different places, are made in the other
order. -/
inductive Exchanged : List (Path × String) → List (Path × String) → Prop
  | swap (before : List (Path × String)) {first second : Path × String}
      (h : ¬first.1.Same second.1) (after : List (Path × String)) :
    Exchanged (before ++ first :: second :: after) (before ++ second :: first :: after)

/-- Insertions are made in another order, in which those at one place keep theirs. -/
def Reordered : List (Path × String) → List (Path × String) → Prop :=
  Relation.ReflTransGen Exchanged

theorem Exchanged.textsAt_eq {files other : List (Path × String)} (h : Exchanged files other)
    (path : Path) : textsAt path files = textsAt path other := by
  cases h with
  | @swap before first second hdifferent after =>
    rw [textsAt_append, textsAt_append, textsAt_cons, textsAt_cons, textsAt_cons, textsAt_cons]
    by_cases hfirst : first.1.Same path
    · have hsecond : ¬second.1.Same path := fun hsecond => hdifferent (hfirst.trans hsecond.symm)
      rw [if_neg hsecond, List.nil_append, List.nil_append]
    · rw [if_neg hfirst, List.nil_append, List.nil_append]

theorem Reordered.textsAt_eq {files other : List (Path × String)} (h : Reordered files other)
    (path : Path) : textsAt path files = textsAt path other := by
  induction h with
  | refl => rfl
  | tail _ hexchanged ih => exact ih.trans (hexchanged.textsAt_eq path)

/-- What a tree answers after insertions.  A path is a directory if it is around one that a file was
inserted at, and a file if it is at the place of one; it reads as the text that was inserted at its
place last.  Insertions in another order, in which those at one place keep theirs, leave a tree that
gives the same answers. -/
theorem ofList_answers (files : List (Path × String)) :
    (∀ directory, (ofList files).isDirectory directory = true ↔
      ∃ file ∈ files, directory.IsAround file.1) ∧
    (∀ path, (ofList files).isFile path = true ↔ ∃ file ∈ files, path.Same file.1) ∧
    (∀ path, (ofList files).read path =
      (textsAt path files).getLast?.elim (.error (.missing path)) .ok) ∧
    ∀ other, Reordered files other → ∀ path,
      (ofList files).isDirectory path = (ofList other).isDirectory path ∧
      (ofList files).isFile path = (ofList other).isFile path ∧
      (ofList files).read path = (ofList other).read path := by
  refine ⟨fun _ => isDirectory_ofList_iff, fun _ => isFile_ofList_iff, read_ofList files, ?_⟩
  intro other hreordered
  have hfile (path : Path) : (ofList files).isFile path = (ofList other).isFile path := by
    rw [isFile, isFile, contents?_ofList, contents?_ofList, hreordered.textsAt_eq]
  have hdirectory :=
    isDirectory_eq_of_isFile_eq (wellFormed_ofList files) (wellFormed_ofList other) hfile
  intro path
  refine ⟨hdirectory path, hfile path, ?_⟩
  rw [read_ofList, read_ofList, hreordered.textsAt_eq]

/-- A file that is also a directory, one that is inserted twice, and one that is written with double
dots. -/
def spelledFiles : List (Path × String) :=
  [(⟨"/a/./b//c"⟩, "first"), (⟨"x/.."⟩, "dots"), (⟨"/a"⟩, "above"), (⟨"/a/b/c/"⟩, "last")]

theorem ofList_answers_spelledFiles :
    Reordered spelledFiles
        [(⟨"x/.."⟩, "dots"), (⟨"/a/./b//c"⟩, "first"), (⟨"/a/b/c/"⟩, "last"), (⟨"/a"⟩, "above")] ∧
      (ofList spelledFiles).read ⟨"/a/b/c"⟩ = .ok "last" ∧
      (ofList [(⟨"x/.."⟩, "dots"), (⟨"/a/./b//c"⟩, "first"), (⟨"/a/b/c/"⟩, "last"),
        (⟨"/a"⟩, "above")]).read ⟨"/a/b/c"⟩ = .ok "last" ∧
      (ofList spelledFiles).isFile ⟨"/a/"⟩ = true ∧
      (ofList spelledFiles).isDirectory ⟨"//a"⟩ = true ∧
      (ofList spelledFiles).isDirectory ⟨"x/."⟩ = true := by
  have hreordered : Reordered spelledFiles [(⟨"x/.."⟩, "dots"), (⟨"/a/./b//c"⟩, "first"),
      (⟨"/a/b/c/"⟩, "last"), (⟨"/a"⟩, "above")] :=
    .tail (.single (.swap [] (by decide) _)) (.swap [_, _] (by decide) _)
  obtain ⟨hdirectory, hfile, hread, horder⟩ := ofList_answers spelledFiles
  have hlast : (ofList spelledFiles).read ⟨"/a/b/c"⟩ = .ok "last" := by
    rw [hread]
    decide
  refine ⟨hreordered, hlast, ?_, ?_, ?_, ?_⟩
  · rw [← (horder _ hreordered ⟨"/a/b/c"⟩).2.2, hlast]
  · exact (hfile ⟨"/a/"⟩).2 ⟨(⟨"/a"⟩, "above"), by decide, by decide⟩
  · refine (hdirectory ⟨"//a"⟩).2 ⟨(⟨"/a/b/c/"⟩, "last"), by decide, ?_⟩
    exact ⟨[.normal "b", .normal "c"], by decide, by decide, by decide⟩
  · refine (hdirectory ⟨"x/."⟩).2 ⟨(⟨"x/.."⟩, "dots"), by decide, ?_⟩
    exact ⟨[.parent], by decide, by decide, by decide⟩

end FileTree

end ViewBundle
