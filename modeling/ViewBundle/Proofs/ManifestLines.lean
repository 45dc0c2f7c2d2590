import Mathlib.Data.List.Count
import ViewBundle.Digest.Sha256
import ViewBundle.Manifest
import ViewBundle.Proofs.Digits
import ViewBundle.Proofs.Marks
import ViewBundle.Proofs.NormalPath

/-!
# Manifests read back

A line of a manifest gives its path and its digest, since no digest holds a blank
(`mapM_fileOfLine?_eq_some_iff`).  So a manifest is read back if its lines are those that it was
made of, and they are unless a path holds a line feed (`Text.fedLines_flatMap_iff`), or ends with a
carriage return that is taken for a part of the line end (`Text.lines_flatMap_iff`).  Main
statement: `Manifest.entries_text_iff`.
-/

namespace ViewBundle

namespace Text

/-- The lines of a text, each of which a line feed ends; what follows the last line feed is a line
only if it is not empty. -/
def fedLines (s : List Char) : List (List Char) :=
  if (pieces '\n' s).getLast? = some [] then (pieces '\n' s).dropLast else pieces '\n' s

/-- Texts that are each ended by a line feed are the lines of their join if they hold none. -/
theorem fedLines_flatMap_iff (texts : List (List Char)) :
    fedLines (texts.flatMap (· ++ ['\n'])) = texts ↔ ∀ text ∈ texts, '\n' ∉ text := by
  constructor
  · intro h text htext
    rw [← h, fedLines] at htext
    split at htext
    · exact notMem_of_mem_pieces (List.mem_of_mem_dropLast htext)
    · exact notMem_of_mem_pieces htext
  · intro h
    rw [fedLines, pieces_flatMap h, List.getLast?_concat, if_pos rfl, List.dropLast_concat]

/-- What is no separator stands in a piece. -/
theorem mem_iff_exists_piece {sep c : Char} (hc : c ≠ sep) (s : List Char) :
    c ∈ s ↔ ∃ piece ∈ pieces sep s, c ∈ piece := by
  constructor
  · intro h
    by_contra hnone
    rw [← intercalate_pieces sep s] at h
    have hsep : ∀ d ∈ [sep], c ≠ d := List.forall_mem_singleton.2 hc
    have hpieces : ∀ piece ∈ pieces sep s, ∀ d ∈ piece, c ≠ d := by
      rintro piece hpiece d hd rfl
      exact hnone ⟨piece, hpiece, hd⟩
    exact forall_mem_intercalate hsep hpieces c h rfl
  · rintro ⟨piece, hpiece, hmem⟩
    exact mem_of_mem_pieces hpiece hmem

end Text

/-! ## Digests and paths -/

theorem Digest.forall_mem_hex {p : Char → Prop} (h : ∀ d : Fin 16, p (Text.hexDigit d.val))
    (content : String) : ∀ c ∈ (hex content).toList, p c := by
  intro c hc
  rw [hex, String.toList_ofList, State.digits, List.mem_flatMap] at hc
  obtain ⟨word, -, hc⟩ := hc
  exact Text.forall_mem_hexOfWidth h 8 word.toNat c hc

namespace Path

/-- A line feed is no part of the notation of paths, so it stands in a component. -/
theorem newline_mem_text_iff (p : Path) :
    '\n' ∈ p.text.toList ↔ ∃ component ∈ p.components, '\n' ∈ component.text.toList := by
  have hslash : '\n' ≠ '/' := by decide
  have hleading : ∀ component ∈ leading p.text.toList, '\n' ∉ component.text.toList := by
    unfold leading
    split
    · decide
    · split
      · decide
      · simp
  rw [Text.mem_iff_exists_piece hslash p.text.toList, components_eq]
  constructor
  · rintro ⟨piece, hpiece, hmem⟩
    obtain ⟨component, hcomponent⟩ : ∃ component, Component.ofPiece? piece = some component := by
      rw [← Option.ne_none_iff_exists', Ne, ofPiece?_eq_none_iff]
      rintro (rfl | rfl)
      · simp at hmem
      · exact absurd hmem (by decide)
    have hmap : component ∈ pieceComponents p.text.toList :=
      List.mem_filterMap.2 ⟨piece, hpiece, hcomponent⟩
    refine ⟨component, List.mem_append_right _ hmap, ?_⟩
    rwa [Component.toList_text_of_ofPiece? hcomponent]
  · rintro ⟨component, hcomponent, hmem⟩
    rcases List.mem_append.1 hcomponent with hfront | hcomponent
    · exact absurd hmem (hleading component hfront)
    · obtain ⟨piece, hpiece, hof⟩ := List.mem_filterMap.1 hcomponent
      exact ⟨piece, hpiece, Component.toList_text_of_ofPiece? hof ▸ hmem⟩

theorem Same.newline_mem_iff {p q : Path} (h : p.Same q) :
    '\n' ∈ p.text.toList ↔ '\n' ∈ q.text.toList := by
  rw [newline_mem_text_iff, newline_mem_text_iff, h]

end Path

namespace Manifest

/-! ## Lines -/

/-- The path and the digest that a line gives: what stands behind the first two blanks, and what
stands in front of them. -/
def fileOfLine? (line : List Char) : Option (Path × String) :=
  (Text.cut? [' ', ' '] line).map fun (digest, path) => (⟨String.ofList path⟩, String.ofList digest)

/-- The line of a file, without its line feed. -/
def lineText (file : Path × String) : List Char :=
  file.2.toList ++ [' ', ' '] ++ file.1.text.toList

theorem toList_line (file : Path × String) : (line file).toList = lineText file ++ ['\n'] := by
  rw [line, String.toList_append, String.toList_append, String.toList_append]
  rfl

theorem toList_text (files : List (Path × String)) :
    (text files).toList = ((firstOccurrences [] files).map lineText).flatMap (· ++ ['\n']) := by
  rw [text, String.toList_join, List.flatMap_map, List.flatMap_map]
  exact List.flatMap_congr fun file _ => toList_line file

theorem fileOfLine?_eq_some_iff {file : Path × String} (h : ' ' ∉ file.2.toList)
    (line : List Char) : fileOfLine? line = some file ↔ line = lineText file := by
  constructor
  · intro hentry
    obtain ⟨⟨digest, path⟩, hcut, rfl⟩ := Option.map_eq_some_iff.1 hentry
    rw [Text.eq_append_of_cut? hcut, lineText, String.toList_ofList, String.toList_ofList]
  · rintro rfl
    have hmark : ¬[' ', ' '] <:+: file.2.toList ++ [' ', ' '].dropLast := by
      intro hinfix
      have hcount := hinfix.sublist.count_le ' '
      rw [List.count_append, List.count_eq_zero.2 h] at hcount
      exact absurd hcount (by decide)
    rw [fileOfLine?, lineText, List.append_assoc, Text.cut?_append hmark]
    show some (Path.mk (String.ofList file.1.text.toList), String.ofList file.2.toList) = some file
    rw [String.ofList_toList, String.ofList_toList]

/-- The lines from which the files are read are those that are written for them. -/
theorem mapM_fileOfLine?_eq_some_iff {files : List (Path × String)}
    (h : ∀ file ∈ files, ' ' ∉ file.2.toList) (lines : List (List Char)) :
    lines.mapM fileOfLine? = some files ↔ lines = files.map lineText := by
  induction files generalizing lines with
  | nil =>
    cases lines with
    | nil => simp
    | cons line lines => simp [Option.bind_eq_some_iff]
  | cons file files ih =>
    obtain ⟨hfile, hfiles⟩ := List.forall_mem_cons.1 h
    cases lines with
    | nil => simp
    | cons line lines =>
      rw [List.map_cons, List.cons.injEq, ← fileOfLine?_eq_some_iff hfile, ← ih hfiles,
        List.mapM_cons]
      simp [Option.bind_eq_some_iff]

/-! ## The first occurrence of each path -/

/-- The files in front of which no file has the same path. -/
def firstOfEach (files : List (Path × String)) : List (Path × String) :=
  (files.zipIdx.filter fun (file, place) =>
    ¬∃ earlier ∈ files.take place, earlier.1.Same file.1).map Prod.fst

theorem firstOccurrences_eq_filter {seen : List (List Component)}
    {before : List (Path × String)}
    (h : ∀ components, components ∈ seen ↔ ∃ earlier ∈ before, earlier.1.components = components)
    (files : List (Path × String)) :
    firstOccurrences seen files =
      ((files.zipIdx before.length).filter fun (file, place) =>
        ¬∃ earlier ∈ (before ++ files).take place, earlier.1.Same file.1).map Prod.fst := by
  induction files generalizing seen before with
  | nil => rfl
  | cons file files ih =>
    have hseen : (∃ earlier ∈ (before ++ file :: files).take before.length,
        earlier.1.Same file.1) ↔ file.1.components ∈ seen := by
      rw [List.take_left, h]
      rfl
    -- What has been seen is told from the files in front of the next one.
    have hnext {later : List (List Component)} (hlater : ∀ components,
        components ∈ later ↔ components = file.1.components ∨ components ∈ seen) :
        firstOccurrences later files =
          ((files.zipIdx (before.length + 1)).filter fun (other, place) =>
            ¬∃ earlier ∈ (before ++ file :: files).take place, earlier.1.Same other.1).map
              Prod.fst := by
      have hbefore : ∀ components, components ∈ later ↔
          ∃ earlier ∈ before ++ [file], earlier.1.components = components := by
        intro components
        rw [hlater, h, or_comm, eq_comm]
        simp only [List.mem_append, List.mem_singleton, or_and_right, exists_or, exists_eq_left]
      have hstep := ih hbefore
      rwa [List.length_append, List.append_assoc] at hstep
    rw [firstOccurrences_cons, List.zipIdx_cons]
    split
    · next hmem =>
      rw [List.filter_cons_of_neg (by simpa using hseen.2 hmem)]
      exact hnext fun components => ⟨.inr, fun hor => hor.elim (fun heq => heq ▸ hmem) id⟩
    · next hmem =>
      rw [List.filter_cons_of_pos (by simpa using mt hseen.1 hmem), List.map_cons]
      exact congrArg (file :: ·) (hnext fun components => List.mem_cons)

theorem firstOccurrences_eq_firstOfEach (files : List (Path × String)) :
    firstOccurrences [] files = firstOfEach files :=
  @firstOccurrences_eq_filter [] [] (by simp) files

theorem firstOfEach_sublist (files : List (Path × String)) :
    (firstOfEach files).Sublist files := by
  have hsublist := (List.filter_sublist (l := files.zipIdx) (p := fun (file, place) =>
    ¬∃ earlier ∈ files.take place, earlier.1.Same file.1)).map Prod.fst
  rwa [List.zipIdx_map_fst] at hsublist

/-- Every path occurs a first time. -/
theorem exists_same_of_mem (seen : List (List Component)) {file : Path × String}
    {files : List (Path × String)} (h : file ∈ files) :
    file.1.components ∈ seen ∨ ∃ first ∈ firstOccurrences seen files, first.1.Same file.1 := by
  induction files generalizing seen with
  | nil => contradiction
  | cons next files ih =>
    rw [firstOccurrences_cons]
    split
    · next hseen =>
      rcases List.mem_cons.1 h with rfl | h
      · exact .inl hseen
      · exact ih seen h
    · rcases List.mem_cons.1 h with rfl | h
      · exact .inr ⟨file, List.mem_cons_self, rfl⟩
      · rcases ih (next.1.components :: seen) h with hmem | ⟨first, hfirst, hsame⟩
        · rcases List.mem_cons.1 hmem with heq | hmem
          · exact .inr ⟨next, List.mem_cons_self, heq.symm⟩
          · exact .inl hmem
        · exact .inr ⟨first, List.mem_cons_of_mem _ hfirst, hsame⟩

/-- A path that holds a line feed holds it wherever it occurs. -/
theorem newline_notMem_firstOfEach_iff (files : List (Path × String)) :
    (∀ file ∈ firstOfEach files, '\n' ∉ file.1.text.toList) ↔
      ∀ file ∈ files, '\n' ∉ file.1.text.toList := by
  constructor
  · intro h file hfile
    obtain ⟨first, hfirst, hsame⟩ := (exists_same_of_mem [] hfile).resolve_left (by simp)
    rw [firstOccurrences_eq_firstOfEach] at hfirst
    rw [← hsame.newline_mem_iff]
    exact h first hfirst
  · exact fun h file hfile => h file ((firstOfEach_sublist files).mem hfile)

/-! ## Manifests of digests -/

section

variable {files : List (Path × String)}
  (hdigests : ∀ file ∈ files, ∃ content, file.2 = Digest.hex content)

include hdigests

theorem mapM_fileOfLine?_eq_some_firstOfEach_iff (lines : List (List Char)) :
    lines.mapM fileOfLine? = some (firstOfEach files) ↔
      lines = (firstOfEach files).map lineText := by
  refine mapM_fileOfLine?_eq_some_iff (fun file hfile hmem => ?_) lines
  obtain ⟨content, hcontent⟩ := hdigests file ((firstOfEach_sublist files).mem hfile)
  rw [hcontent] at hmem
  exact Digest.forall_mem_hex (p := (· ≠ ' ')) (by decide) content _ hmem rfl

theorem newline_notMem_lineText_iff {file : Path × String} (hfile : file ∈ firstOfEach files) :
    '\n' ∉ lineText file ↔ '\n' ∉ file.1.text.toList := by
  have hdigest : '\n' ∉ file.2.toList := by
    obtain ⟨content, hcontent⟩ := hdigests file ((firstOfEach_sublist files).mem hfile)
    rw [hcontent]
    exact fun hmem => Digest.forall_mem_hex (p := (· ≠ '\n')) (by decide) content _ hmem rfl
  simp [lineText, hdigest]

/-- The first occurrences are read from a manifest if no path holds a line feed. -/
theorem mapM_fedLines_text_iff :
    (Text.fedLines (text files).toList).mapM fileOfLine? = some (firstOfEach files) ↔
      ∀ file ∈ files, '\n' ∉ file.1.text.toList := by
  rw [mapM_fileOfLine?_eq_some_firstOfEach_iff hdigests, toList_text,
    firstOccurrences_eq_firstOfEach, Text.fedLines_flatMap_iff, List.forall_mem_map,
    ← newline_notMem_firstOfEach_iff]
  exact forall₂_congr fun file hfile => newline_notMem_lineText_iff hdigests hfile

theorem mapM_lines_text_iff :
    (Text.lines (text files).toList).mapM fileOfLine? = some (firstOfEach files) ↔
      (∀ file ∈ files, '\n' ∉ file.1.text.toList) ∧
        ∀ file ∈ firstOfEach files, file.1.text.toList.getLast? ≠ some '\r' := by
  have hlast (file : Path × String) : (lineText file).getLast? ≠ some '\r' ↔
      file.1.text.toList.getLast? ≠ some '\r' := by
    have hblank : (file.2.toList ++ [' ', ' ']).getLast? = some ' ' := by simp
    rw [lineText, List.getLast?_append, hblank]
    cases file.1.text.toList.getLast? with
    | none => simp
    | some c => rfl
  rw [mapM_fileOfLine?_eq_some_firstOfEach_iff hdigests, toList_text,
    firstOccurrences_eq_firstOfEach, Text.lines_flatMap_iff, List.forall_mem_map,
    ← newline_notMem_firstOfEach_iff, ← forall₂_and]
  exact forall₂_congr fun file hfile =>
    and_congr (newline_notMem_lineText_iff hdigests hfile) (hlast file)

end

/-- The manifest of files and their digests, read line by line, gives exactly the first occurrence
of every path, as it is written there and with the digest that it has there, if and only if no path
holds a line feed.  If a carriage return in front of a line feed belongs to the line end, no first
occurrence of a path must end with one. -/
theorem entries_text_iff {paths : List Path} {digests : List String}
    (hlength : paths.length = digests.length)
    (hdigests : ∀ digest ∈ digests, ∃ content, digest = Digest.hex content) :
    ((Text.fedLines (text (paths.zip digests)).toList).mapM fileOfLine? =
        some (firstOfEach (paths.zip digests)) ↔ ∀ path ∈ paths, '\n' ∉ path.text.toList) ∧
      ((Text.lines (text (paths.zip digests)).toList).mapM fileOfLine? =
        some (firstOfEach (paths.zip digests)) ↔ (∀ path ∈ paths, '\n' ∉ path.text.toList) ∧
          ∀ file ∈ firstOfEach (paths.zip digests), file.1.text.toList.getLast? ≠ some '\r') := by
  have hfiles : ∀ file ∈ paths.zip digests, ∃ content, file.2 = Digest.hex content :=
    fun file hfile => hdigests file.2 (List.of_mem_zip hfile).2
  have hpaths : (∀ file ∈ paths.zip digests, '\n' ∉ file.1.text.toList) ↔
      ∀ path ∈ paths, '\n' ∉ path.text.toList := by
    constructor
    · intro h path hpath
      rw [← List.map_fst_zip hlength.le] at hpath
      obtain ⟨file, hfile, rfl⟩ := List.mem_map.1 hpath
      exact h file hfile
    · exact fun h file hfile => h file.1 (List.of_mem_zip hfile).1
  rw [mapM_fedLines_text_iff hfiles, mapM_lines_text_iff hfiles, hpaths]
  exact ⟨Iff.rfl, Iff.rfl⟩

/-- Paths with blanks, one of which comes again in another spelling. -/
def spacedPaths : List Path :=
  [⟨"/v/b  x.html"⟩, ⟨"/v/a.html"⟩, ⟨"/v//b  x.html"⟩]

/-- A path that holds a line feed. -/
def brokenPath : Path :=
  ⟨"/v/a\nb.html"⟩

theorem firstOfEach_spacedPaths (a b c : String) : firstOfEach (spacedPaths.zip [a, b, c]) =
    [(⟨"/v/b  x.html"⟩, a), (⟨"/v/a.html"⟩, b)] := by
  have hspaced : Path.components ⟨"/v/b  x.html"⟩ =
      [.root, .normal "v", .normal "b  x.html"] := by
    decide +kernel
  have hplain : Path.components ⟨"/v/a.html"⟩ = [.root, .normal "v", .normal "a.html"] := by
    decide +kernel
  have hagain : Path.components ⟨"/v//b  x.html"⟩ =
      [.root, .normal "v", .normal "b  x.html"] := by
    decide +kernel
  rw [← firstOccurrences_eq_firstOfEach]
  simp [spacedPaths, firstOccurrences_cons, hspaced, hplain, hagain]

theorem entries_text_iff_spacedPaths :
    (Text.fedLines (text (spacedPaths.zip
        [Digest.hex "abc", Digest.hex "", Digest.hex "changed"])).toList).mapM fileOfLine? =
      some [(⟨"/v/b  x.html"⟩, Digest.hex "abc"), (⟨"/v/a.html"⟩, Digest.hex "")] ∧
    (Text.fedLines (text ([brokenPath].zip [Digest.hex ""])).toList).mapM fileOfLine? ≠
      some (firstOfEach ([brokenPath].zip [Digest.hex ""])) := by
  constructor
  · have hdigests : ∀ digest ∈ [Digest.hex "abc", Digest.hex "", Digest.hex "changed"],
        ∃ content, digest = Digest.hex content := by
      simp
    rw [← firstOfEach_spacedPaths _ _ (Digest.hex "changed")]
    exact (entries_text_iff rfl hdigests).1.2 (by decide)
  · have hdigests : ∀ digest ∈ [Digest.hex ""], ∃ content, digest = Digest.hex content := by
      simp
    obtain ⟨hread, -⟩ := @entries_text_iff [brokenPath] _ rfl hdigests
    exact fun h => absurd (hread.1 h) (by decide)

/-- A manifest cannot be read back if a path holds a line feed, which ends the line in the middle of
the path. -/
theorem not_forall_entries_text :
    ¬∀ (paths : List Path) (digests : List String), paths.length = digests.length →
      (∀ digest ∈ digests, ∃ content, digest = Digest.hex content) →
      (Text.fedLines (text (paths.zip digests)).toList).mapM fileOfLine? =
        some (firstOfEach (paths.zip digests)) := by
  intro h
  have hread := h [brokenPath] [Digest.hex ""] rfl (by simp)
  rw [mapM_fedLines_text_iff (by simp)] at hread
  exact absurd (hread (brokenPath, Digest.hex "") (by simp)) (by decide)

end Manifest

end ViewBundle
