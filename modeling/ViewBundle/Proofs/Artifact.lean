import Mathlib.Data.List.DropRight
import ViewBundle.Bundle
import ViewBundle.Proofs.Sealed

/-!
# The bundle of a registry's module

A bundle is made line by line, so it keeps a module intact because no text of a registry begins or
ends a line of that module.  Main statement: the bundle is a fixed frame around the lines of the
module, from which one reader recovers the name of the bundle and the lines that register views, and
no script element ends in it (`Bundle.artifact_serialize`).
-/

namespace ViewBundle

namespace Text

/-- A sealed text that is a line between any two line feeds. -/
structure SealedLine (s : List Char) : Prop extends Sealed s where
  newline_notMem : '\n' ∉ s
  last_ne_return : s.getLast? ≠ some '\r'

theorem SealedLine.of_eq {text : String} {s : List Char} (htext : text = String.ofList s)
    (hmem : '<' ∉ s ∧ '\n' ∉ s) (hlast : s.getLast? ≠ some '\r') : SealedLine text.toList := by
  rw [htext, String.toList_ofList]
  exact ⟨.of_notMem hmem.1, hmem.2, hlast⟩

theorem SealedLine.append {s t : List Char} (hs : SealedLine s) (ht : SealedLine t) :
    SealedLine (s ++ t) where
  toSealed := hs.toSealed.append ht.toSealed
  newline_notMem := by
    rw [List.mem_append, not_or]
    exact ⟨hs.newline_notMem, ht.newline_notMem⟩
  last_ne_return := getLast?_append_ne hs.last_ne_return ht.last_ne_return

theorem SealedLine.suffix {s t : List Char} (h : SealedLine s) (hsuffix : t <:+ s) :
    SealedLine t where
  toSealed := h.toSealed.suffix hsuffix
  newline_notMem := fun hmem => h.newline_notMem (hsuffix.subset hmem)
  last_ne_return := getLast?_ne_of_suffix hsuffix h.last_ne_return

theorem SealedLine.trimStart {s : List Char} (h : SealedLine s) : SealedLine (trimStart s) :=
  h.suffix (List.dropWhile_suffix isBlank)

/-- The lines that make up a text are its lines. -/
theorem lines_flatMap {ls : List (List Char)} (h : ∀ line ∈ ls, SealedLine line) :
    lines (ls.flatMap (· ++ ['\n'])) = ls :=
  (lines_flatMap_iff ls).2 fun line hline =>
    ⟨(h line hline).newline_notMem, (h line hline).last_ne_return⟩

theorem trimStart_trimStart (s : List Char) : trimStart (trimStart s) = trimStart s :=
  List.dropWhile_idempotent isBlank s

end Text

open Text (Reader Reads reads_mark Sealed SealedLine)

theorem RegisteredView.lineText_eq_concat (view : RegisteredView) (template : Template)
    (minify : Bool) : ∃ front, view.lineText template minify = front ++ [';'] := by
  unfold lineText
  simp only [← List.append_assoc]
  exact ⟨_, rfl⟩

namespace Registry

theorem runtimeLine_eq_concat (runtimeModule : String) :
    ∃ front, runtimeLine runtimeModule = front ++ [';'] := by
  have hend : ");".toList = [')'] ++ [';'] := rfl
  unfold runtimeLine
  rw [hend, ← List.append_assoc, ← List.append_assoc]
  exact ⟨_, rfl⟩

theorem sealedLine_of_mem_moduleLines {style : ModuleStyle}
    {views : List (RegisteredView × Template)} {line : List Char}
    (h : line ∈ moduleLines style views) : SealedLine line where
  toSealed := sealed_of_mem_moduleLines h
  newline_notMem := newline_notMem_of_mem_moduleLines h
  last_ne_return := by
    unfold moduleLines headLines at h
    simp only [List.mem_append, List.mem_cons, List.not_mem_nil, or_false, List.mem_map] at h
    rcases h with (rfl | rfl | rfl | rfl | rfl) | ⟨⟨view, template⟩, -, rfl⟩ | rfl
    · decide
    · obtain ⟨front, hline⟩ := runtimeLine_eq_concat style.runtimeModule
      simp [hline]
    · decide
    · decide
    · decide
    · obtain ⟨front, hline⟩ := view.lineText_eq_concat template style.minify
      simp [hline]
    · decide

theorem lines_moduleText (style : ModuleStyle) (views : List (RegisteredView × Template)) :
    Text.lines (moduleText style views).toList = moduleLines style views := by
  rw [toList_moduleText]
  exact Text.lines_flatMap fun line hline => sealedLine_of_mem_moduleLines hline

end Registry

theorem Literal.sealedLine_string (value : String) : SealedLine (string value).toList where
  toSealed := sealed_string value
  newline_notMem := newline_notMem_string value
  last_ne_return := by
    rw [string, String.toList_ofList, ← List.cons_append, List.getLast?_concat]
    decide

namespace Bundle

/-! ## The frame -/

/-- What a line that registers a view begins with behind its indentation. -/
def registerMark : List Char :=
  "views.register(".toList

/-- A line of the frame around a module, apart from its indentation. -/
structure FrameLine where
  blanks : String
  text : String

/-- A line of the frame as it stands in a bundle. -/
def FrameLine.chars (minify : Bool) (line : FrameLine) : List Char :=
  if minify then line.text.toList else line.blanks.toList ++ line.text.toList

/-- A line of the frame as it is written in a module. -/
def FrameLine.line (line : FrameLine) : String :=
  line.blanks ++ line.text ++ "\n"

/-- The lines above the module. -/
def headLines (name : String) : List FrameLine :=
  [⟨"", "(function(root, factory) \x7b"⟩,
    ⟨"  ", "if (typeof module === \"object\" && module.exports) \x7b"⟩,
    ⟨"    ", "module.exports = factory(require);"⟩,
    ⟨"  ", "\x7d else \x7b"⟩,
    ⟨"    ", "root[" ++ Literal.string name ++ "] = factory(root.require);"⟩,
    ⟨"  ", "\x7d"⟩,
    ⟨"", "\x7d)(this, function(require) \x7b"⟩,
    ⟨"  ", "var module = \x7b exports: \x7b\x7d \x7d;"⟩]

/-- The lines below the module. -/
def footLines : List FrameLine :=
  [⟨"  ", "return module.exports;"⟩, ⟨"", "\x7d);"⟩]

/-- A line of the frame is set apart from its indentation, and registers no view. -/
structure FrameLine.WellFormed (line : FrameLine) : Prop where
  eq_space_of_mem : ∀ c ∈ line.blanks.toList, c = ' '
  head_not_blank : ∃ c, line.text.toList.head? = some c ∧ Text.isBlank c = false
  sealedLine : SealedLine line.text.toList
  not_isPrefixOf : registerMark.isPrefixOf line.text.toList = false

/-- Of a text that is known letter by letter all of this can be checked at once. -/
theorem FrameLine.WellFormed.of_eq {blanks text : String} {c : Char} {cs : List Char}
    (htext : text = String.ofList (c :: cs))
    (h : blanks.toList.all (· == ' ') ∧ Text.isBlank c = false ∧
      ('<' ∉ c :: cs ∧ '\n' ∉ c :: cs) ∧ (c :: cs).getLast? ≠ some '\r' ∧
      registerMark.isPrefixOf (c :: cs) = false) :
    WellFormed ⟨blanks, text⟩ := by
  obtain ⟨hblanks, hc, hmem, hlast, hmark⟩ := h
  subst htext
  refine ⟨fun c hc => ?_, ?_, ?_, ?_⟩
  · simpa using List.all_eq_true.1 hblanks c hc
  · exact ⟨c, by rw [String.toList_ofList, List.head?_cons], hc⟩
  · exact .of_eq rfl hmem hlast
  · rw [String.toList_ofList]
    exact hmark

theorem wellFormed_of_mem_headLines {name : String} {line : FrameLine}
    (h : line ∈ headLines name) : line.WellFormed := by
  unfold headLines at h
  simp only [List.mem_cons, List.not_mem_nil, or_false] at h
  rcases h with rfl | rfl | rfl | rfl | rfl | rfl | rfl | rfl
  · exact .of_eq rfl (by decide)
  · exact .of_eq rfl (by decide)
  · exact .of_eq rfl (by decide)
  · exact .of_eq rfl (by decide)
  · have htext : ("root[" ++ Literal.string name ++ "] = factory(root.require);").toList =
        "root[".toList ++ ((Literal.string name).toList ++
          "] = factory(root.require);".toList) := by
      rw [String.toList_append, String.toList_append, List.append_assoc]
    have hopen : SealedLine "root[".toList := .of_eq rfl (by decide) (by decide)
    have hclose : SealedLine "] = factory(root.require);".toList :=
      .of_eq rfl (by decide) (by decide)
    have hblanks : "    ".toList.all (· == ' ') := by decide
    refine ⟨fun c hc => ?_, ⟨'r', ?_, by decide⟩, ?_, ?_⟩
    · simpa using List.all_eq_true.1 hblanks c hc
    · rw [htext]
      rfl
    · rw [htext]
      exact hopen.append ((Literal.sealedLine_string name).append hclose)
    · rw [htext]
      rfl
  · exact .of_eq rfl (by decide)
  · exact .of_eq rfl (by decide)
  · exact .of_eq rfl (by decide)

theorem wellFormed_of_mem_footLines {line : FrameLine} (h : line ∈ footLines) :
    line.WellFormed := by
  unfold footLines at h
  simp only [List.mem_cons, List.not_mem_nil, or_false] at h
  rcases h with rfl | rfl
  · exact .of_eq rfl (by decide)
  · exact .of_eq rfl (by decide)

theorem head_eq_join (name : String) :
    head name = String.join ((headLines name).map FrameLine.line) := by
  have hopen : "    root[" = "    " ++ "root[" := rfl
  have hclose : "] = factory(root.require);\n" = "] = factory(root.require);" ++ "\n" := rfl
  have hname : FrameLine.line
      ⟨"    ", "root[" ++ Literal.string name ++ "] = factory(root.require);"⟩ =
      "    root[" ++ (Literal.string name ++ "] = factory(root.require);\n") := by
    rw [hopen, hclose, FrameLine.line]
    simp only [String.append_assoc]
  unfold head headLines
  simp only [List.map_cons, List.map_nil, String.join_cons, String.join_nil]
  rw [hname]
  simp only [String.append_assoc, -String.reduceAppend]
  -- Each line is put together from its indentation, its text and a line feed; the name stands
  -- between two parts of its line.
  iterate 9 refine congrArg₂ (· ++ ·) rfl ?_
  rfl

theorem foot_eq_join : foot = String.join (footLines.map FrameLine.line) := rfl

namespace FrameLine.WellFormed

variable {line : FrameLine} (h : line.WellFormed) (minify : Bool)

include h

theorem trimStart_chars : Text.trimStart (line.chars minify) = line.text.toList := by
  have htext : Text.trimStart line.text.toList = line.text.toList := by
    obtain ⟨c, hhead, hc⟩ := h.head_not_blank
    obtain ⟨more, hmore⟩ := List.head?_eq_some_iff.1 hhead
    rw [hmore]
    exact List.dropWhile_cons_of_neg (by simp [hc])
  cases minify with
  | true => exact htext
  | false =>
    have hblanks : ∀ c ∈ line.blanks.toList, Text.isBlank c := by
      intro c hc
      rw [h.eq_space_of_mem c hc]
      decide
    show Text.trimStart (line.blanks.toList ++ line.text.toList) = line.text.toList
    rw [Text.trimStart, List.dropWhile_append_of_pos hblanks]
    exact htext

theorem sealedLine_chars : SealedLine (line.chars minify) := by
  cases minify with
  | true => exact h.sealedLine
  | false =>
    have hblanks : SealedLine line.blanks.toList := by
      refine ⟨.of_notMem fun hmem => ?_, fun hmem => ?_, fun hlast => ?_⟩
      · exact absurd (h.eq_space_of_mem _ hmem) (by decide)
      · exact absurd (h.eq_space_of_mem _ hmem) (by decide)
      · exact absurd (h.eq_space_of_mem _ (List.mem_of_getLast? hlast)) (by decide)
    exact hblanks.append h.sealedLine

end FrameLine.WellFormed

/-! ## The lines of a bundle -/

/-- Lines that are indented by two spaces unless they are empty. -/
def indentedLines (ls : List (List Char)) : List (List Char) :=
  ls.map fun line => if line = [] then [] else ' ' :: ' ' :: line

/-- Lines without the blanks at their start; those that hold nothing else are left out. -/
def strippedLines (ls : List (List Char)) : List (List Char) :=
  (ls.map Text.trimStart).filter (· ≠ [])

/-- The lines of a module as they stand in its bundle. -/
def laidOut (minify : Bool) (ls : List (List Char)) : List (List Char) :=
  if minify then strippedLines ls else indentedLines ls

/-- The lines of a bundle, around the lines of a module. -/
def bundleLines (minify : Bool) (name : String) (ls : List (List Char)) : List (List Char) :=
  (headLines name).map (·.chars minify) ++
    (laidOut minify ls ++ footLines.map (·.chars minify))

theorem strippedLines_append (ls ls' : List (List Char)) :
    strippedLines (ls ++ ls') = strippedLines ls ++ strippedLines ls' := by
  rw [strippedLines, List.map_append, List.filter_append]
  rfl

theorem map_trimStart_indentedLines (ls : List (List Char)) :
    (indentedLines ls).map Text.trimStart = ls.map Text.trimStart := by
  rw [indentedLines, List.map_map]
  apply List.map_congr_left
  intro line _
  rw [Function.comp_apply]
  split
  · next hnil => rw [hnil]
  · rfl

theorem strippedLines_indentedLines (ls : List (List Char)) :
    strippedLines (indentedLines ls) = strippedLines ls := by
  rw [strippedLines, map_trimStart_indentedLines]
  rfl

theorem map_trimStart_chars {frame : List FrameLine} (h : ∀ line ∈ frame, line.WellFormed)
    (minify : Bool) : (frame.map (·.chars minify)).map Text.trimStart =
      frame.map fun line => line.text.toList := by
  rw [List.map_map]
  exact List.map_congr_left fun line hline => (h line hline).trimStart_chars minify

theorem strippedLines_chars {frame : List FrameLine} (h : ∀ line ∈ frame, line.WellFormed) :
    strippedLines (frame.map (·.chars false)) = frame.map (·.chars true) := by
  have hne : ∀ text ∈ frame.map fun line => line.text.toList, decide (text ≠ []) = true := by
    intro text htext
    obtain ⟨line, hline, rfl⟩ := List.mem_map.1 htext
    obtain ⟨c, hhead, -⟩ := (h line hline).head_not_blank
    rw [decide_eq_true_eq]
    intro hnil
    rw [hnil] at hhead
    cases hhead
  rw [strippedLines, map_trimStart_chars h, List.filter_eq_self.2 hne]
  rfl

/-- Minifying a bundle strips every line of it. -/
theorem strippedLines_bundleLines_false (name : String) (ls : List (List Char)) :
    strippedLines (bundleLines false name ls) = bundleLines true name ls := by
  show strippedLines ((headLines name).map (·.chars false) ++
    (indentedLines ls ++ footLines.map (·.chars false))) = _
  rw [strippedLines_append, strippedLines_append, strippedLines_indentedLines,
    strippedLines_chars fun _ => wellFormed_of_mem_headLines,
    strippedLines_chars fun _ => wellFormed_of_mem_footLines]
  rfl

theorem sealedLine_of_mem_laidOut {minify : Bool} {ls : List (List Char)}
    (h : ∀ line ∈ ls, SealedLine line) {line : List Char} (hline : line ∈ laidOut minify ls) :
    SealedLine line := by
  cases minify with
  | true =>
    obtain ⟨original, horiginal, rfl⟩ := List.mem_map.1 (List.mem_of_mem_filter hline)
    exact (h original horiginal).trimStart
  | false =>
    obtain ⟨original, horiginal, rfl⟩ := List.mem_map.1 hline
    split
    · next hnil => exact hnil ▸ h original horiginal
    · have hblanks : SealedLine [' ', ' '] := ⟨.of_notMem (by decide), by decide, by decide⟩
      exact hblanks.append (h original horiginal)

theorem sealedLine_of_mem_bundleLines {minify : Bool} {name : String} {ls : List (List Char)}
    (h : ∀ line ∈ ls, SealedLine line) {line : List Char}
    (hline : line ∈ bundleLines minify name ls) : SealedLine line := by
  unfold bundleLines at hline
  rw [List.mem_append, List.mem_append] at hline
  rcases hline with hline | hline | hline
  · obtain ⟨frameLine, hmem, rfl⟩ := List.mem_map.1 hline
    exact (wellFormed_of_mem_headLines hmem).sealedLine_chars minify
  · exact sealedLine_of_mem_laidOut h hline
  · obtain ⟨frameLine, hmem, rfl⟩ := List.mem_map.1 hline
    exact (wellFormed_of_mem_footLines hmem).sealedLine_chars minify

theorem toList_join_line (frame : List FrameLine) :
    (String.join (frame.map FrameLine.line)).toList =
      (frame.map (·.chars false)).flatMap (· ++ ['\n']) := by
  rw [String.toList_join, List.flatMap_map, List.flatMap_map]
  congr 1
  funext line
  rw [FrameLine.line, String.toList_append, String.toList_append]
  rfl

theorem toList_join_indented (ls : List (List Char)) :
    (String.join (ls.map indented)).toList = (indentedLines ls).flatMap (· ++ ['\n']) := by
  rw [String.toList_join, List.flatMap_map, indentedLines, List.flatMap_map]
  congr 1
  funext line
  unfold indented
  split
  · rfl
  · simp

theorem toList_wrapped (name source : String) :
    (wrapped name source).toList =
      (bundleLines false name (Text.lines source.toList)).flatMap (· ++ ['\n']) := by
  rw [wrapped, head_eq_join, foot_eq_join, String.toList_append, String.toList_append,
    toList_join_line, toList_join_line, toList_join_indented, bundleLines, List.flatMap_append,
    List.flatMap_append, List.append_assoc]
  rfl

theorem intercalate_append_singleton {c : Char} {ls : List (List Char)} (h : ls ≠ []) :
    [c].intercalate ls ++ [c] = ls.flatMap (· ++ [c]) := by
  induction ls with
  | nil => contradiction
  | cons line more ih =>
    cases more with
    | nil => simp
    | cons next more =>
      rw [List.flatMap_cons, List.intercalate_cons_cons, List.append_assoc, ih (by simp)]

theorem toList_minified {text : String} {ls : List (List Char)}
    (htext : Text.lines text.toList = ls) (hne : strippedLines ls ≠ []) :
    (minified text).toList = (strippedLines ls).flatMap (· ++ ['\n']) := by
  have hchars : ((strippedLines ls).map String.ofList).map String.toList = strippedLines ls := by
    simp
  rw [← intercalate_append_singleton hne, minified, htext, String.toList_append,
    String.toList_intercalate]
  show _ ++ "\n".toList = _
  rw [← strippedLines, hchars]
  rfl

/-- A bundle is made of its lines. -/
theorem exists_artifact {name : String} (hname : name ≠ "") (minify : Bool) {source : String}
    (h : ∀ line ∈ Text.lines source.toList, SealedLine line) :
    ∃ text, artifact name minify source = .ok text ∧ text.toList =
      (bundleLines minify name (Text.lines source.toList)).flatMap (· ++ ['\n']) := by
  refine ⟨_, if_neg hname, ?_⟩
  cases minify with
  | false => exact toList_wrapped name source
  | true =>
    have hlines : Text.lines (wrapped name source).toList =
        bundleLines false name (Text.lines source.toList) := by
      rw [toList_wrapped]
      exact Text.lines_flatMap fun line hline => sealedLine_of_mem_bundleLines h hline
    show (minified (wrapped name source)).toList = _
    rw [toList_minified hlines, strippedLines_bundleLines_false]
    rw [strippedLines_bundleLines_false]
    simp [bundleLines, headLines]

/-! ## Reading a bundle back -/

/-- Reads the line that names a bundle. -/
def nameReader : Reader String := do
  Reader.mark "root["
  let name ← Literal.reader
  Reader.mark "] = factory(root.require);"
  return name

/-- The name of a bundle, and its lines that register views, indented as in a module. -/
def read? (text : String) : Option (String × List (List Char)) := do
  let texts := strippedLines (Text.pieces '\n' text.toList)
  let nameLine ← texts[4]?
  let name ← nameReader.value? nameLine
  return (name, (texts.filter (registerMark.isPrefixOf ·)).map ("  ".toList ++ ·))

theorem strippedLines_strippedLines (ls : List (List Char)) :
    strippedLines (strippedLines ls) = strippedLines ls := by
  have hmap : (strippedLines ls).map Text.trimStart = (strippedLines ls).map id := by
    apply List.map_congr_left
    intro text htext
    obtain ⟨line, -, rfl⟩ := List.mem_map.1 (List.mem_of_mem_filter htext)
    exact Text.trimStart_trimStart line
  show ((strippedLines ls).map Text.trimStart).filter (· ≠ []) = strippedLines ls
  rw [hmap, List.map_id, strippedLines, List.filter_filter]
  simp

theorem strippedLines_bundleLines (minify : Bool) (name : String) (ls : List (List Char)) :
    strippedLines (bundleLines minify name ls) = bundleLines true name ls := by
  cases minify with
  | false => exact strippedLines_bundleLines_false name ls
  | true => rw [← strippedLines_bundleLines_false, strippedLines_strippedLines]

theorem filter_strippedLines (ls : List (List Char)) :
    (strippedLines ls).filter (registerMark.isPrefixOf ·) =
      (ls.map Text.trimStart).filter (registerMark.isPrefixOf ·) := by
  rw [strippedLines, List.filter_filter]
  apply List.filter_congr
  intro text _
  cases text with
  | nil => decide
  | cons c cs => simp

theorem filter_frame {frame : List FrameLine} (h : ∀ line ∈ frame, line.WellFormed) :
    (frame.map (·.chars true)).filter (registerMark.isPrefixOf ·) = [] := by
  rw [List.filter_eq_nil_iff]
  intro text htext
  obtain ⟨line, hline, rfl⟩ := List.mem_map.1 htext
  show ¬registerMark.isPrefixOf line.text.toList = true
  rw [(h line hline).not_isPrefixOf]
  decide

/-- Lines that register views are what they were once they are indented again. -/
theorem map_filter_map_trimStart {texts : List (List Char)}
    (h : ∀ text ∈ texts, ∃ rest, text = "  ".toList ++ (registerMark ++ rest)) :
    ((texts.map Text.trimStart).filter (registerMark.isPrefixOf ·)).map ("  ".toList ++ ·) =
      texts := by
  induction texts with
  | nil => rfl
  | cons text more ih =>
    obtain ⟨rest, htext⟩ := h text (by simp)
    have htrim : Text.trimStart text = registerMark ++ rest := by
      rw [htext]
      rfl
    have hmark : registerMark.isPrefixOf (registerMark ++ rest) = true :=
      List.isPrefixOf_iff_prefix.2 (List.prefix_append _ _)
    have hmore := ih fun other hother => h other (List.mem_cons_of_mem text hother)
    rw [List.map_cons, htrim, List.filter_cons_of_pos hmark, List.map_cons, hmore, ← htext]

theorem map_filter_moduleLines (style : ModuleStyle)
    (views : List (RegisteredView × Template)) :
    ((strippedLines (Registry.moduleLines style views)).filter
        (registerMark.isPrefixOf ·)).map ("  ".toList ++ ·) =
      ModuleContents.registerLines (Registry.moduleText style views) := by
  have hhead : ((Registry.headLines style.runtimeModule).map Text.trimStart).filter
      (registerMark.isPrefixOf ·) = [] := rfl
  have hend : (["\x7d".toList].map Text.trimStart).filter (registerMark.isPrefixOf ·) = [] := rfl
  rw [filter_strippedLines, Registry.registerLines_moduleText, Registry.moduleLines,
    List.map_append, List.map_append, List.filter_append, List.filter_append, hhead, hend,
    List.nil_append, List.append_nil]
  apply map_filter_map_trimStart
  intro text htext
  obtain ⟨⟨view, template⟩, -, rfl⟩ := List.mem_map.1 htext
  exact ⟨_, rfl⟩

theorem strippedLines_pieces {text : String} {minify : Bool} {name : String}
    {ls : List (List Char)} (h : ∀ line ∈ ls, SealedLine line)
    (htext : text.toList = (bundleLines minify name ls).flatMap (· ++ ['\n'])) :
    strippedLines (Text.pieces '\n' text.toList) = bundleLines true name ls := by
  have hnewline : ∀ line ∈ bundleLines minify name ls, '\n' ∉ line :=
    fun line hline => (sealedLine_of_mem_bundleLines h hline).newline_notMem
  rw [htext, Text.pieces_flatMap hnewline, strippedLines_append, strippedLines_bundleLines]
  exact List.append_nil _

/-- A bundle of a module is read back as its name and the module's lines that register views. -/
theorem read?_of_bundleLines {text name : String} (minify : Bool) {style : ModuleStyle}
    {views : List (RegisteredView × Template)}
    (htext : text.toList =
      (bundleLines minify name (Registry.moduleLines style views)).flatMap (· ++ ['\n'])) :
    read? text = some (name, ModuleContents.registerLines (Registry.moduleText style views)) := by
  have hlines := strippedLines_pieces (fun _ => Registry.sealedLine_of_mem_moduleLines) htext
  have hname : nameReader.value?
      ("root[" ++ Literal.string name ++ "] = factory(root.require);").toList = some name := by
    rw [String.toList_append, String.toList_append, List.append_assoc]
    apply Reads.value?
    refine Reads.bind (reads_mark _) (Reads.bind (Literal.reads_string name) ?_)
    exact (reads_mark "] = factory(root.require);").bind_pure fun _ => name
  have hregister : (bundleLines true name (Registry.moduleLines style views)).filter
      (registerMark.isPrefixOf ·) =
        (strippedLines (Registry.moduleLines style views)).filter (registerMark.isPrefixOf ·) := by
    rw [bundleLines, List.filter_append, List.filter_append,
      filter_frame fun _ => wellFormed_of_mem_headLines,
      filter_frame fun _ => wellFormed_of_mem_footLines, List.nil_append, List.append_nil]
    rfl
  have hline : (bundleLines true name (Registry.moduleLines style views))[4]? =
      some ("root[" ++ Literal.string name ++ "] = factory(root.require);").toList := rfl
  unfold read?
  dsimp only
  rw [hlines, hregister, map_filter_moduleLines, hline]
  simp only [Option.bind_eq_bind, Option.bind_some, hname]
  rfl

/-- The bundle of a registry's module has the lines of the module in their order, in a frame that
varies only in the literal of the name.  One reader finds the name and the lines that register
views, each as the module has it, and no script element ends in the bundle. -/
theorem artifact_serialize {registry : Registry} {style : ModuleStyle} {source name : String}
    (h : (registry.serialize style).answer = .ok source) (hname : name ≠ "") (minify : Bool) :
    ∃ text, artifact name minify source = .ok text ∧
      text.toList = (bundleLines minify name (Text.lines source.toList)).flatMap (· ++ ['\n']) ∧
      (Text.lines source.toList).flatMap (· ++ ['\n']) = source.toList ∧
      read? text = some (name, ModuleContents.registerLines source) ∧
      (∃ calls, (ModuleContents.registerLines source).mapM RegisterCall.reader.value? =
          some calls ∧
        List.Forall₂ (RegisterCall.Describes style.minify) registry.views calls) ∧
      ¬['<', '/'] <:+: text.toList := by
  obtain ⟨compiled, hcompiled, rfl⟩ := Outcome.map_eq_ok_iff.1 h
  have hlines := Registry.lines_moduleText style compiled
  have hsealed : ∀ line ∈ Text.lines (Registry.moduleText style compiled).toList,
      SealedLine line := by
    rw [hlines]
    exact fun _ => Registry.sealedLine_of_mem_moduleLines
  obtain ⟨text, hartifact, htext⟩ := exists_artifact hname minify hsealed
  refine ⟨text, hartifact, htext, ?_, ?_, ?_, ?_⟩
  · rw [hlines, Registry.toList_moduleText]
  · rw [hlines] at htext
    exact read?_of_bundleLines minify htext
  · refine ⟨_, ?_, Registry.describes_of_compileViews style.minify hcompiled⟩
    rw [Registry.registerLines_moduleText]
    exact RegisterCall.mapM_value?_lineText style.minify compiled
  · rw [htext]
    apply Sealed.not_isInfix
    exact .flatMap_lines fun line hline =>
      (sealedLine_of_mem_bundleLines hsealed hline).toSealed

/-- The module of the quoted views keeps its lines under a name that looks like the end of a script,
as it is and minified. -/
theorem artifact_serialize_quotedViews :
    (Registry.quotedViews.serialize ⟨false, "rt\n"⟩).answer = .ok Registry.quotedModule ∧
      (∃ text, artifact "</script>\n" false Registry.quotedModule = .ok text ∧
        read? text =
          some ("</script>\n", ModuleContents.registerLines Registry.quotedModule) ∧
        ¬['<', '/'] <:+: text.toList) ∧
      ∃ text, artifact "</script>\n" true Registry.quotedModule = .ok text ∧
        read? text =
          some ("</script>\n", ModuleContents.registerLines Registry.quotedModule) ∧
        ¬['<', '/'] <:+: text.toList := by
  have hname : "</script>\n" ≠ "" := by decide
  refine ⟨Registry.serialize_quotedViews, ?_, ?_⟩
  · obtain ⟨text, htext, -, -, hread, -, hsealed⟩ :=
      artifact_serialize Registry.serialize_quotedViews hname false
    exact ⟨text, htext, hread, hsealed⟩
  · obtain ⟨text, htext, -, -, hread, -, hsealed⟩ :=
      artifact_serialize Registry.serialize_quotedViews hname true
    exact ⟨text, htext, hread, hsealed⟩

end Bundle

end ViewBundle
