import ViewBundle.Proofs.Reading
import ViewBundle.Reference

/-!
# Components of joined paths

Joining paths and going up to a directory work on paths as they are written.  What they lead to
only depends on components all the same: a relative path adds its components to those of the path
that it is taken from (`components_join`), and the directory of a path has all its components but
the last one (`components_directory`).  So paths that name one place lead from there to the same
places (`Same.join`, `Same.directory`), and a reference stands for the same file however the
directory is written that it is taken from (`resolve_eq_ok_of_same`).
-/

namespace ViewBundle

namespace Text

/-- A text that holds no separator is the beginning of the first piece. -/
theorem pieces_append {sep : Char} {text s first : List Char} {more : List (List Char)}
    (h : sep ∉ text) (hs : pieces sep s = first :: more) :
    pieces sep (text ++ s) = (text ++ first) :: more := by
  induction text with
  | nil => exact hs
  | cons c cs ih =>
    rw [List.mem_cons, not_or] at h
    rw [List.cons_append, pieces, if_neg (Ne.symm h.1), ih h.2]
    rfl

theorem pieces_of_notMem {sep : Char} {s : List Char} (h : sep ∉ s) : pieces sep s = [s] := by
  have hpieces := pieces_append h (s := []) rfl
  rwa [List.append_nil] at hpieces

/-- A separator ends one piece and begins another. -/
theorem pieces_append_sep (sep : Char) (s t : List Char) :
    pieces sep (s ++ sep :: t) = pieces sep s ++ pieces sep t := by
  induction s with
  | nil => simp [pieces]
  | cons c cs ih =>
    rw [List.cons_append, pieces, pieces]
    split
    · rw [ih, List.cons_append]
    · rw [ih]
      cases hpieces : pieces sep cs with
      | nil => exact absurd hpieces (pieces_ne_nil sep cs)
      | cons piece more => rfl

/-- Texts that hold no separator are the pieces of their join. -/
theorem pieces_intercalate {sep : Char} {texts : List (List Char)} (hne : texts ≠ [])
    (h : ∀ text ∈ texts, sep ∉ text) : pieces sep ([sep].intercalate texts) = texts := by
  induction texts with
  | nil => contradiction
  | cons text more ih =>
    obtain ⟨htext, hmore⟩ := List.forall_mem_cons.1 h
    cases more with
    | nil => rw [List.intercalate_singleton, pieces_of_notMem htext]
    | cons next more =>
      rw [List.intercalate_cons_cons, List.append_assoc, List.singleton_append,
        pieces_append_cons htext, ih (by simp) hmore]

theorem mem_of_mem_pieces {sep c : Char} {s piece : List Char} (h : piece ∈ pieces sep s)
    (hc : c ∈ piece) : c ∈ s := by
  induction s generalizing piece with
  | nil => simp_all [pieces]
  | cons d ds ih =>
    rw [pieces] at h
    split at h
    · rcases List.mem_cons.1 h with rfl | h
      · contradiction
      · exact List.mem_cons_of_mem _ (ih h hc)
    · split at h
      · next hnil => exact absurd hnil (pieces_ne_nil sep ds)
      · next first more hpieces =>
        rcases List.mem_cons.1 h with rfl | h
        · rcases List.mem_cons.1 hc with rfl | hc
          · exact List.mem_cons_self
          · exact List.mem_cons_of_mem _ (ih (by rw [hpieces]; exact List.mem_cons_self) hc)
        · exact List.mem_cons_of_mem _
            (ih (by rw [hpieces]; exact List.mem_cons_of_mem _ h) hc)

end Text

namespace Path

/-- The components that the pieces of a text stand for. -/
def pieceComponents (s : List Char) : List Component :=
  (Text.pieces '/' s).filterMap Component.ofPiece?

/-- The component that only the beginning of a path can stand for, if it does. -/
def leading (s : List Char) : List Component :=
  if s.head? = some '/' then [.root]
  else if (Text.pieces '/' s).head? = some ['.'] then [.current] else []

theorem pieceComponents_append_slash (s t : List Char) :
    pieceComponents (s ++ '/' :: t) = pieceComponents s ++ pieceComponents t := by
  rw [pieceComponents, Text.pieces_append_sep, List.filterMap_append]
  rfl

theorem components_eq (p : Path) :
    p.components = leading p.text.toList ++ pieceComponents p.text.toList := by
  unfold components
  split
  · next body hbody =>
    rw [hbody]
    exact (congrArg (Component.root :: ·) (pieceComponents_append_slash [] body)).symm
  · next hslash =>
    have hroot : p.text.toList.head? ≠ some '/' := by
      intro hhead
      obtain ⟨body, hbody⟩ := List.head?_eq_some_iff.1 hhead
      exact hslash body hbody
    rw [leading, if_neg hroot]
    split
    · next more hmore =>
      rw [pieceComponents, hmore]
      rfl
    · next hdot =>
      have hcurrent : (Text.pieces '/' p.text.toList).head? ≠ some ['.'] := by
        intro hhead
        obtain ⟨more, hmore⟩ := List.head?_eq_some_iff.1 hhead
        exact hdot more hmore
      rw [if_neg hcurrent]
      rfl

theorem pieceComponents_intercalate {texts : List (List Char)} (h : ∀ text ∈ texts, '/' ∉ text) :
    pieceComponents (['/'].intercalate texts) = texts.filterMap Component.ofPiece? := by
  cases texts with
  | nil => rfl
  | cons text more => rw [pieceComponents, Text.pieces_intercalate (by simp) h]

/-! ## Joined paths -/

theorem leading_append_slash {s : List Char} (hs : s ≠ []) (t : List Char) :
    leading (s ++ '/' :: t) = leading s := by
  obtain ⟨c, cs, rfl⟩ := List.exists_cons_of_ne_nil hs
  obtain ⟨piece, more, hpieces⟩ := List.exists_cons_of_ne_nil (Text.pieces_ne_nil '/' (c :: cs))
  rw [leading, leading, Text.pieces_append_sep, hpieces]
  rfl

/-- What stands behind a slash adds its components to a path. -/
theorem components_append_slash (s t : List Char) :
    components ⟨String.ofList (s ++ '/' :: t)⟩ =
      components ⟨String.ofList (s ++ ['/'])⟩ ++ pieceComponents t := by
  have hleading : leading (s ++ '/' :: t) = leading (s ++ ['/']) := by
    cases s with
    | nil => rfl
    | cons c cs => rw [leading_append_slash (by simp), leading_append_slash (by simp)]
  rw [components_eq, components_eq, String.toList_ofList, String.toList_ofList, hleading,
    pieceComponents_append_slash, pieceComponents_append_slash, List.append_assoc,
    List.append_assoc]
  rfl

/-- A slash at the end of a path changes nothing. -/
theorem components_append_slash_nil {s : List Char} (hs : s ≠ []) :
    components ⟨String.ofList (s ++ ['/'])⟩ = components ⟨String.ofList s⟩ := by
  rw [components_eq, components_eq, String.toList_ofList, String.toList_ofList,
    leading_append_slash hs, pieceComponents_append_slash]
  exact congrArg (leading s ++ ·) (List.append_nil _)

/-- A relative path adds its components to those of the path that it is taken from. -/
theorem components_join {p q : Path} (hp : p.text ≠ "") (hq : q.isAbsolute = false) :
    (p.join q).components = p.components ++ pieceComponents q.text.toList := by
  have hne : p.text.toList ≠ [] := fun h => hp (String.toList_eq_nil_iff.1 h)
  have htext : p = ⟨String.ofList p.text.toList⟩ := by rw [String.ofList_toList]
  unfold join
  rw [if_neg (by simp [hq])]
  split
  · next hslash =>
    obtain ⟨s, hs⟩ : ∃ s, p.text.toList = s ++ ['/'] := by
      simpa [hp, List.getLast?_eq_some_iff] using hslash
    have hjoin : p.text ++ q.text = String.ofList (s ++ '/' :: q.text.toList) := by
      rw [← String.toList_inj, String.toList_append, String.toList_ofList, hs,
        List.append_assoc, List.singleton_append]
    rw [hjoin, components_append_slash, ← hs, ← htext]
  · have hjoin : p.text ++ "/" ++ q.text =
        String.ofList (p.text.toList ++ '/' :: q.text.toList) := by
      rw [← String.toList_inj]
      simp
    rw [hjoin, components_append_slash, components_append_slash_nil hne, ← htext]

theorem ofPiece?_eq_none_iff {piece : List Char} :
    Component.ofPiece? piece = none ↔ piece = [] ∨ piece = ['.'] := by
  unfold Component.ofPiece?
  split <;> simp_all

theorem components_eq_nil_iff (p : Path) : p.components = [] ↔ p.text = "" := by
  constructor
  · intro h
    rw [components_eq, List.append_eq_nil_iff] at h
    obtain ⟨hleading, hpieces⟩ := h
    rw [← String.toList_eq_nil_iff]
    cases htext : p.text.toList with
    | nil => rfl
    | cons c cs =>
      -- The first piece of a relative path is not empty, so it stands for a component.
      rw [htext] at hleading hpieces
      have hslash : c ≠ '/' := by
        rintro rfl
        simp [leading] at hleading
      obtain ⟨first, more, hfirst⟩ : ∃ first more,
          Text.pieces '/' (c :: cs) = (c :: first) :: more := by
        rw [Text.pieces, if_neg hslash]
        split
        · exact ⟨_, _, rfl⟩
        · exact ⟨_, _, rfl⟩
      rw [pieceComponents, hfirst, List.filterMap_eq_nil_iff, List.forall_mem_cons,
        ofPiece?_eq_none_iff] at hpieces
      have hdot : c :: first = ['.'] := by simpa using hpieces.1
      simp [leading, hfirst, hdot, hslash] at hleading
  · intro h
    rw [components_eq, h]
    rfl

/-- The components of a path that begins with neither a slash nor a dot of its own. -/
theorem components_of_leading {p : Path} (h : leading p.text.toList = []) :
    p.components = pieceComponents p.text.toList := by
  rw [components_eq, h, List.nil_append]

theorem isAbsolute_of_leading {p : Path} (h : leading p.text.toList = []) :
    p.isAbsolute = false := by
  rw [leading] at h
  split at h
  · contradiction
  · next hslash => simpa [isAbsolute] using hslash

/-- Such a path adds its components to those of every directory that it is taken from. -/
theorem components_join_of_leading {q : Path} (h : leading q.text.toList = []) (p : Path) :
    (p.join q).components = p.components ++ q.components := by
  have hrelative := isAbsolute_of_leading h
  by_cases hp : p.text = ""
  · have hjoin : p.join q = q := by simp [join, hrelative, hp]
    rw [hjoin, (components_eq_nil_iff p).2 hp, List.nil_append]
  · rw [components_join hp hrelative, components_of_leading h]

/-! ## Directories -/

theorem filterMap_dropWhile_isSilent (pieces : List (List Char)) :
    (pieces.dropWhile isSilent).filterMap Component.ofPiece? =
      pieces.filterMap Component.ofPiece? := by
  induction pieces with
  | nil => rfl
  | cons piece more ih =>
    cases hpiece : Component.ofPiece? piece with
    | none => rw [List.dropWhile_cons_of_pos (by simp [isSilent, hpiece]), ih,
        List.filterMap_cons_none hpiece]
    | some component => rw [List.dropWhile_cons_of_neg (by simp [isSilent, hpiece])]

theorem filterMap_of_dropLastComponent?_eq_none {pieces : List (List Char)}
    (h : dropLastComponent? pieces = none) : pieces.filterMap Component.ofPiece? = [] := by
  unfold dropLastComponent? at h
  split at h
  · next hnil =>
    have hreverse := filterMap_dropWhile_isSilent pieces.reverse
    rw [hnil, List.filterMap_reverse] at hreverse
    simpa using hreverse.symm
  · contradiction

theorem filterMap_of_dropLastComponent? {pieces up : List (List Char)}
    (h : dropLastComponent? pieces = some up) :
    up.filterMap Component.ofPiece? = (pieces.filterMap Component.ofPiece?).dropLast ∧
      (∀ piece ∈ up, piece ∈ pieces) ∧ pieces.filterMap Component.ofPiece? ≠ [] := by
  unfold dropLastComponent? at h
  split at h
  · contradiction
  · next last before hdrop =>
    obtain rfl := Option.some.inj h
    have hlast : isSilent last = false := by
      have hhead := List.head_dropWhile_not isSilent (l := pieces.reverse) (by simp [hdrop])
      simpa [hdrop] using hhead
    obtain ⟨component, hcomponent⟩ : ∃ component, Component.ofPiece? last = some component :=
      Option.isSome_iff_exists.1 (by simpa [isSilent] using hlast)
    -- Read from the end, the components are that of the last piece and those of the pieces before.
    have hcomponents : pieces.filterMap Component.ofPiece? =
        (before.filterMap Component.ofPiece?).reverse ++ [component] := by
      have hreverse := filterMap_dropWhile_isSilent pieces.reverse
      rw [hdrop, List.filterMap_cons_some hcomponent, List.filterMap_reverse] at hreverse
      rw [← List.reverse_inj, ← hreverse]
      simp
    refine ⟨?_, ?_, by simp [hcomponents]⟩
    · rw [hcomponents, List.dropLast_concat, List.filterMap_reverse, filterMap_dropWhile_isSilent]
    · intro piece hpiece
      have hbefore : piece ∈ before :=
        (List.dropWhile_sublist isSilent).mem (List.mem_reverse.1 hpiece)
      have hsub := List.dropWhile_sublist isSilent (l := pieces.reverse)
      rw [hdrop] at hsub
      exact List.mem_reverse.1 (hsub.mem (List.mem_cons_of_mem last hbefore))

theorem leading_of_pieces {s first : List Char} {more : List (List Char)}
    (h : Text.pieces '/' s = first :: more) (hslash : s.head? ≠ some '/') :
    leading s = if first = ['.'] then [.current] else [] := by
  rw [leading, if_neg hslash, h]
  simp

theorem eq_nil_of_head?_eq_slash {s first : List Char} {more : List (List Char)}
    (h : Text.pieces '/' s = first :: more) (hslash : s.head? = some '/') : first = [] := by
  obtain ⟨body, rfl⟩ := List.head?_eq_some_iff.1 hslash
  rw [Text.pieces, if_pos rfl] at h
  exact (List.cons.inj h).1.symm

theorem head?_eq_slash_of_pieces {s : List Char} {more : List (List Char)}
    (h : Text.pieces '/' s = [] :: more) (hmore : more ≠ []) : s.head? = some '/' := by
  have hs := Text.intercalate_pieces '/' s
  obtain ⟨next, later, rfl⟩ := List.exists_cons_of_ne_nil hmore
  rw [h, List.intercalate_cons_cons] at hs
  rw [← hs]
  rfl

/-- The directory of a path has all components of the path but the last one. -/
theorem components_directory (p : Path) :
    (p.parent?.getD ⟨""⟩).components = p.components.dropLast := by
  have hempty : components ⟨""⟩ = [] := rfl
  have hslashes {s text : List Char} (h : text ∈ Text.pieces '/' s) : '/' ∉ text :=
    Text.notMem_of_mem_pieces h
  rw [components_eq p]
  unfold parent?
  split
  · next body hbody =>
    have hroot (s : List Char) : leading ('/' :: s) ++ pieceComponents ('/' :: s) =
        .root :: pieceComponents s :=
      congrArg (Component.root :: ·) (pieceComponents_append_slash [] s)
    rw [hbody, hroot]
    cases hup : dropLastComponent? (Text.pieces '/' body) with
    | none =>
      have hnil := filterMap_of_dropLastComponent?_eq_none hup
      rw [pieceComponents, hnil]
      exact hempty
    | some up =>
      obtain ⟨hcomponents, hmem, hne⟩ := filterMap_of_dropLastComponent? hup
      rw [Option.map_some, Option.getD_some, components_eq, String.toList_ofList, hroot,
        pieceComponents_intercalate fun text htext => hslashes (hmem text htext), hcomponents]
      exact (List.dropLast_cons_of_ne_nil hne).symm
  · next hbody =>
    have hslash : p.text.toList.head? ≠ some '/' := by
      intro hhead
      obtain ⟨body, hslash⟩ := List.head?_eq_some_iff.1 hhead
      exact hbody body hslash
    split
    · next hnil => exact absurd hnil (Text.pieces_ne_nil _ _)
    · next first more hpieces =>
      rw [leading_of_pieces hpieces hslash, pieceComponents, hpieces]
      split
      · next up hup =>
        -- The first piece is not the last one that counts, so it is kept and still comes first.
        obtain ⟨hcomponents, hmem, hne⟩ := filterMap_of_dropLastComponent? hup
        have hmore : more ≠ [] := by
          rintro rfl
          exact hne rfl
        have htexts : ∀ text ∈ first :: up, '/' ∉ text := by
          intro text htext
          apply hslashes (s := p.text.toList)
          rw [hpieces]
          exact List.mem_cons.2 ((List.mem_cons.1 htext).imp_right (hmem text))
        have hjoined := Text.pieces_intercalate (by simp) htexts
        have hhead : (['/'].intercalate (first :: up)).head? ≠ some '/' := by
          intro hhead
          obtain rfl := eq_nil_of_head?_eq_slash hjoined hhead
          exact hslash (head?_eq_slash_of_pieces hpieces hmore)
        have hfirst (texts : List (List Char)) :
            (first :: texts).filterMap Component.ofPiece? =
              [first].filterMap Component.ofPiece? ++ texts.filterMap Component.ofPiece? :=
          List.filterMap_append (l := [first])
        rw [Option.getD_some, components_eq, String.toList_ofList,
          leading_of_pieces hjoined hhead, pieceComponents, hjoined, hfirst up, hfirst more,
          hcomponents, ← List.append_assoc, ← List.append_assoc,
          List.dropLast_append_of_ne_nil hne]
      · next hup =>
        -- Only the first piece counts, and it stands for one component at most.
        have hdirectory : ((if first = [] then none else some ⟨""⟩ : Option Path).getD
            ⟨""⟩).components = [] := by
          split <;> exact hempty
        have hnil := filterMap_of_dropLastComponent?_eq_none hup
        rw [hdirectory, List.filterMap_cons, hnil]
        split
        · next hdot => rw [hdot]; rfl
        · cases Component.ofPiece? first <;> rfl

/-! ## Paths that name one place -/

variable {p p' : Path}

theorem Same.join (h : p.Same p') (q : Path) : (p.join q).Same (p'.join q) := by
  cases hq : q.isAbsolute with
  | true =>
    rw [Path.join, if_pos hq, Path.join, if_pos hq]
    rfl
  | false =>
    have hempty : p.text = "" ↔ p'.text = "" := by
      rw [← components_eq_nil_iff, ← components_eq_nil_iff, h]
    by_cases hp : p.text = ""
    · -- The two paths are the empty one.
      have hpath : p = p' := congrArg Path.mk (hp.trans (hempty.1 hp).symm)
      rw [hpath]
      rfl
    · rw [Same, components_join hp hq, components_join (mt hempty.2 hp) hq, h]

theorem Same.normalize_eq (h : p.Same p') : p.normalize = p'.normalize :=
  congrArg (fun components => ofComponents (Component.normalize components)) h

theorem Same.directory (h : p.Same p') :
    (p.parent?.getD ⟨""⟩).Same (p'.parent?.getD ⟨""⟩) := by
  rw [Same, components_directory, components_directory, h]

theorem Same.dottedExtension_eq (h : p.Same p') : p.dottedExtension = p'.dottedExtension := by
  rw [dottedExtension, dottedExtension, extension?, extension?, fileName?, fileName?, h]

end Path

namespace Settings

variable {κ σ : Type} [FileStore σ] {settings : Settings κ} {store : σ} {base base' : Path}

theorem resolve?_eq_of_same (h : base.Same base') (reference : String) :
    settings.resolve? store reference base = settings.resolve? store reference base' := by
  have hjoin : (base.join ⟨reference⟩).normalize = (base'.join ⟨reference⟩).normalize :=
    (h.join ⟨reference⟩).normalize_eq
  have hsearch : settings.moduleSearchPaths base = settings.moduleSearchPaths base' := by
    rw [moduleSearchPaths, moduleSearchPaths, h.normalize_eq]
  rw [resolve?, resolve?, hjoin, moduleAt?, moduleAt?, hsearch]

theorem resolve_eq_ok_iff {reference : String} {file : Path} :
    settings.resolve store reference base = .ok file ↔
      settings.resolve? store reference base = some file := by
  unfold resolve
  cases settings.resolve? store reference base <;> simp

theorem resolve_eq_ok_of_same (h : base.Same base') {reference : String} {file : Path}
    (hfile : settings.resolve store reference base = .ok file) :
    settings.resolve store reference base' = .ok file := by
  rw [resolve_eq_ok_iff, ← resolve?_eq_of_same h]
  exact resolve_eq_ok_iff.1 hfile

end Settings

end ViewBundle
