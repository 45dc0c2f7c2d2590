import ViewBundle.Proofs.Marks
import ViewBundle.Proofs.RegistryModule

/-!
# Text that ends no script element

A script element ends at the first `</` in it, whatever language is written there.  A text is
sealed if it holds no `</` and does not end in the first half of one, so that sealed texts can be
put together.  Main statements: literals are sealed (`sealed_string`, `sealed_array`,
`sealed_object`), and so is every line of a module (`sealed_of_mem_moduleLines`).
-/

namespace ViewBundle

namespace Text

/-- No `</` stands in a text, and none arises when a text is put behind it. -/
structure Sealed (s : List Char) : Prop where
  chain : s.IsChain fun c d => c = '<' → d ≠ '/'
  last_ne : s.getLast? ≠ some '<'

theorem Sealed.not_isInfix {s : List Char} (h : Sealed s) : ¬['<', '/'] <:+: s :=
  isChain_iff_not_isInfix.1 h.chain

theorem isChain_of_notMem {s : List Char} (h : '<' ∉ s) :
    s.IsChain fun c d => c = '<' → d ≠ '/' := by
  induction s with
  | nil => exact .nil
  | cons c cs ih =>
    rw [List.mem_cons, not_or] at h
    exact List.isChain_cons.2 ⟨fun d _ hc => absurd hc.symm h.1, ih h.2⟩

theorem Sealed.of_notMem {s : List Char} (h : '<' ∉ s) : Sealed s :=
  ⟨isChain_of_notMem h, fun hlast => h (List.mem_of_getLast? hlast)⟩

theorem Sealed.append {s t : List Char} (hs : Sealed s) (ht : Sealed t) : Sealed (s ++ t) := by
  refine ⟨hs.chain.append ht.chain ?_, getLast?_append_ne hs.last_ne ht.last_ne⟩
  rintro c hc d _ rfl
  exact absurd hc hs.last_ne

theorem Sealed.intercalate {sep : List Char} (hsep : Sealed sep) {texts : List (List Char)}
    (h : ∀ text ∈ texts, Sealed text) : Sealed (sep.intercalate texts) := by
  induction texts with
  | nil => exact .of_notMem (by simp)
  | cons text texts ih =>
    have htext := h text (by simp)
    have hmore := ih fun other hother => h other (List.mem_cons_of_mem text hother)
    cases texts with
    | nil => simpa using htext
    | cons next more =>
      rw [List.intercalate_cons_cons]
      exact (htext.append hsep).append hmore

/-- Lines that are sealed make up a sealed text. -/
theorem Sealed.flatMap_lines {texts : List (List Char)} (h : ∀ text ∈ texts, Sealed text) :
    Sealed (texts.flatMap (· ++ ['\n'])) := by
  induction texts with
  | nil => exact .of_notMem (by simp)
  | cons text texts ih =>
    have hmore := ih fun other hother => h other (List.mem_cons_of_mem text hother)
    rw [List.flatMap_cons]
    exact ((h text (by simp)).append (.of_notMem (by decide))).append hmore

theorem Sealed.suffix {s t : List Char} (h : Sealed s) (hsuffix : t <:+ s) : Sealed t :=
  ⟨h.chain.suffix hsuffix, getLast?_ne_of_suffix hsuffix h.last_ne⟩

end Text

open Text (Sealed)

/-! ## Literals -/

namespace Literal

/-- Whether a character can stand behind the backslash of an escape. -/
def isCode (c : Char) : Bool :=
  c.isAlphanum || c == '"' || c == '\\'

theorem all_isCode_hexOfWidth (width n : Nat) : (Text.hexOfWidth width n).all isCode :=
  List.all_eq_true.2 (Text.forall_mem_hexOfWidth (by decide) width n)

/-- A character is written as it is, or as a backslash with the code of an escape behind it. -/
theorem escape_eq_self_or (c : Char) :
    escape c = [c] ∨ ∃ code, escape c = '\\' :: code ∧ code.all isCode := by
  rcases escape_cases c with ⟨code, hcode, hescape⟩ | ⟨-, hescape⟩ | ⟨hplain, -⟩
  · have hall : codes.all (·.2.all isCode) = true := by decide
    exact .inr ⟨code, hescape, List.all_eq_true.1 hall _ hcode⟩
  · refine .inr ⟨_, hescape, ?_⟩
    rw [List.all_cons, all_isCode_hexOfWidth]
    decide
  · exact .inl hplain

theorem bracket_notMem_escape_or (c : Char) : escape c = [c] ∨ '<' ∉ escape c := by
  rcases escape_eq_self_or c with hself | ⟨code, hcode, hall⟩
  · exact .inl hself
  · right
    rw [hcode, List.mem_cons, not_or]
    refine ⟨by decide, fun hbracket => ?_⟩
    exact absurd (List.all_eq_true.1 hall '<' hbracket) (by decide)

/-- What is written for a text begins with a slash only if the text does, or if it is empty and a
slash follows. -/
theorem head?_encode_append_ne {s t : List Char} (hs : s.head? ≠ some '/')
    (ht : t.head? ≠ some '/') : (encode s ++ t).head? ≠ some '/' := by
  fun_cases encode s with
  | case1 => exact ht
  | case2 cs => simp
  | case3 c cs _ =>
    rcases escape_eq_self_or c with hself | ⟨code, hcode, -⟩
    · rw [hself]
      exact hs
    · rw [hcode]
      simp

/-- No `</` stands between the quotes of a literal: the slash of one is written with a backslash. -/
theorem isChain_encode_append (s : List Char) {t : List Char}
    (ht : t.IsChain fun c d => c = '<' → d ≠ '/') (hhead : t.head? ≠ some '/') :
    (encode s ++ t).IsChain fun c d => c = '<' → d ≠ '/' := by
  fun_induction encode s with
  | case1 => exact ht
  | case2 cs ih =>
    have hslash : ('/' :: (encode cs ++ t)).IsChain fun c d => c = '<' → d ≠ '/' :=
      List.isChain_cons.2 ⟨by simp, ih⟩
    have hbackslash : ('\\' :: '/' :: (encode cs ++ t)).IsChain fun c d => c = '<' → d ≠ '/' :=
      List.isChain_cons.2 ⟨by simp, hslash⟩
    exact List.isChain_cons.2 ⟨by simp, hbackslash⟩
  | case3 c cs hpair ih =>
    rw [List.append_assoc]
    rcases bracket_notMem_escape_or c with hself | hbracket
    · rw [hself, List.singleton_append, List.isChain_cons]
      refine ⟨?_, ih⟩
      rintro d hd rfl rfl
      -- A bracket that stands for itself has no slash behind it.
      have hcs : cs.head? ≠ some '/' := by
        intro hslash
        obtain ⟨more, hmore⟩ := List.head?_eq_some_iff.1 hslash
        exact hpair more rfl hmore
      exact head?_encode_append_ne hcs hhead hd
    · apply (Text.isChain_of_notMem hbracket).append ih
      rintro d hd e _ rfl
      exact absurd (List.mem_of_getLast? hd) hbracket

theorem sealed_string (value : String) : Sealed (string value).toList := by
  have hquoted : ('"' :: (encode value.toList ++ ['"'])).IsChain fun c d => c = '<' → d ≠ '/' :=
    List.isChain_cons.2 ⟨by simp, isChain_encode_append _ (.singleton _) (by decide)⟩
  rw [string, String.toList_ofList]
  refine ⟨hquoted, ?_⟩
  rw [← List.cons_append, List.getLast?_concat]
  decide

theorem sealed_array (items : List String) : Sealed (array items).toList := by
  have hitems : Sealed (", ".toList.intercalate ((items.map string).map String.toList)) := by
    apply Sealed.intercalate (.of_notMem (by decide))
    intro text htext
    rw [List.map_map] at htext
    obtain ⟨item, -, rfl⟩ := List.mem_map.1 htext
    exact sealed_string item
  rw [array, String.toList_append, String.toList_append, String.toList_intercalate]
  exact (Sealed.append (.of_notMem (by decide)) hitems).append (.of_notMem (by decide))

theorem sealed_field (pair : String × String) : Sealed (field pair).toList := by
  rw [field, String.toList_append, String.toList_append]
  exact ((sealed_string pair.1).append (.of_notMem (by decide))).append (sealed_string pair.2)

theorem sealed_object (pairs : List (String × String)) : Sealed (object pairs).toList := by
  have hpairs : Sealed (", ".toList.intercalate ((pairs.map field).map String.toList)) := by
    apply Sealed.intercalate (.of_notMem (by decide))
    intro text htext
    rw [List.map_map] at htext
    obtain ⟨pair, -, rfl⟩ := List.mem_map.1 htext
    exact sealed_field pair
  rw [object, String.toList_append, String.toList_append, String.toList_intercalate]
  exact (Sealed.append (.of_notMem (by decide)) hpairs).append (.of_notMem (by decide))

end Literal

/-! ## Lines of a module -/

theorem Segment.sealed_expression (segment : Segment) : Sealed segment.expression.toList := by
  cases segment with
  | text content =>
    rw [toList_expression_text]
    exact Sealed.append (.of_notMem (by decide))
      ((Literal.sealed_string content).append (.of_notMem (by decide)))
  | value path unescaped =>
    have hvalue : Sealed ("new expressions.PathExpression(".toList ++
        ((Literal.array path).toList ++ "))".toList)) :=
      Sealed.append (.of_notMem (by decide))
        ((Literal.sealed_array path).append (.of_notMem (by decide)))
    rw [toList_expression_value]
    cases unescaped with
    | true => exact Sealed.append (.of_notMem (by decide)) hvalue
    | false => exact Sealed.append (.of_notMem (by decide)) hvalue

theorem Template.sealed_expression (template : Template) :
    Sealed template.expression.toList := by
  have hsegments : Sealed (", ".toList.intercalate
      (template.segments.map fun segment => segment.expression.toList)) := by
    apply Sealed.intercalate (.of_notMem (by decide))
    intro text htext
    obtain ⟨segment, -, rfl⟩ := List.mem_map.1 htext
    exact segment.sealed_expression
  rw [toList_expression]
  exact Sealed.append (.of_notMem (by decide))
    ((hsegments.append (.of_notMem (by decide))).append (.of_notMem (by decide)))

namespace RegisteredView

theorem sealed_sourceText (view : RegisteredView) (minify : Bool) :
    Sealed (view.sourceText minify) := by
  cases minify with
  | true =>
    show Sealed "null".toList
    exact .of_notMem (by decide)
  | false => exact Literal.sealed_string view.source

theorem sealed_optionsText (view : RegisteredView) : Sealed view.optionsText := by
  unfold optionsText
  split
  · exact .of_notMem (by decide)
  · exact Sealed.append (.of_notMem (by decide))
      ((Literal.sealed_object view.options.entries).append (.of_notMem (by decide)))

theorem sealed_lineText (view : RegisteredView) (template : Template) (minify : Bool) :
    Sealed (view.lineText template minify) := by
  unfold lineText
  apply Sealed.append (.of_notMem (by decide))
  apply (Literal.sealed_string view.name).append
  apply Sealed.append (.of_notMem (by decide))
  apply (view.sealed_sourceText minify).append
  apply view.sealed_optionsText.append
  apply Sealed.append (.of_notMem (by decide))
  exact template.sealed_expression.append (.of_notMem (by decide))

end RegisteredView

namespace Registry

theorem sealed_of_mem_moduleLines {style : ModuleStyle}
    {views : List (RegisteredView × Template)} {line : List Char}
    (h : line ∈ moduleLines style views) : Sealed line := by
  unfold moduleLines headLines at h
  simp only [List.mem_append, List.mem_cons, List.not_mem_nil, or_false, List.mem_map] at h
  rcases h with (rfl | rfl | rfl | rfl | rfl) | ⟨⟨view, template⟩, -, rfl⟩ | rfl
  · exact .of_notMem (by decide)
  · exact Sealed.append (.of_notMem (by decide))
      ((Literal.sealed_string style.runtimeModule).append (.of_notMem (by decide)))
  · exact .of_notMem (by decide)
  · exact .of_notMem (by decide)
  · exact .of_notMem (by decide)
  · exact view.sealed_lineText template style.minify
  · exact .of_notMem (by decide)

end Registry

end ViewBundle
