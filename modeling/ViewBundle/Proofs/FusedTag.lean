import ViewBundle.Proofs.BodyEnd
import ViewBundle.Proofs.WholeFile

/-!
# Tags that run together with the text in front of them

The characters that a tag name can hold include `<` and quotes.  So a tag that is begun at the end
of a body, and whose name is not over there, takes in the tag behind the body: `<i` and `<b:>` are
the one tag `<i<b:>`.  A body without a colon keeps all of its text, and the tag behind it its name,
if and only if no tag is begun in this way at its end.  Main statement:
`events_viewTag_after_body`.
-/

namespace ViewBundle

/-! ## Splitting a text in front of another one -/

/-- If a test passes at the places of a text, with another text behind it, where another test
passes without that text, and if it passes at the other text, then the text is split alike. -/
theorem Text.splitWhere_append_eq {p q : List Char → Bool} {s after : List Char}
    (hafter : splitWhere p after = ([], after))
    (h : ∀ t, t <:+ s → t ≠ [] → p (t ++ after) = q t) :
    splitWhere p (s ++ after) = ((splitWhere q s).1, (splitWhere q s).2 ++ after) := by
  induction s with
  | nil => exact hafter
  | cons c cs ih =>
    have hhere : p (c :: (cs ++ after)) = q (c :: cs) := h (c :: cs) List.suffix_rfl (by simp)
    have hmore := ih fun t ht => h t (ht.trans (List.suffix_cons c cs))
    rw [List.cons_append, splitWhere, splitWhere, hhere, hmore]
    cases q (c :: cs) <;> rfl

namespace Markup

namespace Token

/-! ## Tags whose name is not over -/

/-- Whether a text is the beginning of a tag up to a place in the name: `<` or `</`, and nothing
else but characters that a tag name can hold. -/
def isUnfinished : List Char → Bool
  | '<' :: '/' :: front => front.all isNameChar
  | '<' :: front => front.all isNameChar
  | _ => false

/-- Whether no tag is begun at the end of a text so that its name is not over there. -/
def endsFinished (text : String) : Bool :=
  text.toList.tails.all (!isUnfinished ·)

/-- A start tag that is written without attributes. -/
def bareOpening (name : String) : Token :=
  opening ("<" ++ name ++ ">") name .empty

/-- An end tag that is written without anything behind its name. -/
def bareClosing (name : String) : Token :=
  closing ("</" ++ name ++ ">") name

/-- The tag that a start tag without attributes makes up with the beginning of a tag in front of
it, of which the name is not over. -/
def fused (name : String) : (unfinished : List Char) → Token
  | '<' :: '/' :: front => bareClosing (String.ofList front ++ "<" ++ name)
  | '<' :: front => bareOpening (String.ofList front ++ "<" ++ name)
  | _ => bareOpening name

theorem viewStem?_append {name : List Char} (front : List Char)
    (h : (viewStem? name).isSome = true) : (viewStem? (front ++ name)).isSome = true := by
  obtain ⟨stem, hstem⟩ := Option.isSome_iff_exists.1 h
  obtain ⟨rfl, hne⟩ := eq_append_of_viewStem? hstem
  have hlength := List.length_pos_iff.2 hne
  rw [viewStem?, ← List.append_assoc, List.getLast?_concat, if_pos]
  · rfl
  · simp
    omega

theorem viewStem?_of_notMem {name : List Char} (h : ':' ∉ name) : viewStem? name = none := by
  have hlast : name.getLast? ≠ some ':' := fun hcolon => h (List.mem_of_getLast? hcolon)
  simp [viewStem?, hlast]

theorem isViewTag_append_colon {stem : String} (hne : stem ≠ "") : isViewTag (stem ++ ":") := by
  have hchars : stem.toList ≠ [] := fun hnil => hne (String.toList_eq_nil_iff.1 hnil)
  have hlength := List.length_pos_iff.2 hchars
  have htext : (stem ++ ":").toList = stem.toList ++ [':'] := by simp
  rw [isViewTag, htext, viewStem?, List.getLast?_concat, if_pos]
  · rfl
  · simp
    omega

section

variable {name : String} (hview : isViewTag name = true)
  (hname : ∀ c ∈ name.toList, isNameChar c = true)

include hname in
theorem isNameChar_of_mem_append {front : List Char} (hfront : front.all isNameChar = true) :
    ∀ c ∈ (String.ofList front ++ "<" ++ name).toList, isNameChar c = true := by
  have hall := List.all_eq_true.1 hfront
  have hbracket : isNameChar '<' = true := by decide
  intro c hc
  rw [String.toList_append, String.toList_append, String.toList_ofList, List.mem_append,
    List.mem_append] at hc
  rcases hc with (hc | hc) | hc
  · exact hall c hc
  · rw [List.mem_singleton.1 hc]
    exact hbracket
  · exact hname c hc

include hview in
theorem isViewTag_append (front : List Char) :
    isViewTag (String.ofList front ++ "<" ++ name) = true := by
  rw [isViewTag, String.toList_append]
  exact viewStem?_append _ hview

/-! ## Where a body ends in front of a tag -/

include hview hname in
/-- Behind the beginning of a name, a start tag of a view goes on with the name. -/
theorem endsAfterName_append_startTag {front : List Char} (hcolon : ':' ∉ front)
    (rest : List Char) :
    endsViewBody.endsAfterName (front ++ (startTag name [] ++ rest)) = front.all isNameChar := by
  cases hall : front.all isNameChar with
  | true =>
    have hwhole : front ++ (startTag name [] ++ rest) =
        (String.ofList front ++ "<" ++ name).toList ++ '>' :: rest := by
      simp [startTag, WrittenAttribute.listText]
    rw [hwhole]
    exact endsAfterName_name_append (isNameChar_of_mem_append hname hall)
      (isViewTag_append hview front) (.inr rfl) rest
  | false =>
    -- The name is over in front of the tag, and holds no colon.
    have hshort : (front.takeWhile isNameChar).length ≠ front.length := by
      intro hlength
      have hwhole := (List.takeWhile_prefix isNameChar).eq_of_length hlength
      rw [List.takeWhile_eq_self_iff] at hwhole
      rw [List.all_eq_true.2 hwhole] at hall
      contradiction
    have hstem : viewStem? (front.takeWhile isNameChar) = none :=
      viewStem?_of_notMem fun hc => hcolon (List.takeWhile_subset _ hc)
    rw [endsViewBody.endsAfterName, List.takeWhile_append, if_neg hshort, hstem]
    rfl

include hview hname in
/-- In a text without a colon, with a start tag of a view behind it, the body of a view ends where
a tag is begun whose name is not over. -/
theorem endsViewBody_append_startTag {t : List Char} (hne : t ≠ []) (hcolon : ':' ∉ t)
    (rest : List Char) : endsViewBody (t ++ (startTag name [] ++ rest)) = isUnfinished t := by
  obtain ⟨c, cs, rfl⟩ := List.exists_cons_of_ne_nil hne
  by_cases hc : c = '<'
  · subst hc
    cases cs with
    | nil => exact endsAfterName_append_startTag hview hname List.not_mem_nil rest
    | cons d ds =>
      rw [List.mem_cons, not_or] at hcolon
      by_cases hd : d = '/'
      · subst hd
        have hds : ':' ∉ ds := fun hmem => hcolon.2 (List.mem_cons_of_mem _ hmem)
        exact endsAfterName_append_startTag hview hname hds rest
      · have hends := endsAfterName_append_startTag hview hname hcolon.2 rest
        simpa [endsViewBody, isUnfinished, hd] using hends
  · simp [endsViewBody, isUnfinished, hc]

include hview hname in
/-- A text without a colon is the body of a view up to the place where a tag is begun whose name is
not over, or up to the start tag of a view behind the text. -/
theorem splitWhere_append_startTag {body : List Char} (hcolon : ':' ∉ body) (rest : List Char) :
    Text.splitWhere endsViewBody (body ++ (startTag name [] ++ rest)) =
      ((Text.splitWhere isUnfinished body).1,
        (Text.splitWhere isUnfinished body).2 ++ (startTag name [] ++ rest)) := by
  have hne : name ≠ "" := by
    rintro rfl
    contradiction
  apply Text.splitWhere_append_eq
  · exact WrittenView.splitWhere_of_endsViewBody
      (endsViewBody_startTag_append hne hname hview [] rest)
  · intro t hsuffix ht
    exact endsViewBody_append_startTag hview hname ht (fun hc => hcolon (hsuffix.mem hc)) rest

/-! ## The tag behind a body -/

theorem isEvent_fused (name : String) (unfinished : List Char) :
    (fused name unfinished).isEvent = true := by
  unfold fused
  split <;> rfl

theorem ofList_startTag (name : String) :
    String.ofList (startTag name []) = "<" ++ name ++ ">" := by
  rw [← String.toList_inj]
  simp [startTag, WrittenAttribute.listText]

theorem ofList_endTag (name : String) : String.ofList (endTag name) = "</" ++ name ++ ">" := by
  rw [← String.toList_inj]
  simp [endTag]

theorem startTagCut_nil (isOpaque : String → Bool) (name : String) (after : List Char) :
    startTagCut isOpaque name [] after =
      if isOpaque name then
        ([bareOpening name, body (String.ofList (Text.splitWhere (endsBody name.toList) after).1)],
          (Text.splitWhere (endsBody name.toList) after).2)
      else ([bareOpening name], after) := by
  have hattributes : Attributes.ofChars (WrittenAttribute.listText []) = .empty := by
    rw [Attributes.ofChars, Attributes.pairs_listText]
    rfl
  rw [startTagCut, ofList_startTag, hattributes]
  rfl

include hname in
theorem exists_cutFirst_startTag (isOpaque : String → Bool) (hne : name ≠ "")
    (rest : List Char) :
    ∃ more left,
      cutFirst isOpaque (startTag name [] ++ rest) = (bareOpening name :: more, left) := by
  rw [cutFirst_startTag hne hname, startTagCut_nil]
  split
  · exact ⟨_, _, rfl⟩
  · exact ⟨_, _, rfl⟩

include hview hname in
theorem ofChars_startTag_append (rest : List Char) :
    ofChars isOpaqueTag (startTag name [] ++ rest) =
      bareOpening name :: body (String.ofList (Text.splitWhere endsViewBody rest).1) ::
        ofChars isOpaqueTag (Text.splitWhere endsViewBody rest).2 := by
  have hne : name ≠ "" := by
    rintro rfl
    contradiction
  have hopaque : isOpaqueTag name = true := by
    rw [isOpaqueTag, hview, Bool.true_or, Bool.true_or]
  rw [ofChars_eq_append isOpaqueTag (by simp [startTag]), cutFirst_startTag hne hname,
    startTagCut_nil, if_pos hopaque, endsBody_of_isViewTag hview]
  rfl

include hview hname in
/-- What a body without a colon ends at is one tag, up to the end of the start tag behind it. -/
theorem exists_cutFirst_fused (isOpaque : String → Bool) {unfinished : List Char}
    (h : unfinished = [] ∨ isUnfinished unfinished = true) (rest : List Char) :
    ∃ more left, cutFirst isOpaque (unfinished ++ (startTag name [] ++ rest)) =
      (fused name unfinished :: more, left) := by
  have hne : name ≠ "" := by
    rintro rfl
    contradiction
  have hwhole (front : List Char) : String.ofList front ++ "<" ++ name ≠ "" := by
    intro hempty
    have hchars := congrArg String.toList hempty
    simp at hchars
  -- What is begun is an end tag, a start tag, or nothing; the name goes on in the tag behind it.
  unfold fused
  split
  · next front =>
    have hfront : front.all isNameChar = true := h.resolve_left (by simp)
    have htag : '<' :: '/' :: front ++ (startTag name [] ++ rest) =
        endTag (String.ofList front ++ "<" ++ name) ++ rest := by
      simp [startTag, endTag, WrittenAttribute.listText]
    rw [htag, cutFirst_endTag (hwhole front) (isNameChar_of_mem_append hname hfront),
      ofList_endTag]
    exact ⟨_, _, rfl⟩
  · next front hslash =>
    have hfront : front.all isNameChar = true := by
      have hunfinished := h.resolve_left (by simp)
      unfold isUnfinished at hunfinished
      split at hunfinished
      · next heq => exact absurd (List.cons.inj heq).2 (hslash _)
      · next heq => rwa [(List.cons.inj heq).2]
      · contradiction
    have htag : '<' :: front ++ (startTag name [] ++ rest) =
        startTag (String.ofList front ++ "<" ++ name) [] ++ rest := by
      simp [startTag, WrittenAttribute.listText]
    rw [htag]
    exact exists_cutFirst_startTag (isNameChar_of_mem_append hname hfront) isOpaque
      (hwhole front) rest
  · next hslash hbracket =>
    have hnil : unfinished = [] := by
      refine h.resolve_right ?_
      unfold isUnfinished
      split
      · exact absurd rfl (hslash _)
      · exact absurd rfl (hbracket _)
      · simp
    rw [hnil, List.nil_append]
    exact exists_cutFirst_startTag hname isOpaque hne rest

end

end Token

/-- The body of a view without a colon goes up to the first beginning of a tag at its end of which
the name is not over; with the tag behind the body this makes up the next tag. -/
theorem exists_events_fused {a b body : String} (ha : a ≠ "")
    (haname : ∀ c ∈ a.toList, isNameChar c = true) (hb : b ≠ "")
    (hbname : ∀ c ∈ b.toList, isNameChar c = true) (hcolon : ':' ∉ body.toList)
    (rest : String) :
    ∃ more, events isOpaqueTag ("<" ++ a ++ ":>" ++ body ++ "<" ++ b ++ ":>" ++ rest) =
      Token.bareOpening (a ++ ":") ::
        .body (String.ofList (Text.splitWhere Token.isUnfinished body.toList).1) ::
          Token.fused (b ++ ":") (Text.splitWhere Token.isUnfinished body.toList).2 :: more := by
  have hview {stem : String} (hne : stem ≠ "") := Token.isViewTag_append_colon hne
  have hname {stem : String} (h : ∀ c ∈ stem.toList, isNameChar c = true) :
      ∀ c ∈ (stem ++ ":").toList, isNameChar c = true := by
    have hlast : isNameChar ':' = true := by decide
    simpa [or_imp, forall_and, hlast] using h
  have hmarkup : ("<" ++ a ++ ":>" ++ body ++ "<" ++ b ++ ":>" ++ rest).toList =
      startTag (a ++ ":") [] ++ (body.toList ++ (startTag (b ++ ":") [] ++ rest.toList)) := by
    simp [startTag, WrittenAttribute.listText]
  have hsplit := Token.splitWhere_append_startTag (hview hb) (hname hbname) hcolon rest.toList
  have hunfinished := Text.splitWhere_snd Token.isUnfinished body.toList
  generalize Text.splitWhere Token.isUnfinished body.toList = parts at *
  obtain ⟨next, left, hcut⟩ := Token.exists_cutFirst_fused (hview hb) (hname hbname) isOpaqueTag
    hunfinished rest.toList
  rw [events, tokens, hmarkup, Token.ofChars_startTag_append (hview ha) (hname haname), hsplit,
    Token.ofChars_eq_append isOpaqueTag (by simp [startTag]), hcut, List.cons_append,
    List.filter_cons_of_pos rfl, List.filter_cons_of_pos rfl,
    List.filter_cons_of_pos (Token.isEvent_fused _ _)]
  exact ⟨_, rfl⟩

/-- The body of a view is the text up to the next view's tag, and that tag is read by its name, if
and only if no tag is begun at the end of the text of which the name is not over.  Otherwise the
body goes up to the first such beginning, which becomes the first part of the next tag and of its
name. -/
theorem events_viewTag_after_body {a b body : String} (ha : a ≠ "")
    (haname : ∀ c ∈ a.toList, isNameChar c = true) (hb : b ≠ "")
    (hbname : ∀ c ∈ b.toList, isNameChar c = true) (hcolon : ':' ∉ body.toList)
    (rest : String) :
    ((∃ more, events isOpaqueTag ("<" ++ a ++ ":>" ++ body ++ "<" ++ b ++ ":>" ++ rest) =
        Token.bareOpening (a ++ ":") :: .body body :: Token.bareOpening (b ++ ":") :: more) ↔
      Token.endsFinished body = true) ∧
    ∃ more, events isOpaqueTag ("<" ++ a ++ ":>" ++ body ++ "<" ++ b ++ ":>" ++ rest) =
      Token.bareOpening (a ++ ":") ::
        .body (String.ofList (Text.splitWhere Token.isUnfinished body.toList).1) ::
          Token.fused (b ++ ":") (Text.splitWhere Token.isUnfinished body.toList).2 :: more := by
  have hfinished : (Text.splitWhere Token.isUnfinished body.toList).2 = [] ↔
      Token.endsFinished body = true :=
    Text.splitWhere_snd_eq_nil_iff rfl body.toList
  have happend := Text.splitWhere_append Token.isUnfinished body.toList
  obtain ⟨more, hevents⟩ := exists_events_fused ha haname hb hbname hcolon rest
  refine ⟨⟨?_, fun h => ?_⟩, more, hevents⟩
  · rintro ⟨other, hclaimed⟩
    have hbody := (List.cons.inj (List.cons.inj (hevents.symm.trans hclaimed)).2).1
    have hchars := congrArg String.toList (Token.body.inj hbody)
    rw [String.toList_ofList] at hchars
    rw [hchars, List.append_right_eq_self] at happend
    exact hfinished.1 happend
  · have hnil := hfinished.2 h
    rw [hnil, List.append_nil] at happend
    rw [happend, hnil, String.ofList_toList] at hevents
    exact ⟨more, hevents⟩

/-- The body of `nav:item` ends in a tag whose name is over, and then in one whose name is not. -/
theorem events_viewTag_after_body_strayBrackets :
    ("nav:item" ≠ "" ∧ "nav:item".toList.all isNameChar ∧ "b" ≠ "" ∧ "b".toList.all isNameChar ∧
      ':' ∉ "1 < 2 <p class=\"".toList ∧ ':' ∉ "x <i</".toList) ∧
    (∃ more, events isOpaqueTag "<nav:item:>1 < 2 <p class=\"<b:>y" =
      Token.bareOpening "nav:item:" :: .body "1 < 2 <p class=\"" ::
        Token.bareOpening "b:" :: more) ∧
    ∃ more, events isOpaqueTag "<nav:item:>x <i</<b:>y" =
      Token.bareOpening "nav:item:" :: .body "x <i" :: Token.bareClosing "<b:" :: more := by
  have hitem : "nav:item".toList.all isNameChar := by decide
  have hb : "b".toList.all isNameChar := by decide
  have hover : ':' ∉ "1 < 2 <p class=\"".toList := by decide
  have hbegun : ':' ∉ "x <i</".toList := by decide
  refine ⟨⟨by decide, hitem, by decide, hb, hover, hbegun⟩, ?_, ?_⟩
  · exact (events_viewTag_after_body (by decide) (List.all_eq_true.1 hitem) (by decide)
      (List.all_eq_true.1 hb) hover "y").1.2 (by decide)
  · exact (events_viewTag_after_body (by decide) (List.all_eq_true.1 hitem) (by decide)
      (List.all_eq_true.1 hb) hbegun "y").2

/-- A body without a colon can change the tag of the view behind it: a bracket at its end becomes
the first character of the name. -/
theorem not_forall_events_viewTag_after_body :
    (¬∀ a b body rest : String, a ≠ "" → (∀ c ∈ a.toList, isNameChar c = true ∧ c ≠ '<') →
      b ≠ "" → (∀ c ∈ b.toList, isNameChar c = true ∧ c ≠ '<') → ':' ∉ body.toList →
      ∃ source attributes more,
        events isOpaqueTag ("<" ++ a ++ ":>" ++ body ++ "<" ++ b ++ ":>" ++ rest) =
          Token.bareOpening (a ++ ":") :: .body body ::
            .opening source (b ++ ":") attributes :: more) ∧
    events isOpaqueTag "<a:>x<<b:>y" =
      [Token.bareOpening "a:", .body "x", Token.bareOpening "<b:", .body "y"] := by
  have hfused : events isOpaqueTag "<a:>x<<b:>y" =
      [Token.bareOpening "a:", .body "x", Token.bareOpening "<b:", .body "y"] := by
    decide +kernel
  refine ⟨fun h => ?_, hfused⟩
  obtain ⟨source, attributes, more, hclaimed⟩ := h "a" "b" "x<" "y"
    (by decide) (List.forall_mem_singleton.2 (by decide))
    (by decide) (List.forall_mem_singleton.2 (by decide)) (by decide)
  have hbody := (List.cons.inj (List.cons.inj (hfused.symm.trans hclaimed)).2).1
  exact absurd (Token.body.inj hbody) (by decide)

end Markup

end ViewBundle
