import Mathlib.Data.List.Basic
import ViewBundle.Proofs.BodyEnd

/-!
# Tags that the body of a view runs over

The body of a view ends at the name of a view's tag if a blank, `>` or nothing stands right behind
the name.  A tag can have something else there: the slash that closes a start tag, or the first
character of what an end tag holds behind its name.  Such a tag is a tag of a view wherever it is
read, but a body runs over it (`endsViewBody_of_cutFirst`), and what it declares is part of the view
in front of it.  No other tag of a view is in the body of one.  Main statement:
`begins_in_viewBody_iff`.
-/

namespace ViewBundle

/-! ## Places in front of a split -/

namespace Text

theorem eq_false_of_lt_splitWhere {p : List Char → Bool} {front behind : List Char}
    (h : front.length < (splitWhere p (front ++ behind)).1.length) : p behind = false := by
  induction front with
  | nil =>
    cases behind with
    | nil => simp [splitWhere] at h
    | cons c cs =>
      by_cases hp : p (c :: cs) = true
      · simp [splitWhere, hp] at h
      · simpa using hp
  | cons c front ih =>
    rw [List.cons_append, splitWhere] at h
    split at h
    · simp at h
    · exact ih (by simpa using h)

theorem eq_splitWhere_of_length_eq {p : List Char → Bool} {front behind : List Char}
    (h : front.length = (splitWhere p (front ++ behind)).1.length) :
    behind = (splitWhere p (front ++ behind)).2 :=
  (List.append_inj (splitWhere_append p (front ++ behind)).symm h).2

end Text

namespace Markup

namespace Token

/-! ## What stands right behind the name of a tag -/

/-- What stands behind the name of a tag, up to the end of the tag. -/
def behindName : Token → List Char
  | opening source name _ => source.toList.drop ('<' :: name.toList).length
  | closing source name => source.toList.drop ('<' :: '/' :: name.toList).length
  | _ => []

/-- Whether the name of a tag ends at a character at which no body of a view ends: a slash, an
equals sign or an exclamation mark. -/
def isRunOver (tag : Token) : Bool :=
  tag.behindName.head?.any fun c => c == '/' || c == '=' || c == '!'

variable {isOpaque : String → Bool} {s inner rest : List Char} {tag : Token} {more : List Token}

/-- What a tag holds behind its name decides whether a body ends at the tag. -/
theorem endsAfterName_eq (h : s.dropWhile isNameChar = inner ++ rest) (hne : inner ≠ [])
    (hview : isViewTag (String.ofList (s.takeWhile isNameChar)) = true) :
    endsViewBody.endsAfterName s =
      !(inner.head?.any fun c => c == '/' || c == '=' || c == '!') := by
  obtain ⟨c, tail, rfl⟩ := List.exists_cons_of_ne_nil hne
  have hname : isNameChar c = false := by
    have hhead := List.head_dropWhile_not isNameChar (l := s) (by simp [h])
    simpa [h] using hhead
  rw [isViewTag, String.toList_ofList] at hview
  rw [endsViewBody.endsAfterName, hview, h, Bool.true_and]
  by_cases hmark : c = '/' ∨ c = '=' ∨ c = '!'
  · rcases hmark with rfl | rfl | rfl <;> rfl
  · have hend : Text.isBlank c = true ∨ c = '>' := by
      simpa [isNameChar, not_or.1 hmark, not_or.1 (not_or.1 hmark).2, or_iff_not_imp_left]
        using hname
    have hends : (Text.isBlank c || c == '>') = true := by simpa using hend
    have hother : (c == '/' || c == '=' || c == '!') = false := by simpa [and_assoc] using hmark
    show (Text.isBlank c || c == '>') = !(c == '/' || c == '=' || c == '!')
    rw [hends, hother]
    rfl

/-- A tag is made up of its mark, its name and what stands behind the name. -/
theorem drop_consumed (mark : List Char) (h : s.dropWhile isNameChar = inner ++ rest) :
    (consumed (mark ++ s) rest).drop (mark ++ s.takeWhile isNameChar).length = inner := by
  have hfront : mark ++ s = (mark ++ s.takeWhile isNameChar ++ inner) ++ rest := by
    rw [List.append_assoc _ inner, ← h, List.append_assoc, List.takeWhile_append_dropWhile]
  rw [consumed_append hfront, List.drop_left]

theorem endsViewBody_of_closing? (h : closing? s = some (tag :: more, rest))
    (hview : tag.isOfView = true) : endsViewBody s = !tag.isRunOver := by
  unfold closing? at h
  split at h
  · next s =>
    split at h
    · contradiction
    · obtain ⟨⟨junk, rest⟩, hjunk, hcut⟩ := Option.map_eq_some_iff.1 h
      obtain ⟨rfl, -⟩ := List.cons.inj (Prod.mk.inj hcut).1
      have hdrop := Text.eq_append_of_cut? hjunk
      have hbehind : (consumed ('<' :: '/' :: s) rest).drop
          ('<' :: '/' :: s.takeWhile isNameChar).length = junk ++ ['>'] :=
        drop_consumed ['<', '/'] hdrop
      rw [isRunOver, behindName, String.toList_ofList, String.toList_ofList, hbehind]
      exact endsAfterName_eq hdrop (by simp) hview
  · contradiction

theorem endsViewBody_of_opening? (h : opening? isOpaque s = some (tag :: more, rest))
    (hview : tag.isOfView = true) : endsViewBody s = !tag.isRunOver := by
  unfold opening? at h
  split at h
  · next s =>
    split at h
    · contradiction
    · next hne =>
      obtain ⟨⟨selfClosing, rest⟩, hend, hcut⟩ := Option.map_eq_some_iff.1 h
      obtain ⟨inner, hinner⟩ := eq_append_of_tagEnd? hend
      have hdrop : s.dropWhile isNameChar = (inner ++ ['>']) ++ rest := by
        rw [hinner, List.append_assoc]
        rfl
      have hbehind : (consumed ('<' :: s) rest).drop ('<' :: s.takeWhile isNameChar).length =
          inner ++ ['>'] :=
        drop_consumed ['<'] hdrop
      have htag : tag = .opening (String.ofList (consumed ('<' :: s) rest))
          (String.ofList (s.takeWhile isNameChar)) (Attributes.ofChars (attributeList selfClosing
            (consumed (s.dropWhile isNameChar) rest).dropLast)) := by
        dsimp only at hcut
        split at hcut
        · exact (List.cons.inj (Prod.mk.inj hcut).1).1.symm
        · exact (List.cons.inj (Prod.mk.inj hcut).1).1.symm
      have hends : endsViewBody ('<' :: s) = endsViewBody.endsAfterName s := by
        rw [endsViewBody]
        rintro s' rfl
        exact hne rfl
      subst htag
      rw [hends, isRunOver, behindName, String.toList_ofList, String.toList_ofList, hbehind]
      exact endsAfterName_eq hdrop (by simp) hview
  · contradiction

theorem isOfView_of_comment? (h : comment? s = some (tag :: more, rest)) :
    tag.isOfView = false := by
  obtain ⟨behind, -, hcut⟩ := Option.map_eq_some_iff.1 h
  split at hcut
  · rw [← (List.cons.inj (Prod.mk.inj hcut).1).1]
    rfl
  · rw [← (List.cons.inj (Prod.mk.inj hcut).1).1]
    rfl

theorem isOfView_of_declaration? (h : declaration? s = some (tag :: more, rest)) :
    tag.isOfView = false := by
  unfold declaration? at h
  split at h
  · split at h
    · rw [← (List.cons.inj (Prod.mk.inj (Option.some.inj h)).1).1]
      rfl
    · rw [← (List.cons.inj (Prod.mk.inj (Option.some.inj h)).1).1]
      rfl
  · contradiction

theorem isOfView_of_plainText (h : plainText s = (tag :: more, rest)) : tag.isOfView = false := by
  cases s with
  | nil => simp [plainText] at h
  | cons c cs =>
    rw [← (List.cons.inj (Prod.mk.inj h).1).1]
    rfl

/-- Where a tag of a view is read, the body of a view ends if and only if it does not run over the
tag. -/
theorem endsViewBody_of_cutFirst (h : cutFirst isOpaque s = (tag :: more, rest))
    (hview : tag.isOfView = true) : endsViewBody s = !tag.isRunOver := by
  rcases cutFirst_cases isOpaque s with hcut | hcut | ⟨-, hcut⟩ | hcut | hcut
  · rw [isOfView_of_comment? (h ▸ hcut)] at hview
    contradiction
  · exact endsViewBody_of_closing? (h ▸ hcut) hview
  · rw [isOfView_of_declaration? (h ▸ hcut)] at hview
    contradiction
  · exact endsViewBody_of_opening? (h ▸ hcut) hview
  · rw [isOfView_of_plainText (hcut.symm.trans h)] at hview
    contradiction

/-- The first token of a text is the first token of the first cut from it. -/
theorem exists_cutFirst_eq_of_ofChars (h : ofChars isOpaque s = tag :: more) :
    ∃ others left, cutFirst isOpaque s = (tag :: others, left) := by
  have hs : s ≠ [] := by
    rintro rfl
    rw [ofChars, dif_pos rfl] at h
    contradiction
  rw [ofChars_eq_append isOpaque hs] at h
  generalize hcut : cutFirst isOpaque s = cut at h
  have hshape := hcut ▸ shaped_cutFirst isOpaque hs
  cases hshape with
  | single htoken left => exact ⟨[], left, by rw [(List.cons.inj h).1]⟩
  | tagAndBody source name attributes after => exact ⟨_, _, by rw [(List.cons.inj h).1]⟩

end Token

/-- A tag of a view that could be read from a place in the body of a view, or right behind it,
begins in the body if and only if a slash, an equals sign or an exclamation mark stands right behind
its name.  All other tags of views stand behind the bodies in front of them. -/
theorem begins_in_viewBody_iff {markup : String} {before after : List Token}
    {source name text : String} {attributes : Attributes}
    (h : tokens isOpaqueTag markup =
      before ++ .opening source name attributes :: .body text :: after)
    (hview : isViewTag name = true) (front : List Char) {behind : List Char} {tag : Token}
    {more : List Token}
    (hplace : front ++ behind = text.toList ++ after.flatMap (·.source.toList))
    (hfront : front.length ≤ text.length)
    (htag : Token.ofChars isOpaqueTag behind = tag :: more) (hof : tag.isOfView = true) :
    front.length < text.length ↔ tag.isRunOver = true := by
  obtain ⟨others, left, hcut⟩ := Token.exists_cutFirst_eq_of_ofChars htag
  have hends := Token.endsViewBody_of_cutFirst hcut hof
  obtain ⟨inner, htext, hafter⟩ := Token.exists_of_ofChars_eq h
  rw [Token.endsBody_of_isViewTag hview] at htext hafter
  have hinner : inner = front ++ behind := by
    rw [hplace, htext, hafter, String.toList_ofList, Token.sources_ofChars,
      Text.splitWhere_append]
  rw [htext, String.length_ofList, hinner] at hfront ⊢
  constructor
  · intro hlt
    have hgoesOn := Text.eq_false_of_lt_splitWhere hlt
    rw [hends] at hgoesOn
    simpa using hgoesOn
  · intro hrunOver
    refine lt_of_le_of_ne hfront ?_
    intro hlength
    -- Right behind the body the text has ended, or the body could end.
    have hrest := Text.splitWhere_snd Token.endsViewBody (front ++ behind)
    rw [← Text.eq_splitWhere_of_length_eq hlength, hends, hrunOver] at hrest
    rcases hrest with rfl | hrest
    · rw [Token.ofChars, dif_pos rfl] at htag
      contradiction
    · contradiction

/-- A page whose first view goes on over a start tag and an end tag, up to another start tag. -/
def runOverPage : String :=
  "<a:>x<b:/>y</c:=d>z<d:>w"

theorem begins_in_viewBody_iff_runOverPage :
    tokens isOpaqueTag runOverPage = .opening "<a:>" "a:" .empty :: .body "x<b:/>y</c:=d>z" ::
        [.opening "<d:>" "d:" .empty, .body "w"] ∧
    (tokens isOpaqueTag "<b:/>y</c:=d>z<d:>w" = .opening "<b:/>" "b:" .empty ::
        [.body "y</c:=d>z", .opening "<d:>" "d:" .empty, .body "w"] ∧
      ("x".length < "x<b:/>y</c:=d>z".length ↔
        (Token.opening "<b:/>" "b:" .empty).isRunOver = true)) ∧
    (tokens isOpaqueTag "</c:=d>z<d:>w" = .closing "</c:=d>" "c:" ::
        [.plain "z", .opening "<d:>" "d:" .empty, .body "w"] ∧
      ("x<b:/>y".length < "x<b:/>y</c:=d>z".length ↔
        (Token.closing "</c:=d>" "c:").isRunOver = true)) ∧
    (tokens isOpaqueTag "<d:>w" = .opening "<d:>" "d:" .empty :: [.body "w"] ∧
      ("x<b:/>y</c:=d>z".length < "x<b:/>y</c:=d>z".length ↔
        (Token.opening "<d:>" "d:" .empty).isRunOver = true)) := by
  have hpage : tokens isOpaqueTag runOverPage = [] ++ .opening "<a:>" "a:" .empty ::
      .body "x<b:/>y</c:=d>z" :: [.opening "<d:>" "d:" .empty, .body "w"] := by
    decide +kernel
  have hopening : tokens isOpaqueTag "<b:/>y</c:=d>z<d:>w" = .opening "<b:/>" "b:" .empty ::
      [.body "y</c:=d>z", .opening "<d:>" "d:" .empty, .body "w"] := by
    decide +kernel
  have hclosing : tokens isOpaqueTag "</c:=d>z<d:>w" = .closing "</c:=d>" "c:" ::
      [.plain "z", .opening "<d:>" "d:" .empty, .body "w"] := by
    decide +kernel
  have hnext : tokens isOpaqueTag "<d:>w" = .opening "<d:>" "d:" .empty :: [.body "w"] := by
    decide +kernel
  refine ⟨hpage, ⟨hopening, ?_⟩, ⟨hclosing, ?_⟩, ⟨hnext, ?_⟩⟩
  · exact begins_in_viewBody_iff hpage rfl "x".toList rfl (by decide) hopening rfl
  · exact begins_in_viewBody_iff hpage rfl "x<b:/>y".toList rfl (by decide) hclosing rfl
  · exact begins_in_viewBody_iff hpage rfl "x<b:/>y</c:=d>z".toList rfl (by decide)
      hnext rfl

/-- The body of a view can hold a place from which a tag of a view could be read. -/
theorem not_forall_isOfView_in_viewBody :
    ¬∀ (markup : String) (before after : List Token) (source name text : String)
      (attributes : Attributes) (front behind : List Char) (tag : Token) (more : List Token),
      tokens isOpaqueTag markup =
        before ++ .opening source name attributes :: .body text :: after →
      isViewTag name = true →
      front ++ behind = text.toList ++ after.flatMap (·.source.toList) →
      front.length < text.length →
      Token.ofChars isOpaqueTag behind = tag :: more → tag.isOfView = false := by
  intro h
  have hpage : tokens isOpaqueTag "<a:>x<b:/>y" =
      [] ++ .opening "<a:>" "a:" .empty :: .body "x<b:/>y" :: [] := by
    decide +kernel
  have hplace : tokens isOpaqueTag "<b:/>y" =
      .opening "<b:/>" "b:" .empty :: [.body "y"] := by
    decide +kernel
  have hnot := h _ _ _ _ _ _ _ "x".toList "<b:/>y".toList _ _ hpage rfl rfl (by decide) hplace
  contradiction

end Markup

end ViewBundle
