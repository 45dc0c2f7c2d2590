import Mathlib.Data.List.Basic
import ViewBundle.FileTree
import ViewBundle.Proofs.Scanning
import ViewBundle.ViewFile

/-!
# What stands behind the body of a view

The body of a view ends where the name of a view's tag stands behind `<` or `</`; whether a tag
stands there is found out only afterwards.  A whole tag is the token behind the body.  What is no
whole tag is plain text up to the next `<` (`cutFirst_of_endsViewBody`), which belongs to no view:
the markup declares what it declares without that text.  Main statement: `next_of_viewBody`.
-/

namespace ViewBundle

namespace Text

/-- Where a text is split, the test is passed, or the text has ended. -/
theorem splitWhere_snd (p : List Char → Bool) (s : List Char) :
    (splitWhere p s).2 = [] ∨ p (splitWhere p s).2 := by
  induction s with
  | nil => exact .inl rfl
  | cons c cs ih =>
    rw [splitWhere]
    split
    · next h => exact .inr h
    · exact ih

theorem isSome_cut?_singleton (c : Char) (s : List Char) :
    (cut? [c] s).isSome = s.contains c := by
  induction s with
  | nil => rfl
  | cons d ds ih =>
    rw [cut?, isPrefixOf?_cons_cons, List.contains_cons]
    by_cases h : c = d
    · simp [h]
    · simp [h, ih]

end Text

namespace Markup

namespace Token

/-- Whether a token is a start tag or an end tag of a view. -/
def isOfView : Token → Bool
  | opening _ name _ => isViewTag name
  | closing _ name => isViewTag name
  | _ => false

/-- Whether a text that begins like a tag begins with a whole one: behind the name of an end tag
comes a `>`, behind that of a start tag its attributes and the `>` that ends them. -/
def isWhole : List Char → Bool
  | '<' :: '/' :: more => (more.dropWhile isNameChar).contains '>'
  | '<' :: more => (tagEnd? (more.dropWhile isNameChar)).isSome
  | _ => false

/-! ## Bodies among the tokens of a text -/

/-- Tokens of a cut: one that is no body, or a start tag and its body. -/
inductive Cut.Shaped : Cut → Prop
  | single {token : Token} (h : ∀ text, token ≠ .body text) (rest : List Char) :
    Shaped ([token], rest)
  | tagAndBody (source name : String) (attributes : Attributes) (after : List Char) :
    Shaped ([.opening source name attributes,
      .body (String.ofList (Text.splitWhere (endsBody name.toList) after).1)],
      (Text.splitWhere (endsBody name.toList) after).2)

theorem Cut.Form.shaped {isOpaque : String → Bool} {s : List Char} {cut : Cut}
    (h : cut.Form isOpaque s) : cut.Shaped := by
  cases h with
  | silent => exact .single (by simp) _
  | closing => exact .single (by simp) _
  | tag => exact .single (by simp) _
  | tagAndBody => exact .tagAndBody _ _ _ _
  | plain => exact .single (by simp) _

theorem shaped_cutFirst (isOpaque : String → Bool) {s : List Char} (h : s ≠ []) :
    (cutFirst isOpaque s).Shaped :=
  (form_cutFirst isOpaque h).shaped

theorem ofChars_eq_append (isOpaque : String → Bool) {s : List Char} (h : s ≠ []) :
    ofChars isOpaque s =
      (cutFirst isOpaque s).1 ++ ofChars isOpaque (cutFirst isOpaque s).2 := by
  rw [ofChars, dif_neg h]

/-- No text begins with a body. -/
theorem ofChars_ne_body_cons (isOpaque : String → Bool) (s : List Char) (text : String)
    (more : List Token) : ofChars isOpaque s ≠ .body text :: more := by
  intro h
  by_cases hs : s = []
  · rw [hs, ofChars, dif_pos rfl] at h
    cases h
  · rw [ofChars_eq_append isOpaque hs] at h
    generalize hcut : cutFirst isOpaque s = cut at h
    have hshape := hcut ▸ shaped_cutFirst isOpaque hs
    cases hshape with
    | single htoken rest => exact htoken text (List.cons.inj h).1
    | tagAndBody source name attributes after => cases (List.cons.inj h).1

/-- A body goes up to the first place where it can end, and the text from there on is cut into the
tokens behind it. -/
theorem exists_of_ofChars_eq {isOpaque : String → Bool} {s : List Char} {before after : List Token}
    {source name text : String} {attributes : Attributes}
    (h : ofChars isOpaque s = before ++ .opening source name attributes :: .body text :: after) :
    ∃ inner, text = String.ofList (Text.splitWhere (endsBody name.toList) inner).1 ∧
      after = ofChars isOpaque (Text.splitWhere (endsBody name.toList) inner).2 := by
  -- The tag and its body come from one cut, which is the first one or one of those behind it.
  induction hn : s.length using Nat.strongRecOn generalizing s before with
  | ind n ih =>
    by_cases hs : s = []
    · rw [hs, ofChars, dif_pos rfl] at h
      simp at h
    have hshorter := (cutFirst_of isOpaque hs).shorter
    rw [ofChars_eq_append isOpaque hs] at h
    generalize hcut : cutFirst isOpaque s = cut at h hshorter
    have hshape := hcut ▸ shaped_cutFirst isOpaque hs
    cases hshape with
    | single htoken rest =>
      cases before with
      | nil => exact absurd (List.cons.inj h).2 (ofChars_ne_body_cons isOpaque rest text after)
      | cons _ before => exact ih _ (hn ▸ hshorter) (List.cons.inj h).2 rfl
    | tagAndBody source' name' attributes' inner =>
      cases before with
      | nil =>
        obtain ⟨htag, hmore⟩ := List.cons.inj h
        obtain ⟨hbody, hafter⟩ := List.cons.inj hmore
        obtain ⟨-, rfl, -⟩ := Token.opening.inj htag
        exact ⟨inner, (Token.body.inj hbody).symm, hafter.symm⟩
      | cons _ before =>
        have hmore := (List.cons.inj h).2
        cases before with
        | nil => cases (List.cons.inj hmore).1
        | cons _ before => exact ih _ (hn ▸ hshorter) (List.cons.inj hmore).2 rfl

/-! ## The place where the body of a view ends -/

theorem endsBody_of_isViewTag {name : String} (hview : isViewTag name) :
    endsBody name.toList = endsViewBody := by
  funext s
  rw [endsBody]
  exact if_pos hview

/-- Behind the body of a view the text has ended, or it goes on with the name of a view's tag. -/
theorem exists_rest_of_viewBody {isOpaque : String → Bool} {s : List Char}
    {before after : List Token} {source name text : String} {attributes : Attributes}
    (h : ofChars isOpaque s = before ++ .opening source name attributes :: .body text :: after)
    (hview : isViewTag name) :
    ∃ rest, after = ofChars isOpaque rest ∧ (rest = [] ∨ endsViewBody rest) := by
  obtain ⟨inner, -, hafter⟩ := exists_of_ofChars_eq h
  rw [endsBody_of_isViewTag hview] at hafter
  exact ⟨_, hafter, Text.splitWhere_snd endsViewBody inner⟩

theorem isViewTag_of_endsAfterName {s : List Char} (h : endsViewBody.endsAfterName s) :
    isViewTag (String.ofList (s.takeWhile isNameChar)) := by
  rw [endsViewBody.endsAfterName, Bool.and_eq_true] at h
  rw [isViewTag, String.toList_ofList]
  exact h.1

/-- The name at which a body ends begins with a letter that nothing but a name begins with. -/
theorem exists_cons_of_endsAfterName {s : List Char} (h : endsViewBody.endsAfterName s) :
    ∃ c cs, s = c :: cs ∧ isNameChar c ∧ c ≠ '/' ∧ c ≠ '!' := by
  cases s with
  | nil => cases h
  | cons c cs =>
    by_cases hc : isNameChar c
    · simp only [isNameChar, Bool.and_eq_true, bne_iff_ne, ne_eq] at hc
      exact ⟨c, cs, rfl, by simp [isNameChar, hc], hc.1.1.2, hc.1.2⟩
    · have hview := isViewTag_of_endsAfterName h
      rw [List.takeWhile_cons_of_neg hc] at hview
      cases hview

/-- An end tag of a view is one token, if it is a whole tag. -/
theorem closing?_of_endsAfterName {s : List Char} (h : endsViewBody.endsAfterName s) :
    (isWhole ('<' :: '/' :: s) = true ∧ ∃ source rest, closing? ('<' :: '/' :: s) =
      some ([.closing source (String.ofList (s.takeWhile isNameChar))], rest)) ∨
    (isWhole ('<' :: '/' :: s) = false ∧ closing? ('<' :: '/' :: s) = none) := by
  obtain ⟨c, cs, rfl, hc, -⟩ := exists_cons_of_endsAfterName h
  have hwhole : isWhole ('<' :: '/' :: c :: cs) =
      (Text.cut? ['>'] ((c :: cs).dropWhile isNameChar)).isSome :=
    (Text.isSome_cut?_singleton '>' _).symm
  rw [hwhole, closing?]
  split
  · next hnil => simp [List.takeWhile_cons_of_pos hc] at hnil
  · cases Text.cut? ['>'] ((c :: cs).dropWhile isNameChar) with
    | none => exact .inr ⟨rfl, rfl⟩
    | some parts => exact .inl ⟨rfl, _, _, rfl⟩

/-- A start tag of a view is the first token, if it is a whole tag. -/
theorem opening?_of_endsAfterName (isOpaque : String → Bool) {s : List Char}
    (h : endsViewBody.endsAfterName s) :
    (isWhole ('<' :: s) = true ∧ ∃ source attributes more rest, opening? isOpaque ('<' :: s) =
      some (.opening source (String.ofList (s.takeWhile isNameChar)) attributes :: more, rest)) ∨
    (isWhole ('<' :: s) = false ∧ opening? isOpaque ('<' :: s) = none) := by
  obtain ⟨c, cs, rfl, hc, hslash, -⟩ := exists_cons_of_endsAfterName h
  have hwhole : isWhole ('<' :: c :: cs) =
      (tagEnd? ((c :: cs).dropWhile isNameChar)).isSome := by
    rw [isWhole]
    rintro more heq
    exact hslash (List.cons.inj heq).1
  rw [hwhole, opening?]
  split
  · next hnil => simp [List.takeWhile_cons_of_pos hc] at hnil
  · cases tagEnd? ((c :: cs).dropWhile isNameChar) with
    | none => exact .inr ⟨rfl, rfl⟩
    | some tagEnd =>
      refine .inl ⟨rfl, ?_⟩
      rw [Option.map_some]
      dsimp only
      split
      · exact ⟨_, _, _, _, rfl⟩
      · exact ⟨_, _, _, _, rfl⟩

/-- Behind `</` comes an end tag or nothing that is a tag. -/
theorem cutFirst_slash (isOpaque : String → Bool) (s : List Char) :
    cutFirst isOpaque ('<' :: '/' :: s) =
      (closing? ('<' :: '/' :: s)).getD (plainText ('<' :: '/' :: s)) := by
  have hcomment : comment? ('<' :: '/' :: s) = none := rfl
  rw [cutFirst, hcomment, Option.none_or]
  cases closing? ('<' :: '/' :: s) <;> rfl

/-- Behind `<` and a letter that begins no other markup comes a start tag or nothing that is a
tag. -/
theorem cutFirst_of_ne (isOpaque : String → Bool) {c : Char} {cs : List Char} (hslash : c ≠ '/')
    (hmark : c ≠ '!') :
    cutFirst isOpaque ('<' :: c :: cs) =
      (opening? isOpaque ('<' :: c :: cs)).getD (plainText ('<' :: c :: cs)) := by
  have hcomment : comment? ('<' :: c :: cs) = none := by
    simp [comment?, Ne.symm hmark]
  have hclosing : closing? ('<' :: c :: cs) = none := by
    simp [closing?, hslash]
  have hdeclaration : declaration? ('<' :: c :: cs) = none := by
    simp [declaration?, hmark]
  rw [cutFirst, hcomment, hclosing, hdeclaration]
  rfl

/-- What a body of a view ends at is read as a tag of a view if it is a whole tag, else as plain
text. -/
theorem cutFirst_of_endsViewBody (isOpaque : String → Bool) {s : List Char}
    (h : endsViewBody s) :
    (isWhole s = true ∧ ∃ next more rest,
      cutFirst isOpaque s = (next :: more, rest) ∧ next.isOfView = true) ∨
    (isWhole s = false ∧ cutFirst isOpaque s = plainText s) := by
  unfold endsViewBody at h
  split at h
  · next s =>
    rw [cutFirst_slash]
    rcases closing?_of_endsAfterName h with ⟨hwhole, source, rest, hclosing⟩ | ⟨hwhole, hclosing⟩
    · rw [hclosing]
      exact .inl ⟨hwhole, _, _, _, rfl, isViewTag_of_endsAfterName h⟩
    · rw [hclosing]
      exact .inr ⟨hwhole, rfl⟩
  · next s _ =>
    obtain ⟨c, cs, rfl, -, hslash, hmark⟩ := exists_cons_of_endsAfterName h
    rw [cutFirst_of_ne isOpaque hslash hmark]
    rcases opening?_of_endsAfterName isOpaque h with
      ⟨hwhole, source, attributes, more, rest, hopening⟩ | ⟨hwhole, hopening⟩
    · rw [hopening]
      exact .inl ⟨hwhole, _, _, _, rfl, isViewTag_of_endsAfterName h⟩
    · rw [hopening]
      exact .inr ⟨hwhole, rfl⟩
  · contradiction

end Token

end Markup

/-! ## Text that is lost -/

/-- Plain text between the tokens of a file declares nothing. -/
theorem ViewFile.ofTokens_plain {κ σ : Type} [FileStore σ] (settings : Settings κ) (store : σ)
    (origin : Origin) (pending : Option Opened) (before : List Markup.Token) (lost : String)
    (more : List Markup.Token) :
    ofTokens settings store origin pending (before ++ .plain lost :: more) =
      ofTokens settings store origin pending (before ++ more) := by
  induction before generalizing pending with
  | nil => rfl
  | cons token before ih =>
    cases token with
    | opening source name attributes =>
      simp only [List.cons_append, ofTokens, ih]
    | body text => simp only [List.cons_append, ofTokens, ih]
    | plain text => exact ih pending
    | closing source name => exact ih pending
    | silent source => exact ih pending

theorem ViewFile.ofTokens_filter_plain {κ σ : Type} [FileStore σ] (settings : Settings κ)
    (store : σ) (origin : Origin) (before : List Markup.Token) (lost : String)
    (more : List Markup.Token) :
    ofTokens settings store origin none
        ((before ++ .plain lost :: more).filter Markup.Token.isEvent) =
      ofTokens settings store origin none ((before ++ more).filter Markup.Token.isEvent) := by
  rw [List.filter_append, List.filter_append, List.filter_cons_of_pos rfl]
  exact ofTokens_plain settings store origin none _ lost _

namespace Markup

/-- A body of a view that ends before the text does ends at the name of a view's tag.  If that tag
is a whole one, it is the token behind the body.  If it is not, the text up to the next `<` is plain
text, and the markup declares what it declares without it. -/
theorem next_of_viewBody {markup : String} (before : List Token) {after : List Token}
    {source name text : String} {attributes : Attributes}
    (h : tokens isOpaqueTag markup =
      before ++ .opening source name attributes :: .body text :: after)
    (hview : isViewTag name = true) :
    after = [] ∨
      Token.endsViewBody (after.flatMap (·.source.toList)) = true ∧
        (Token.isWhole (after.flatMap (·.source.toList)) = true ∧
            (∃ next more, after = next :: more ∧ next.isOfView = true) ∨
          Token.isWhole (after.flatMap (·.source.toList)) = false ∧
            ∃ lost more, after = .plain lost :: more ∧
              ∀ (κ σ : Type) [FileStore σ] (settings : Settings κ) (store : σ)
                (origin : ViewFile.Origin),
                ViewFile.ofTokens settings store origin none (events isOpaqueTag markup) =
                  ViewFile.ofTokens settings store origin none
                    ((before ++ .opening source name attributes :: .body text :: more).filter
                      Token.isEvent)) := by
  obtain ⟨rest, hafter, hrest⟩ := Token.exists_rest_of_viewBody h hview
  have hsources : after.flatMap (·.source.toList) = rest := by
    rw [hafter, Token.sources_ofChars]
  rw [hsources]
  cases rest with
  | nil =>
    rw [hafter, Token.ofChars, dif_pos rfl]
    exact .inl rfl
  | cons c cs =>
    have hbody : Token.endsViewBody (c :: cs) := hrest.resolve_left (by simp)
    rw [Token.ofChars_eq_append isOpaqueTag (by simp)] at hafter
    refine .inr ⟨hbody, ?_⟩
    rcases Token.cutFirst_of_endsViewBody isOpaqueTag hbody with
      ⟨hwhole, next, more, left, hcut, hnext⟩ | ⟨hwhole, hcut⟩
    · rw [hcut] at hafter
      exact .inl ⟨hwhole, next, _, hafter, hnext⟩
    · have hlost : after = .plain (String.ofList (c :: cs.takeWhile (· != '<'))) ::
          Token.ofChars isOpaqueTag (cs.dropWhile (· != '<')) := by
        rw [hafter, hcut]
        rfl
      refine .inr ⟨hwhole, _, _, hlost, ?_⟩
      intro κ σ _ settings store origin
      have hsplit (more : List Token) : before ++ .opening source name attributes ::
          .body text :: more = before ++ [.opening source name attributes, .body text] ++ more := by
        simp
      rw [events, h, hlost, hsplit (.plain _ :: _), hsplit (Token.ofChars _ _)]
      exact ViewFile.ofTokens_filter_plain settings store origin _ _ _

/-- A page whose last tag is not finished. -/
def unfinishedPage : String :=
  "<a:>x<b: k>y<c: z"

theorem tokens_unfinishedPage : tokens isOpaqueTag unfinishedPage =
    [.opening "<a:>" "a:" .empty, .body "x", .opening "<b: k>" "b:" (Dictionary.empty.put "k" ""),
      .body "y", .plain "<c: z"] := by
  decide +kernel

/-- The tag that is finished follows the body before it, and the one that is not might as well not
be there. -/
theorem next_of_viewBody_unfinishedPage :
    (∃ next more, [Token.opening "<b: k>" "b:" (Dictionary.empty.put "k" ""), .body "y",
        .plain "<c: z"] = next :: more ∧ next.isOfView = true) ∧
      ViewFile.ofTokens .standard FileTree.empty ⟨⟨"/v/page.html"⟩, none⟩ none
          (events isOpaqueTag unfinishedPage) =
        ViewFile.ofTokens .standard FileTree.empty ⟨⟨"/v/page.html"⟩, none⟩ none
          [.opening "<a:>" "a:" .empty, .body "x",
            .opening "<b: k>" "b:" (Dictionary.empty.put "k" ""), .body "y"] := by
  constructor
  · rcases next_of_viewBody [] tokens_unfinishedPage (by decide) with
      hnil | ⟨-, ⟨-, hnext⟩ | ⟨hwhole, -⟩⟩
    · cases hnil
    · exact hnext
    · exact absurd hwhole (by decide +kernel)
  · rcases next_of_viewBody [.opening "<a:>" "a:" .empty, .body "x"]
        tokens_unfinishedPage (by decide) with
      hnil | ⟨-, ⟨hwhole, -⟩ | ⟨-, lost, more, hlost, hsame⟩⟩
    · cases hnil
    · exact absurd hwhole (by decide +kernel)
    · obtain ⟨-, rfl⟩ := List.cons.inj hlost
      exact hsame Compiler FileTree .standard .empty ⟨⟨"/v/page.html"⟩, none⟩

/-- The token behind the body of a view need not be a tag of a view.  The text of such a token
belongs to no view. -/
theorem not_forall_isOfView_next :
    (¬∀ (markup : String) (before : List Token) (source name : String) (attributes : Attributes)
      (text : String) (next : Token) (after : List Token),
      tokens isOpaqueTag markup =
        before ++ .opening source name attributes :: .body text :: next :: after →
      isViewTag name = true → next.isOfView = true) ∧
    ViewFile.parse .standard FileTree.empty none "<a:>x<b: y" ⟨"/v/page.html"⟩ =
      .ok ⟨[], [⟨"a", "x", .empty, ⟨"/v/page.html"⟩⟩]⟩ := by
  constructor
  · intro h
    have htokens : tokens isOpaqueTag "<a:>x<b: y" =
        [] ++ [.opening "<a:>" "a:" .empty, .body "x", .plain "<b: y"] := by
      decide +kernel
    exact absurd (h _ _ _ _ _ _ _ _ htokens (by decide)) (by decide)
  · decide +kernel

end Markup

end ViewBundle
