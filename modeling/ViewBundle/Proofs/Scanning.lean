import Mathlib.Data.List.TakeWhile
import ViewBundle.Markup.Token
import ViewBundle.Proofs.Marks

/-!
# What a text is cut into

Every cut from the start of a text has one of five forms (`form_cutFirst`), and what each of the
forms keeps is kept by all tokens of a text (`ofChars_induction`).  A comment goes up to the first
`-->` behind its own beginning and a declaration up to the first `>`, or either of them goes to the
end of the text; plain text holds `<` in front only; and a body stands behind a start tag that has
an opaque one, and nowhere else.  Main statement: `events_lossless`.
-/

namespace ViewBundle

namespace Markup

namespace Token

/-! ## The forms of a cut -/

/-- A piece from one mark through the first other mark behind it, or else through the end of the
text, of which `rest` is what follows the piece. -/
inductive Enclosed (opener closer : List Char) : (source rest : List Char) → Prop
  | closed {inner : List Char} (h : ¬closer <:+: inner ++ closer.dropLast) (rest : List Char) :
    Enclosed opener closer (opener ++ inner ++ closer) rest
  | unclosed {inner : List Char} (h : ¬closer <:+: inner) :
    Enclosed opener closer (opener ++ inner) []

/-- A piece that says nothing: a comment, or a declaration that does not begin like a comment. -/
def IsSkipped (source rest : List Char) : Prop :=
  Enclosed "<!--".toList "-->".toList source rest ∨
    ¬"<!--".toList <+: source ∧ Enclosed "<!".toList ">".toList source rest

/-- What can be cut from the start of a text. -/
inductive Cut.Form (isOpaque : String → Bool) (s : List Char) : Cut → Prop
  | silent {source rest : List Char} (hs : source ++ rest = s) (h : IsSkipped source rest) :
    Form isOpaque s ([.silent (String.ofList source)], rest)
  | closing {source : List Char} (name : String) {rest : List Char} (hs : source ++ rest = s) :
    Form isOpaque s ([.closing (String.ofList source) name], rest)
  | tag {source : List Char} {name : String} (attributes : Attributes) {rest : List Char}
    (hs : source ++ rest = s) (hname : isOpaque name = false) :
    Form isOpaque s ([.opening (String.ofList source) name attributes], rest)
  | tagAndBody {source : List Char} {name : String} (attributes : Attributes) {after : List Char}
    (hs : source ++ after = s) (hname : isOpaque name = true) :
    Form isOpaque s
      ([.opening (String.ofList source) name attributes,
        .body (String.ofList (Text.splitWhere (endsBody name.toList) after).1)],
        (Text.splitWhere (endsBody name.toList) after).2)
  | plain {c : Char} {cs rest : List Char} (hs : c :: cs ++ rest = s) (h : '<' ∉ cs) :
    Form isOpaque s ([.plain (String.ofList (c :: cs))], rest)

variable {isOpaque : String → Bool} {s : List Char} {cut : Cut}

/-- A cut of one token begins with the source of the token. -/
theorem Cut.Of.source_append {token : Token} {source rest : List Char}
    (h : Cut.Of ([token], rest) s) (hsource : token.source = String.ofList source) :
    source ++ rest = s := by
  simpa [hsource] using h.sources

theorem form_of_comment? (h : comment? s = some cut) : cut.Form isOpaque s := by
  have hof := cut_of_comment? h
  obtain ⟨behind, hbehind, rfl⟩ := Option.map_eq_some_iff.1 h
  have hs := Text.eq_append_of_isPrefixOf? hbehind
  split at hof
  · next inner rest hinner =>
    have hfront : s = "<!--".toList ++ inner ++ "-->".toList ++ rest := by
      rw [hs, Text.eq_append_of_cut? hinner]
      simp only [List.append_assoc]
    refine .silent (hof.source_append rfl) (.inl ?_)
    rw [consumed_append hfront]
    exact .closed (Text.not_isInfix_of_cut? (by decide) hinner) rest
  · next hnone =>
    refine .silent (hof.source_append rfl) (.inl ?_)
    rw [hs]
    exact .unclosed (Text.not_isInfix_of_cut?_eq_none (by decide) hnone)

theorem form_of_closing? (h : closing? s = some cut) : cut.Form isOpaque s := by
  have hof := cut_of_closing? h
  unfold closing? at h
  split at h
  · split at h
    · contradiction
    · obtain ⟨_, -, rfl⟩ := Option.map_eq_some_iff.1 h
      exact .closing _ (hof.source_append rfl)
  · contradiction

theorem form_of_declaration? (hcomment : comment? s = none) (h : declaration? s = some cut) :
    cut.Form isOpaque s := by
  have hof := cut_of_declaration? h
  have hopener {source rest : List Char} (hs : source ++ rest = s) :
      ¬"<!--".toList <+: source := by
    rintro ⟨inner, rfl⟩
    rw [comment?, ← hs, List.append_assoc, Text.isPrefixOf?_append] at hcomment
    contradiction
  unfold declaration? at h
  split at h
  · next more =>
    split at h
    · next inner rest hinner =>
      obtain rfl := Option.some.inj h
      have hs := hof.source_append rfl
      refine .silent hs (.inr ⟨hopener hs, ?_⟩)
      have hfront : '<' :: '!' :: more = "<!".toList ++ inner ++ ">".toList ++ rest := by
        rw [Text.eq_append_of_cut? hinner]
        rfl
      rw [consumed_append hfront]
      exact .closed (Text.not_isInfix_of_cut? (by decide) hinner) rest
    · next hnone =>
      obtain rfl := Option.some.inj h
      have hs := hof.source_append rfl
      refine .silent hs (.inr ⟨hopener hs, ?_⟩)
      exact .unclosed (Text.not_isInfix_of_cut?_eq_none (by decide) hnone)
  · contradiction

theorem form_of_opening? (h : opening? isOpaque s = some cut) : cut.Form isOpaque s := by
  have hof := cut_of_opening? h
  unfold opening? at h
  split at h
  · next more =>
    split at h
    · contradiction
    · obtain ⟨⟨selfClosing, rest⟩, -, hcut⟩ := Option.map_eq_some_iff.1 h
      dsimp only at hcut
      split at hcut
      · next hname =>
        subst hcut
        -- The body and what follows it are what stands behind the tag.
        have hs : consumed ('<' :: more) rest ++ rest = '<' :: more := by
          have hsplit := Text.splitWhere_append (endsBody (more.takeWhile isNameChar)) rest
          simpa [source, hsplit] using hof.sources
        simpa using Cut.Form.tagAndBody (Attributes.ofChars (attributeList selfClosing
          (consumed (more.dropWhile isNameChar) rest).dropLast)) hs hname
      · next hname =>
        subst hcut
        exact .tag _ (hof.source_append rfl) (by simpa using hname)
  · contradiction

theorem form_plainText (hs : s ≠ []) : (plainText s).Form isOpaque s := by
  cases s with
  | nil => contradiction
  | cons c cs =>
    have hof := cut_of_plainText hs
    refine .plain (hof.source_append rfl) ?_
    intro hmem
    simpa using List.mem_takeWhile_imp hmem

theorem form_cutFirst (isOpaque : String → Bool) (hs : s ≠ []) :
    (cutFirst isOpaque s).Form isOpaque s := by
  rcases cutFirst_cases isOpaque s with h | h | ⟨hcomment, h⟩ | h | h
  · exact form_of_comment? h
  · exact form_of_closing? h
  · exact form_of_declaration? hcomment h
  · exact form_of_opening? h
  · rw [h]
    exact form_plainText hs

/-- What holds of no text, and of a text if it holds of what follows the first cut from it, holds of
all texts and their tokens. -/
theorem ofChars_induction (isOpaque : String → Bool) {motive : List Char → List Token → Prop}
    (nil : motive [] [])
    (append : ∀ (s : List Char) (front : List Token) (rest : List Char),
      Cut.Form isOpaque s (front, rest) →
      motive rest (ofChars isOpaque rest) → motive s (front ++ ofChars isOpaque rest))
    (s : List Char) : motive s (ofChars isOpaque s) := by
  induction hn : s.length using Nat.strongRecOn generalizing s with
  | ind n ih =>
    by_cases hs : s = []
    · rw [hs, ofChars, dif_pos rfl]
      exact nil
    · rw [ofChars, dif_neg hs]
      exact append s _ _ (form_cutFirst isOpaque hs)
        (ih _ (hn ▸ (cutFirst_of isOpaque hs).shorter) _ rfl)

/-! ## Skipped pieces and plain text -/

theorem isSkipped_of_suffix (isOpaque : String → Bool) (s : List Char) {source : String}
    {after : List Token} (h : .silent source :: after <:+ ofChars isOpaque s) :
    IsSkipped source.toList (after.flatMap (·.source.toList)) := by
  induction s using ofChars_induction isOpaque with
  | nil => simp at h
  | append s front rest hform ih =>
    cases hform with
    | silent hs hskipped =>
      rw [List.singleton_append, List.suffix_cons_iff] at h
      rcases h with heq | h
      · obtain ⟨hsource, rfl⟩ := List.cons.inj heq
        rw [Token.silent.inj hsource, String.toList_ofList, sources_ofChars]
        exact hskipped
      · exact ih h
    | _ =>
      -- The other forms begin with no silent token, so the suffix lies behind them.
      simp only [List.cons_append, List.nil_append, List.suffix_cons_iff, List.cons.injEq,
        reduceCtorEq, false_and, false_or] at h
      exact ih h

theorem exists_cons_of_plain_mem (isOpaque : String → Bool) (s : List Char) {text : String}
    (h : .plain text ∈ ofChars isOpaque s) : ∃ c cs, text.toList = c :: cs ∧ '<' ∉ cs := by
  induction s using ofChars_induction isOpaque with
  | nil => simp at h
  | append s front rest hform ih =>
    cases hform with
    | plain hs hbracket =>
      rcases List.mem_cons.1 h with heq | h
      · obtain rfl := Token.plain.inj heq
        exact ⟨_, _, String.toList_ofList, hbracket⟩
      · exact ih h
    | _ =>
      simp only [List.cons_append, List.nil_append, List.mem_cons, reduceCtorEq, false_or] at h
      exact ih h

/-! ## Bodies -/

/-- Whether a token is a body. -/
def isBody : Token → Bool
  | body _ => true
  | _ => false

/-- Whether a token is a start tag that has an opaque body. -/
def opensBody (isOpaque : String → Bool) : Token → Bool
  | opening _ name _ => isOpaque name
  | _ => false

/-- A body stands right behind every start tag that has an opaque one, and nowhere else. -/
structure BodiesFollow (isOpaque : String → Bool) (tokens : List Token) : Prop where
  neighbours : tokens.IsChain fun earlier later => later.isBody = earlier.opensBody isOpaque
  first : ∀ token ∈ tokens.head?, token.isBody = false
  last : ∀ token ∈ tokens.getLast?, token.opensBody isOpaque = false

namespace BodiesFollow

variable {tokens : List Token}

theorem nil (isOpaque : String → Bool) : BodiesFollow isOpaque [] :=
  ⟨.nil, by simp, by simp⟩

theorem cons {token : Token} (hbody : token.isBody = false)
    (hopens : token.opensBody isOpaque = false) (h : BodiesFollow isOpaque tokens) :
    BodiesFollow isOpaque (token :: tokens) where
  neighbours := by
    refine List.isChain_cons.2 ⟨fun next hnext => ?_, h.neighbours⟩
    rw [h.first next hnext, hopens]
  first := by simpa using hbody
  last := by
    cases tokens with
    | nil => simpa using hopens
    | cons next later => simpa only [List.getLast?_cons_cons] using h.last

theorem tagAndBody {name : String} (source : String) (attributes : Attributes) (text : String)
    (hname : isOpaque name = true) (h : BodiesFollow isOpaque tokens) :
    BodiesFollow isOpaque (.opening source name attributes :: .body text :: tokens) where
  neighbours := by
    refine List.isChain_cons_cons.2 ⟨hname.symm, List.isChain_cons.2 ⟨?_, h.neighbours⟩⟩
    exact fun next hnext => h.first next hnext
  first := by simp [isBody]
  last := by
    cases tokens with
    | nil => simp [opensBody]
    | cons next later => simpa only [List.getLast?_cons_cons] using h.last

end BodiesFollow

/-- Comments and declarations aside, the bodies of a text follow their tags. -/
theorem bodiesFollow_ofChars (isOpaque : String → Bool) (s : List Char) :
    BodiesFollow isOpaque ((ofChars isOpaque s).filter isEvent) := by
  induction s using ofChars_induction isOpaque with
  | nil => exact .nil isOpaque
  | append s front rest hform ih =>
    cases hform with
    | silent hs hskipped => exact ih
    | closing name hs => exact ih.cons rfl rfl
    | tag attributes hs hname => exact ih.cons rfl hname
    | tagAndBody attributes hs hname => exact ih.tagAndBody _ attributes _ hname
    | plain hs hbracket => exact ih.cons rfl rfl

end Token

/-- Cutting a text into events loses nothing but comments and declarations, each of which goes up to
the first mark that ends it, or to the end of the text.  Plain text is not empty and holds `<` in
front only, and the bodies are those of the start tags that have opaque ones. -/
theorem events_lossless (isOpaque : String → Bool) (markup : String) :
    (∃ pieces : List Token, events isOpaque markup = pieces.filter Token.isEvent ∧
      String.join (pieces.map Token.source) = markup ∧
      ∀ source after, .silent source :: after <:+ pieces →
        Token.IsSkipped source.toList (after.flatMap (·.source.toList))) ∧
    (∀ text, .plain text ∈ events isOpaque markup →
      ∃ c cs, text.toList = c :: cs ∧ '<' ∉ cs) ∧
    Token.BodiesFollow isOpaque (events isOpaque markup) := by
  refine ⟨⟨tokens isOpaque markup, rfl, sources_tokens isOpaque markup, ?_⟩, ?_, ?_⟩
  · intro source after h
    exact Token.isSkipped_of_suffix isOpaque _ h
  · intro text h
    exact Token.exists_cons_of_plain_mem isOpaque _ (List.mem_of_mem_filter h)
  · exact Token.bodiesFollow_ofChars isOpaque _

/-- A page with two declarations, one of them in a body, with a comment that ends and one that does
not, and with tags that have opaque bodies and one that has none. -/
def annotatedPage : String :=
  "<!DOCTYPE html><!-- a > b -->1 < 2<a:>x<!y></a:><div><style></STYLE><!-- open"

theorem events_annotatedPage : events isOpaqueTag annotatedPage =
    [.plain "1 ", .plain "< 2", .opening "<a:>" "a:" .empty, .body "x<!y>", .closing "</a:>" "a:",
      .opening "<div>" "div" .empty, .opening "<style>" "style" .empty, .body "",
      .closing "</STYLE>" "STYLE"] := by
  decide +kernel

theorem events_lossless_annotatedPage :
    (∃ pieces : List Token, events isOpaqueTag annotatedPage = pieces.filter Token.isEvent ∧
      String.join (pieces.map Token.source) = annotatedPage ∧
      ∀ source, .silent source ∈ pieces.getLast? → Token.IsSkipped source.toList []) ∧
    (∃ c cs, "< 2".toList = c :: cs ∧ '<' ∉ cs) ∧
    Token.BodiesFollow isOpaqueTag (events isOpaqueTag annotatedPage) := by
  obtain ⟨⟨pieces, hevents, hsources, hskipped⟩, hplain, hbodies⟩ :=
    events_lossless isOpaqueTag annotatedPage
  refine ⟨⟨pieces, hevents, hsources, ?_⟩, ?_, hbodies⟩
  · intro source hlast
    obtain ⟨before, rfl⟩ := List.getLast?_eq_some_iff.1 hlast
    exact hskipped source [] ⟨before, rfl⟩
  · exact hplain "< 2" (by rw [events_annotatedPage]; simp)

end Markup

end ViewBundle
