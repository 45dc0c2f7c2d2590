import ViewBundle.Markup.TagEnd
import ViewBundle.Text

/-!
# Tokens of markup

A markup text is cut into start tags, end tags, opaque bodies, plain text, and pieces that say
nothing (comments and declarations).  A tag with an opaque body is followed by that body as one
token, even if it is empty.  What is no tag is plain text, up to the next `<`.

Main statement: the sources of the tokens, put together, are the text (`sources_tokens`).
-/

namespace ViewBundle.Markup

/-- One piece of a markup text. -/
inductive Token where
  /-- A start tag: how it is written, its name as written, its attributes. -/
  | opening (source name : String) (attributes : Attributes)
  /-- The whole body of a tag whose body is opaque. -/
  | body (text : String)
  /-- Plain text between tags. -/
  | plain (text : String)
  /-- An end tag: how it is written, its name as written. -/
  | closing (source name : String)
  /-- A comment or a declaration. -/
  | silent (source : String)
  deriving DecidableEq

namespace Token

/-- How a token is written. -/
def source : Token → String
  | opening source _ _ => source
  | body text => text
  | plain text => text
  | closing source _ => source
  | silent source => source

/-- Whether a reader of the markup learns of a token. -/
def isEvent : Token → Bool
  | silent _ => false
  | _ => true

/-- Tokens at the start of a text, and what follows them. -/
abbrev Cut := List Token × List Char

/-- The part of a text that stands before what is left of it. -/
def consumed (s rest : List Char) : List Char :=
  s.take (s.length - rest.length)

/-- A comment: up to the first `-->` behind `<!--`, or to the end of the text. -/
def comment? (s : List Char) : Option Cut :=
  ("<!--".toList.isPrefixOf? s).map fun more =>
    match Text.cut? "-->".toList more with
    | some (_, rest) => ([silent (String.ofList (consumed s rest))], rest)
    | none => ([silent (String.ofList s)], [])

/-- An end tag: `</`, a name, and anything up to the first `>`. -/
def closing? : List Char → Option Cut
  | '<' :: '/' :: more =>
    match more.takeWhile isNameChar with
    | [] => none
    | name =>
      (Text.cut? ['>'] (more.dropWhile isNameChar)).map fun (_, rest) =>
        ([closing (String.ofList (consumed ('<' :: '/' :: more) rest)) (String.ofList name)], rest)
  | _ => none

/-- A declaration: `<!` and anything up to the first `>`, or to the end of the text. -/
def declaration? : List Char → Option Cut
  | '<' :: '!' :: more =>
    match Text.cut? ['>'] more with
    | some (_, rest) => some ([silent (String.ofList (consumed ('<' :: '!' :: more) rest))], rest)
    | none => some ([silent (String.ofList ('<' :: '!' :: more))], [])
  | _ => none

/-- Whether the body of a view ends here: at `<` or `</` and a tag name that declares a view,
behind which stands a blank, `>` or nothing. -/
def endsViewBody : List Char → Bool
  | '<' :: '/' :: more => endsAfterName more
  | '<' :: more => endsAfterName more
  | _ => false
where
  /-- Whether a tag name that declares a view and what has to stand behind it come next. -/
  endsAfterName (s : List Char) : Bool :=
    (viewStem? (s.takeWhile isNameChar)).isSome &&
      match s.dropWhile isNameChar with
      | [] => true
      | c :: _ => Text.isBlank c || c == '>'

/-- Whether the opaque body of a tag ends here: a view's body at the next tag of a view, any other
body at the end tag of that name, whose case does not count. -/
def endsBody (name s : List Char) : Bool :=
  if (viewStem? name).isSome then endsViewBody s
  else Text.startsFolded ('<' :: '/' :: foldCase name) s

/-- The attribute list of a start tag, given the text between the tag's name and its `>`: a slash
that closes the tag, and the blanks behind it, do not belong to the list. -/
def attributeList (selfClosing : Bool) (inner : List Char) : List Char :=
  if selfClosing then (Text.trimEnd inner).dropLast else inner

/-- A start tag, with its body if that is opaque. -/
def opening? (isOpaque : String → Bool) : List Char → Option Cut
  | '<' :: more =>
    match more.takeWhile isNameChar with
    | [] => none
    | name =>
      (tagEnd? (more.dropWhile isNameChar)).map fun ⟨selfClosing, rest⟩ =>
        let inner := (consumed (more.dropWhile isNameChar) rest).dropLast
        let tag := opening (String.ofList (consumed ('<' :: more) rest)) (String.ofList name)
          (Attributes.ofChars (attributeList selfClosing inner))
        if isOpaque (String.ofList name) then
          let (text, rest) := Text.splitWhere (endsBody name) rest
          ([tag, body (String.ofList text)], rest)
        else ([tag], rest)
  | _ => none

/-- Plain text: one character and what follows it up to the next `<`. -/
def plainText : List Char → Cut
  | [] => ([], [])
  | c :: cs =>
    ([plain (String.ofList (c :: cs.takeWhile (· != '<')))], cs.dropWhile (· != '<'))

/-- The tokens at the start of a text, and what follows them. -/
def cutFirst (isOpaque : String → Bool) (s : List Char) : Cut :=
  ((((comment? s).or (closing? s)).or (declaration? s)).or (opening? isOpaque s)).getD
    (plainText s)

/-- Tokens and the text that follows them make up a text, and take something from it. -/
structure Cut.Of (cut : Cut) (s : List Char) : Prop where
  sources : cut.1.flatMap (·.source.toList) ++ cut.2 = s
  shorter : cut.2.length < s.length

theorem consumed_append {s front rest : List Char} (h : s = front ++ rest) :
    consumed s rest = front := by
  simp [consumed, h]

/-- One token whose source is the consumed text is a cut. -/
theorem Cut.of_single {token : Token} {s rest : List Char} (front : List Char)
    (h : s = front ++ rest) (hfront : front ≠ []) (ht : token.source = String.ofList front) :
    Cut.Of ([token], rest) s := by
  refine ⟨by simp [ht, h], ?_⟩
  have := List.length_pos_iff.2 hfront
  simp only [h, List.length_append]
  omega

theorem cut_of_comment? {s : List Char} {cut : Cut} (h : comment? s = some cut) : cut.Of s := by
  obtain ⟨more, hmore, hcut⟩ := Option.map_eq_some_iff.1 h
  have hs := Text.eq_append_of_isPrefixOf? hmore
  split at hcut
  · next before rest hb =>
    have hfront : s = ("<!--".toList ++ (before ++ "-->".toList)) ++ rest := by
      rw [hs, Text.eq_append_of_cut? hb]
      simp
    subst hcut
    exact Cut.of_single _ hfront (by simp) (by simp [source, consumed_append hfront])
  · subst hcut
    exact Cut.of_single s (by simp) (by simp [hs]) rfl

theorem cut_of_closing? {s : List Char} {cut : Cut} (h : closing? s = some cut) : cut.Of s := by
  unfold closing? at h
  split at h
  · next more =>
    split at h
    · contradiction
    · obtain ⟨⟨junk, rest⟩, hj, hcut⟩ := Option.map_eq_some_iff.1 h
      have hmore := List.takeWhile_append_dropWhile (p := isNameChar) (l := more)
      have hfront : '<' :: '/' :: more =
          ('<' :: '/' :: (more.takeWhile isNameChar ++ (junk ++ ['>']))) ++ rest := by
        conv => lhs; rw [← hmore, Text.eq_append_of_cut? hj]
        simp
      subst hcut
      exact Cut.of_single _ hfront (by simp) (by simp only [source, consumed_append hfront])
  · contradiction

theorem cut_of_declaration? {s : List Char} {cut : Cut} (h : declaration? s = some cut) :
    cut.Of s := by
  unfold declaration? at h
  split at h
  · next more =>
    split at h
    · next before rest hb =>
      have hfront : '<' :: '!' :: more = ('<' :: '!' :: (before ++ ['>'])) ++ rest := by
        rw [Text.eq_append_of_cut? hb]
        simp
      obtain rfl := Option.some.inj h
      exact Cut.of_single _ hfront (by simp) (by simp only [source, consumed_append hfront])
    · obtain rfl := Option.some.inj h
      exact Cut.of_single ('<' :: '!' :: more) (by simp) (by simp) rfl
  · contradiction

theorem cut_of_opening? {isOpaque : String → Bool} {s : List Char} {cut : Cut}
    (h : opening? isOpaque s = some cut) : cut.Of s := by
  unfold opening? at h
  split at h
  · next more =>
    split at h
    · contradiction
    · obtain ⟨⟨selfClosing, rest⟩, hend, hcut⟩ := Option.map_eq_some_iff.1 h
      obtain ⟨inner, hinner⟩ := eq_append_of_tagEnd? hend
      dsimp only at hinner
      have hmore := List.takeWhile_append_dropWhile (p := isNameChar) (l := more)
      have hfront : '<' :: more =
          ('<' :: (more.takeWhile isNameChar ++ (inner ++ ['>']))) ++ rest := by
        conv => lhs; rw [← hmore, hinner]
        simp
      have hsingle {token : Token} (ht : token.source = String.ofList
          ('<' :: (more.takeWhile isNameChar ++ (inner ++ ['>'])))) :
          Cut.Of ([token], rest) ('<' :: more) :=
        Cut.of_single _ hfront (by simp) ht
      dsimp only at hcut
      split at hcut
      · subst hcut
        have hsplit := Text.splitWhere_append (endsBody (more.takeWhile isNameChar)) rest
        have hlen := Text.length_splitWhere_le (endsBody (more.takeWhile isNameChar)) rest
        have htag : Cut.Of ([plain (String.ofList
            ('<' :: (more.takeWhile isNameChar ++ (inner ++ ['>']))))], rest) ('<' :: more) :=
          hsingle rfl
        refine ⟨?_, by have := htag.shorter; dsimp only at this ⊢; omega⟩
        simp only [List.flatMap_cons, List.flatMap_nil, source, consumed_append hfront,
          String.toList_ofList, List.append_nil, List.append_assoc, hsplit]
        simpa using hfront.symm
      · subst hcut
        exact hsingle (by simp only [source, consumed_append hfront])
  · contradiction

theorem cut_of_plainText {s : List Char} (h : s ≠ []) : (plainText s).Of s := by
  cases s with
  | nil => contradiction
  | cons c cs =>
    refine Cut.of_single (c :: cs.takeWhile (· != '<')) ?_ (by simp) rfl
    simp

/-- A text begins with a comment, with a tag, with a declaration that is no comment, or with plain
text. -/
theorem cutFirst_cases (isOpaque : String → Bool) (s : List Char) :
    comment? s = some (cutFirst isOpaque s) ∨ closing? s = some (cutFirst isOpaque s) ∨
      comment? s = none ∧ declaration? s = some (cutFirst isOpaque s) ∨
      opening? isOpaque s = some (cutFirst isOpaque s) ∨ cutFirst isOpaque s = plainText s := by
  unfold cutFirst
  cases comment? s with
  | some cut => exact .inl rfl
  | none =>
    cases closing? s with
    | some cut => exact .inr (.inl rfl)
    | none =>
      cases declaration? s with
      | some cut => exact .inr (.inr (.inl ⟨rfl, rfl⟩))
      | none =>
        cases opening? isOpaque s with
        | some cut => exact .inr (.inr (.inr (.inl rfl)))
        | none => exact .inr (.inr (.inr (.inr rfl)))

/-- The first tokens of a text that is not empty take something from it and lose nothing. -/
theorem cutFirst_of (isOpaque : String → Bool) {s : List Char} (h : s ≠ []) :
    (cutFirst isOpaque s).Of s := by
  rcases cutFirst_cases isOpaque s with hcut | hcut | ⟨-, hcut⟩ | hcut | hcut
  · exact cut_of_comment? hcut
  · exact cut_of_closing? hcut
  · exact cut_of_declaration? hcut
  · exact cut_of_opening? hcut
  · exact hcut ▸ cut_of_plainText h

/-- The tokens of a text, in order. -/
def ofChars (isOpaque : String → Bool) (s : List Char) : List Token :=
  if _h : s = [] then []
  else (cutFirst isOpaque s).1 ++ ofChars isOpaque (cutFirst isOpaque s).2
termination_by s.length
decreasing_by exact (cutFirst_of isOpaque _h).shorter

/-- Cutting a text into tokens loses nothing. -/
theorem sources_ofChars (isOpaque : String → Bool) (s : List Char) :
    (ofChars isOpaque s).flatMap (·.source.toList) = s := by
  induction hn : s.length using Nat.strongRecOn generalizing s with
  | ind n ih =>
    rw [ofChars]
    split
    · next h => simp [h]
    · next h =>
      have hcut := cutFirst_of isOpaque h
      rw [List.flatMap_append, ih _ (hn ▸ hcut.shorter) _ rfl, hcut.sources]

end Token

/-- The tokens of a markup text, in order; `isOpaque` tells from a tag's name whether its body is
opaque. -/
def tokens (isOpaque : String → Bool) (markup : String) : List Token :=
  Token.ofChars isOpaque markup.toList

/-- The sources of the tokens of a text, put together, are the text. -/
theorem sources_tokens (isOpaque : String → Bool) (markup : String) :
    String.join ((tokens isOpaque markup).map Token.source) = markup := by
  rw [← String.toList_inj, String.toList_join, List.flatMap_map]
  exact Token.sources_ofChars isOpaque markup.toList

/-- The tokens of a text without its comments and declarations. -/
def events (isOpaque : String → Bool) (markup : String) : List Token :=
  (tokens isOpaque markup).filter Token.isEvent

end ViewBundle.Markup
