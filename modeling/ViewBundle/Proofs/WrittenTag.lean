import ViewBundle.Markup.Token

/-!
# Reading written tags back

Start tags are written with one blank in front of each attribute, and with values in double
quotes; an empty value can also be left out.  Values can hold anything but a double quote, so a
`>` or an equals sign in one of them must not be taken for the end of the tag or for a new value.
Main statements: a written tag ends at the `>` that was written for its end (`end?_listText`), its
attributes are those that were written (`entries_ofChars_listText`), and it is read as one token,
with its body if that is opaque (`cutFirst_startTag`).
-/

namespace ViewBundle

/-! ## Runs of characters -/

namespace Text

variable {p : Char → Bool} {run rest : List Char}

theorem takeWhile_append_of_head? (hrun : ∀ c ∈ run, p c) (hrest : rest.head?.all (!p ·)) :
    (run ++ rest).takeWhile p = run := by
  rw [List.takeWhile_append_of_pos hrun]
  cases rest with
  | nil => simp
  | cons c cs =>
    have hc : p c = false := by simpa using hrest
    rw [List.takeWhile_cons_of_neg (by simp [hc]), List.append_nil]

theorem dropWhile_append_of_head? (hrun : ∀ c ∈ run, p c) (hrest : rest.head?.all (!p ·)) :
    (run ++ rest).dropWhile p = rest := by
  rw [List.dropWhile_append_of_pos hrun]
  cases rest with
  | nil => rfl
  | cons c cs =>
    have hc : p c = false := by simpa using hrest
    rw [List.dropWhile_cons_of_neg (by simp [hc])]

end Text

/-! ## Dictionaries of different keys -/

namespace Dictionary

variable {α : Type}

theorem putEntry_of_notMem {key : String} {es : List (String × α)} (h : key ∉ es.map Prod.fst)
    (value : α) : putEntry key value es = es ++ [(key, value)] := by
  induction es with
  | nil => rfl
  | cons e es ih =>
    rw [List.map_cons, List.mem_cons, not_or] at h
    rw [putEntry, if_neg (Ne.symm h.1), ih h.2, List.cons_append]

theorem entries_putAll_of_nodup {d : Dictionary α} {pairs : List (String × α)}
    (h : ((d.entries ++ pairs).map Prod.fst).Nodup) :
    (d.putAll pairs).entries = d.entries ++ pairs := by
  induction pairs generalizing d with
  | nil => simp [putAll]
  | cons pair pairs ih =>
    have hkey : pair.1 ∉ d.entries.map Prod.fst := by
      rw [List.map_append, List.nodup_append] at h
      exact fun hmem => h.2.2 pair.1 hmem pair.1 (by simp) rfl
    -- A new key is put behind all others, so the next step starts from one more entry.
    have hput : (d.put pair.1 pair.2).entries = d.entries ++ [pair] := putEntry_of_notMem hkey _
    have hnodup : (((d.put pair.1 pair.2).entries ++ pairs).map Prod.fst).Nodup := by
      rw [hput, List.append_assoc, List.singleton_append]
      exact h
    show ((d.put pair.1 pair.2).putAll pairs).entries = _
    rw [ih hnodup, hput, List.append_assoc, List.singleton_append]

/-- Pairs of different keys are the entries of their dictionary. -/
theorem entries_ofList_of_nodup {pairs : List (String × α)} (h : (pairs.map Prod.fst).Nodup) :
    (ofList pairs).entries = pairs :=
  entries_putAll_of_nodup (d := empty) h

end Dictionary

namespace Markup

/-- An attribute that can be written with a value in double quotes. -/
structure WrittenAttribute where
  name : String
  value : String
  /-- Whether only the name is written. -/
  isBare : Bool
  name_ne : name ≠ ""
  isNameChar_of_mem : ∀ c ∈ name.toList, Attributes.isNameChar c
  not_isUpper_of_mem : ∀ c ∈ name.toList, ¬c.isUpper
  quote_notMem : '"' ∉ value.toList
  value_eq_of_isBare : isBare → value = ""

namespace WrittenAttribute

/-- What is written behind the name. -/
def assignment (item : WrittenAttribute) : List Char :=
  if item.isBare then [] else '=' :: '"' :: (item.value.toList ++ ['"'])

/-- How an attribute is written, with the blank in front of it. -/
def text (item : WrittenAttribute) : List Char :=
  ' ' :: (item.name.toList ++ item.assignment)

/-- How attributes are written. -/
def listText (attributes : List WrittenAttribute) : List Char :=
  attributes.flatMap text

/-- The name and the value of an item. -/
def pair (item : WrittenAttribute) : String × String :=
  (item.name, item.value)

theorem toList_name_eq_cons (item : WrittenAttribute) :
    ∃ c cs, item.name.toList = c :: cs ∧ Attributes.isNameChar c := by
  cases hname : item.name.toList with
  | nil =>
    have hempty : item.name = "" := String.toList_eq_nil_iff.1 hname
    exact absurd hempty item.name_ne
  | cons c cs => exact ⟨c, cs, rfl, item.isNameChar_of_mem c (by simp [hname])⟩

end WrittenAttribute

open WrittenAttribute (listText)

/-! ## The end of a tag -/

namespace TagState

theorem end?_quoted {value : List Char} (h : '"' ∉ value) (s : List Char) :
    (quoted '"').end? (value ++ '"' :: s) = afterItem.end? s := by
  induction value with
  | nil => rfl
  | cons c cs ih =>
    rw [List.mem_cons, not_or] at h
    have hread : (quoted '"').read c = .next (quoted '"') := by
      rw [read, if_neg (Ne.symm h.1)]
    rw [List.cons_append, end?, hread]
    exact ih h.2

theorem end?_name {chars : List Char} (h : ∀ c ∈ chars, Attributes.isNameChar c)
    (s : List Char) : name.end? (chars ++ s) = name.end? s := by
  induction chars with
  | nil => rfl
  | cons c cs ih =>
    have hc : Attributes.isNameChar c := h c (by simp)
    have hread : name.read c = .next name := by
      simp [Attributes.isNameChar] at hc
      simp [read, hc]
    rw [List.cons_append, end?, hread]
    exact ih fun d hd => h d (List.mem_cons_of_mem c hd)

/-- The name of an attribute is read as one behind a quoted value and behind another name. -/
theorem end?_blank_append {state : TagState} (hstate : state = afterItem ∨ state = name)
    (item : WrittenAttribute) (s : List Char) :
    state.end? (' ' :: (item.name.toList ++ s)) = name.end? s := by
  obtain ⟨c, cs, hname, hc⟩ := item.toList_name_eq_cons
  have hmore : name.end? (cs ++ s) = name.end? s := by
    apply end?_name
    intro d hd
    exact item.isNameChar_of_mem d (by simp [hname, hd])
  -- The blank begins a gap behind a quoted value, and belongs to a name behind that.
  rcases hstate with rfl | rfl
  · have hgap : gap.read c = .next name := by
      simp [Attributes.isNameChar] at hc
      simp [read, hc]
    show gap.end? (item.name.toList ++ s) = _
    rw [hname, List.cons_append, end?, hgap]
    exact hmore
  · show name.end? (item.name.toList ++ s) = _
    exact end?_name item.isNameChar_of_mem s

/-- The first `>` outside of the values ends the tag. -/
theorem end?_listText {state : TagState} (hstate : state = afterItem ∨ state = name)
    (items : List WrittenAttribute) (s : List Char) :
    state.end? (listText items ++ '>' :: s) = some ⟨false, s⟩ := by
  induction items generalizing state with
  | nil => rcases hstate with rfl | rfl <;> rfl
  | cons item items ih =>
    rw [listText, List.flatMap_cons, WrittenAttribute.text, List.append_assoc, List.cons_append,
      List.append_assoc, end?_blank_append hstate, WrittenAttribute.assignment]
    split
    · exact ih (.inr rfl)
    · -- The reading of the value as one in quotes is preferred, and it finds the end.
      have hquoted : (quoted '"').end? (item.value.toList ++ ['"'] ++
          (listText items ++ '>' :: s)) = some ⟨false, s⟩ := by
        rw [List.append_assoc]
        exact (end?_quoted item.quote_notMem _).trans (ih (.inl rfl))
      rw [List.cons_append, List.cons_append, ← listText]
      show ((quoted '"').end? _).or _ = _
      rw [hquoted]
      rfl

end TagState

/-! ## Attributes -/

theorem foldCase_eq_self {s : List Char} (h : ∀ c ∈ s, ¬c.isUpper) : foldCase s = s := by
  have hlower : ∀ c ∈ s, c.toLower = id c := by
    intro c hc
    have hupper : ¬(c.val ≥ 'A'.val ∧ c.val ≤ 'Z'.val) :=
      fun hrange => h c hc (decide_eq_true hrange)
    exact dif_neg hupper
  rw [foldCase, List.map_congr_left hlower, List.map_id]

namespace Attributes

theorem quoted?_append {value : List Char} (h : '"' ∉ value) (s : List Char) :
    quoted? '"' ('"' :: (value ++ '"' :: s)) = some (value, s) := by
  have hvalue : ∀ c ∈ value, (c != '"') = true := by
    intro c hc
    have hne : c ≠ '"' := fun heq => h (heq ▸ hc)
    simpa using hne
  have hstop : ('"' :: s).head?.all (!(· != '"') ·) := rfl
  rw [quoted?, if_pos rfl, Text.dropWhile_append_of_head? hvalue hstop,
    Text.takeWhile_append_of_head? hvalue hstop]

theorem assigned?_append {value : List Char} (h : '"' ∉ value) (s : List Char) :
    assigned? ('=' :: '"' :: (value ++ '"' :: s)) = some (value, s) := by
  show value? ('"' :: (value ++ '"' :: s)) = _
  rw [value?, quoted?_append h]
  rfl

/-- What follows an attribute gives no value to a name before it. -/
theorem assigned?_listText (items : List WrittenAttribute) : assigned? (listText items) = none := by
  cases items with
  | nil => rfl
  | cons item items =>
    obtain ⟨c, cs, hname, hc⟩ := item.toList_name_eq_cons
    have htext : listText (item :: items) =
        ' ' :: c :: (cs ++ item.assignment ++ listText items) := by
      simp [listText, WrittenAttribute.text, hname]
    simp [isNameChar] at hc
    rw [htext, assigned?, List.dropWhile_cons_of_pos (by decide),
      List.dropWhile_cons_of_neg (by simp [hc])]
    split
    · next heq => simp [hc] at heq
    · rfl

theorem pairs_of_assigned? {s cs value rest : List Char} {c : Char}
    (hs : s.dropWhile (!isNameChar ·) = c :: cs)
    (hvalue : assigned? (cs.dropWhile isNameChar) = some (value, rest)) :
    pairs s = (String.ofList (foldCase (c :: cs.takeWhile isNameChar)), String.ofList value) ::
      pairs rest := by
  rw [pairs]
  split
  · next hnil => simp [hs] at hnil
  · next d ds hcons =>
    obtain ⟨rfl, rfl⟩ : c = d ∧ cs = ds := by simpa using hs.symm.trans hcons
    split
    · next value' rest' hsome =>
      obtain ⟨rfl, rfl⟩ : value = value' ∧ rest = rest' := by
        simpa using hvalue.symm.trans hsome
      rfl
    · next hnone => simp [hvalue] at hnone

theorem pairs_of_assigned?_eq_none {s cs : List Char} {c : Char}
    (hs : s.dropWhile (!isNameChar ·) = c :: cs)
    (hvalue : assigned? (cs.dropWhile isNameChar) = none) :
    pairs s = (String.ofList (foldCase (c :: cs.takeWhile isNameChar)), "") ::
      pairs (cs.dropWhile isNameChar) := by
  rw [pairs]
  split
  · next hnil => simp [hs] at hnil
  · next d ds hcons =>
    obtain ⟨rfl, rfl⟩ : c = d ∧ cs = ds := by simpa using hs.symm.trans hcons
    split
    · next hsome => simp [hvalue] at hsome
    · rfl

theorem head?_assignment_append (item : WrittenAttribute) (items : List WrittenAttribute) :
    (item.assignment ++ listText items).head?.all (!isNameChar ·) := by
  unfold WrittenAttribute.assignment
  split
  · cases items <;> rfl
  · rfl

/-- An attribute in front of others, or at the end, is read as it was written. -/
theorem pairs_text_append (item : WrittenAttribute) (items : List WrittenAttribute) :
    pairs (item.text ++ listText items) = item.pair :: pairs (listText items) := by
  obtain ⟨c, cs, hname, hc⟩ := item.toList_name_eq_cons
  have hcs : ∀ d ∈ cs, isNameChar d := fun d hd => item.isNameChar_of_mem d (by simp [hname, hd])
  have hrest := head?_assignment_append item items
  have hs : (item.text ++ listText items).dropWhile (!isNameChar ·) =
      c :: (cs ++ (item.assignment ++ listText items)) := by
    rw [WrittenAttribute.text, hname, List.cons_append, List.append_assoc,
      List.dropWhile_cons_of_pos (by decide), List.cons_append,
      List.dropWhile_cons_of_neg (by simp [hc])]
  have htake := Text.takeWhile_append_of_head? hcs hrest
  have hdrop := Text.dropWhile_append_of_head? hcs hrest
  have hfold : foldCase (c :: cs) = item.name.toList := by
    rw [← hname]
    exact foldCase_eq_self item.not_isUpper_of_mem
  -- A bare name must not be given what follows it; `assigned?_listText` tells that it is not.
  cases hbare : item.isBare with
  | true =>
    have hassignment : item.assignment = [] := by simp [WrittenAttribute.assignment, hbare]
    rw [hassignment, List.nil_append] at hs htake hdrop
    have hnone : assigned? ((cs ++ listText items).dropWhile isNameChar) = none := by
      rw [hdrop]
      exact assigned?_listText items
    rw [pairs_of_assigned?_eq_none hs hnone, htake, hdrop, hfold, String.ofList_toList,
      WrittenAttribute.pair, item.value_eq_of_isBare hbare]
  | false =>
    have hassignment : item.assignment = '=' :: '"' :: (item.value.toList ++ ['"']) := by
      simp [WrittenAttribute.assignment, hbare]
    have hsome : assigned? ((cs ++ (item.assignment ++ listText items)).dropWhile isNameChar) =
        some (item.value.toList, listText items) := by
      rw [hdrop, hassignment, List.cons_append, List.cons_append, List.append_assoc]
      exact assigned?_append item.quote_notMem _
    rw [pairs_of_assigned? hs hsome, htake, hfold, String.ofList_toList, String.ofList_toList]
    rfl

theorem pairs_listText (items : List WrittenAttribute) :
    pairs (listText items) = items.map WrittenAttribute.pair := by
  induction items with
  | nil =>
    show pairs [] = []
    rw [pairs]
    rfl
  | cons item items ih =>
    rw [listText, List.flatMap_cons, ← listText, pairs_text_append, ih, List.map_cons]

/-- The attributes of a written list are those that were written, in their order. -/
theorem entries_ofChars_listText {items : List WrittenAttribute}
    (h : (items.map WrittenAttribute.name).Nodup) :
    (ofChars (listText items)).entries = items.map WrittenAttribute.pair := by
  rw [ofChars, pairs_listText]
  apply Dictionary.entries_ofList_of_nodup
  rw [List.map_map]
  exact h

end Attributes

/-! ## Tokens -/

/-- How a start tag is written. -/
def startTag (name : String) (items : List WrittenAttribute) : List Char :=
  '<' :: (name.toList ++ (listText items ++ ['>']))

/-- How an end tag is written. -/
def endTag (name : String) : List Char :=
  '<' :: '/' :: (name.toList ++ ['>'])

namespace Token

/-- The tokens of a written start tag and of its body, if that is opaque, and what follows
them. -/
def startTagCut (isOpaque : String → Bool) (name : String) (items : List WrittenAttribute)
    (after : List Char) : Cut :=
  let tag := opening (String.ofList (startTag name items)) name
    (Attributes.ofChars (listText items))
  if isOpaque name then
    let (text, rest) := Text.splitWhere (endsBody name.toList) after
    ([tag, body (String.ofList text)], rest)
  else ([tag], after)

variable {name : String} (hne : name ≠ "") (hname : ∀ c ∈ name.toList, Markup.isNameChar c)

include hne hname in
theorem toList_name_eq_cons : ∃ c cs, name.toList = c :: cs ∧ c ≠ '/' ∧ c ≠ '!' := by
  cases hchars : name.toList with
  | nil => exact absurd (String.toList_eq_nil_iff.1 hchars) hne
  | cons c cs =>
    have hc : Markup.isNameChar c := hname c (by simp [hchars])
    simp [Markup.isNameChar] at hc
    exact ⟨c, cs, rfl, by simp [hc], by simp [hc]⟩

include hne hname in
theorem opening?_startTag (isOpaque : String → Bool) (items : List WrittenAttribute)
    (after : List Char) :
    opening? isOpaque (startTag name items ++ after) =
      some (startTagCut isOpaque name items after) := by
  have hstop : (listText items ++ '>' :: after).head?.all (!Markup.isNameChar ·) := by
    cases items <;> rfl
  have htake := Text.takeWhile_append_of_head? hname hstop
  have hdrop := Text.dropWhile_append_of_head? hname hstop
  have hend : tagEnd? (listText items ++ '>' :: after) = some ⟨false, after⟩ := by
    rw [tagEnd?_eq]
    exact TagState.end?_listText (.inl rfl) items after
  have hinner : listText items ++ '>' :: after = listText items ++ ['>'] ++ after := by simp
  have htag : startTag name items ++ after =
      '<' :: (name.toList ++ (listText items ++ '>' :: after)) := by
    simp [startTag]
  obtain ⟨c, cs, hchars, -⟩ := toList_name_eq_cons hne hname
  have hsource : consumed ('<' :: (name.toList ++ (listText items ++ '>' :: after))) after =
      startTag name items := consumed_append htag.symm
  rw [htag, opening?]
  split
  · next hnil => exact absurd (htake.symm.trans hnil) (by simp [hchars])
  · rw [hdrop, hend, htake, Option.map_some]
    dsimp only
    rw [hsource, consumed_append hinner, List.dropLast_concat, String.ofList_toList]
    rfl

include hne hname in
/-- A written start tag is one token, which is followed by its body if that is opaque. -/
theorem cutFirst_startTag (isOpaque : String → Bool) (items : List WrittenAttribute)
    (after : List Char) :
    cutFirst isOpaque (startTag name items ++ after) = startTagCut isOpaque name items after := by
  obtain ⟨c, cs, hchars, hslash, hmark⟩ := toList_name_eq_cons hne hname
  have htag : startTag name items ++ after =
      '<' :: c :: (cs ++ (listText items ++ ['>'] ++ after)) := by
    simp [startTag, hchars]
  have hcomment : comment? (startTag name items ++ after) = none := by
    rw [htag, comment?]
    simp [Ne.symm hmark]
  have hclosing : closing? (startTag name items ++ after) = none := by
    rw [htag, closing?]
    simpa using hslash
  have hdeclaration : declaration? (startTag name items ++ after) = none := by
    rw [htag, declaration?]
    simpa using hmark
  rw [cutFirst, hcomment, hclosing, hdeclaration, opening?_startTag hne hname]
  rfl

include hne hname in
theorem cutFirst_endTag (isOpaque : String → Bool) (after : List Char) :
    cutFirst isOpaque (endTag name ++ after) =
      ([closing (String.ofList (endTag name)) name], after) := by
  have htag : endTag name ++ after = '<' :: '/' :: (name.toList ++ '>' :: after) := by
    simp [endTag]
  have hstop : ('>' :: after).head?.all (!Markup.isNameChar ·) := rfl
  have htake := Text.takeWhile_append_of_head? hname hstop
  have hdrop := Text.dropWhile_append_of_head? hname hstop
  have hcut : Text.cut? ['>'] ('>' :: after) = some ([], after) := rfl
  obtain ⟨c, cs, hchars, -⟩ := toList_name_eq_cons hne hname
  have hclosing : closing? (endTag name ++ after) =
      some ([closing (String.ofList (endTag name)) name], after) := by
    rw [htag, closing?]
    split
    · next hnil => exact absurd (htake.symm.trans hnil) (by simp [hchars])
    · rw [hdrop, hcut, htake, Option.map_some]
      dsimp only
      rw [consumed_append htag.symm, String.ofList_toList]
  have hcomment : comment? (endTag name ++ after) = none := by
    rw [htag, comment?]
    rfl
  rw [cutFirst, hcomment, hclosing]
  rfl

variable (hview : isViewTag name = true)

include hname hview in
/-- The body of a view ends at the name of a view's tag that a blank or `>` stands behind. -/
theorem endsAfterName_name_append {c : Char} (hc : Text.isBlank c ∨ c = '>') (s : List Char) :
    endsViewBody.endsAfterName (name.toList ++ c :: s) := by
  have hstop : (c :: s).head?.all (!Markup.isNameChar ·) := by
    rcases hc with hc | rfl
    · simp [Markup.isNameChar, hc]
    · rfl
  have hstem : (viewStem? name.toList).isSome = true := hview
  rw [endsViewBody.endsAfterName, Text.takeWhile_append_of_head? hname hstop,
    Text.dropWhile_append_of_head? hname hstop, hstem]
  simpa using hc

include hne hname hview in
theorem endsViewBody_startTag_append (items : List WrittenAttribute) (s : List Char) :
    endsViewBody (startTag name items ++ s) := by
  obtain ⟨c, cs, hchars, hslash, -⟩ := toList_name_eq_cons hne hname
  have hends : endsViewBody.endsAfterName (name.toList ++ (listText items ++ ['>'] ++ s)) := by
    cases items with
    | nil => exact endsAfterName_name_append hname hview (.inr rfl) s
    | cons item items => exact endsAfterName_name_append hname hview (.inl (by decide)) _
  rw [startTag, List.cons_append, List.append_assoc]
  rw [hchars] at hends ⊢
  unfold endsViewBody
  split
  · next heq => simp [hslash] at heq
  · next heq =>
    obtain rfl := (List.cons.inj heq).2
    exact hends
  · next hnone => exact absurd rfl (hnone _)

include hname hview in
theorem endsViewBody_endTag_append (s : List Char) : endsViewBody (endTag name ++ s) := by
  rw [endTag, List.cons_append, List.cons_append, List.append_assoc]
  exact endsAfterName_name_append hname hview (.inr rfl) s

end Token

end Markup

end ViewBundle
