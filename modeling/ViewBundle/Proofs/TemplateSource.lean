import ViewBundle.Proofs.Marks
import ViewBundle.Proofs.Outcome
import ViewBundle.Template

/-!
# Sources of templates, part by part

A source is text in which no tag is opened; or text, a tag, and a source again; or text and a tag
that is not closed (`isSource`).  A source of each form is read by its parts, wherever it stands
(`readFrom_tag`, `readFrom_append`).  What is read does not depend on the byte offset, which only
counts for the fault that is reported (`readFrom_eq_ok_of_readFrom`).
-/

namespace ViewBundle

namespace Template

/-! ## Offsets -/

theorem byteLength_cons (c : Char) (s : List Char) :
    byteLength (c :: s) = c.utf8Size + byteLength s := by
  have hfold (n : Nat) (s : List Char) :
      s.foldl (fun n c => n + c.utf8Size) n = n + s.foldl (fun n c => n + c.utf8Size) 0 := by
    induction s generalizing n with
    | nil => rfl
    | cons d ds ih => rw [List.foldl_cons, List.foldl_cons, ih, ih (0 + d.utf8Size)]; omega
  rw [byteLength, List.foldl_cons, hfold, Nat.zero_add]
  rfl

@[simp]
theorem byteLength_append (s t : List Char) :
    byteLength (s ++ t) = byteLength s + byteLength t := by
  induction s with
  | nil => simp [byteLength]
  | cons c cs ih => rw [List.cons_append, byteLength_cons, byteLength_cons, ih]; omega

theorem utf8ByteSize_ofList (s : List Char) : (String.ofList s).utf8ByteSize = byteLength s := by
  induction s with
  | nil => rfl
  | cons c cs ih =>
    rw [String.ofList_cons, String.utf8ByteSize_append, String.utf8ByteSize_singleton, ih,
      byteLength_cons]

/-! ## Text put before segments -/

@[simp]
theorem addText_nil (segments : List Segment) : addText [] segments = segments := by
  unfold addText
  split <;> simp

theorem addText_append (s t : List Char) (segments : List Segment) :
    addText (s ++ t) segments = addText s (addText t segments) := by
  have hword (later : List Segment) (h : ∀ text more, later ≠ .text text :: more) (u : List Char) :
      addText u later = if u = [] then later else .text (String.ofList u) :: later := by
    unfold addText
    split
    · exact absurd rfl (h _ _)
    · rfl
  by_cases htext : ∃ text more, segments = .text text :: more
  · obtain ⟨text, more, rfl⟩ := htext
    simp [addText, String.ofList_append, String.append_assoc]
  · have hsegments : ∀ text more, segments ≠ .text text :: more := by simpa using htext
    rw [hword segments hsegments, hword segments hsegments]
    by_cases ht : t = []
    · rw [if_pos ht, ht, List.append_nil, hword segments hsegments]
    · rw [if_neg ht, if_neg (by simp [ht])]
      simp [addText, String.ofList_append]

/-! ## The parts of a source -/

/-- Text that no tag is opened in, and that does not end in the first half of what opens one. -/
structure IsClear (s : List Char) : Prop where
  notOpened : ¬opener <:+: s
  last_ne : s.getLast? ≠ some '\x7b'

theorem isClear_nil : IsClear [] :=
  ⟨by simp [opener], by simp⟩

theorem not_opened_append {s t : List Char} (hs : IsClear s) (ht : ¬opener <:+: t) :
    ¬opener <:+: s ++ t := by
  rw [opener, ← Text.isChain_iff_not_isInfix] at ht ⊢
  refine (Text.isChain_iff_not_isInfix.2 hs.notOpened).append ht ?_
  rintro c hc d _ rfl
  exact absurd hc hs.last_ne

theorem IsClear.append {s t : List Char} (hs : IsClear s) (ht : IsClear t) : IsClear (s ++ t) :=
  ⟨not_opened_append hs ht.notOpened, Text.getLast?_append_ne hs.last_ne ht.last_ne⟩

theorem isClear_iff {s : List Char} : IsClear s ↔ ¬opener <:+: s ++ opener.dropLast := by
  constructor
  · intro h
    exact not_opened_append h (by decide)
  · intro h
    refine ⟨fun hopened => h (hopened.trans (List.prefix_append _ _).isInfix), fun hlast => ?_⟩
    obtain ⟨front, rfl⟩ := List.getLast?_eq_some_iff.1 hlast
    exact h ⟨front, [], by simp [opener]⟩

/-- The braces that begin a tag. -/
def braces (unescaped : Bool) : List Char :=
  if unescaped then '\x7b' :: opener else opener

/-- A tag in a source: an expression between double or triple braces.  The braces that close it are
the first ones behind those that begin it. -/
structure Tag where
  expression : List Char
  unescaped : Bool
  closes : ¬closer unescaped <:+: expression ++ (closer unescaped).dropLast
  head?_ne : unescaped = false → expression.head? ≠ some '\x7b'

/-- How a tag is written. -/
def Tag.text (tag : Tag) : List Char :=
  braces tag.unescaped ++ (tag.expression ++ closer tag.unescaped)

theorem Tag.getLast?_text (tag : Tag) : tag.text.getLast? = some '\x7d' := by
  have hcloser : (closer tag.unescaped).getLast? = some '\x7d' := by
    cases tag.unescaped <;> rfl
  rw [text, List.getLast?_append, List.getLast?_append, hcloser]
  rfl

/-- A source, by its parts. -/
inductive IsSource : List Char → Prop
  | plain {s : List Char} (h : ¬opener <:+: s) : IsSource s
  | unclosed {before behind : List Char} (hbefore : IsClear before)
    (h : ¬closer (behindOpener behind).1 <:+: behind) : IsSource (before ++ (opener ++ behind))
  | tag {before rest : List Char} (hbefore : IsClear before) (tag : Tag) (hrest : IsSource rest) :
    IsSource (before ++ (tag.text ++ rest))

theorem closer_isInfix_cons_iff {unescaped : Bool} {c : Char} {s : List Char} (hc : c ≠ '\x7d') :
    closer unescaped <:+: c :: s ↔ closer unescaped <:+: s := by
  rw [List.infix_cons_iff, or_iff_right]
  cases unescaped <;> simp [closer, Ne.symm hc]

theorem closer_isInfix_behindOpener_iff {unescaped : Bool} (s : List Char) :
    closer unescaped <:+: (behindOpener s).2 ↔ closer unescaped <:+: s := by
  unfold behindOpener
  split
  · exact (closer_isInfix_cons_iff (by decide)).symm
  · rfl

theorem Tag.text_append (tag : Tag) (rest : List Char) :
    tag.text ++ rest = opener ++ ((if tag.unescaped then ['\x7b'] else []) ++
      (tag.expression ++ (closer tag.unescaped ++ rest))) := by
  cases h : tag.unescaped <;> simp [text, braces, opener, h]

/-- What opens a tag leaves its expression to be read up to the braces that close it. -/
theorem Tag.behindOpener_tag (tag : Tag) (rest : List Char) :
    behindOpener ((if tag.unescaped then ['\x7b'] else []) ++
        (tag.expression ++ (closer tag.unescaped ++ rest))) =
      (tag.unescaped, tag.expression ++ (closer tag.unescaped ++ rest)) := by
  cases h : tag.unescaped with
  | true => rfl
  | false =>
    rw [if_neg (by decide), List.nil_append]
    cases hexpression : tag.expression with
    | nil => rfl
    | cons c cs =>
      have hc : c ≠ '\x7b' := by
        have hhead := tag.head?_ne h
        simpa [hexpression] using hhead
      simp [behindOpener, hc]

theorem eq_append_behindOpener (s : List Char) :
    s = (if (behindOpener s).1 then ['\x7b'] else []) ++ (behindOpener s).2 := by
  unfold behindOpener
  split <;> rfl

theorem head?_behindOpener_ne {s : List Char} (h : (behindOpener s).1 = false) :
    (behindOpener s).2.head? ≠ some '\x7b' := by
  unfold behindOpener at h ⊢
  split
  · contradiction
  · next hbrace =>
    intro hhead
    obtain ⟨more, rfl⟩ := List.head?_eq_some_iff.1 hhead
    exact hbrace more rfl

/-- Every text is a source. -/
theorem isSource (s : List Char) : IsSource s := by
  -- What stands behind a tag is shorter than the text, but not one of its tails by a fixed step.
  induction hn : s.length using Nat.strongRecOn generalizing s with
  | ind n ih =>
    cases hopen : Text.cut? opener s with
    | none => exact .plain (Text.not_isInfix_of_cut?_eq_none (by simp [opener]) hopen)
    | some parts =>
      obtain ⟨before, behind⟩ := parts
      have hs := Text.eq_append_of_cut? hopen
      have hbefore := isClear_iff.2 (Text.not_isInfix_of_cut? (by simp [opener]) hopen)
      have hmark : closer (behindOpener behind).1 ≠ [] := by
        cases (behindOpener behind).1 <;> simp [closer]
      rw [List.append_assoc] at hs
      cases hclose : Text.cut? (closer (behindOpener behind).1) (behindOpener behind).2 with
      | none =>
        have hunclosed := Text.not_isInfix_of_cut?_eq_none hmark hclose
        rw [hs]
        exact .unclosed hbefore (mt (closer_isInfix_behindOpener_iff behind).2 hunclosed)
      | some inner =>
        obtain ⟨expression, rest⟩ := inner
        have hinner := Text.eq_append_of_cut? hclose
        rw [List.append_assoc] at hinner
        let tag : Tag :=
          { expression
            unescaped := (behindOpener behind).1
            closes := Text.not_isInfix_of_cut? hmark hclose
            head?_ne := fun hsingle hhead => by
              have hne := head?_behindOpener_ne hsingle
              rw [hinner] at hne
              exact hne (by simp [hhead]) }
        have htag : opener ++ behind = tag.text ++ rest := by
          rw [tag.text_append, ← hinner]
          exact congrArg _ (eq_append_behindOpener behind)
        have hshorter : rest.length < n := by
          rw [← hn, hs, htag, tag.text_append]
          simp only [List.length_append, opener, List.length_cons]
          omega
        rw [hs, htag]
        exact .tag hbefore tag (ih _ hshorter rest rfl)

/-! ## Reading the parts -/

theorem readFrom_of_not_opened {s : List Char} (h : ¬opener <:+: s) (offset : Nat) :
    readFrom offset s = .ok (addText s []) := by
  rw [readFrom]
  split
  · rfl
  · next hcut => rw [Text.cut?_eq_none h] at hcut; contradiction

theorem readFrom_unclosed {before behind : List Char} (hbefore : IsClear before)
    (h : ¬closer (behindOpener behind).1 <:+: behind) (offset : Nat) :
    readFrom offset (before ++ (opener ++ behind)) =
      .error (.unclosed (offset + byteLength before)) := by
  have hopen := Text.cut?_append (isClear_iff.1 hbefore) behind
  have hclose : Text.cut? (closer (behindOpener behind).1) (behindOpener behind).2 = none :=
    Text.cut?_eq_none (mt (closer_isInfix_behindOpener_iff behind).1 h)
  rw [readFrom]
  split
  · next hcut => rw [hopen] at hcut; contradiction
  · next hcut =>
    rw [hopen] at hcut
    obtain ⟨rfl, rfl⟩ := Prod.mk.inj (Option.some.inj hcut)
    split
    · rfl
    · next hcut => rw [hclose] at hcut; contradiction

/-- A tag is read by its expression, and what follows it from its own offset. -/
theorem readFrom_tag {before : List Char} (hbefore : IsClear before) (tag : Tag)
    (rest : List Char) (offset : Nat) :
    readFrom offset (before ++ (tag.text ++ rest)) = do
      let segments ← expressionSegments tag.expression tag.unescaped
      let later ← readFrom (offset + byteLength (before ++ tag.text)) rest
      return addText before (segments ++ later) := by
  have hs := tag.text_append rest
  generalize hbehind : (if tag.unescaped then ['\x7b'] else []) ++
    (tag.expression ++ (closer tag.unescaped ++ rest)) = behind at hs
  have hsplit := tag.behindOpener_tag rest
  rw [hbehind] at hsplit
  have hopen := Text.cut?_append (isClear_iff.1 hbefore) behind
  have hclose : Text.cut? (closer (behindOpener behind).1) (behindOpener behind).2 =
      some (tag.expression, rest) := by
    rw [hsplit]
    exact Text.cut?_append tag.closes rest
  have hoffset : offset + byteLength (before ++ (opener ++ behind)) - byteLength rest =
      offset + byteLength (before ++ tag.text) := by
    rw [← hs]
    simp only [byteLength_append]
    omega
  rw [hs, readFrom]
  split
  · next hcut => rw [hopen] at hcut; contradiction
  · next hcut =>
    rw [hopen] at hcut
    obtain ⟨rfl, rfl⟩ := Prod.mk.inj (Option.some.inj hcut)
    split
    · next hcut => rw [hclose] at hcut; contradiction
    · next hcut =>
      rw [hclose] at hcut
      obtain ⟨rfl, rfl⟩ := Prod.mk.inj (Option.some.inj hcut)
      rw [hoffset, hsplit]

theorem readFrom_tag_append (tag : Tag) (rest : List Char) (offset : Nat) :
    readFrom offset (tag.text ++ rest) = do
      let segments ← expressionSegments tag.expression tag.unescaped
      let later ← readFrom (offset + byteLength tag.text) rest
      return segments ++ later := by
  have hread := readFrom_tag isClear_nil tag rest offset
  simpa only [List.nil_append, addText_nil] using hread

/-- Text in front of a source, in which no tag is opened, is put before its segments. -/
theorem readFrom_text_append {text : List Char} (htext : IsClear text) (s : List Char)
    (offset : Nat) :
    readFrom offset (text ++ s) =
      (readFrom (offset + byteLength text) s).map (addText text) := by
  cases isSource s with
  | plain h =>
    rw [readFrom_of_not_opened (not_opened_append htext h), readFrom_of_not_opened h,
      addText_append]
    rfl
  | unclosed hbefore h =>
    rw [← List.append_assoc, readFrom_unclosed (htext.append hbefore) h,
      readFrom_unclosed hbefore h, byteLength_append, Nat.add_assoc]
    rfl
  | @tag before rest hbefore tag _ =>
    have hoffset : offset + byteLength (text ++ before ++ tag.text) =
        offset + byteLength text + byteLength (before ++ tag.text) := by
      simp only [byteLength_append]
      omega
    rw [← List.append_assoc, readFrom_tag (htext.append hbefore), readFrom_tag hbefore, hoffset]
    simp only [addText_append, Outcome.bind_map, Outcome.map_pure]

/-- The segments of a source do not depend on where it stands. -/
theorem readFrom_eq_ok_of_readFrom {s : List Char} {segments : List Segment} {m : Nat}
    (h : readFrom m s = .ok segments) (n : Nat) : readFrom n s = .ok segments := by
  induction isSource s generalizing m n segments with
  | plain hplain => rwa [readFrom_of_not_opened hplain] at h ⊢
  | unclosed hbefore hclose =>
    rw [readFrom_unclosed hbefore hclose] at h
    contradiction
  | tag hbefore tag _ ih =>
    rw [readFrom_tag hbefore] at h ⊢
    obtain ⟨inner, hinner, hmore⟩ := Outcome.bind_eq_ok_iff.1 h
    obtain ⟨later, hlater, hsegments⟩ := Outcome.bind_eq_ok_iff.1 hmore
    rw [hinner, ih hlater]
    exact hsegments

/-- What follows a source is read as if it stood alone, at its own offset. -/
theorem readFrom_append {front : List Char} {segments : List Segment} {m : Nat}
    (h : readFrom m front = .ok segments) (hlast : front.getLast? ≠ some '\x7b') (s : List Char)
    (offset : Nat) :
    ∃ join : List Segment → List Segment,
      readFrom offset (front ++ s) = (readFrom (offset + byteLength front) s).map join := by
  induction isSource front generalizing m offset segments with
  | plain hplain => exact ⟨_, readFrom_text_append ⟨hplain, hlast⟩ s offset⟩
  | unclosed hbefore hclose =>
    rw [readFrom_unclosed hbefore hclose] at h
    contradiction
  | @tag before rest hbefore tag _ ih =>
    have hrest : rest.getLast? ≠ some '\x7b' :=
      Text.getLast?_ne_of_suffix ((List.suffix_append _ _).trans (List.suffix_append _ _)) hlast
    rw [readFrom_tag hbefore] at h
    obtain ⟨inner, hinner, hmore⟩ := Outcome.bind_eq_ok_iff.1 h
    obtain ⟨later, hlater, -⟩ := Outcome.bind_eq_ok_iff.1 hmore
    obtain ⟨join, hjoin⟩ := ih hlater hrest (offset + byteLength (before ++ tag.text))
    -- The tag's own segments come before all that is read later, whatever that is.
    refine ⟨fun segments => addText before (inner ++ join segments), ?_⟩
    rw [List.append_assoc, List.append_assoc, readFrom_tag hbefore, hinner, hjoin, Nat.add_assoc,
      ← byteLength_append, List.append_assoc]
    cases readFrom (offset + byteLength (before ++ (tag.text ++ rest))) s <;> rfl

end Template

end ViewBundle
