import ViewBundle.Proofs.TemplatePath
import ViewBundle.Proofs.TemplateSource

/-!
# Normal templates

The segments that are read from a source are in a normal form: no text is empty, no two texts are
neighbours, and no text opens a tag, alone or together with the value behind it.  Segments in this
form can be written as a source that they are read from, with comments in front of any of them and
blanks around any path; and no other segments can.  Main statement: `Template.parse_print`.
-/

namespace ViewBundle

/-- Whether a segment can be read from a source at all. -/
def Segment.IsNormal : Segment → Prop
  | text content => content ≠ "" ∧ ¬Template.opener <:+: content.toList
  | value path _ => Template.IsPath path

instance : DecidablePred Segment.IsNormal
  | .text content =>
    inferInstanceAs (Decidable (content ≠ "" ∧ ¬Template.opener <:+: content.toList))
  | .value path _ => inferInstanceAs (Decidable (Template.IsPath path))

/-- Whether a segment can stand right in front of another one. -/
def Segment.Precedes : Segment → Segment → Prop
  | text _, text _ => False
  | text content, value _ _ => content.toList.getLast? ≠ some '\x7b'
  | value _ _, _ => True

instance : DecidableRel Segment.Precedes
  | .text _, .text _ => inferInstanceAs (Decidable False)
  | .text content, .value _ _ =>
    inferInstanceAs (Decidable (content.toList.getLast? ≠ some '\x7b'))
  | .value _ _, _ => inferInstanceAs (Decidable True)

namespace Template

/-- Whether segments can be read from a source. -/
structure IsNormal (segments : List Segment) : Prop where
  each : ∀ segment ∈ segments, segment.IsNormal
  neighbours : segments.IsChain Segment.Precedes

instance (segments : List Segment) : Decidable (IsNormal segments) :=
  decidable_of_iff ((∀ segment ∈ segments, segment.IsNormal) ∧ segments.IsChain Segment.Precedes)
    ⟨fun ⟨each, neighbours⟩ => ⟨each, neighbours⟩, fun h => ⟨h.each, h.neighbours⟩⟩

theorem isNormal_nil : IsNormal [] :=
  ⟨by simp, .nil⟩

theorem isNormal_cons_iff {segment : Segment} {later : List Segment} :
    IsNormal (segment :: later) ↔
      segment.IsNormal ∧ (∀ next ∈ later.head?, segment.Precedes next) ∧ IsNormal later := by
  constructor
  · rintro ⟨heach, hneighbours⟩
    obtain ⟨hsegment, hlater⟩ := List.forall_mem_cons.1 heach
    obtain ⟨hnext, hchain⟩ := List.isChain_cons.1 hneighbours
    exact ⟨hsegment, hnext, hlater, hchain⟩
  · rintro ⟨hsegment, hnext, hlater, hchain⟩
    exact ⟨List.forall_mem_cons.2 ⟨hsegment, hlater⟩, List.isChain_cons.2 ⟨hnext, hchain⟩⟩

/-! ## What is read is normal -/

theorem isNormal_addText_nil {s : List Char} (h : ¬opener <:+: s) : IsNormal (addText s []) := by
  rw [addText]
  · split
    · exact isNormal_nil
    · next hne =>
      exact isNormal_cons_iff.2 ⟨⟨by simpa using hne, by simpa using h⟩, by simp, isNormal_nil⟩
  · simp

theorem IsNormal.addText {before : List Char} (hbefore : IsClear before) {segments : List Segment}
    (h : IsNormal segments) : IsNormal (addText before segments) := by
  unfold Template.addText
  split
  · next content later =>
    obtain ⟨⟨hne, hopener⟩, hnext, hlater⟩ := isNormal_cons_iff.1 h
    refine isNormal_cons_iff.2 ⟨⟨?_, ?_⟩, ?_, hlater⟩
    · simp [hne]
    · rw [String.toList_append, String.toList_ofList]
      exact not_opened_append hbefore hopener
    · intro next hmem
      have hprecedes := hnext next hmem
      cases next with
      | text other => exact hprecedes
      | value path unescaped =>
        -- The text ends as it did, because there was some already.
        have hchars : content.toList ≠ [] := fun hnil => hne (String.toList_eq_nil_iff.1 hnil)
        show (String.ofList before ++ content).toList.getLast? ≠ some '\x7b'
        rw [String.toList_append, List.getLast?_append_of_ne_nil _ hchars]
        exact hprecedes
  · next hword =>
    split
    · exact h
    · next hne =>
      refine isNormal_cons_iff.2 ⟨⟨by simpa using hne, ?_⟩, ?_, h⟩
      · rw [String.toList_ofList]
        exact hbefore.notOpened
      · intro next hmem
        obtain ⟨later, rfl⟩ := List.head?_eq_some_iff.1 hmem
        cases next with
        | text content => exact absurd rfl (hword content later)
        | value path unescaped =>
          show (String.ofList before).toList.getLast? ≠ some '\x7b'
          rw [String.toList_ofList]
          exact hbefore.last_ne

theorem eq_of_expressionSegments {expression : List Char} {unescaped : Bool}
    {segments : List Segment} (h : expressionSegments expression unescaped = .ok segments) :
    segments = [] ∨ ∃ path, IsPath path ∧ segments = [.value path unescaped] := by
  rw [expressionSegments] at h
  split at h
  · exact .inl (Except.ok.inj h).symm
  · split at h
    · next path hpath =>
      exact .inr ⟨path, (isPath_of_path? hpath).1, (Except.ok.inj h).symm⟩
    · contradiction

theorem isNormal_of_readFrom {s : List Char} {segments : List Segment} {offset : Nat}
    (h : readFrom offset s = .ok segments) : IsNormal segments := by
  induction isSource s generalizing offset segments with
  | plain hplain =>
    rw [readFrom_of_not_opened hplain] at h
    rw [← Except.ok.inj h]
    exact isNormal_addText_nil hplain
  | unclosed hbefore hclose =>
    rw [readFrom_unclosed hbefore hclose] at h
    contradiction
  | tag hbefore tag _ ih =>
    rw [readFrom_tag hbefore] at h
    obtain ⟨inner, hinner, hmore⟩ := Outcome.bind_eq_ok_iff.1 h
    obtain ⟨later, hlater, hsegments⟩ := Outcome.bind_eq_ok_iff.1 hmore
    rw [← Except.ok.inj hsegments]
    -- Behind a comment the text in front of it meets the text that follows, if there is one.
    apply IsNormal.addText hbefore
    rcases eq_of_expressionSegments hinner with rfl | ⟨path, hpath, rfl⟩
    · exact ih hlater
    · exact isNormal_cons_iff.2 ⟨hpath, fun _ _ => trivial, ih hlater⟩

/-! ## What is normal can be written -/

/-- A comment: a tag whose expression begins with an exclamation mark. -/
structure Comment extends Tag where
  isComment : (Text.trimStart expression).head? = some '!'

end Template

/-- A segment that is written in a source, with comments in front of it, and blanks on both sides
of the path if it is a value. -/
structure WrittenSegment where
  comments : List Template.Comment
  segment : Segment
  before : List Char
  after : List Char
  isBlank_of_mem_before : ∀ c ∈ before, Text.isBlank c = true
  isBlank_of_mem_after : ∀ c ∈ after, Text.isBlank c = true

namespace WrittenSegment

/-- A segment that is written with nothing in front of it and around its path. -/
def plain (segment : Segment) : WrittenSegment where
  comments := []
  segment
  before := []
  after := []
  isBlank_of_mem_before := by simp
  isBlank_of_mem_after := by simp

/-- How a segment is written, without its comments. -/
def ownText (written : WrittenSegment) : List Char :=
  match written.segment with
  | .text content => content.toList
  | .value path unescaped =>
    Template.braces unescaped ++
      (written.before ++ (Template.pathText path ++ written.after) ++ Template.closer unescaped)

/-- How a segment is written. -/
def text (written : WrittenSegment) : List Char :=
  written.comments.flatMap (·.text) ++ written.ownText

end WrittenSegment

namespace Template

/-- A source for segments, as they are written one after the other. -/
def listText (written : List WrittenSegment) : String :=
  String.ofList (written.flatMap WrittenSegment.text)

/-- The source for segments that has no comments and no blanks around paths. -/
def print (segments : List Segment) : String :=
  listText (segments.map WrittenSegment.plain)

/-! ## Reading what is written -/

section

variable {path : List String} (hpath : IsPath path) {before after : List Char}
  (hbefore : ∀ c ∈ before, Text.isBlank c = true) (hafter : ∀ c ∈ after, Text.isBlank c = true)

include hpath hbefore hafter

theorem expressionSegments_of_isPath (unescaped : Bool) :
    expressionSegments (before ++ (pathText path ++ after)) unescaped =
      .ok [.value path unescaped] := by
  have hblank : ∀ c ∈ pathText path, Text.isBlank c = false := by
    intro c hc
    rcases isIdentifierRest_of_mem_pathText hpath c hc with hrest | rfl
    · exact isBlank_of_isIdentifierRest hrest
    · decide
  have hcomment : (pathText path).head? ≠ some '!' := by
    intro hhead
    have hmem := List.mem_of_mem_head? hhead
    rcases isIdentifierRest_of_mem_pathText hpath '!' hmem with hrest | hdot
    · exact absurd hrest (by decide)
    · exact absurd hdot (by decide)
  rw [expressionSegments, ← Text.head?_trim,
    Text.trim_append hbefore hblank hafter (pathText_ne_nil hpath), if_neg hcomment,
    path?_pathText hpath]

theorem not_brace_of_mem_expression :
    ∀ c ∈ before ++ (pathText path ++ after), c ≠ '\x7b' ∧ c ≠ '\x7d' := by
  have hblank {c : Char} (hc : Text.isBlank c = true) : c ≠ '\x7b' ∧ c ≠ '\x7d' := by
    constructor <;> rintro rfl <;> contradiction
  intro c hc
  rcases List.mem_append.1 hc with hc | hc
  · exact hblank (hbefore c hc)
  · rcases List.mem_append.1 hc with hc | hc
    · rcases isIdentifierRest_of_mem_pathText hpath c hc with hrest | rfl
      · constructor <;> rintro rfl <;> exact absurd hrest (by decide)
      · decide
    · exact hblank (hafter c hc)

end

theorem not_closer_isInfix {expression : List Char} (h : '\x7d' ∉ expression) (unescaped : Bool) :
    ¬closer unescaped <:+: expression ++ (closer unescaped).dropLast := by
  -- One brace too few is left of those that close a tag, and the expression has none.
  intro hinfix
  have hcount := hinfix.sublist.count_le '\x7d'
  rw [List.count_append, List.count_eq_zero.2 h] at hcount
  revert hcount
  cases unescaped <;> decide

/-- Comments are passed over. -/
theorem readFrom_comments (comments : List Comment) (rest : List Char) (offset : Nat) :
    ∃ further, readFrom offset (comments.flatMap (·.text) ++ rest) = readFrom further rest := by
  induction comments generalizing offset with
  | nil => exact ⟨offset, rfl⟩
  | cons comment comments ih =>
    obtain ⟨further, hfurther⟩ := ih (offset + byteLength comment.text)
    have hsegments : expressionSegments comment.expression comment.unescaped = .ok [] := by
      rw [expressionSegments, if_pos comment.isComment]
    refine ⟨further, ?_⟩
    rw [List.flatMap_cons, List.append_assoc, readFrom_tag_append, hsegments, hfurther]
    cases readFrom further rest <;> rfl

/-- The tag of a value is read as the value, and what follows it by itself. -/
theorem readFrom_value (written : WrittenSegment) {path : List String} {unescaped : Bool}
    (hsegment : written.segment = .value path unescaped) (hpath : IsPath path)
    (rest : List Char) (offset : Nat) :
    ∃ further, readFrom offset (written.ownText ++ rest) =
      (readFrom further rest).map (written.segment :: ·) := by
  have hbraces := not_brace_of_mem_expression hpath written.isBlank_of_mem_before
    written.isBlank_of_mem_after
  let tag : Tag :=
    { expression := written.before ++ (pathText path ++ written.after)
      unescaped
      closes := not_closer_isInfix (fun hmem => (hbraces _ hmem).2 rfl) unescaped
      head?_ne := fun _ hhead => (hbraces _ (List.mem_of_mem_head? hhead)).1 rfl }
  have htext : written.ownText = tag.text := by
    rw [WrittenSegment.ownText, hsegment, Tag.text]
  have hsegments : expressionSegments tag.expression tag.unescaped = .ok [written.segment] := by
    rw [hsegment]
    exact expressionSegments_of_isPath hpath written.isBlank_of_mem_before
      written.isBlank_of_mem_after unescaped
  refine ⟨offset + byteLength tag.text, ?_⟩
  rw [htext, readFrom_tag_append, hsegments]
  cases readFrom (offset + byteLength tag.text) rest <;> rfl

/-- A text is put before the segments behind it, which are none or begin with a value. -/
theorem readFrom_text {content : String} {later : List Segment}
    (h : IsNormal (.text content :: later)) {rest : List Char}
    (hread : ∀ offset, readFrom offset rest = .ok later) (hrest : later = [] → rest = [])
    (offset : Nat) : readFrom offset (content.toList ++ rest) = .ok (.text content :: later) := by
  obtain ⟨⟨hne, hopener⟩, hnext, -⟩ := isNormal_cons_iff.1 h
  have hchars : content.toList ≠ [] := fun hnil => hne (String.toList_eq_nil_iff.1 hnil)
  cases later with
  | nil =>
    rw [hrest rfl, List.append_nil, readFrom_of_not_opened hopener]
    simp [addText, hne]
  | cons next more =>
    have hprecedes := hnext next rfl
    cases next with
    | text other => exact hprecedes.elim
    | value path unescaped =>
      rw [readFrom_text_append ⟨hopener, hprecedes⟩, hread]
      simp [Except.map, addText, hne]

theorem readFrom_listText {written : List WrittenSegment}
    (h : IsNormal (written.map WrittenSegment.segment)) (offset : Nat) :
    readFrom offset (written.flatMap WrittenSegment.text) =
      .ok (written.map WrittenSegment.segment) := by
  induction written generalizing offset with
  | nil => exact readFrom_of_not_opened (by simp [opener]) offset
  | cons first more ih =>
    rw [List.map_cons] at h ⊢
    obtain ⟨hfirst, -, hmore⟩ := isNormal_cons_iff.1 h
    -- What is behind a segment is read alike at any offset, so the one that the segment and its
    -- comments lead to does not have to be known.
    obtain ⟨further, hfurther⟩ := readFrom_comments first.comments
      (first.ownText ++ more.flatMap WrittenSegment.text) offset
    rw [List.flatMap_cons, WrittenSegment.text, List.append_assoc, hfurther]
    cases hsegment : first.segment with
    | text content =>
      have htext : first.ownText = content.toList := by
        rw [WrittenSegment.ownText, hsegment]
      rw [htext]
      rw [hsegment] at h
      refine readFrom_text h (ih hmore) ?_ further
      intro hnil
      rw [List.map_eq_nil_iff.1 hnil, List.flatMap_nil]
    | value path unescaped =>
      rw [hsegment] at hfirst
      obtain ⟨behind, hbehind⟩ := readFrom_value first hsegment hfirst
        (more.flatMap WrittenSegment.text) further
      rw [hbehind, ih hmore, hsegment]
      rfl

/-- Segments are read back from every source that they are written as, if and only if they are
normal, and only normal segments are read from any source; so a template is read back from what is
printed for it. -/
theorem parse_print :
    (∀ segments, parse (print segments) = .ok ⟨segments⟩ ↔ IsNormal segments) ∧
    (∀ written : List WrittenSegment, IsNormal (written.map WrittenSegment.segment) →
      parse (listText written) = .ok ⟨written.map WrittenSegment.segment⟩) ∧
    ∀ source template, parse source = .ok template →
      IsNormal template.segments ∧ parse (print template.segments) = .ok template := by
  have hwritten (written : List WrittenSegment)
      (h : IsNormal (written.map WrittenSegment.segment)) :
      parse (listText written) = .ok ⟨written.map WrittenSegment.segment⟩ := by
    rw [parse, listText, String.toList_ofList, readFrom_listText h]
    rfl
  have hprint (segments : List Segment) (h : IsNormal segments) :
      parse (print segments) = .ok ⟨segments⟩ := by
    have hsegments : (segments.map WrittenSegment.plain).map WrittenSegment.segment = segments := by
      simp [WrittenSegment.plain, Function.comp_def]
    have hparse := hwritten (segments.map WrittenSegment.plain) (hsegments.symm ▸ h)
    rwa [hsegments] at hparse
  have hnormal (source : String) (template : Template) (h : parse source = .ok template) :
      IsNormal template.segments := by
    obtain ⟨segments, hsegments, rfl⟩ := Outcome.map_eq_ok_iff.1 h
    exact isNormal_of_readFrom hsegments
  refine ⟨fun segments => ⟨hnormal _ _, hprint segments⟩, hwritten, ?_⟩
  intro source template h
  exact ⟨hnormal source template h, hprint _ (hnormal source template h)⟩

/-- A greeting with a comment in front of a name, whose path has a blank in front of it. -/
def writtenGreeting : List WrittenSegment :=
  [.plain (.text "Hi \x7d"),
    { comments :=
        [{ expression := " !\x7b who?".toList
           unescaped := false
           closes := by decide
           head?_ne := by decide
           isComment := by decide }]
      segment := .value ["user", "this"] false
      before := [' ']
      after := []
      isBlank_of_mem_before := List.forall_mem_singleton.2 (by decide)
      isBlank_of_mem_after := by simp },
    .plain (.value [] true), .plain (.text "\x7d \x7b")]

theorem parse_print_writtenGreeting :
    IsNormal (writtenGreeting.map WrittenSegment.segment) ∧
    (listText writtenGreeting =
        "Hi \x7d\x7b\x7b !\x7b who?\x7d\x7d\x7b\x7b user.this\x7d\x7d" ++
          "\x7b\x7b\x7bthis\x7d\x7d\x7d\x7d \x7b" ∧
      parse (listText writtenGreeting) = .ok ⟨[.text "Hi \x7d", .value ["user", "this"] false,
        .value [] true, .text "\x7d \x7b"]⟩) ∧
    print (writtenGreeting.map WrittenSegment.segment) =
        "Hi \x7d\x7b\x7buser.this\x7d\x7d\x7b\x7b\x7bthis\x7d\x7d\x7d\x7d \x7b" ∧
      parse (print (writtenGreeting.map WrittenSegment.segment)) =
        .ok ⟨writtenGreeting.map WrittenSegment.segment⟩ := by
  have hnormal : IsNormal (writtenGreeting.map WrittenSegment.segment) := by decide
  have hread := parse_print.2.1 writtenGreeting hnormal
  exact ⟨hnormal, ⟨by decide, hread⟩, by decide, (parse_print.2.2 _ _ hread).2⟩

end Template

end ViewBundle
