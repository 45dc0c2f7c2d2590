import ViewBundle.Proofs.TemplatePath
import ViewBundle.Proofs.TemplateSource
import ViewBundle.Registry

/-!
# The first fault of a source

A source that is no template is one up to a tag that is at fault: the tag is not closed, or its
expression is neither a comment nor a path.  The fault that is reported is that of this tag, at its
own byte offset, and what stands behind the tag does not matter.  Main statement:
`RegisteredView.parse_firstFault`.
-/

namespace ViewBundle

namespace Template

/-- What is wrong with the tag that stands at the beginning of a text, at a byte offset. -/
inductive FaultAt (offset : Nat) (behind : List Char) : TemplateFault → Prop
  | unclosed (h : ¬closer ((braces true).isPrefixOf behind) <:+: behind) :
    FaultAt offset behind (.unclosed offset)
  | invalidPath (tag : Tag) (htag : tag.text <+: behind)
    (hcomment : (Text.trim tag.expression).head? ≠ some '!')
    (hpath : path? (Text.trim tag.expression) = none) :
    FaultAt offset behind (.invalidPath (String.ofList (Text.trim tag.expression)))

theorem behindOpener_eq (s : List Char) :
    (behindOpener s).1 = (braces true).isPrefixOf (opener ++ s) := by
  unfold behindOpener
  split
  · rfl
  · next hbrace =>
    cases s with
    | nil => rfl
    | cons c cs =>
      have hc : '\x7b' ≠ c := fun heq => hbrace cs (heq ▸ rfl)
      simp [braces, opener, List.isPrefixOf, hc]

theorem expressionSegments_eq_error_iff {expression : List Char} {unescaped : Bool}
    {fault : TemplateFault} :
    expressionSegments expression unescaped = .error fault ↔
      (Text.trim expression).head? ≠ some '!' ∧ path? (Text.trim expression) = none ∧
        fault = .invalidPath (String.ofList (Text.trim expression)) := by
  rw [expressionSegments, Text.head?_trim]
  split
  · next hcomment => simp [hcomment]
  · next hcomment =>
    cases path? (Text.trim expression) with
    | none => simp [hcomment, eq_comm]
    | some path => simp

/-- A tag that is at fault is the first fault of the source that it begins. -/
theorem readFrom_eq_error_of_faultAt {offset : Nat} {behind : List Char} {fault : TemplateFault}
    (hopener : opener <+: behind) (h : FaultAt offset behind fault) :
    readFrom offset behind = .error fault := by
  cases h with
  | unclosed hclose =>
    obtain ⟨more, rfl⟩ := hopener
    rw [← behindOpener_eq] at hclose
    have hmore : ¬closer (behindOpener more).1 <:+: more := by
      simpa only [opener, List.cons_append, List.nil_append,
        closer_isInfix_cons_iff (show '\x7b' ≠ '\x7d' by decide)] using hclose
    have hread := readFrom_unclosed isClear_nil hmore offset
    simpa [byteLength] using hread
  | invalidPath tag htag hcomment hpath =>
    obtain ⟨rest, rfl⟩ := htag
    have hsegments : expressionSegments tag.expression tag.unescaped =
        .error (.invalidPath (String.ofList (Text.trim tag.expression))) :=
      expressionSegments_eq_error_iff.2 ⟨hcomment, hpath, rfl⟩
    rw [readFrom_tag_append, hsegments]
    rfl

/-- In a source that is no template there is a tag at fault, and what stands before the tag is a
template. -/
theorem exists_faultAt_of_readFrom {s : List Char} {offset : Nat} {fault : TemplateFault}
    (h : readFrom offset s = .error fault) :
    ∃ front behind, s = front ++ behind ∧ opener <+: behind ∧ front.getLast? ≠ some '\x7b' ∧
      (∃ segments, readFrom 0 front = .ok segments) ∧
      FaultAt (offset + byteLength front) behind fault := by
  induction isSource s generalizing offset with
  | plain hplain =>
    rw [readFrom_of_not_opened hplain] at h
    contradiction
  | @unclosed before behind hbefore hclose =>
    rw [readFrom_unclosed hbefore hclose] at h
    obtain rfl := Except.error.inj h
    refine ⟨before, opener ++ behind, rfl, List.prefix_append _ _, hbefore.last_ne,
      ⟨_, readFrom_of_not_opened hbefore.notOpened 0⟩, .unclosed ?_⟩
    rw [← behindOpener_eq]
    simpa only [opener, List.cons_append, List.nil_append,
      closer_isInfix_cons_iff (show '\x7b' ≠ '\x7d' by decide)] using hclose
  | @tag before rest hbefore tag _ ih =>
    rw [readFrom_tag hbefore] at h
    rcases Outcome.bind_eq_error_iff.1 h with hexpression | ⟨inner, hinner, hmore⟩
    · obtain ⟨hcomment, hpath, rfl⟩ := expressionSegments_eq_error_iff.1 hexpression
      refine ⟨before, tag.text ++ rest, rfl, ?_, hbefore.last_ne,
        ⟨_, readFrom_of_not_opened hbefore.notOpened 0⟩,
        .invalidPath tag (List.prefix_append _ _) hcomment hpath⟩
      rw [tag.text_append]
      exact List.prefix_append _ _
    · -- The tag is well, so the fault is one of what stands behind it.
      have hrest : readFrom (offset + byteLength (before ++ tag.text)) rest = .error fault := by
        rcases Outcome.bind_eq_error_iff.1 hmore with hrest | ⟨_, _, hpure⟩
        · exact hrest
        · contradiction
      obtain ⟨front, behind, rfl, hopener, hlast, ⟨segments, hsegments⟩, hfault⟩ := ih hrest
      refine ⟨before ++ (tag.text ++ front), behind, by simp, hopener, ?_, ?_, ?_⟩
      · exact Text.getLast?_append_ne hbefore.last_ne
          (Text.getLast?_append_ne (by simp [tag.getLast?_text]) hlast)
      · refine ⟨addText before (inner ++ segments), ?_⟩
        rw [readFrom_tag hbefore, hinner,
          readFrom_eq_ok_of_readFrom hsegments (0 + byteLength (before ++ tag.text))]
        rfl
      · simpa [Nat.add_assoc] using hfault

/-- A tag is at fault if it is not closed, or if its expression, without the blanks around it, is
neither a comment nor a path. -/
theorem faultAt_iff {offset : Nat} {behind : List Char} {fault : TemplateFault} :
    FaultAt offset behind fault ↔
      (¬closer ((braces true).isPrefixOf behind) <:+: behind ∧ fault = .unclosed offset) ∨
      ∃ (tag : Tag) (expression : String), tag.text <+: behind ∧
        expression.toList = Text.trim tag.expression ∧ expression.toList.head? ≠ some '!' ∧
        expression ≠ "this" ∧
        (∀ names : List String, names ≠ [] → (∀ name ∈ names, isIdentifier name.toList = true) →
          expression ≠ ".".intercalate names) ∧
        fault = .invalidPath expression := by
  constructor
  · rintro (hclose | ⟨tag, htag, hcomment, hpath⟩)
    · exact .inl ⟨hclose, rfl⟩
    · have hexpression : (String.ofList (Text.trim tag.expression)).toList =
          Text.trim tag.expression := String.toList_ofList
      rw [← hexpression] at hcomment hpath
      obtain ⟨hthis, hnames⟩ := path?_eq_none_iff.1 hpath
      exact .inr ⟨tag, _, htag, hexpression, hcomment, hthis, hnames, rfl⟩
  · rintro (⟨hclose, rfl⟩ | ⟨tag, expression, htag, hexpression, hcomment, hthis, hnames, rfl⟩)
    · exact .unclosed hclose
    · have hpath := path?_eq_none_iff.2 ⟨hthis, hnames⟩
      rw [hexpression] at hcomment hpath
      rw [← String.ofList_toList (s := expression), hexpression]
      exact .invalidPath tag htag hcomment hpath

/-- A source is no template if and only if it is one up to a tag that is at fault. -/
theorem parse_eq_error_iff {source : String} {fault : TemplateFault} :
    parse source = .error fault ↔
      ∃ front behind : String, source = front ++ behind ∧ opener <+: behind.toList ∧
        front.toList.getLast? ≠ some '\x7b' ∧ (∃ template, parse front = .ok template) ∧
        FaultAt front.utf8ByteSize behind.toList fault := by
  rw [parse, Outcome.map_eq_error_iff]
  constructor
  · intro hread
    obtain ⟨front, behind, hsource, hopener, hlast, ⟨segments, hsegments⟩, hfault⟩ :=
      exists_faultAt_of_readFrom hread
    refine ⟨String.ofList front, String.ofList behind, ?_, ?_, ?_, ⟨⟨segments⟩, ?_⟩, ?_⟩
    · rw [← String.ofList_append, ← hsource, String.ofList_toList]
    · rwa [String.toList_ofList]
    · rwa [String.toList_ofList]
    · rw [parse, String.toList_ofList, hsegments]
      rfl
    · rwa [String.toList_ofList, utf8ByteSize_ofList, ← Nat.zero_add (byteLength front)]
  · rintro ⟨front, behind, rfl, hopener, hlast, ⟨template, hparse⟩, hfault⟩
    obtain ⟨segments, hsegments, -⟩ := Outcome.map_eq_ok_iff.1 hparse
    obtain ⟨join, hjoin⟩ := readFrom_append hsegments hlast behind.toList 0
    have hsize : 0 + byteLength front.toList = front.utf8ByteSize := by
      rw [Nat.zero_add, ← utf8ByteSize_ofList, String.ofList_toList]
    rw [String.toList_append, hjoin, hsize, readFrom_eq_error_of_faultAt hopener hfault]
    rfl

end Template

theorem Failure.message_template (view : String) (fault : TemplateFault) :
    (template view fault).message = "Failed to compile view `" ++ view ++ "`: " ++ fault.message :=
  rfl

theorem Failure.message_unclosed (view : String) (offset : Nat) :
    (template view (.unclosed offset)).message = "Failed to compile view `" ++ view ++
      "`: unclosed `\x7b\x7b` at byte " ++ Nat.repr offset := by
  have hfault : (TemplateFault.unclosed offset).message =
      "unclosed `\x7b\x7b` at byte " ++ Nat.repr offset := rfl
  have hwords : "`: unclosed `\x7b\x7b` at byte " = "`: " ++ "unclosed `\x7b\x7b` at byte " := rfl
  rw [message_template, hfault, hwords]
  simp only [String.append_assoc]

theorem Failure.message_invalidPath (view expression : String) :
    (template view (.invalidPath expression)).message = "Failed to compile view `" ++ view ++
      "`: invalid path expression `" ++ expression ++ "`" := by
  have hfault : (TemplateFault.invalidPath expression).message =
      "invalid path expression `" ++ expression ++ "`" := rfl
  have hwords : "`: invalid path expression `" = "`: " ++ "invalid path expression `" := rfl
  rw [message_template, hfault, hwords]
  simp only [String.append_assoc]

/-- A view's source is no template if and only if it is one up to a tag that is at fault.  The
failure names the view, and the byte offset of the tag if it is not closed, or else the expression
of the tag, without the blanks around it. -/
theorem RegisteredView.parse_firstFault (view : RegisteredView) (failure : Failure) :
    view.parse = .error failure ↔
      ∃ front behind : String, view.source = front ++ behind ∧
        Template.opener <+: behind.toList ∧ front.toList.getLast? ≠ some '\x7b' ∧
        (∃ template, Template.parse front = .ok template) ∧
        ((¬Template.closer ((Template.braces true).isPrefixOf behind.toList) <:+: behind.toList ∧
            failure = .template view.name (.unclosed front.utf8ByteSize) ∧
            failure.message = "Failed to compile view `" ++ view.name ++
              "`: unclosed `\x7b\x7b` at byte " ++ Nat.repr front.utf8ByteSize) ∨
          ∃ (tag : Template.Tag) (expression : String), tag.text <+: behind.toList ∧
            expression.toList = Text.trim tag.expression ∧
            expression.toList.head? ≠ some '!' ∧ expression ≠ "this" ∧
            (∀ names : List String, names ≠ [] →
              (∀ name ∈ names, Template.isIdentifier name.toList = true) →
              expression ≠ ".".intercalate names) ∧
            failure = .template view.name (.invalidPath expression) ∧
            failure.message = "Failed to compile view `" ++ view.name ++
              "`: invalid path expression `" ++ expression ++ "`") := by
  rw [RegisteredView.parse, Outcome.mapError_eq_error_iff]
  simp only [Template.parse_eq_error_iff, Template.faultAt_iff]
  constructor
  · rintro ⟨fault, ⟨front, behind, hsource, hopener, hlast, hfront, hfault⟩, rfl⟩
    refine ⟨front, behind, hsource, hopener, hlast, hfront, ?_⟩
    rcases hfault with ⟨hclose, rfl⟩ |
      ⟨tag, expression, htag, hexpression, hcomment, hthis, hnames, rfl⟩
    · exact .inl ⟨hclose, rfl, Failure.message_unclosed view.name front.utf8ByteSize⟩
    · exact .inr ⟨tag, expression, htag, hexpression, hcomment, hthis, hnames, rfl,
        Failure.message_invalidPath view.name expression⟩
  · rintro ⟨front, behind, hsource, hopener, hlast, hfront, hfault⟩
    rcases hfault with ⟨hclose, rfl, -⟩ |
      ⟨tag, expression, htag, hexpression, hcomment, hthis, hnames, rfl, -⟩
    · exact ⟨_, ⟨front, behind, hsource, hopener, hlast, hfront, .inl ⟨hclose, rfl⟩⟩, rfl⟩
    · exact ⟨_, ⟨front, behind, hsource, hopener, hlast, hfront,
        .inr ⟨tag, expression, htag, hexpression, hcomment, hthis, hnames, rfl⟩⟩, rfl⟩

end ViewBundle
