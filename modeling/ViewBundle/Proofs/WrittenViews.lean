import Mathlib.Data.List.Infix
import ViewBundle.FileTree
import ViewBundle.Proofs.WrittenTag
import ViewBundle.ViewFile

/-!
# Reading written views back

Views are written one after the other: a start tag, the body, and perhaps an end tag.  If no tag
of a view begins in a body, reading them gives them back.  The line feed that is added to the
markup belongs to the last body if no end tag stands behind that.  Main statement:
`ViewFile.parse_listText`.
-/

namespace ViewBundle

open Markup (WrittenAttribute startTag endTag)

/-- A view that can be written in a view file. -/
structure WrittenView where
  stem : String
  attributes : List WrittenAttribute
  body : String
  /-- Whether an end tag is written behind the body. -/
  isClosed : Bool
  stem_ne : stem ≠ ""
  stem_ne_import : stem ≠ "import"
  isNameChar_of_mem : ∀ c ∈ stem.toList, Markup.isNameChar c
  nodup_names : (attributes.map WrittenAttribute.name).Nodup

namespace WrittenView

/-- The name of the tags of a view. -/
def tagName (view : WrittenView) : String :=
  view.stem ++ ":"

/-- What is written behind the body. -/
def endText (view : WrittenView) : List Char :=
  if view.isClosed then endTag view.tagName else []

/-- How a view is written. -/
def text (view : WrittenView) : List Char :=
  startTag view.tagName view.attributes ++ (view.body.toList ++ view.endText)

/-- How views are written one after the other. -/
def listText (views : List WrittenView) : List Char :=
  views.flatMap text

/-- Whether no tag of a view begins in one of the bodies, when a line feed is written behind the
views. -/
def bodiesEndAtTags : List WrittenView → Bool
  | [] => true
  | view :: more =>
    view.body.toList.tails.all (fun s => s.isEmpty ||
      !Markup.Token.endsViewBody (s ++ (view.endText ++ (listText more ++ ['\n'])))) &&
    bodiesEndAtTags more

/-- The attributes of a view. -/
def options (view : WrittenView) : Markup.Attributes :=
  ⟨view.attributes.map WrittenAttribute.pair, by
    rw [List.map_map]
    exact view.nodup_names⟩

/-- A view as a file declares it. -/
def declared (origin : ViewFile.Origin) (view : WrittenView) (source : String) : View :=
  ⟨qualified origin.scope view.stem, source, view.options, origin.file⟩

/-- The views that a file declares.  The last one ends in a line feed unless it is closed. -/
def allDeclared (origin : ViewFile.Origin) : List WrittenView → List View
  | [] => []
  | [view] => [view.declared origin (if view.isClosed then view.body else view.body ++ "\n")]
  | view :: more => view.declared origin view.body :: allDeclared origin more

theorem listText_cons_append (view : WrittenView) (views : List WrittenView) (s : List Char) :
    listText (view :: views) ++ s = startTag view.tagName view.attributes ++
      (view.body.toList ++ (view.endText ++ (listText views ++ s))) := by
  simp [listText, text]

theorem toList_tagName (view : WrittenView) : view.tagName.toList = view.stem.toList ++ [':'] := by
  rw [tagName, String.toList_append]
  rfl

theorem tagName_ne (view : WrittenView) : view.tagName ≠ "" := by
  intro h
  have hchars := congrArg String.toList h
  rw [toList_tagName] at hchars
  simp at hchars

theorem isNameChar_of_mem_tagName (view : WrittenView) :
    ∀ c ∈ view.tagName.toList, Markup.isNameChar c := by
  intro c hc
  rw [toList_tagName, List.mem_append] at hc
  rcases hc with hc | hc
  · exact view.isNameChar_of_mem c hc
  · rw [List.mem_singleton.1 hc]
    decide

theorem viewStem?_tagName (view : WrittenView) :
    Markup.viewStem? view.tagName.toList = some view.stem.toList := by
  have hne : view.stem.toList ≠ [] := fun h => view.stem_ne (String.toList_eq_nil_iff.1 h)
  have hlength := List.length_pos_iff.2 hne
  rw [toList_tagName, Markup.viewStem?, if_pos (by simpa using hlength), List.dropLast_concat]

theorem isViewTag_tagName (view : WrittenView) : Markup.isViewTag view.tagName := by
  rw [Markup.isViewTag, viewStem?_tagName]
  rfl

theorem isOpaqueTag_tagName (view : WrittenView) : Markup.isOpaqueTag view.tagName := by
  rw [Markup.isOpaqueTag, view.isViewTag_tagName, Bool.true_or, Bool.true_or]

/-! ## Where a body ends -/

theorem endsBody_tagName (view : WrittenView) :
    Markup.Token.endsBody view.tagName.toList = Markup.Token.endsViewBody := by
  funext s
  rw [Markup.Token.endsBody, viewStem?_tagName, Option.isSome_some, if_pos rfl]

theorem endsViewBody_startTag (view : WrittenView) (s : List Char) :
    Markup.Token.endsViewBody (startTag view.tagName view.attributes ++ s) :=
  Markup.Token.endsViewBody_startTag_append view.tagName_ne view.isNameChar_of_mem_tagName
    view.isViewTag_tagName view.attributes s

theorem endsViewBody_endTag (view : WrittenView) (s : List Char) :
    Markup.Token.endsViewBody (endTag view.tagName ++ s) :=
  Markup.Token.endsViewBody_endTag_append view.isNameChar_of_mem_tagName view.isViewTag_tagName s

theorem splitWhere_append_of_tails {p : List Char → Bool} {s : List Char} (after : List Char)
    (h : s.tails.all (fun t => t.isEmpty || !p (t ++ after)) = true) :
    Text.splitWhere p (s ++ after) =
      (s ++ (Text.splitWhere p after).1, (Text.splitWhere p after).2) := by
  induction s with
  | nil => rfl
  | cons c cs ih =>
    rw [List.tails_cons, List.all_cons, Bool.and_eq_true] at h
    have hc : p (c :: (cs ++ after)) = false := by simpa using h.1
    rw [List.cons_append, Text.splitWhere, hc, ih h.2]
    rfl

theorem splitWhere_of_endsViewBody {s : List Char} (h : Markup.Token.endsViewBody s) :
    Text.splitWhere Markup.Token.endsViewBody s = ([], s) := by
  cases s with
  | nil => rfl
  | cons c cs => rw [Text.splitWhere, if_pos h]

/-- A body that no tag of a view begins in, up to the tag behind it. -/
theorem splitWhere_body {view : WrittenView} {more : List WrittenView}
    (h : bodiesEndAtTags (view :: more)) :
    Text.splitWhere (Markup.Token.endsBody view.tagName.toList)
        (view.body.toList ++ (view.endText ++ (listText more ++ ['\n']))) =
      if view.isClosed || !more.isEmpty then
        (view.body.toList, view.endText ++ (listText more ++ ['\n']))
      else (view.body.toList ++ ['\n'], []) := by
  rw [bodiesEndAtTags, Bool.and_eq_true] at h
  rw [endsBody_tagName, splitWhere_append_of_tails _ h.1, endText]
  -- The body ends at its own end tag, else at the start tag of the next view, else with the text.
  cases view.isClosed with
  | true =>
    have hends := view.endsViewBody_endTag (listText more ++ ['\n'])
    simp [splitWhere_of_endsViewBody hends]
  | false =>
    cases more with
    | nil => rfl
    | cons next more =>
      have hends := next.endsViewBody_startTag
        (next.body.toList ++ (next.endText ++ (listText more ++ ['\n'])))
      rw [listText_cons_append]
      simp [splitWhere_of_endsViewBody hends]

/-! ## Reading the markup -/

variable {κ σ : Type} [FileStore σ] (settings : Settings κ) (store : σ) (origin : ViewFile.Origin)

/-- What the events of a markup declare. -/
def declaredBy (markup : List Char) : Except Failure ViewFile :=
  ViewFile.ofTokens settings store origin none
    ((Markup.Token.ofChars Markup.isOpaqueTag markup).filter Markup.Token.isEvent)

/-- A start tag of a view and its body declare the view, whatever follows them. -/
theorem declaredBy_startTag (view : WrittenView) {s body rest : List Char}
    (hsplit : Text.splitWhere (Markup.Token.endsBody view.tagName.toList) s = (body, rest)) :
    declaredBy settings store origin (startTag view.tagName view.attributes ++ s) =
      (declaredBy settings store origin rest).map fun file =>
        { file with views := view.declared origin (String.ofList body) :: file.views } := by
  have hoptions : Markup.Attributes.ofChars (WrittenAttribute.listText view.attributes) =
      view.options := by
    have hentries := Markup.Attributes.entries_ofChars_listText view.nodup_names
    cases hlist : Markup.Attributes.ofChars (WrittenAttribute.listText view.attributes)
    rw [hlist] at hentries
    simpa [options] using hentries
  have himport : view.stem.toList ≠ ViewFile.importStem := by
    intro h
    exact view.stem_ne_import (String.toList_inj.1 h)
  have htokens : Markup.Token.ofChars Markup.isOpaqueTag
      (startTag view.tagName view.attributes ++ s) =
      .opening (String.ofList (startTag view.tagName view.attributes)) view.tagName view.options ::
        .body (String.ofList body) :: Markup.Token.ofChars Markup.isOpaqueTag rest := by
    rw [Markup.Token.ofChars, dif_neg (by simp [startTag]),
      Markup.Token.cutFirst_startTag view.tagName_ne view.isNameChar_of_mem_tagName,
      Markup.Token.startTagCut, if_pos view.isOpaqueTag_tagName, hsplit, hoptions]
    rfl
  rw [declaredBy, htokens, List.filter_cons_of_pos rfl, List.filter_cons_of_pos rfl,
    ViewFile.ofTokens, viewStem?_tagName]
  dsimp only
  rw [ViewFile.Opened.imports, if_neg himport, ViewFile.ofTokens]
  unfold declaredBy
  cases ViewFile.ofTokens settings store origin none
      ((Markup.Token.ofChars Markup.isOpaqueTag rest).filter Markup.Token.isEvent) with
  | error failure => rfl
  | ok file =>
    rw [Except.map]
    simp [ViewFile.Opened.views, himport, declared]
    rfl

theorem declaredBy_endTag (view : WrittenView) (rest : List Char) :
    declaredBy settings store origin (endTag view.tagName ++ rest) =
      declaredBy settings store origin rest := by
  rw [declaredBy, Markup.Token.ofChars, dif_neg (by simp [endTag]),
    Markup.Token.cutFirst_endTag view.tagName_ne view.isNameChar_of_mem_tagName]
  rfl

theorem declaredBy_nil : declaredBy settings store origin [] = .ok ⟨[], []⟩ := by
  rw [declaredBy, Markup.Token.ofChars, dif_pos rfl]
  rfl

theorem declaredBy_newline : declaredBy settings store origin ['\n'] = .ok ⟨[], []⟩ := by
  have hcut : Markup.Token.cutFirst Markup.isOpaqueTag ['\n'] = ([.plain "\n"], []) := rfl
  rw [declaredBy, Markup.Token.ofChars, dif_neg (by simp), hcut, Markup.Token.ofChars, dif_pos rfl]
  rfl

/-- Written views are declared one by one, if each body ends where it was written to end. -/
theorem declaredBy_listText {views : List WrittenView} (h : bodiesEndAtTags views) :
    declaredBy settings store origin (listText views ++ ['\n']) =
      .ok ⟨[], allDeclared origin views⟩ := by
  -- What follows a body is the markup of the views behind it, with the line feed at its end.
  induction views with
  | nil => exact declaredBy_newline settings store origin
  | cons view more ih =>
    have hmore : bodiesEndAtTags more := by
      rw [bodiesEndAtTags, Bool.and_eq_true] at h
      exact h.2
    have hsplit := splitWhere_body h
    rw [listText_cons_append]
    cases hclosed : view.isClosed with
    | true =>
      have hend : view.endText = endTag view.tagName := by simp [endText, hclosed]
      rw [hclosed, Bool.true_or, if_pos rfl] at hsplit
      rw [declaredBy_startTag settings store origin view hsplit, hend,
        declaredBy_endTag, ih hmore, String.ofList_toList]
      cases more with
      | nil => simp [Except.map, allDeclared, hclosed]
      | cons next more => rfl
    | false =>
      have hend : view.endText = [] := by simp [endText, hclosed]
      cases more with
      | nil =>
        rw [hclosed, Bool.false_or, if_neg (by simp)] at hsplit
        have hbody : String.ofList (view.body.toList ++ ['\n']) = view.body ++ "\n" := by
          rw [String.ofList_append, String.ofList_toList]
        rw [declaredBy_startTag settings store origin view hsplit, declaredBy_nil, hbody]
        simp [Except.map, allDeclared, hclosed]
      | cons next more =>
        rw [hclosed, Bool.false_or, if_pos (by simp)] at hsplit
        rw [declaredBy_startTag settings store origin view hsplit, hend, List.nil_append,
          ih hmore, String.ofList_toList]
        rfl

end WrittenView

/-- Views that are written one after the other are the views that the markup declares, in their
order and with their attributes and bodies, under the scope of the file; it declares no imports. -/
theorem ViewFile.parse_listText {κ σ : Type} [FileStore σ] (settings : Settings κ) (store : σ)
    (scope : Option String) (file : Path) (views : List WrittenView)
    (h : WrittenView.bodiesEndAtTags views) :
    parse settings store scope (String.ofList (WrittenView.listText views)) file =
      .ok ⟨[], WrittenView.allDeclared ⟨file, scope.filter (· ≠ "")⟩ views⟩ := by
  have hmarkup : (String.ofList (WrittenView.listText views) ++ "\n").toList =
      WrittenView.listText views ++ ['\n'] := by
    rw [String.toList_append, String.toList_ofList]
    rfl
  have hdeclared := WrittenView.declaredBy_listText settings store
    ⟨file, scope.filter (· ≠ "")⟩ h
  rw [← hmarkup] at hdeclared
  exact hdeclared

/-- Views with end tags and without, the first of which has markup in a value. -/
def writtenPage : List WrittenView :=
  [{ stem := "link"
     attributes :=
      [{ name := "title"
         value := "a > b\n</x:> = 'c'"
         isBare := false
         name_ne := by decide
         isNameChar_of_mem := List.all_eq_true.1 (by decide)
         not_isUpper_of_mem := List.any_eq_false.1 (by decide)
         quote_notMem := by decide
         value_eq_of_isBare := by decide },
        { name := "checked"
          value := ""
          isBare := true
          name_ne := by decide
          isNameChar_of_mem := List.all_eq_true.1 (by decide)
          not_isUpper_of_mem := List.any_eq_false.1 (by decide)
          quote_notMem := by decide
          value_eq_of_isBare := by decide }]
     body := "<p>a</p>:\n"
     isClosed := true
     stem_ne := by decide
     stem_ne_import := by decide
     isNameChar_of_mem := List.all_eq_true.1 (by decide)
     nodup_names := by decide },
    { stem := "nav:item"
      attributes := []
      body := ""
      isClosed := false
      stem_ne := by decide
      stem_ne_import := by decide
      isNameChar_of_mem := List.all_eq_true.1 (by decide)
      nodup_names := by decide },
    { stem := "Body"
      attributes := []
      body := "text"
      isClosed := false
      stem_ne := by decide
      stem_ne_import := by decide
      isNameChar_of_mem := List.all_eq_true.1 (by decide)
      nodup_names := by decide }]

theorem ViewFile.parse_listText_writtenPage :
    WrittenView.bodiesEndAtTags writtenPage = true ∧
      String.ofList (WrittenView.listText writtenPage) =
        "<link: title=\"a > b\n</x:> = 'c'\" checked><p>a</p>:\n</link:><nav:item:><Body:>text" ∧
      parse Settings.standard FileTree.empty (some "app")
          (String.ofList (WrittenView.listText writtenPage)) ⟨"/v/page.html"⟩ =
        .ok ⟨[], WrittenView.allDeclared ⟨⟨"/v/page.html"⟩, some "app"⟩ writtenPage⟩ ∧
      (WrittenView.allDeclared ⟨⟨"/v/page.html"⟩, some "app"⟩ writtenPage).map
          (fun view => (view.name, view.source)) =
        [("app:link", "<p>a</p>:\n"), ("app:nav:item", ""), ("app:Body", "text\n")] := by
  have hends : WrittenView.bodiesEndAtTags writtenPage = true := by decide
  refine ⟨hends, by decide, ?_, by decide⟩
  exact parse_listText Settings.standard FileTree.empty (some "app") ⟨"/v/page.html"⟩ writtenPage
    hends

end ViewBundle
