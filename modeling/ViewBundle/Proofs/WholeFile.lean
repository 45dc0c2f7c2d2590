import ViewBundle.Proofs.Outcome
import ViewBundle.Proofs.WrittenViews

/-!
# Files that are one view

The compiler for plain files writes the start tag of the view `index` in front of the text, and what
comes of that is read as markup.  So the text is the body of the view only up to the first place at
which the body of a view ends.  What stands from there on is read as a view file of its own, in
which views, imports and failures are found as in any other.  The line feed that is added to the
markup makes no place of this kind, and takes none away (`endsViewBody_concat_newline`).  Main
statement: `ViewFile.parse_view_markup`.
-/

namespace ViewBundle

open Markup (startTag)

/-! ## Where a text is split -/

namespace Text

variable {p : List Char → Bool}

theorem splitWhere_snd_eq_nil_iff (hnil : p [] = false) (s : List Char) :
    (splitWhere p s).2 = [] ↔ s.tails.all (!p ·) = true := by
  induction s with
  | nil => simp [splitWhere, hnil]
  | cons c cs ih =>
    rw [List.tails_cons, List.all_cons, splitWhere]
    cases hp : p (c :: cs) with
    | true => simp
    | false => simpa [hp] using ih

/-- A character at the end of a text that the test does not look at stays at the end. -/
theorem splitWhere_concat {last : Char} (hnil : p [] = false)
    (hlast : ∀ s, p (s ++ [last]) = p s) (s : List Char) :
    splitWhere p (s ++ [last]) =
      if (splitWhere p s).2 = [] then (s ++ [last], [])
      else ((splitWhere p s).1, (splitWhere p s).2 ++ [last]) := by
  induction s with
  | nil =>
    have hfalse : p [last] = false := (hlast []).trans hnil
    simp [splitWhere, hfalse]
  | cons c cs ih =>
    have hcons : p (c :: (cs ++ [last])) = p (c :: cs) := hlast (c :: cs)
    rw [List.cons_append, splitWhere, splitWhere, hcons, ih]
    cases p (c :: cs) with
    | true => simp
    | false => by_cases hend : (splitWhere p cs).2 = [] <;> simp [hend]

end Text

/-! ## Texts that a view can have as its body -/

namespace Markup

/-- Whether a view can have this text as its body: at no place of the text does the body of a view
end. -/
def isViewBody (text : String) : Bool :=
  text.toList.tails.all (!Token.endsViewBody ·)

namespace Token

theorem endsAfterName_concat_newline (s : List Char) :
    endsViewBody.endsAfterName (s ++ ['\n']) = endsViewBody.endsAfterName s := by
  have hname : (s ++ ['\n']).takeWhile isNameChar = s.takeWhile isNameChar := by
    rw [List.takeWhile_append]
    split
    · next h =>
      rw [(List.takeWhile_prefix isNameChar).eq_of_length h]
      exact List.append_nil s
    · rfl
  rw [endsViewBody.endsAfterName, endsViewBody.endsAfterName, hname, List.dropWhile_append]
  -- Behind a name that the text ends with stands a blank now, which serves just as well.
  cases s.dropWhile isNameChar with
  | nil => rfl
  | cons c cs => rfl

/-- A line feed behind a text makes no difference to whether the body of a view ends where the text
begins. -/
theorem endsViewBody_concat_newline (s : List Char) :
    endsViewBody (s ++ ['\n']) = endsViewBody s := by
  cases s with
  | nil => rfl
  | cons c cs =>
    by_cases hc : c = '<'
    · subst hc
      cases cs with
      | nil => rfl
      | cons d ds =>
        by_cases hd : d = '/'
        · subst hd
          exact endsAfterName_concat_newline ds
        · have hopening (more : List Char) :
              endsViewBody ('<' :: d :: more) = endsViewBody.endsAfterName (d :: more) := by
            simp [endsViewBody, hd]
          rw [List.cons_append, List.cons_append, hopening, hopening]
          exact endsAfterName_concat_newline (d :: ds)
    · simp [endsViewBody, hc]

end Token

end Markup

/-! ## The view `index` -/

namespace WrittenView

/-- The view that a plain file is written as, up to its body. -/
def index : WrittenView where
  stem := "index"
  attributes := []
  body := ""
  isClosed := false
  stem_ne := by decide
  stem_ne_import := by decide
  isNameChar_of_mem := List.all_eq_true.1 (by decide)
  nodup_names := List.nodup_nil

theorem toList_markup_view (text : String) :
    (Compiler.view.markup text).toList =
      startTag index.tagName index.attributes ++ text.toList := by
  rw [Compiler.markup, String.toList_append]
  rfl

variable {κ σ : Type} [FileStore σ] (settings : Settings κ) (store : σ) (scope : Option String)
  (file : Path)

theorem parse_eq_declaredBy (markup : String) :
    ViewFile.parse settings store scope markup file =
      declaredBy settings store ⟨file, scope.filter (· ≠ "")⟩ (markup.toList ++ ['\n']) := by
  rw [ViewFile.parse, Markup.events, Markup.tokens, String.toList_append]
  rfl

/-- A plain file declares the view `index`, and what the text behind its body declares. -/
theorem parse_view_markup_of_splitWhere {text : String} {body rest : List Char}
    (hsplit : Text.splitWhere Markup.Token.endsViewBody (text.toList ++ ['\n']) = (body, rest)) :
    ViewFile.parse settings store scope (Compiler.view.markup text) file =
      (declaredBy settings store ⟨file, scope.filter (· ≠ "")⟩ rest).map fun later =>
        { later with
          views := ⟨qualified (scope.filter (· ≠ "")) "index", String.ofList body, .empty, file⟩ ::
            later.views } := by
  rw [← index.endsBody_tagName] at hsplit
  rw [parse_eq_declaredBy, toList_markup_view, List.append_assoc,
    declaredBy_startTag settings store _ index hsplit]
  rfl

end WrittenView

/-- A plain file is one view, named `index` and with the text and a line feed as its source, exactly
if a view can have the text as its body.  Otherwise the view has the text up to the first place at
which the body of a view ends, and the text from there on is read as the markup of a file. -/
theorem ViewFile.parse_view_markup {κ σ : Type} [FileStore σ] (settings : Settings κ) (store : σ)
    (scope : Option String) (text : String) (file : Path) :
    (parse settings store scope (Compiler.view.markup text) file =
        .ok ⟨[], [⟨qualified (scope.filter (· ≠ "")) "index", text ++ "\n", .empty, file⟩]⟩ ↔
      Markup.isViewBody text) ∧
    (Markup.isViewBody text = false →
      parse settings store scope (Compiler.view.markup text) file =
        (parse settings store scope
          (String.ofList (Text.splitWhere Markup.Token.endsViewBody text.toList).2) file).map
          fun later => { later with
            views := ⟨qualified (scope.filter (· ≠ "")) "index",
              String.ofList (Text.splitWhere Markup.Token.endsViewBody text.toList).1,
              .empty, file⟩ :: later.views }) := by
  have hbody : (Text.splitWhere Markup.Token.endsViewBody text.toList).2 = [] ↔
      Markup.isViewBody text = true :=
    Text.splitWhere_snd_eq_nil_iff rfl text.toList
  have hconcat := Text.splitWhere_concat rfl Markup.Token.endsViewBody_concat_newline text.toList
  by_cases hwhole : Markup.isViewBody text = true
  · rw [if_pos (hbody.2 hwhole)] at hconcat
    refine ⟨iff_of_true ?_ hwhole, fun hnot => absurd hwhole (by simp [hnot])⟩
    rw [WrittenView.parse_view_markup_of_splitWhere settings store scope file hconcat,
      WrittenView.declaredBy_nil, String.ofList_append, String.ofList_toList]
    rfl
  · rw [if_neg (mt hbody.1 hwhole)] at hconcat
    have happend := Text.splitWhere_append Markup.Token.endsViewBody text.toList
    generalize Text.splitWhere Markup.Token.endsViewBody text.toList = parts at hconcat happend ⊢
    rw [WrittenView.parse_view_markup_of_splitWhere settings store scope file hconcat]
    refine ⟨iff_of_false (fun hone => ?_) hwhole, fun _ => ?_⟩
    · -- The source of the view would have to be longer than the text that it is a part of.
      obtain ⟨later, -, hfile⟩ := Outcome.map_eq_ok_iff.1 hone
      have hsource : String.ofList parts.1 = text ++ "\n" :=
        (View.mk.inj (List.cons.inj (ViewFile.mk.inj hfile).2).1).2.1
      have hchars := congrArg String.toList hsource
      rw [String.toList_ofList, String.toList_append, ← happend, List.append_assoc,
        List.self_eq_append_right] at hchars
      simp at hchars
    · rw [WrittenView.parse_eq_declaredBy, String.toList_ofList]

/-- A tag of a view in a plain file ends the view `index`.  A whole tag declares what it declares
anywhere else, and what is no whole tag is lost. -/
theorem ViewFile.not_forall_parse_view_markup :
    (¬∀ (scope : Option String) (text : String) (file : Path) (tree : FileTree),
      parse .standard tree scope (Compiler.view.markup text) file =
        .ok ⟨[], [⟨qualified (scope.filter (· ≠ "")) "index", text ++ "\n", .empty, file⟩]⟩) ∧
    parse .standard FileTree.empty none (Compiler.view.markup "x<b:>y") ⟨"/v/card.txt"⟩ =
      .ok ⟨[], [⟨"index", "x", .empty, ⟨"/v/card.txt"⟩⟩, ⟨"b", "y\n", .empty, ⟨"/v/card.txt"⟩⟩]⟩ ∧
    parse .standard FileTree.empty none (Compiler.view.markup "Press <esc: to quit")
        ⟨"/v/card.txt"⟩ =
      .ok ⟨[], [⟨"index", "Press ", .empty, ⟨"/v/card.txt"⟩⟩]⟩ := by
  have hsplit : parse .standard FileTree.empty none (Compiler.view.markup "x<b:>y")
      ⟨"/v/card.txt"⟩ =
      .ok ⟨[], [⟨"index", "x", .empty, ⟨"/v/card.txt"⟩⟩,
        ⟨"b", "y\n", .empty, ⟨"/v/card.txt"⟩⟩]⟩ := by
    decide +kernel
  refine ⟨fun hone => ?_, hsplit, by decide +kernel⟩
  have htwo := hsplit.symm.trans (hone none "x<b:>y" ⟨"/v/card.txt"⟩ .empty)
  exact absurd htwo (by decide +kernel)

end ViewBundle
