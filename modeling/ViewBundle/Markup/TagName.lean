import ViewBundle.Text

/-!
# Tag names

Which characters a tag name can hold, and what a name says about its tag.  A name that ends in a
colon declares a view; the tags of view files whose bodies are opaque are the view tags, `style`
and `script`.
-/

namespace ViewBundle.Markup

/-- Whether a character can stand in a tag name. -/
def isNameChar (c : Char) : Bool :=
  !Text.isBlank c && c != '=' && c != '/' && c != '!' && c != '>'

/-- The name of the view that a tag declares: the tag name without the colon that ends it. -/
def viewStem? (name : List Char) : Option (List Char) :=
  if name.getLast? = some ':' && name.length > 1 then some name.dropLast else none

/-- Whether a tag name declares a view. -/
def isViewTag (name : String) : Bool :=
  (viewStem? name.toList).isSome

/-- A text in lower case, where only ASCII letters have case. -/
def foldCase (s : List Char) : List Char :=
  s.map Char.toLower

/-- Whether a tag in a view file has an opaque body. -/
def isOpaqueTag (name : String) : Bool :=
  isViewTag name || foldCase name.toList == "style".toList ||
    foldCase name.toList == "script".toList

theorem eq_append_of_viewStem? {name stem : List Char} (h : viewStem? name = some stem) :
    name = stem ++ [':'] ∧ stem ≠ [] := by
  simp only [viewStem?, Bool.and_eq_true, decide_eq_true_eq] at h
  split at h
  · next hc =>
    obtain ⟨front, rfl⟩ := List.getLast?_eq_some_iff.1 hc.1
    obtain rfl : front = stem := by simpa using h
    exact ⟨rfl, by rintro rfl; simp at hc⟩
  · contradiction

end ViewBundle.Markup
