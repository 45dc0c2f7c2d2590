import ViewBundle.Dictionary
import ViewBundle.Markup.TagName

/-!
# Attributes of a tag

Names are runs of characters other than blanks, `=`, `/` and `>`.  A name is followed by a value
if an equals sign and a value come next: a text in double or single quotes, or a run of characters
other than blanks and `>`.  Whatever else stands between attributes is passed over.  Names are
taken in lower case, and of several attributes of one name the last value counts.
-/

namespace ViewBundle.Markup

/-- The attributes of a tag, in the order in which their names first came. -/
abbrev Attributes := Dictionary String

namespace Attributes

/-- Whether a character can stand in an attribute name. -/
def isNameChar (c : Char) : Bool :=
  !Text.isBlank c && c != '=' && c != '/' && c != '>'

/-- Whether a character can stand in a value without quotes. -/
def isBareChar (c : Char) : Bool :=
  !Text.isBlank c && c != '>'

/-- The value at the start of a text between two of the given quotes, and what follows it. -/
def quoted? (quote : Char) : List Char → Option (List Char × List Char)
  | [] => none
  | c :: cs =>
    if c = quote then
      match cs.dropWhile (· != quote) with
      | [] => none
      | _ :: rest => some (cs.takeWhile (· != quote), rest)
    else none

/-- The value without quotes at the start of a text, and what follows it. -/
def bare? (s : List Char) : Option (List Char × List Char) :=
  match s.takeWhile isBareChar with
  | [] => none
  | value => some (value, s.dropWhile isBareChar)

/-- The value at the start of a text, and what follows it. -/
def value? (s : List Char) : Option (List Char × List Char) :=
  ((quoted? '"' s).or (quoted? '\'' s)).or (bare? s)

/-- The value that an equals sign gives to the name before it, and what follows it. -/
def assigned? (s : List Char) : Option (List Char × List Char) :=
  match s.dropWhile Text.isBlank with
  | '=' :: more => value? (more.dropWhile Text.isBlank)
  | _ => none

theorem length_dropWhile_le (p : Char → Bool) (s : List Char) :
    (s.dropWhile p).length ≤ s.length := by
  have h := congrArg List.length (List.takeWhile_append_dropWhile (p := p) (l := s))
  simp only [List.length_append] at h
  omega

theorem length_of_quoted? {quote : Char} {s value rest : List Char}
    (h : quoted? quote s = some (value, rest)) : rest.length ≤ s.length := by
  cases s with
  | nil => simp [quoted?] at h
  | cons c cs =>
    simp only [quoted?] at h
    split at h
    · split at h
      · contradiction
      · next x tail htail =>
        obtain rfl : tail = rest := (Prod.mk.inj (Option.some.inj h)).2
        have hle := length_dropWhile_le (· != quote) cs
        rw [htail] at hle
        simp only [List.length_cons] at hle ⊢
        omega
    · contradiction

theorem length_of_bare? {s value rest : List Char} (h : bare? s = some (value, rest)) :
    rest.length ≤ s.length := by
  simp only [bare?] at h
  split at h
  · contradiction
  · have hrest := (Prod.mk.inj (Option.some.inj h)).2
    rw [← hrest]
    exact length_dropWhile_le _ s

theorem length_of_value? {s value rest : List Char} (h : value? s = some (value, rest)) :
    rest.length ≤ s.length := by
  simp only [value?, Option.or_eq_some_iff] at h
  rcases h with (h | ⟨_, h⟩) | ⟨_, h⟩
  · exact length_of_quoted? h
  · exact length_of_quoted? h
  · exact length_of_bare? h

theorem length_of_assigned? {s value rest : List Char} (h : assigned? s = some (value, rest)) :
    rest.length ≤ s.length := by
  simp only [assigned?] at h
  split at h
  · next more hmore =>
    have h₁ := length_of_value? h
    have h₂ := length_dropWhile_le Text.isBlank more
    have h₃ := length_dropWhile_le Text.isBlank s
    rw [hmore, List.length_cons] at h₃
    omega
  · contradiction

/-- The names and values in an attribute list, in order. -/
def pairs (s : List Char) : List (String × String) :=
  match _hs : s.dropWhile (!isNameChar ·) with
  | [] => []
  | c :: cs =>
    let name := String.ofList (foldCase (c :: cs.takeWhile isNameChar))
    match _hv : assigned? (cs.dropWhile isNameChar) with
    | some (value, rest) => (name, String.ofList value) :: pairs rest
    | none => (name, "") :: pairs (cs.dropWhile isNameChar)
termination_by s.length
decreasing_by
  all_goals
    have h₁ := length_dropWhile_le (!isNameChar ·) s
    have h₂ := length_dropWhile_le isNameChar cs
    rw [_hs, List.length_cons] at h₁
  · have h₃ := length_of_assigned? _hv
    omega
  · omega

/-- The attributes in an attribute list. -/
def ofChars (s : List Char) : Attributes :=
  Dictionary.ofList (pairs s)

end Attributes

end ViewBundle.Markup
