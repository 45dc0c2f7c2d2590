import ViewBundle.Markup.Attributes

/-!
# Where a start tag ends

Behind its name a start tag holds attributes, then perhaps a slash, then `>`.  The one place where
its reading is not forced is a value that begins with a quote: it may run to the closing quote, or
be a bare value that happens to begin with a quote.  The quoted reading is preferred, and the bare
one is taken where the quoted one leads to no end of the tag.  The reading also decides whether a
slash in front of the `>` closes the tag or belongs to a bare value.

`TagState.end?` says this by trying one reading after the other.  `tagEnd?` follows all readings
side by side, so that its work is in proportion to the text.  Main statement: the two agree
(`follow_eq`, `tagEnd?_eq`).
-/

namespace ViewBundle.Markup

/-- Where a reading stands in a start tag, behind the tag's name. -/
inductive TagState where
  /-- Right behind the tag name or a quoted value. -/
  | afterItem
  /-- Behind a blank, where an attribute can begin. -/
  | gap
  /-- In an attribute name or behind it, where a value can be assigned. -/
  | name
  /-- Behind an equals sign, where a value has to begin. -/
  | equals
  /-- In a value that ends with this quote. -/
  | quoted (quote : Char)
  /-- In a value without quotes. -/
  | bare
  /-- Behind the slash at the end of the tag. -/
  | slash
  deriving DecidableEq, Repr

/-- How a start tag ends. -/
structure TagEnd where
  /-- Whether there is a slash in front of the `>` that belongs to no attribute. -/
  selfClosing : Bool
  /-- What follows the tag. -/
  rest : List Char
  deriving DecidableEq, Repr

/-- What one character makes of a reading. -/
inductive TagStep where
  /-- The text is no tag under this reading. -/
  | stop
  /-- The tag is complete, perhaps with a slash that closes it. -/
  | done (selfClosing : Bool)
  /-- The reading goes on. -/
  | next (state : TagState)
  /-- There are two ways to go on, the first of which is preferred. -/
  | either (first second : TagState)
  deriving DecidableEq, Repr

namespace TagState

/-- What a character makes of a reading. -/
def read : TagState → Char → TagStep
  | afterItem, c =>
    if c = '>' then .done false
    else if c = '/' then .next slash
    else if Text.isBlank c then .next gap
    else .stop
  | gap, c =>
    if c = '>' then .done false
    else if c = '/' then .next slash
    else if c = '=' then .stop
    else if Text.isBlank c then .next gap
    else .next name
  | name, c =>
    if c = '>' then .done false
    else if c = '/' then .next slash
    else if c = '=' then .next equals
    else .next name
  | equals, c =>
    if c = '>' then .stop
    else if Text.isBlank c then .next equals
    else if c = '"' || c = '\'' then .either (quoted c) bare
    else .next bare
  | quoted quote, c => if c = quote then .next afterItem else .next (quoted quote)
  | bare, c =>
    if c = '>' then .done false
    else if Text.isBlank c then .next gap
    else .next bare
  | slash, c =>
    if c = '>' then .done true
    else if Text.isBlank c then .next slash
    else .stop

/-- The end of the tag that a reading finds in a text, the preferred way tried first. -/
def end? : TagState → List Char → Option TagEnd
  | _, [] => none
  | state, c :: cs =>
    match state.read c with
    | .stop => none
    | .done selfClosing => some ⟨selfClosing, cs⟩
    | .next state => state.end? cs
    | .either first second => (first.end? cs).or (second.end? cs)

/-- A reading put in front of those that are less preferred; one that is already among them is
needed only once. -/
def prefer (state : TagState) (others : List TagState) : List TagState :=
  state :: others.filter (· ≠ state)

/-- What a character makes of several readings, the most preferred first: the readings that are
still preferred to the first one that found the end of the tag, and that end. -/
def advance (c : Char) (cs : List Char) : List TagState → List TagState × Option TagEnd
  | [] => ([], none)
  | state :: others =>
    match state.read c with
    | .stop => advance c cs others
    | .done selfClosing => ([], some ⟨selfClosing, cs⟩)
    | .next state => (prefer state (advance c cs others).1, (advance c cs others).2)
    | .either first second =>
      (prefer first (prefer second (advance c cs others).1), (advance c cs others).2)

/-- The end of the tag under the most preferred of several readings that finds one, or else what an
earlier and less preferred reading has found. -/
def follow : List TagState → Option TagEnd → List Char → Option TagEnd
  | [], found, _ => found
  | _ :: _, found, [] => found
  | state :: others, found, c :: cs =>
    let (states, found') := advance c cs (state :: others)
    follow states (found'.or found) cs

theorem findSome?_prefer {β : Type} (f : TagState → Option β) (state : TagState)
    (others : List TagState) :
    (prefer state others).findSome? f = (f state).or (others.findSome? f) := by
  rw [prefer, List.findSome?_cons]
  cases hf : f state with
  | some b => rfl
  | none =>
    simp only [Option.none_or]
    induction others with
    | nil => rfl
    | cons other others ih =>
      by_cases h : other = state
      · simpa [h, hf] using ih
      · rw [List.filter_cons_of_pos (by simpa using h), List.findSome?_cons,
          List.findSome?_cons, ih]

/-- One step on all readings keeps what the most preferred of them finds. -/
theorem findSome?_advance (c : Char) (cs : List Char) (states : List TagState) :
    ((advance c cs states).1.findSome? (end? · cs)).or (advance c cs states).2 =
      states.findSome? (end? · (c :: cs)) := by
  induction states with
  | nil => rfl
  | cons state others ih =>
    rw [List.findSome?_cons]
    cases hread : state.read c with
    | stop =>
      have hend : state.end? (c :: cs) = none := by simp [end?, hread]
      simp only [advance, hread, hend, ih]
    | done selfClosing =>
      have hend : state.end? (c :: cs) = some ⟨selfClosing, cs⟩ := by simp [end?, hread]
      simp [advance, hread, hend]
    | next state' =>
      have hend : state.end? (c :: cs) = state'.end? cs := by simp [end?, hread]
      simp only [advance, hread, hend, findSome?_prefer, Option.or_assoc, ih]
      cases state'.end? cs <;> rfl
    | either first second =>
      have hend : state.end? (c :: cs) = (first.end? cs).or (second.end? cs) := by
        simp [end?, hread]
      simp only [advance, hread, hend, findSome?_prefer, Option.or_assoc, ih]
      cases first.end? cs <;> cases second.end? cs <;> rfl

/-- Following readings side by side finds what trying them one after the other finds. -/
theorem follow_eq (states : List TagState) (found : Option TagEnd) (s : List Char) :
    follow states found s = (states.findSome? (end? · s)).or found := by
  induction s generalizing states found with
  | nil =>
    have hnone : states.findSome? (end? · []) = none :=
      List.findSome?_eq_none_iff.2 fun state _ => by cases state <;> rfl
    rw [hnone]
    cases states <;> rfl
  | cons c cs ih =>
    cases states with
    | nil => rfl
    | cons state others =>
      simp only [follow]
      rw [ih, ← findSome?_advance, Option.or_assoc]

end TagState

/-- The end of a start tag, given the text behind the tag's name. -/
def tagEnd? (s : List Char) : Option TagEnd :=
  TagState.follow [.afterItem] none s

theorem tagEnd?_eq (s : List Char) : tagEnd? s = TagState.afterItem.end? s := by
  rw [tagEnd?, TagState.follow_eq]
  cases h : TagState.afterItem.end? s <;> simp [h]

/-- What follows a tag is what is left of the text behind a `>`. -/
theorem TagState.eq_append_of_end? {state : TagState} {s : List Char} {tagEnd : TagEnd}
    (h : state.end? s = some tagEnd) : ∃ inner, s = inner ++ '>' :: tagEnd.rest := by
  induction s generalizing state with
  | nil => simp [TagState.end?] at h
  | cons c cs ih =>
    have lift {state : TagState} (h : state.end? cs = some tagEnd) :
        ∃ inner, c :: cs = inner ++ '>' :: tagEnd.rest := by
      obtain ⟨inner, hinner⟩ := ih h
      exact ⟨c :: inner, by rw [hinner, List.cons_append]⟩
    simp only [TagState.end?] at h
    split at h
    · contradiction
    · next hread =>
      have hc : c = '>' := by
        cases state <;> simp only [TagState.read] at hread <;> grind
      obtain rfl := Option.some.inj h
      exact ⟨[], by simp [hc]⟩
    · exact lift h
    · rcases Option.or_eq_some_iff.1 h with h | ⟨_, h⟩
      · exact lift h
      · exact lift h

theorem eq_append_of_tagEnd? {s : List Char} {tagEnd : TagEnd} (h : tagEnd? s = some tagEnd) :
    ∃ inner, s = inner ++ '>' :: tagEnd.rest :=
  TagState.eq_append_of_end? (tagEnd?_eq s ▸ h)

end ViewBundle.Markup
