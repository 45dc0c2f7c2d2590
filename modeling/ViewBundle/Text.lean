/-!
# Texts

What is asked of texts as lists of characters: which of them are blank and stand at an end, how
numbers are written in digits of a given width, and where a text is cut, at the first occurrence of
a mark, at the first place that passes a test, at every separator, or at line ends.  Main
statements: a cut loses nothing (`eq_append_of_cut?`, `splitWhere_append`), and the pieces between
separators join to the text (`intercalate_pieces`).
-/

namespace ViewBundle.Text

/-! ## Blank characters -/

/-- Whether a character has the Unicode property `White_Space`. -/
def isBlank (c : Char) : Bool :=
  let n := c.toNat
  (9 ≤ n && n ≤ 13) || n == 0x20 || n == 0x85 || n == 0xa0 || n == 0x1680 ||
    (0x2000 ≤ n && n ≤ 0x200a) || n == 0x2028 || n == 0x2029 || n == 0x202f ||
    n == 0x205f || n == 0x3000

/-- The text without the blanks at its start. -/
def trimStart (s : List Char) : List Char :=
  s.dropWhile isBlank

/-- The text without the blanks at its end. -/
def trimEnd (s : List Char) : List Char :=
  (s.reverse.dropWhile isBlank).reverse

/-- The text without the blanks at either end. -/
def trim (s : List Char) : List Char :=
  trimEnd (trimStart s)

/-! ## Digits -/

/-- The hexadecimal digit of a number below sixteen, in lower case. -/
def hexDigit (n : Nat) : Char :=
  if n < 10 then Char.ofNat (48 + n) else Char.ofNat (87 + n)

/-- The last `width` hexadecimal digits of a number. -/
def hexOfWidth : (width n : Nat) → List Char
  | 0, _ => []
  | width + 1, n => hexOfWidth width (n / 16) ++ [hexDigit (n % 16)]

@[simp]
theorem length_hexOfWidth (width n : Nat) : (hexOfWidth width n).length = width := by
  fun_induction hexOfWidth width n <;> simp_all

/-- The last `width` decimal digits of a number. -/
def decimalOfWidth : (width n : Nat) → List Char
  | 0, _ => []
  | width + 1, n => decimalOfWidth width (n / 10) ++ [Char.ofNat (48 + n % 10)]

/-- The number that decimal digits stand for. -/
def number (digits : List Char) : Nat :=
  digits.foldl (fun n digit => 10 * n + (digit.toNat - 48)) 0

/-- The number in the first `width` characters of a text, if these are decimal digits, and what
follows them. -/
def number? (width : Nat) (s : List Char) : Option (Nat × List Char) :=
  if (s.take width).length = width ∧ (s.take width).all Char.isDigit then
    some (number (s.take width), s.drop width)
  else none

/-! ## Cutting -/

/-- The texts before and after the first occurrence of `mark`. -/
def cut? (mark : List Char) : List Char → Option (List Char × List Char)
  | [] => none
  | c :: cs =>
    match mark.isPrefixOf? (c :: cs) with
    | some rest => some ([], rest)
    | none => (cut? mark cs).map fun (before, after) => (c :: before, after)

/-- The text up to the first place whose remaining text passes the test, and that remaining text. -/
def splitWhere (p : List Char → Bool) : List Char → List Char × List Char
  | [] => ([], [])
  | c :: cs =>
    if p (c :: cs) then ([], c :: cs)
    else (c :: (splitWhere p cs).1, (splitWhere p cs).2)

/-- The pieces of a text between the separators, one more than there are separators. -/
def pieces (sep : Char) : List Char → List (List Char)
  | [] => [[]]
  | c :: cs =>
    if c = sep then [] :: pieces sep cs
    else match pieces sep cs with
      | [] => [[c]]
      | piece :: more => (c :: piece) :: more

/-- A line without the carriage return that belongs to its line end. -/
def dropReturn (line : List Char) : List Char :=
  if line.getLast? = some '\r' then line.dropLast else line

/-- The lines of a text that has been cut at its line feeds: what follows the last line feed is a
line only if it is not empty, and keeps its carriage return. -/
def linesOfPieces : List (List Char) → List (List Char)
  | [] => []
  | [last] => if last = [] then [] else [last]
  | line :: more => dropReturn line :: linesOfPieces more

/-- The lines of a text, without their line ends. -/
def lines (s : List Char) : List (List Char) :=
  linesOfPieces (pieces '\n' s)

/-- Whether a text begins with a mark in lower case, when ASCII case is ignored. -/
def startsFolded : (mark : List Char) → List Char → Bool
  | [], _ => true
  | _ :: _, [] => false
  | m :: ms, c :: cs => m == c.toLower && startsFolded ms cs

@[simp]
theorem isPrefixOf?_nil (s : List Char) : [].isPrefixOf? s = some s := rfl

@[simp]
theorem isPrefixOf?_cons_nil (m : Char) (ms : List Char) : (m :: ms).isPrefixOf? [] = none := rfl

@[simp]
theorem isPrefixOf?_cons_cons (m c : Char) (ms cs : List Char) :
    (m :: ms).isPrefixOf? (c :: cs) = if m == c then ms.isPrefixOf? cs else none := rfl

theorem eq_append_of_isPrefixOf? {mark s rest : List Char}
    (h : mark.isPrefixOf? s = some rest) : s = mark ++ rest := by
  induction mark generalizing s with
  | nil => simpa using h
  | cons m ms ih =>
    cases s with
    | nil => simp at h
    | cons c cs =>
      rw [isPrefixOf?_cons_cons] at h
      split at h
      · next hc =>
        have hc : m = c := by simpa using hc
        rw [ih h, hc, List.cons_append]
      · contradiction

@[simp]
theorem isPrefixOf?_append (mark rest : List Char) :
    mark.isPrefixOf? (mark ++ rest) = some rest := by
  induction mark with
  | nil => simp
  | cons m ms ih => simp [ih]

/-- Cutting at a mark loses nothing but the mark. -/
theorem eq_append_of_cut? {mark s before after : List Char}
    (h : cut? mark s = some (before, after)) : s = before ++ mark ++ after := by
  induction s generalizing before after with
  | nil => simp [cut?] at h
  | cons c cs ih =>
    simp only [cut?] at h
    split at h
    · next rest hrest =>
      obtain ⟨rfl, rfl⟩ : [] = before ∧ rest = after := by simpa using h
      simpa using eq_append_of_isPrefixOf? hrest
    · obtain ⟨⟨b, a⟩, hcut, hba⟩ := Option.map_eq_some_iff.1 h
      obtain ⟨rfl, rfl⟩ : c :: b = before ∧ a = after := by simpa using hba
      rw [ih hcut]
      simp

/-- Splitting at a place loses nothing. -/
theorem splitWhere_append (p : List Char → Bool) (s : List Char) :
    (splitWhere p s).1 ++ (splitWhere p s).2 = s := by
  induction s with
  | nil => rfl
  | cons c cs ih =>
    simp only [splitWhere]
    split <;> simp [ih]

theorem length_splitWhere_le (p : List Char → Bool) (s : List Char) :
    (splitWhere p s).2.length ≤ s.length := by
  have h := congrArg List.length (splitWhere_append p s)
  simp only [List.length_append] at h
  omega

theorem pieces_ne_nil (sep : Char) (s : List Char) : pieces sep s ≠ [] := by
  induction s with
  | nil => simp [pieces]
  | cons c cs ih =>
    simp only [pieces]
    split
    · simp
    · split <;> simp

/-- Joining the pieces with the separator gives the text back. -/
theorem intercalate_pieces (sep : Char) (s : List Char) :
    [sep].intercalate (pieces sep s) = s := by
  induction s with
  | nil => rfl
  | cons c cs ih =>
    have hne := pieces_ne_nil sep cs
    simp only [pieces]
    split
    · next hc =>
      cases hp : pieces sep cs with
      | nil => exact absurd hp hne
      | cons piece more =>
        rw [List.intercalate_cons_cons, ← hp, ih, hc]
        rfl
    · split
      · next hp => exact absurd hp hne
      · next piece more hp =>
        rw [hp] at ih
        cases more with
        | nil => simpa [List.intercalate_singleton] using ih
        | cons next more =>
          rw [List.intercalate_cons_cons] at ih ⊢
          simp [← ih]

/-- No piece holds the separator. -/
theorem notMem_of_mem_pieces {sep : Char} {s piece : List Char} (h : piece ∈ pieces sep s) :
    sep ∉ piece := by
  induction s generalizing piece with
  | nil => simp_all [pieces]
  | cons c cs ih =>
    simp only [pieces] at h
    split at h
    · rcases List.mem_cons.1 h with rfl | h
      · simp
      · exact ih h
    · next hc =>
      split at h
      · rcases List.mem_singleton.1 h with rfl
        simpa using Ne.symm hc
      · next first more hp =>
        rcases List.mem_cons.1 h with rfl | h
        · have hfirst : sep ∉ first := ih (hp ▸ List.mem_cons_self)
          simpa [hfirst] using Ne.symm hc
        · exact ih (hp ▸ List.mem_cons_of_mem first h)

end ViewBundle.Text
