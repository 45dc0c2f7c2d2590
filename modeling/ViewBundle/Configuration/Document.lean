import ViewBundle.Configuration.DateTime

/-!
# Documents of settings

The part of TOML in which settings are written: texts in all four notations, the two truth values,
dates and times, arrays of texts, inline tables of texts, dotted keys and table headers.  A document
that uses any other kind of value cannot hold valid settings, so such a document is not read at all.
-/

namespace ViewBundle.Document

/-- A value that a setting can have. -/
inductive Value where
  | text (value : String)
  | flag (value : Bool)
  | dateTime (value : DateTime)
  | texts (values : List String)
  | table (entries : List (String × String))
  deriving DecidableEq, Repr

/-- A statement of a document. -/
inductive Line where
  /-- The header of a table. -/
  | header (keys : List String)
  /-- A value given to a key, whose parts are joined by dots. -/
  | assign (keys : List String) (value : Value)
  deriving DecidableEq, Repr

/-! ## Characters -/

/-- Whether a character is a blank within a line. -/
def isSpace (c : Char) : Bool :=
  c == ' ' || c == '\t'

/-- Whether a character can stand in a text or a comment: no control character but the tab. -/
def isPlain (c : Char) : Bool :=
  c == '\t' || (0x20 ≤ c.toNat && c.toNat != 0x7f)

/-- Whether a character can stand in a key without quotes. -/
def isKeyChar (c : Char) : Bool :=
  c.isAlphanum || c == '_' || c == '-'

/-- Whether a text begins with a line end. -/
def startsLine : List Char → Bool
  | '\n' :: _ => true
  | '\r' :: '\n' :: _ => true
  | _ => false

/-- A text without the line end that it begins with. -/
def dropLineEnd : List Char → List Char
  | '\n' :: rest => rest
  | '\r' :: '\n' :: rest => rest
  | s => s

/-- A text without the blanks that it begins with. -/
def dropSpaces (s : List Char) : List Char :=
  s.dropWhile isSpace

/-- A text without the blanks, line ends and comments that it begins with; `inComment` tells
whether a comment has begun. -/
def dropTrivia (inComment : Bool) : List Char → List Char
  | [] => []
  | c :: cs =>
    if c = '\n' || (c = '\r' && cs.head? = some '\n') then
      dropTrivia (inComment && c = '\r') cs
    else if inComment then
      if isPlain c then dropTrivia true cs else c :: cs
    else if isSpace c then dropTrivia false cs
    else if c = '#' then dropTrivia true cs
    else c :: cs

/-! ## Texts -/

/-- The value of a hexadecimal digit. -/
def digitValue? (c : Char) : Option Nat :=
  if '0' ≤ c && c ≤ '9' then some (c.toNat - 48)
  else if 'a' ≤ c && c ≤ 'f' then some (c.toNat - 87)
  else if 'A' ≤ c && c ≤ 'F' then some (c.toNat - 55)
  else none

/-- The character whose code is written in the first `width` hexadecimal digits. -/
def codePoint? (width : Nat) (s : List Char) : Option (Char × List Char) := do
  let digits ← (s.take width).mapM digitValue?
  let code := digits.foldl (fun n digit => 16 * n + digit) 0
  if digits.length = width ∧ code.isValidChar then some (Char.ofNat code, s.drop width) else none

/-- The character that an escape of one letter stands for. -/
def letterEscape? : Char → Option Char
  | 'b' => some '\x08'
  | 't' => some '\t'
  | 'n' => some '\n'
  | 'f' => some '\x0c'
  | 'r' => some '\r'
  | 'e' => some '\x1b'
  | '"' => some '"'
  | '\\' => some '\\'
  | _ => none

/-- The number of digits behind the letter of an escape that names a code. -/
def escapeWidth? : Char → Option Nat
  | 'x' => some 2
  | 'u' => some 4
  | 'U' => some 8
  | _ => none

/-- The character that an escape stands for, read behind its backslash. -/
def escape? : List Char → Option (Char × List Char)
  | [] => none
  | c :: cs =>
    match escapeWidth? c with
    | some width => codePoint? width cs
    | none => (letterEscape? c).map fun d => (d, cs)

theorem length_of_codePoint? {width : Nat} {s rest : List Char} {c : Char}
    (h : codePoint? width s = some (c, rest)) : rest.length ≤ s.length := by
  simp only [codePoint?, Option.bind_eq_bind, Option.bind_eq_some_iff] at h
  obtain ⟨digits, _, h⟩ := h
  split at h
  · have hrest := (Prod.mk.inj (Option.some.inj h)).2
    simp [← hrest]
  · contradiction

theorem length_of_escape? {s rest : List Char} {c : Char} (h : escape? s = some (c, rest)) :
    rest.length ≤ s.length := by
  cases s with
  | nil => simp [escape?] at h
  | cons d ds =>
    simp only [escape?] at h
    rw [List.length_cons]
    split at h
    · exact Nat.le_succ_of_le (length_of_codePoint? h)
    · obtain ⟨_, _, h⟩ := Option.map_eq_some_iff.1 h
      rw [← (Prod.mk.inj h).2]
      exact Nat.le_succ _

/-- A text on one line, read behind the quote that opens it. -/
def lineText? (quote : Char) (s : List Char) : Option (List Char × List Char) :=
  match s with
  | [] => none
  | c :: cs =>
    if c = quote then some ([], cs)
    else if c = '\\' && quote = '"' then
      match _h : escape? cs with
      | none => none
      | some (d, rest) => (lineText? quote rest).map fun (text, rest) => (d :: text, rest)
    else if isPlain c then (lineText? quote cs).map fun (text, rest) => (c :: text, rest)
    else none
termination_by s.length
decreasing_by
  · have hle := length_of_escape? _h
    simp only [List.length_cons]
    omega
  · simp

/-- The number of quotes at the start of a text, up to two. -/
def extraQuotes (quote : Char) (s : List Char) : Nat :=
  ((s.take 2).takeWhile (· == quote)).length

/-- A text over several lines, read behind the quotes and the line end that open it; `folding`
tells whether blanks and line ends are being left out behind a backslash at a line end. -/
def longText? (quote : Char) (folding : Bool) (s : List Char) : Option (List Char × List Char) :=
  match s with
  | [] => none
  | c :: cs =>
    if folding && (isSpace c || startsLine (c :: cs)) then longText? quote true cs
    else if c = quote && [quote, quote].isPrefixOf cs then
      let rest := cs.drop 2
      let extra := extraQuotes quote rest
      some (List.replicate extra quote, rest.drop extra)
    else if c = '\\' && quote = '"' then
      if startsLine (dropSpaces cs) then longText? quote true cs
      else match _h : escape? cs with
        | none => none
        | some (d, rest) =>
          (longText? quote false rest).map fun (text, rest) => (d :: text, rest)
    else if isPlain c || startsLine (c :: cs) then
      (longText? quote false cs).map fun (text, rest) => (c :: text, rest)
    else none
termination_by s.length
decreasing_by
  · simp
  · simp
  · have hle := length_of_escape? _h
    simp only [List.length_cons]
    omega
  · simp

/-- A text in any notation. -/
def text? : List Char → Option (String × List Char)
  | '"' :: '"' :: '"' :: more => ofChars (longText? '"' false (dropLineEnd more))
  | '\'' :: '\'' :: '\'' :: more => ofChars (longText? '\'' false (dropLineEnd more))
  | '"' :: more => ofChars (lineText? '"' more)
  | '\'' :: more => ofChars (lineText? '\'' more)
  | _ => none
where
  /-- The characters of a text put together. -/
  ofChars (read : Option (List Char × List Char)) : Option (String × List Char) :=
    read.map fun (text, rest) => (String.ofList text, rest)

/-! ## Keys and values -/

/-- A part of a key, with or without quotes. -/
def keyPart? : List Char → Option (String × List Char)
  | '"' :: more => text?.ofChars (lineText? '"' more)
  | '\'' :: more => text?.ofChars (lineText? '\'' more)
  | s =>
    match s.takeWhile isKeyChar with
    | [] => none
    | name => some (String.ofList name, s.dropWhile isKeyChar)

/-- The parts of a key, at most `limit` of them, and the blanks behind them. -/
def keys? : (limit : Nat) → List Char → Option (List String × List Char)
  | 0, _ => none
  | limit + 1, s => do
    let (part, rest) ← keyPart? s
    match dropSpaces rest with
    | '.' :: more => (keys? limit (dropSpaces more)).map fun (parts, rest) => (part :: parts, rest)
    | rest => some ([part], rest)

/-- What follows the equals sign at the start of a text, and what can be skipped on either side of
that sign. -/
def behindEquals? (skip : List Char → List Char) (s : List Char) : Option (List Char) :=
  match skip s with
  | '=' :: more => some (skip more)
  | _ => none

/-- The items of a list up to the bracket that closes it, at most `limit` of them; the last one may
be followed by a comma. -/
def items? {α : Type} (item? : List Char → Option (α × List Char)) (close : Char) :
    (limit : Nat) → List Char → Option (List α × List Char)
  | 0, _ => none
  | limit + 1, s =>
    match dropTrivia false s with
    | [] => none
    | c :: cs =>
      if c = close then some ([], cs)
      else do
        let (item, rest) ← item? (c :: cs)
        match dropTrivia false rest with
        | [] => none
        | d :: more =>
          if d = close then some ([item], more)
          else if d = ',' then
            (items? item? close limit more).map fun (items, rest) => (item :: items, rest)
          else none

/-- An entry of an inline table: a key of one part and a text.  Line ends and comments can stand on
either side of the equals sign. -/
def entry? (s : List Char) : Option ((String × String) × List Char) := do
  let (key, rest) ← keyPart? s
  let rest ← behindEquals? (dropTrivia false) rest
  let (value, rest) ← text? rest
  some ((key, value), rest)

/-- A value. -/
def value? : List Char → Option (Value × List Char)
  | 't' :: 'r' :: 'u' :: 'e' :: rest => some (.flag true, rest)
  | 'f' :: 'a' :: 'l' :: 's' :: 'e' :: rest => some (.flag false, rest)
  | '[' :: more =>
    (items? text? ']' more.length more).map fun (items, rest) => (.texts items, rest)
  | '\x7b' :: more =>
    (items? entry? '\x7d' more.length more).map fun (items, rest) => (.table items, rest)
  | s =>
    ((text? s).map fun (text, rest) => (Value.text text, rest)).or
      ((DateTime.read? s).map fun (moment, rest) => (Value.dateTime moment, rest))

/-! ## Statements -/

/-- What follows a line of which only blanks and a comment are left. -/
def lineEnd? (s : List Char) : Option (List Char) :=
  let rest :=
    match dropSpaces s with
    | '#' :: more => more.dropWhile isPlain
    | s => s
  if rest.isEmpty || startsLine rest then some (dropLineEnd rest) else none

/-- A statement, read from its first character on. -/
def line? : List Char → Option (Line × List Char)
  | '[' :: more => do
    let (keys, rest) ← keys? more.length (dropSpaces more)
    match rest with
    | ']' :: rest => some (.header keys, rest)
    | _ => none
  | s => do
    let (keys, rest) ← keys? s.length s
    let rest ← behindEquals? dropSpaces rest
    let (value, rest) ← value? rest
    some (.assign keys value, rest)

/-- The statements of a text, which has at most `limit` lines. -/
def lines? : (limit : Nat) → List Char → Option (List Line)
  | 0, s => if s.isEmpty then some [] else none
  | limit + 1, s =>
    match dropSpaces s with
    | [] => some []
    | c :: cs =>
      if c = '#' || startsLine (c :: cs) then (lineEnd? (c :: cs)).bind (lines? limit)
      else do
        let (line, rest) ← line? (c :: cs)
        let rest ← lineEnd? rest
        return line :: (← lines? limit rest)

/-- The statements of a document, which may begin with a byte order mark. -/
def read (text : String) : Option (List Line) :=
  let s :=
    match text.toList with
    | '\ufeff' :: rest => rest
    | s => s
  lines? (s.length + 1) s

end ViewBundle.Document
