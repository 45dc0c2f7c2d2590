import ViewBundle.Text

/-!
# Templates

A template is a list of segments: literal texts and values of the data, named by a dotted path.
In a view's source a value stands between double braces, or between triple braces if its text is
not to be escaped; an expression that begins with an exclamation mark is a comment.

A source is read from left to right; the first fault counts, and names the byte offset of a tag
that is not closed.
-/

namespace ViewBundle

/-- One part of a template. -/
inductive Segment where
  /-- Literal text. -/
  | text (text : String)
  /-- The value at a path from the current context, which is the value at the empty path. -/
  | value (path : List String) (unescaped : Bool)
  deriving DecidableEq, Repr

/-- The parts of a view's source, in order. -/
structure Template where
  segments : List Segment
  deriving DecidableEq, Repr

/-- What is wrong with a source that is no template. -/
inductive TemplateFault where
  /-- The tag that opens at this byte offset is not closed. -/
  | unclosed (offset : Nat)
  /-- An expression is neither a path nor a comment. -/
  | invalidPath (expression : String)
  deriving DecidableEq, Repr

/-- The wording of a fault. -/
def TemplateFault.message : TemplateFault → String
  | unclosed offset => "unclosed `\x7b\x7b` at byte " ++ Nat.repr offset
  | invalidPath expression => "invalid path expression `" ++ expression ++ "`"

namespace Template

/-- The number of bytes that a text takes in UTF-8. -/
def byteLength (s : List Char) : Nat :=
  s.foldl (fun n c => n + c.utf8Size) 0

/-- Whether a character can begin an identifier. -/
def isIdentifierStart (c : Char) : Bool :=
  c.isAlpha || c == '_' || c == '$'

/-- Whether a character can stand in an identifier. -/
def isIdentifierRest (c : Char) : Bool :=
  c.isAlphanum || c == '_' || c == '$'

/-- Whether a text is an identifier of ASCII letters, digits, `_` and `$`. -/
def isIdentifier : List Char → Bool
  | [] => false
  | c :: cs => isIdentifierStart c && cs.all isIdentifierRest

/-- The path that a trimmed expression names: `this` is the empty path, all others are
identifiers with dots between them. -/
def path? (expression : List Char) : Option (List String) :=
  if expression = "this".toList then some []
  else
    let names := Text.pieces '.' expression
    if names.all isIdentifier then some (names.map String.ofList) else none

/-- What opens a tag. -/
def opener : List Char := ['\x7b', '\x7b']

/-- What closes a tag. -/
def closer (unescaped : Bool) : List Char :=
  if unescaped then ['\x7d', '\x7d', '\x7d'] else ['\x7d', '\x7d']

/-- The text behind the opening braces of a tag, and whether there are three of them. -/
def behindOpener : List Char → Bool × List Char
  | '\x7b' :: more => (true, more)
  | more => (false, more)

/-- Text put before segments: empty text is no segment, and texts that meet become one. -/
def addText (text : List Char) : List Segment → List Segment
  | .text more :: later => .text (String.ofList text ++ more) :: later
  | later => if text = [] then later else .text (String.ofList text) :: later

/-- The segments that a tag's expression stands for: none for a comment, or one value. -/
def expressionSegments (expression : List Char) (unescaped : Bool) :
    Except TemplateFault (List Segment) :=
  if (Text.trimStart expression).head? = some '!' then .ok []
  else match path? (Text.trim expression) with
    | some path => .ok [.value path unescaped]
    | none => .error (.invalidPath (String.ofList (Text.trim expression)))

theorem length_behindOpener_le (s : List Char) : (behindOpener s).2.length ≤ s.length := by
  unfold behindOpener
  split <;> simp

/-- The segments of a source whose first character stands at a byte offset. -/
def readFrom (offset : Nat) (s : List Char) : Except TemplateFault (List Segment) :=
  match _hopen : Text.cut? opener s with
  | none => .ok (addText s [])
  | some (before, tag) =>
    match _hclose : Text.cut? (closer (behindOpener tag).1) (behindOpener tag).2 with
    | none => .error (.unclosed (offset + byteLength before))
    | some (expression, rest) => do
      let segments ← expressionSegments expression (behindOpener tag).1
      let later ← readFrom (offset + byteLength s - byteLength rest) rest
      return addText before (segments ++ later)
termination_by s.length
decreasing_by
  have hs := congrArg List.length (Text.eq_append_of_cut? _hopen)
  have hin := congrArg List.length (Text.eq_append_of_cut? _hclose)
  have hle := length_behindOpener_le tag
  simp only [List.length_append, opener, List.length_cons, List.length_nil] at hs hin
  omega

/-- The template that a source is written for. -/
def parse (source : String) : Except TemplateFault Template :=
  (readFrom 0 source.toList).map Template.mk

end Template

end ViewBundle
