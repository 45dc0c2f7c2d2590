import ViewBundle.Text

/-!
# Literals of the generated module

Strings, objects and arrays as JavaScript literals.  A string literal stands on one line, and
holds no `</`, so that it can stand in a script element.
-/

namespace ViewBundle.Literal

/-- How a character is written in a string literal: quotes, backslashes, control characters and
the two line separators beyond ASCII as escapes, all others as they are. -/
def escape (c : Char) : List Char :=
  if c = '"' then ['\\', '"']
  else if c = '\\' then ['\\', '\\']
  else if c = '\n' then ['\\', 'n']
  else if c = '\r' then ['\\', 'r']
  else if c = '\t' then ['\\', 't']
  else if c = '\x08' then ['\\', 'b']
  else if c = '\x0c' then ['\\', 'f']
  else if c = '\u2028' then ['\\', 'u', '2', '0', '2', '8']
  else if c = '\u2029' then ['\\', 'u', '2', '0', '2', '9']
  else if c.toNat < 0x20 then
    '\\' :: 'u' :: Text.hexOfWidth 4 c.toNat
  else [c]

/-- The characters between the quotes of a string literal; the slash of `</` is written with a
backslash. -/
def encode : List Char → List Char
  | [] => []
  | '<' :: '/' :: cs => '<' :: '\\' :: '/' :: encode cs
  | c :: cs => escape c ++ encode cs

/-- A text as a string literal in double quotes. -/
def string (value : String) : String :=
  String.ofList ('"' :: (encode value.toList ++ ['"']))

/-- A list of texts as an array literal. -/
def array (items : List String) : String :=
  "[" ++ ", ".intercalate (items.map string) ++ "]"

/-- One field of an object literal. -/
def field (pair : String × String) : String :=
  string pair.1 ++ ": " ++ string pair.2

/-- Keys and values as an object literal. -/
def object (pairs : List (String × String)) : String :=
  "\x7b" ++ ", ".intercalate (pairs.map field) ++ "\x7d"

end ViewBundle.Literal
