import ViewBundle.Proofs.Sealed

/-!
# String literals as a script reads them

A script reads the text between two double quotes as 16-bit code units, one or two for each
character.  A backslash stands for a character together with what follows it: a letter, a code of
two or four hexadecimal digits or of any number of them between braces, or nothing at all if the
line ends there.  The literals that are written for texts are read to their end as the code units of
these texts, which no other texts have (`units_injective`); they can be put into a script element,
and hold no quote that would end them early.  Main statement: `Literal.string_inlines`.
-/

namespace ViewBundle

namespace Script

open Text (Reader Reads Refines)

/-! ## Code units -/

/-- The code units of a code point: one if it has 16 bits, or else a pair of surrogates. -/
def unitsOf (code : Nat) : List UInt16 :=
  if code < 0x10000 then [UInt16.ofNat code]
  else [UInt16.ofNat (0xd800 + (code - 0x10000) / 0x400),
    UInt16.ofNat (0xdc00 + (code - 0x10000) % 0x400)]

/-- The code units of a text. -/
def units (s : List Char) : List UInt16 :=
  s.flatMap fun c => unitsOf c.toNat

theorem eq_of_ofNat_eq {m n : Nat} (hm : m < 0x10000) (hn : n < 0x10000)
    (h : UInt16.ofNat m = UInt16.ofNat n) : m = n := by
  have hvalues := congrArg UInt16.toNat h
  simpa [Nat.mod_eq_of_lt hm, Nat.mod_eq_of_lt hn] using hvalues

/-- The code units of a character tell the character, and where they end. -/
theorem unitsOf_append_inj {c d : Char} {u v : List UInt16}
    (h : unitsOf c.toNat ++ u = unitsOf d.toNat ++ v) : c = d ∧ u = v := by
  have hc : c.toNat < 0xd800 ∨ 0xdfff < c.toNat ∧ c.toNat < 0x110000 := c.valid
  have hd : d.toNat < 0xd800 ∨ 0xdfff < d.toNat ∧ d.toNat < 0x110000 := d.valid
  rw [← Char.toNat_inj]
  unfold unitsOf at h
  -- No character has the code of a surrogate, so one unit is never taken for the first of two.
  split at h <;> split at h
  · obtain ⟨hunit, hrest⟩ := List.cons.inj h
    exact ⟨eq_of_ofNat_eq (by omega) (by omega) hunit, hrest⟩
  · obtain ⟨hunit, -⟩ := List.cons.inj h
    have hcode := eq_of_ofNat_eq (by omega) (by omega) hunit
    omega
  · obtain ⟨hunit, -⟩ := List.cons.inj h
    have hcode := eq_of_ofNat_eq (by omega) (by omega) hunit
    omega
  · obtain ⟨hhigh, hmore⟩ := List.cons.inj h
    obtain ⟨hlow, hrest⟩ := List.cons.inj hmore
    have hquotient := eq_of_ofNat_eq (by omega) (by omega) hhigh
    have hremainder := eq_of_ofNat_eq (by omega) (by omega) hlow
    exact ⟨by omega, hrest⟩

theorem unitsOf_ne_nil (code : Nat) : unitsOf code ≠ [] := by
  unfold unitsOf
  split <;> simp

/-- Different texts have different code units. -/
theorem units_injective {s t : List Char} (h : units s = units t) : s = t := by
  induction s generalizing t with
  | nil =>
    cases t with
    | nil => rfl
    | cons d ds => simp [units, unitsOf_ne_nil] at h
  | cons c cs ih =>
    cases t with
    | nil => simp [units, unitsOf_ne_nil] at h
    | cons d ds =>
      obtain ⟨rfl, hrest⟩ := unitsOf_append_inj h
      rw [ih hrest]

/-! ## Reading a literal -/

/-- The code point in the first `width` characters of a text, which have to be hexadecimal
digits. -/
def codeOfWidth? (width : Nat) (s : List Char) : Option (List UInt16 × List Char) := do
  let digits ← (s.take width).mapM Document.digitValue?
  let code := digits.foldl (fun n digit => 16 * n + digit) 0
  if digits.length = width then some (unitsOf code, s.drop width) else none

/-- The code point in the hexadecimal digits up to a closing brace. -/
def codeInBraces? (s : List Char) : Option (List UInt16 × List Char) := do
  let (digits, rest) ← Text.cut? ['\x7d'] s
  let values ← digits.mapM Document.digitValue?
  let code := values.foldl (fun n digit => 16 * n + digit) 0
  if digits ≠ [] ∧ code ≤ 0x10ffff then some (unitsOf code, rest) else none

/-- What follows the end of a line, which is one character, or a carriage return and a line feed. -/
def behindLineEnd? : List Char → Option (List Char)
  | '\r' :: '\n' :: rest => some rest
  | c :: rest => if c ∈ ['\n', '\r', '\u2028', '\u2029'] then some rest else none
  | [] => none

/-- The code units that an escape stands for, read behind its backslash.  No digits stand for a
code, but a zero with no other digit behind it does. -/
def escape? : List Char → Option (List UInt16 × List Char)
  | [] => none
  | c :: cs =>
    if c = 'x' then codeOfWidth? 2 cs
    else if c = 'u' then
      if cs.head? = some '\x7b' then codeInBraces? cs.tail else codeOfWidth? 4 cs
    else if c = '0' then
      if cs.head?.any Char.isDigit then none else some (unitsOf 0, cs)
    else match Literal.letter? c with
      | some d => some (unitsOf d.toNat, cs)
      | none => (behindLineEnd? (c :: cs)).map fun rest => ([], rest)

theorem length_of_codeOfWidth? {width : Nat} {s rest : List Char} {code : List UInt16}
    (h : codeOfWidth? width s = some (code, rest)) : rest.length ≤ s.length := by
  obtain ⟨digits, -, hdigits⟩ := Option.bind_eq_some_iff.1 h
  dsimp only at hdigits
  split at hdigits
  · rw [← (Prod.mk.inj (Option.some.inj hdigits)).2, List.length_drop]
    exact Nat.sub_le _ _
  · contradiction

theorem length_of_codeInBraces? {s rest : List Char} {code : List UInt16}
    (h : codeInBraces? s = some (code, rest)) : rest.length ≤ s.length := by
  obtain ⟨⟨digits, behind⟩, hcut, hmore⟩ := Option.bind_eq_some_iff.1 h
  obtain ⟨values, -, hvalues⟩ := Option.bind_eq_some_iff.1 hmore
  dsimp only at hvalues
  split at hvalues
  · rw [Text.eq_append_of_cut? hcut, ← (Prod.mk.inj (Option.some.inj hvalues)).2]
    simp only [List.length_append, List.length_singleton]
    omega
  · contradiction

theorem length_of_behindLineEnd? {s rest : List Char} (h : behindLineEnd? s = some rest) :
    rest.length < s.length := by
  unfold behindLineEnd? at h
  split at h
  · obtain rfl := Option.some.inj h
    simp only [List.length_cons]
    omega
  · split at h
    · obtain rfl := Option.some.inj h
      exact Nat.lt_succ_self _
    · contradiction
  · contradiction

theorem length_of_escape? {s rest : List Char} {code : List UInt16}
    (h : escape? s = some (code, rest)) : rest.length ≤ s.length := by
  cases s with
  | nil => contradiction
  | cons c cs =>
    rw [List.length_cons]
    rw [escape?] at h
    split at h
    · exact Nat.le_succ_of_le (length_of_codeOfWidth? h)
    split at h
    · split at h
      · have hle := length_of_codeInBraces? h
        rw [List.length_tail] at hle
        omega
      · exact Nat.le_succ_of_le (length_of_codeOfWidth? h)
    split at h
    · split at h
      · contradiction
      · rw [← (Prod.mk.inj (Option.some.inj h)).2]
        exact Nat.le_succ _
    split at h
    · rw [← (Prod.mk.inj (Option.some.inj h)).2]
      exact Nat.le_succ _
    · obtain ⟨behind, hbehind, hrest⟩ := Option.map_eq_some_iff.1 h
      rw [← (Prod.mk.inj hrest).2]
      exact Nat.le_of_lt (length_of_behindLineEnd? hbehind)

/-- The code units of a string literal, read behind the quote that opens it. -/
def body? (s : List Char) : Option (List UInt16 × List Char) :=
  match s with
  | [] => none
  | c :: cs =>
    if c = '"' then some ([], cs)
    else if c = '\\' then
      match _h : escape? cs with
      | none => none
      | some (code, rest) => (body? rest).map fun (value, rest) => (code ++ value, rest)
    else if c = '\n' || c = '\r' then none
    else (body? cs).map fun (value, rest) => (unitsOf c.toNat ++ value, rest)
termination_by s.length
decreasing_by
  · have hle := length_of_escape? _h
    simp only [List.length_cons]
    omega
  · simp

/-- Reads a string literal in double quotes. -/
def stringReader : Reader (List UInt16) := do
  Reader.mark "\""
  (body? : Reader (List UInt16))

/-- Reads an array literal of string literals. -/
def arrayReader : Reader (List (List UInt16)) := do
  Reader.mark "["
  Reader.listTo ']' stringReader

/-! ## What is read as text is read as its code units -/

theorem codeOfWidth?_of_codePoint? {width : Nat} {s rest : List Char} {c : Char}
    (h : Document.codePoint? width s = some (c, rest)) :
    codeOfWidth? width s = some (unitsOf c.toNat, rest) := by
  obtain ⟨digits, hdigits, hmore⟩ := Option.bind_eq_some_iff.1 h
  dsimp only at hmore
  split at hmore
  · next hcode =>
    obtain ⟨rfl, rfl⟩ := Prod.mk.inj (Option.some.inj hmore)
    rw [Char.ofNat, dif_pos hcode.2]
    exact Option.bind_eq_some_iff.2 ⟨digits, hdigits, if_pos hcode.1⟩
  · contradiction

/-- A brace is no digit, so it does not begin a code of a fixed width. -/
theorem head?_ne_of_codePoint? {width : Nat} {s rest : List Char} {c : Char}
    (h : Document.codePoint? (width + 1) s = some (c, rest)) : s.head? ≠ some '\x7b' := by
  intro hhead
  obtain ⟨more, rfl⟩ := List.head?_eq_some_iff.1 hhead
  simp [Document.codePoint?, Document.digitValue?] at h

theorem escape?_of_escaped? {s rest : List Char} {c : Char}
    (h : Literal.escaped? s = some (c, rest)) : escape? s = some (unitsOf c.toNat, rest) := by
  cases s with
  | nil => contradiction
  | cons d ds =>
    rw [Literal.escaped?] at h
    rw [escape?]
    split at h
    · next hx =>
      rw [if_pos hx]
      exact codeOfWidth?_of_codePoint? h
    · next hx =>
      rw [if_neg hx]
      split at h
      · next hu =>
        rw [if_pos hu, if_neg (head?_ne_of_codePoint? h)]
        exact codeOfWidth?_of_codePoint? h
      · next hu =>
        obtain ⟨e, hletter, hrest⟩ := Option.map_eq_some_iff.1 h
        obtain ⟨rfl, rfl⟩ := Prod.mk.inj hrest
        -- A zero has a case of its own here, but there it is a digit, and so no letter.
        have hzero : d ≠ '0' := by
          rintro rfl
          contradiction
        rw [if_neg hu, if_neg hzero, hletter]

theorem body?_backslash {s rest : List Char} {code : List UInt16}
    (h : escape? s = some (code, rest)) :
    body? ('\\' :: s) = (body? rest).map fun (value, rest) => (code ++ value, rest) := by
  rw [body?, if_neg (by decide), if_pos rfl]
  split
  · next hnone => simp [h] at hnone
  · next other more hsome =>
    rw [h] at hsome
    obtain ⟨rfl, rfl⟩ := Prod.mk.inj (Option.some.inj hsome)
    rfl

theorem body?_of_body? {s text rest : List Char} (h : Literal.body? s = some (text, rest)) :
    body? s = some (units text, rest) := by
  -- The cases are those of the reader of texts; it refuses more than the script's reader does.
  fun_induction Literal.body? s generalizing text rest with
  | case1 => contradiction
  | case2 cs =>
    obtain ⟨rfl, rfl⟩ := Prod.mk.inj (Option.some.inj h)
    rw [body?, if_pos rfl]
    rfl
  | case3 => contradiction
  | case4 cs d more hescaped _ ih =>
    obtain ⟨⟨following, behind⟩, hmore, hresult⟩ := Option.map_eq_some_iff.1 h
    obtain ⟨rfl, rfl⟩ := Prod.mk.inj hresult
    rw [body?_backslash (escape?_of_escaped? hescaped), ih hmore]
    rfl
  | case5 => contradiction
  | case6 c cs hquote hbackslash hend ih =>
    obtain ⟨⟨following, behind⟩, hmore, hresult⟩ := Option.map_eq_some_iff.1 h
    obtain ⟨rfl, rfl⟩ := Prod.mk.inj hresult
    rw [body?, if_neg hquote, if_neg hbackslash, if_neg hend, ih hmore]
    rfl

theorem refines_string :
    Refines Literal.reader stringReader fun value => units value.toList := by
  have hbody : Refines
      (do let text ← (Literal.body? : Reader (List Char)); return String.ofList text)
      (body? : Reader (List UInt16)) fun value => units value.toList := by
    constructor
    intro s value rest hrun
    obtain ⟨⟨text, behind⟩, hread, hvalue⟩ := Option.bind_eq_some_iff.1 hrun
    obtain ⟨rfl, rfl⟩ := Prod.mk.inj (Option.some.inj hvalue)
    rw [String.toList_ofList]
    exact body?_of_body? hread
  exact (Refines.refl (Reader.mark "\"")).bind fun _ => hbody

theorem refines_array :
    Refines Literal.arrayReader arrayReader (List.map fun value => units value.toList) :=
  (Refines.refl (Reader.mark "[")).bind fun _ => refines_string.listTo ']'

/-! ## What is written -/

/-- A text that can be put into a script element, on one line. -/
structure IsInline (s : List Char) : Prop where
  isPrintable_of_mem : ∀ c ∈ s, Literal.isPrintable c = true
  not_isInfix : ¬['<', '/'] <:+: s

/-- A text in which a double quote only stands behind a backslash that takes it out of its usual
meaning, and which ends in no such backslash. -/
inductive EscapesQuotes : List Char → Prop
  | nil : EscapesQuotes []
  | escaped (c : Char) {s : List Char} (h : EscapesQuotes s) : EscapesQuotes ('\\' :: c :: s)
  | plain {c : Char} {s : List Char} (hquote : c ≠ '"') (hbackslash : c ≠ '\\')
    (h : EscapesQuotes s) : EscapesQuotes (c :: s)

theorem EscapesQuotes.append {s t : List Char} (hs : EscapesQuotes s) (ht : EscapesQuotes t) :
    EscapesQuotes (s ++ t) := by
  induction hs with
  | nil => exact ht
  | escaped c _ ih => exact .escaped c ih
  | plain hquote hbackslash _ ih => exact .plain hquote hbackslash ih

theorem EscapesQuotes.of_forall {s : List Char} (h : ∀ c ∈ s, c ≠ '"' ∧ c ≠ '\\') :
    EscapesQuotes s := by
  induction s with
  | nil => exact .nil
  | cons c cs ih =>
    obtain ⟨⟨hquote, hbackslash⟩, hmore⟩ := List.forall_mem_cons.1 h
    exact .plain hquote hbackslash (ih hmore)

end Script

namespace Literal

open Script (EscapesQuotes IsInline stringReader units units_injective)

/-! ## What is written can be put into a script element -/

theorem isInline_string (value : String) : IsInline (string value).toList :=
  ⟨isPrintable_of_mem_string value, (sealed_string value).not_isInfix⟩

theorem isInline_array (items : List String) : IsInline (array items).toList :=
  ⟨isPrintable_of_mem_array items, (sealed_array items).not_isInfix⟩

/-! ## No quote ends a literal early -/

theorem escapesQuotes_escape (c : Char) : EscapesQuotes (escape c) := by
  rcases escape_cases c with ⟨code, hcode, hescape⟩ | ⟨-, hescape⟩ | ⟨hplain, -, hnone⟩
  · -- Each escape is a backslash, the character that it goes with, and digits.
    have hall : codes.all (fun pair => pair.2 ≠ [] ∧ pair.2.tail.all Char.isDigit) = true := by
      decide
    obtain ⟨hne, hdigits⟩ := of_decide_eq_true (List.all_eq_true.1 hall _ hcode)
    obtain ⟨d, digits, rfl⟩ := List.exists_cons_of_ne_nil hne
    rw [hescape]
    refine .escaped d (.of_forall fun digit hdigit => ?_)
    have hisDigit : digit.isDigit = true := List.all_eq_true.1 hdigits digit hdigit
    constructor <;> rintro rfl <;> contradiction
  · rw [hescape]
    exact .escaped 'u' (.of_forall (Text.forall_mem_hexOfWidth (by decide) 4 _))
  · rw [hplain]
    refine .plain ?_ ?_ .nil
    · rintro rfl
      exact hnone (by decide)
    · rintro rfl
      exact hnone (by decide)

theorem escapesQuotes_encode (s : List Char) : EscapesQuotes (encode s) := by
  fun_induction encode s with
  | case1 => exact .nil
  | case2 cs ih => exact .plain (by decide) (by decide) (.escaped '/' ih)
  | case3 c cs _ ih => exact (escapesQuotes_escape c).append ih

/-! ## Reading what is written -/

theorem value?_string (value : String) :
    stringReader.value? (string value).toList = some (units value.toList) :=
  (Script.refines_string.reads (reads_string value)).value?

theorem value?_array (items : List String) :
    Script.arrayReader.value? (array items).toList =
      some (items.map fun item => units item.toList) :=
  (Script.refines_array.reads (reads_array items)).value?

theorem units_toList_injective : Function.Injective fun value : String => units value.toList :=
  fun _ _ h => String.toList_injective (units_injective h)

/-- A literal is read to its end as the text that it was written for, and as no other text.  It can
stand on a line of a script element, and no quote inside ends it early.  A list is written as the
literals of its items between brackets, in order, and is read in the same way. -/
theorem string_inlines (value : String) (items : List String) :
    ((∀ other : String,
        stringReader.value? (string value).toList = some (units other.toList) ↔ other = value) ∧
      IsInline (string value).toList ∧
      ∃ inner, (string value).toList = '"' :: (inner ++ ['"']) ∧ EscapesQuotes inner) ∧
    ((∀ others : List String,
        Script.arrayReader.value? (array items).toList =
          some (others.map fun item => units item.toList) ↔ others = items) ∧
      IsInline (array items).toList ∧
      (array items).toList =
        '[' :: (", ".toList.intercalate (items.map fun item => (string item).toList) ++
          [']'])) := by
  refine ⟨⟨fun other => ?_, isInline_string value, ?_⟩, fun others => ?_, isInline_array items,
    toList_array items⟩
  · rw [value?_string, Option.some_inj, eq_comm]
    exact units_toList_injective.eq_iff
  · exact ⟨encode value.toList, toList_string value, escapesQuotes_encode value.toList⟩
  · rw [value?_array, Option.some_inj, eq_comm]
    exact (List.map_injective_iff.2 units_toList_injective).eq_iff

end Literal

end ViewBundle
