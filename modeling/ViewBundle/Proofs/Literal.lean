import ViewBundle.Literal
import ViewBundle.Proofs.Digits
import ViewBundle.Proofs.Reading

/-!
# Reading literals back

A string literal in double quotes is read as the language of the generated module reads it: a
backslash takes the following character out of its usual meaning, and a line must not end inside.
Main statements: a literal is read back as the text that it was written for (`reads_string`), lists
and objects of literals as the texts in them (`reads_array`, `reads_object`), and a literal stands
on one line (`newline_notMem_string`).
-/

namespace ViewBundle.Literal

open Text (Reader Reads Refuses reads_mark refuses_mark)

/-! ## String literals -/

/-- The character that a letter behind a backslash stands for.  Digits begin escapes of other
kinds, and line ends would be left out of the text. -/
def letter? (c : Char) : Option Char :=
  if c = 'n' then some '\n'
  else if c = 'r' then some '\r'
  else if c = 't' then some '\t'
  else if c = 'b' then some '\x08'
  else if c = 'f' then some '\x0c'
  else if c = 'v' then some '\x0b'
  else if c.isDigit || c ∈ ['\n', '\r', '\u2028', '\u2029'] then none
  else some c

/-- The character that an escape stands for, read behind its backslash. -/
def escaped? : List Char → Option (Char × List Char)
  | [] => none
  | c :: cs =>
    if c = 'x' then Document.codePoint? 2 cs
    else if c = 'u' then Document.codePoint? 4 cs
    else (letter? c).map fun d => (d, cs)

theorem length_of_escaped? {s rest : List Char} {c : Char} (h : escaped? s = some (c, rest)) :
    rest.length ≤ s.length := by
  cases s with
  | nil => simp [escaped?] at h
  | cons d ds =>
    rw [escaped?] at h
    rw [List.length_cons]
    split at h
    · exact Nat.le_succ_of_le (Document.length_of_codePoint? h)
    · split at h
      · exact Nat.le_succ_of_le (Document.length_of_codePoint? h)
      · obtain ⟨_, _, h⟩ := Option.map_eq_some_iff.1 h
        rw [← (Prod.mk.inj h).2]
        exact Nat.le_succ _

/-- The text of a string literal, read behind the quote that opens it. -/
def body? (s : List Char) : Option (List Char × List Char) :=
  match s with
  | [] => none
  | c :: cs =>
    if c = '"' then some ([], cs)
    else if c = '\\' then
      match _h : escaped? cs with
      | none => none
      | some (d, rest) => (body? rest).map fun (text, rest) => (d :: text, rest)
    else if c = '\n' || c = '\r' then none
    else (body? cs).map fun (text, rest) => (c :: text, rest)
termination_by s.length
decreasing_by
  · have hle := length_of_escaped? _h
    simp only [List.length_cons]
    omega
  · simp

/-- Reads a string literal. -/
def reader : Reader String := do
  Reader.mark "\""
  let text ← (body? : Reader (List Char))
  return String.ofList text

/-! ## What is written is read -/

/-- The characters that have escapes of their own, with what stands behind the backslash. -/
def codes : List (Char × List Char) :=
  [('"', ['"']), ('\\', ['\\']), ('\n', ['n']), ('\r', ['r']), ('\t', ['t']), ('\x08', ['b']),
    ('\x0c', ['f']), ('\u2028', ['u', '2', '0', '2', '8']), ('\u2029', ['u', '2', '0', '2', '9'])]

/-- A character is written as an escape of its own, as an escape by its code if it is another
control character, or as it is. -/
theorem escape_cases (c : Char) :
    (∃ code, (c, code) ∈ codes ∧ escape c = '\\' :: code) ∨
    (c.toNat < 0x20 ∧ escape c = '\\' :: 'u' :: Text.hexOfWidth 4 c.toNat) ∨
    (escape c = [c] ∧ 0x20 ≤ c.toNat ∧ c ∉ codes.map Prod.fst) := by
  by_cases hspecial : c ∈ codes.map Prod.fst
  · left
    simp only [codes, List.map_cons, List.map_nil, List.mem_cons, List.not_mem_nil, or_false]
      at hspecial
    rcases hspecial with rfl | rfl | rfl | rfl | rfl | rfl | rfl | rfl | rfl
    all_goals exact ⟨_, by simp [codes], rfl⟩
  · right
    have hnone := hspecial
    simp only [codes, List.map_cons, List.map_nil, List.mem_cons, List.not_mem_nil, or_false,
      not_or] at hnone
    obtain ⟨hquote, hbackslash, hfeed, hreturn, htab, hb, hf, hline, hparagraph⟩ := hnone
    by_cases hcontrol : c.toNat < 0x20
    · left
      refine ⟨hcontrol, ?_⟩
      simp [escape, hquote, hbackslash, hfeed, hreturn, htab, hb, hf, hline, hparagraph, hcontrol]
    · right
      refine ⟨?_, by omega, hspecial⟩
      simp [escape, hquote, hbackslash, hfeed, hreturn, htab, hb, hf, hline, hparagraph, hcontrol]

/-- A character is written as it is, or as a backslash and what stands for it behind one. -/
theorem escape_eq_singleton_or_cons (c : Char) :
    (escape c = [c] ∧ c ∉ ['"', '\\', '\n', '\r']) ∨
      ∃ code, escape c = '\\' :: code ∧
        ∀ rest, escaped? (code ++ rest) = some (c, rest) := by
  rcases escape_cases c with ⟨code, hcode, hescape⟩ | ⟨hcontrol, hescape⟩ | ⟨hplain, -, hnone⟩
  · right
    refine ⟨code, hescape, ?_⟩
    simp only [codes, List.mem_cons, Prod.mk.injEq, List.not_mem_nil, or_false] at hcode
    rcases hcode with ⟨rfl, rfl⟩ | ⟨rfl, rfl⟩ | ⟨rfl, rfl⟩ | ⟨rfl, rfl⟩ | ⟨rfl, rfl⟩ | ⟨rfl, rfl⟩ |
      ⟨rfl, rfl⟩ | ⟨rfl, rfl⟩ | ⟨rfl, rfl⟩
    all_goals exact fun rest => rfl
  · right
    refine ⟨_, hescape, fun rest => ?_⟩
    have hwidth : c.toNat < 16 ^ 4 := by omega
    have hcode := Document.codePoint?_hexOfWidth hwidth rest
    simpa [escaped?] using hcode
  · left
    refine ⟨hplain, fun hmem => hnone ?_⟩
    exact List.Sublist.mem hmem (by decide)

theorem body?_backslash {s rest : List Char} {c : Char} (h : escaped? s = some (c, rest)) :
    body? ('\\' :: s) = (body? rest).map fun (text, rest) => (c :: text, rest) := by
  rw [body?, if_neg (by decide), if_pos rfl]
  split
  · next hnone => simp [h] at hnone
  · next d more hsome =>
    rw [h] at hsome
    obtain ⟨rfl, rfl⟩ := Prod.mk.inj (Option.some.inj hsome)
    rfl

theorem body?_escape (c : Char) (s : List Char) :
    body? (escape c ++ s) = (body? s).map fun (text, rest) => (c :: text, rest) := by
  rcases escape_eq_singleton_or_cons c with ⟨hplain, hc⟩ | ⟨code, hcode, hread⟩
  · simp only [List.mem_cons, List.not_mem_nil, or_false, not_or] at hc
    obtain ⟨hquote, hbackslash, hfeed, hreturn⟩ := hc
    rw [hplain, List.singleton_append, body?]
    simp [hquote, hbackslash, hfeed, hreturn]
  · rw [hcode, List.cons_append, body?_backslash (hread s)]

/-- The text of a literal ends at the first quote that was not written for a character of it. -/
theorem body?_encode (s rest : List Char) : body? (encode s ++ '"' :: rest) = some (s, rest) := by
  fun_induction encode s with
  | case1 => simp [body?]
  | case2 cs ih =>
    -- The slash of `</` is the one character that is escaped for what stands in front of it.
    have hslash : escaped? ('/' :: (encode cs ++ '"' :: rest)) =
        some ('/', encode cs ++ '"' :: rest) := rfl
    have htail : body? ('\\' :: '/' :: (encode cs ++ '"' :: rest)) = some ('/' :: cs, rest) := by
      rw [body?_backslash hslash, ih]
      rfl
    rw [List.cons_append, List.cons_append, List.cons_append, body?, htail]
    simp
  | case3 c cs _ ih =>
    rw [List.append_assoc, body?_escape, ih]
    rfl

theorem toList_string (value : String) :
    (string value).toList = '"' :: (encode value.toList ++ ['"']) :=
  String.toList_ofList

theorem reads_string (value : String) : Reads reader (string value).toList value := by
  have hbody : Reads (body? : Reader (List Char)) (encode value.toList ++ ['"']) value.toList := by
    constructor
    intro rest
    rw [List.append_assoc]
    exact body?_encode value.toList rest
  have htext := hbody.bind_pure String.ofList
  rw [String.ofList_toList] at htext
  rw [toList_string]
  exact Reads.bind (reads_mark "\"") htext

theorem string_eq_quote_append (value : String) :
    ∃ text, (string value).toList = '"' :: text :=
  ⟨_, toList_string value⟩

/-! ## Lists and objects -/

/-- Reads an array literal of string literals. -/
def arrayReader : Reader (List String) := do
  Reader.mark "["
  Reader.listTo ']' reader

/-- Reads one field of an object literal. -/
def fieldReader : Reader (String × String) := do
  let key ← reader
  Reader.mark ": "
  let value ← reader
  return (key, value)

/-- Reads an object literal of string literals. -/
def objectReader : Reader (List (String × String)) := do
  Reader.mark "\x7b"
  Reader.listTo '\x7d' fieldReader

theorem toList_array (items : List String) :
    (array items).toList =
      '[' :: (", ".toList.intercalate (items.map fun item => (string item).toList) ++ [']']) := by
  simp [array, String.toList_intercalate, Function.comp_def]

theorem reads_array (items : List String) : Reads arrayReader (array items).toList items := by
  have hitems : Reads (Reader.listTo ']' reader)
      (", ".toList.intercalate (items.map fun item => (string item).toList) ++ [']']) items := by
    refine Text.reads_listTo (by decide) (fun item _ => reads_string item) ?_
    intro item _
    obtain ⟨text, htext⟩ := string_eq_quote_append item
    exact ⟨'"', text, htext, by decide⟩
  rw [toList_array]
  exact Reads.bind (reads_mark "[") hitems

theorem reads_field (pair : String × String) : Reads fieldReader (field pair).toList pair := by
  have hfield : (field pair).toList =
      (string pair.1).toList ++ (": ".toList ++ (string pair.2).toList) := by
    simp [field]
  rw [hfield]
  refine Reads.bind (reads_string pair.1) (Reads.bind (reads_mark ": ") ?_)
  exact (reads_string pair.2).bind_pure fun value => (pair.1, value)

theorem reads_object (pairs : List (String × String)) :
    Reads objectReader (object pairs).toList pairs := by
  have hpairs : Reads (Reader.listTo '\x7d' fieldReader)
      (", ".toList.intercalate (pairs.map fun pair => (field pair).toList) ++ ['\x7d'])
      pairs := by
    refine Text.reads_listTo (by decide) (fun pair _ => reads_field pair) ?_
    intro pair _
    obtain ⟨text, htext⟩ := string_eq_quote_append pair.1
    refine ⟨'"', text ++ (": " ++ string pair.2).toList, ?_, by decide⟩
    simp [field, htext]
  have hobject : (object pairs).toList = "\x7b".toList ++
      (", ".toList.intercalate (pairs.map fun pair => (field pair).toList) ++ ['\x7d']) := by
    simp [object, String.toList_intercalate, Function.comp_def]
  rw [hobject]
  exact Reads.bind (reads_mark "\x7b") hpairs

/-! ## Lines -/

/-- Whether a character can stand on a line of a script of any age. -/
def isPrintable (c : Char) : Bool :=
  0x20 ≤ c.toNat && c != '\u2028' && c != '\u2029'

theorem isPrintable_of_mem_escape {c d : Char} (h : d ∈ escape c) : isPrintable d = true := by
  rcases escape_cases c with ⟨code, hcode, hescape⟩ | ⟨-, hescape⟩ | ⟨hplain, hprintable, hnone⟩
  · have hall : codes.all (·.2.all isPrintable) = true := by decide
    rw [hescape, List.mem_cons] at h
    rcases h with rfl | hmem
    · decide
    · exact List.all_eq_true.1 (List.all_eq_true.1 hall _ hcode) d hmem
  · rw [hescape, List.mem_cons, List.mem_cons] at h
    rcases h with rfl | rfl | hmem
    · decide
    · decide
    · exact Text.forall_mem_hexOfWidth (p := (isPrintable · = true)) (by decide) 4 _ d hmem
  · rw [hplain, List.mem_singleton] at h
    subst h
    have hline : d ≠ '\u2028' := fun heq => hnone (heq ▸ by decide)
    have hparagraph : d ≠ '\u2029' := fun heq => hnone (heq ▸ by decide)
    simp [isPrintable, hprintable, hline, hparagraph]

theorem isPrintable_of_mem_encode {s : List Char} {c : Char} (h : c ∈ encode s) :
    isPrintable c = true := by
  fun_induction encode s with
  | case1 => contradiction
  | case2 cs ih =>
    simp only [List.mem_cons] at h
    rcases h with rfl | rfl | rfl | hmem
    · decide
    · decide
    · decide
    · exact ih hmem
  | case3 d cs _ ih =>
    rcases List.mem_append.1 h with hmem | hmem
    · exact isPrintable_of_mem_escape hmem
    · exact ih hmem

theorem isPrintable_of_mem_string (value : String) :
    ∀ c ∈ (string value).toList, isPrintable c = true := by
  intro c hc
  rw [toList_string, List.mem_cons, List.mem_append, List.mem_singleton] at hc
  rcases hc with rfl | hmem | rfl
  · decide
  · exact isPrintable_of_mem_encode hmem
  · decide

theorem isPrintable_of_mem_array (items : List String) :
    ∀ c ∈ (array items).toList, isPrintable c = true := by
  intro c hc
  rw [toList_array, List.mem_cons, List.mem_append, List.mem_singleton] at hc
  rcases hc with rfl | hmem | rfl
  · decide
  · refine Text.forall_mem_intercalate (p := (isPrintable · = true)) ?_ ?_ c hmem
    · have hcomma : [',', ' '].all isPrintable = true := by decide
      exact List.all_eq_true.1 hcomma
    · intro text htext
      obtain ⟨item, -, rfl⟩ := List.mem_map.1 htext
      exact isPrintable_of_mem_string item
  · decide

theorem newline_notMem_string (value : String) : '\n' ∉ (string value).toList :=
  fun hmem => absurd (isPrintable_of_mem_string value '\n' hmem) (by decide)

theorem newline_notMem_array (items : List String) : '\n' ∉ (array items).toList :=
  fun hmem => absurd (isPrintable_of_mem_array items '\n' hmem) (by decide)

theorem newline_notMem_intercalate {sep : List Char} (hsep : '\n' ∉ sep)
    {texts : List (List Char)} (h : ∀ text ∈ texts, '\n' ∉ text) :
    '\n' ∉ sep.intercalate texts := by
  have hall := Text.forall_mem_intercalate (p := (· ≠ '\n'))
    (fun c hc heq => hsep (heq ▸ hc)) fun text htext c hc heq => h text htext (heq ▸ hc)
  exact fun hnewline => hall '\n' hnewline rfl

theorem newline_notMem_object (pairs : List (String × String)) :
    '\n' ∉ (object pairs).toList := by
  have hpairs : '\n' ∉ [',', ' '].intercalate (pairs.map (String.toList ∘ field)) := by
    apply newline_notMem_intercalate (by decide)
    intro text htext
    obtain ⟨pair, -, rfl⟩ := List.mem_map.1 htext
    simp [field, newline_notMem_string]
  simp [object, hpairs]

end ViewBundle.Literal
