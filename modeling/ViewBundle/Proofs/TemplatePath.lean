import ViewBundle.Proofs.Path
import ViewBundle.Template

/-!
# Paths as they are written

A path is written as its names with dots between them, and the empty path as `this`.  What is
written is read as the path, with any blanks around it, and nothing else is read as one
(`path?_eq_some_iff`, `trim_append`).
-/

namespace ViewBundle

namespace Text

theorem trim_append {before s after : List Char} (hbefore : ∀ c ∈ before, isBlank c = true)
    (hs : ∀ c ∈ s, isBlank c = false) (hafter : ∀ c ∈ after, isBlank c = true) (hne : s ≠ []) :
    trim (before ++ (s ++ after)) = s := by
  obtain ⟨c, cs, rfl⟩ := List.exists_cons_of_ne_nil hne
  have hstart : trimStart (before ++ (c :: cs ++ after)) = c :: cs ++ after := by
    rw [trimStart, List.dropWhile_append_of_pos hbefore, List.cons_append,
      List.dropWhile_cons_of_neg (by simp [hs c])]
  have hreverse : ∀ d ∈ after.reverse, isBlank d = true := by simpa using hafter
  have hend : (c :: cs).reverse.dropWhile isBlank = (c :: cs).reverse := by
    obtain ⟨d, ds, hreversed⟩ := List.exists_cons_of_ne_nil (List.reverse_ne_nil_iff.2 hne)
    have hd : isBlank d = false := hs d (List.mem_reverse.1 (by rw [hreversed]; simp))
    rw [hreversed, List.dropWhile_cons_of_neg (by simp [hd])]
  rw [trim, hstart, trimEnd, List.reverse_append, List.dropWhile_append_of_pos hreverse, hend,
    List.reverse_reverse]

theorem head?_trim (s : List Char) : (trim s).head? = (trimStart s).head? := by
  rw [trim]
  cases hstart : trimStart s with
  | nil => rfl
  | cons c cs =>
    have hc : isBlank c = false := by
      have hhead := List.head?_dropWhile_not isBlank s
      rw [← trimStart, hstart] at hhead
      simpa using hhead
    have hend : (c :: cs).reverse.dropWhile isBlank = cs.reverse.dropWhile isBlank ++ [c] := by
      rw [List.reverse_cons, List.dropWhile_append]
      split
      · next hnil => simp_all
      · rfl
    rw [trimEnd, hend, List.reverse_append]
    rfl

end Text

namespace Template

/-! ## Identifiers -/

theorem toNat_of_isIdentifierRest {c : Char} (h : isIdentifierRest c = true) :
    36 ≤ c.toNat ∧ c.toNat ≤ 122 := by
  have hranges : (decide (65 ≤ c.val ∧ c.val ≤ 90) || (97 ≤ c.val && c.val ≤ 122) ||
      (48 ≤ c.val && c.val ≤ 57) || c == '_' || c == '$') = true := h
  simp only [Bool.or_eq_true, Bool.and_eq_true, decide_eq_true_eq, beq_iff_eq,
    UInt32.le_iff_toNat_le] at hranges
  change ((((65 ≤ c.toNat ∧ c.toNat ≤ 90) ∨ (97 ≤ c.toNat ∧ c.toNat ≤ 122)) ∨
    (48 ≤ c.toNat ∧ c.toNat ≤ 57)) ∨ c = '_') ∨ c = '$' at hranges
  rcases hranges with (hranges | rfl) | rfl
  · omega
  · decide
  · decide

theorem isBlank_of_isIdentifierRest {c : Char} (h : isIdentifierRest c = true) :
    Text.isBlank c = false := by
  have hrange := toNat_of_isIdentifierRest h
  simp only [Text.isBlank, Bool.or_eq_false_iff, Bool.and_eq_false_iff, decide_eq_false_iff_not,
    beq_eq_false_iff_ne]
  omega

theorem isIdentifierRest_of_isIdentifierStart {c : Char} (h : isIdentifierStart c = true) :
    isIdentifierRest c = true := by
  have halphanum : c.isAlphanum = (c.isAlpha || c.isDigit) := rfl
  rw [isIdentifierStart, Bool.or_eq_true, Bool.or_eq_true] at h
  rw [isIdentifierRest, halphanum, Bool.or_eq_true, Bool.or_eq_true, Bool.or_eq_true]
  rcases h with (hletter | hunderscore) | hdollar
  · exact .inl (.inl (.inl hletter))
  · exact .inl (.inr hunderscore)
  · exact .inr hdollar

theorem isIdentifierRest_of_mem {name : List Char} (h : isIdentifier name = true) :
    ∀ c ∈ name, isIdentifierRest c = true := by
  cases name with
  | nil => contradiction
  | cons c cs =>
    rw [isIdentifier, Bool.and_eq_true] at h
    have hfirst : isIdentifierRest c = true := isIdentifierRest_of_isIdentifierStart h.1
    exact List.forall_mem_cons.2 ⟨hfirst, List.all_eq_true.1 h.2⟩

theorem dot_notMem_of_isIdentifier {name : List Char} (h : isIdentifier name = true) :
    '.' ∉ name := by
  intro hdot
  exact absurd (isIdentifierRest_of_mem h '.' hdot) (by decide)

/-! ## Paths -/

/-- Whether a list of names is the path of a value: all are identifiers, and they are not the one
name that stands for the empty path. -/
def IsPath (path : List String) : Prop :=
  (∀ name ∈ path, isIdentifier name.toList = true) ∧ path ≠ ["this"]

instance : DecidablePred IsPath :=
  fun _ => inferInstanceAs (Decidable (_ ∧ _))

/-- How a path is written. -/
def pathText (path : List String) : List Char :=
  if path = [] then "this".toList else ['.'].intercalate (path.map String.toList)

theorem isIdentifierRest_of_mem_pathText {path : List String} (h : IsPath path) :
    ∀ c ∈ pathText path, isIdentifierRest c = true ∨ c = '.' := by
  rw [pathText]
  split
  · have hthis : "this".toList.all isIdentifierRest = true := by decide
    exact fun c hc => .inl (List.all_eq_true.1 hthis c hc)
  · apply Text.forall_mem_intercalate
    · simp
    · intro text htext c hc
      obtain ⟨name, hname, rfl⟩ := List.mem_map.1 htext
      exact .inl (isIdentifierRest_of_mem (h.1 name hname) c hc)

theorem map_ofList_map_toList (path : List String) :
    (path.map String.toList).map String.ofList = path := by
  simp [Function.comp_def]

/-- The identifiers of a path are the pieces between the dots. -/
theorem pieces_pathText {path : List String} (h : IsPath path) (hne : path ≠ []) :
    Text.pieces '.' (pathText path) = path.map String.toList := by
  rw [pathText, if_neg hne]
  apply Text.pieces_intercalate (by simpa using hne)
  intro text htext
  obtain ⟨name, hname, rfl⟩ := List.mem_map.1 htext
  exact dot_notMem_of_isIdentifier (h.1 name hname)

theorem path?_pathText {path : List String} (h : IsPath path) :
    path? (pathText path) = some path := by
  by_cases hne : path = []
  · rw [hne]
    rfl
  · have hpieces := pieces_pathText h hne
    -- The one name that is read as the empty path is no path by itself.
    have hthis : pathText path ≠ "this".toList := by
      intro htext
      have hnames : path.map String.toList = ["this".toList] := by
        rw [← hpieces, htext]
        rfl
      refine h.2 ?_
      rw [← map_ofList_map_toList path, hnames]
      rfl
    have hall : (path.map String.toList).all isIdentifier = true := by
      simpa using h.1
    rw [path?, if_neg hthis, hpieces]
    dsimp only
    rw [if_pos hall, map_ofList_map_toList]

theorem pathText_ne_nil {path : List String} (h : IsPath path) : pathText path ≠ [] := by
  intro hnil
  have hpath := path?_pathText h
  rw [hnil] at hpath
  cases hpath

theorem isPath_of_path? {expression : List Char} {path : List String}
    (h : path? expression = some path) : IsPath path ∧ expression = pathText path := by
  rw [path?] at h
  split at h
  · next hthis =>
    obtain rfl := Option.some.inj h
    exact ⟨⟨by simp, by simp⟩, hthis⟩
  · next hthis =>
    dsimp only at h
    split at h
    · next hall =>
      obtain rfl := Option.some.inj h
      have hnames : ((Text.pieces '.' expression).map String.ofList).map String.toList =
          Text.pieces '.' expression := by
        simp [Function.comp_def]
      have hjoin := Text.intercalate_pieces '.' expression
      refine ⟨⟨?_, ?_⟩, ?_⟩
      · simpa using List.all_eq_true.1 hall
      · intro hpath
        rw [hpath] at hnames
        rw [← hnames] at hjoin
        exact hthis hjoin.symm
      · rw [pathText, if_neg (by simpa using Text.pieces_ne_nil '.' expression), hnames, hjoin]
    · contradiction

/-- What is read as a path is how the path is written. -/
theorem path?_eq_some_iff {expression : List Char} {path : List String} :
    path? expression = some path ↔ IsPath path ∧ expression = pathText path :=
  ⟨isPath_of_path?, fun ⟨hpath, htext⟩ => htext ▸ path?_pathText hpath⟩

/-- What is read as no path is neither `this` nor identifiers with dots between them. -/
theorem path?_eq_none_iff {expression : String} :
    path? expression.toList = none ↔ expression ≠ "this" ∧ ∀ names : List String, names ≠ [] →
      (∀ name ∈ names, isIdentifier name.toList = true) → expression ≠ ".".intercalate names := by
  rw [Option.eq_none_iff_forall_ne_some]
  constructor
  · intro h
    have hthis : expression ≠ "this" := by
      rintro rfl
      exact h [] rfl
    refine ⟨hthis, ?_⟩
    rintro names hne hnames rfl
    by_cases hone : names = ["this"]
    · rw [hone] at hthis
      exact hthis rfl
    · refine h names (path?_eq_some_iff.2 ⟨⟨hnames, hone⟩, ?_⟩)
      rw [pathText, if_neg hne, String.toList_intercalate]
      rfl
  · rintro ⟨hthis, hnames⟩ path hpath
    obtain ⟨⟨hidentifiers, -⟩, htext⟩ := path?_eq_some_iff.1 hpath
    rw [pathText] at htext
    split at htext
    · exact hthis (String.toList_inj.1 htext)
    · next hne =>
      refine hnames path hne hidentifiers (String.toList_inj.1 ?_)
      rw [htext, String.toList_intercalate]
      rfl

end Template

end ViewBundle
