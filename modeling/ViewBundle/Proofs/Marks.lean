import Mathlib.Data.List.Chain
import Mathlib.Data.List.Infix
import ViewBundle.Text

/-!
# Marks in texts

A cut at a mark is made at the first occurrence of the mark and at no other place (`cut?_append`,
`not_isInfix_of_cut?`), and no cut is made if there is no occurrence (`cut?_eq_none`).  A mark of
two characters stands in a text if and only if the two are neighbours somewhere
(`isChain_iff_not_isInfix`), so texts are put together without it as long as it does not arise at
the seam.
-/

namespace ViewBundle.Text

/-- The mark at which a text is cut is the first one in the text. -/
theorem not_isInfix_of_cut? {mark s before after : List Char} (hmark : mark ≠ [])
    (h : cut? mark s = some (before, after)) : ¬mark <:+: before ++ mark.dropLast := by
  induction s generalizing before with
  | nil => cases h
  | cons c cs ih =>
    simp only [cut?] at h
    split at h
    · -- Nothing stands before the mark, and a part of the mark does not hold all of it.
      obtain ⟨rfl, -⟩ : [] = before ∧ _ = after := by simpa using h
      intro hinfix
      have hlength := hinfix.length_le
      have hpos := List.length_pos_iff.2 hmark
      rw [List.nil_append, List.length_dropLast] at hlength
      omega
    · next hprefix =>
      obtain ⟨⟨front, rest⟩, hcut, heq⟩ := Option.map_eq_some_iff.1 h
      obtain ⟨rfl, rfl⟩ : c :: front = before ∧ rest = after := by simpa using heq
      rw [List.cons_append, List.infix_cons_iff, not_or]
      refine ⟨?_, ih hcut⟩
      intro hstart
      have hwhole : c :: front ++ mark.dropLast <+: c :: cs := by
        rw [eq_append_of_cut? hcut, List.append_assoc, ← List.cons_append,
          List.prefix_append_right_inj]
        exact (List.dropLast_prefix mark).trans (List.prefix_append mark rest)
      obtain ⟨left, hleft⟩ := hstart.trans hwhole
      rw [← hleft, isPrefixOf?_append] at hprefix
      contradiction

theorem not_isInfix_of_cut?_eq_none {mark s : List Char} (hmark : mark ≠ [])
    (h : cut? mark s = none) : ¬mark <:+: s := by
  induction s with
  | nil => simpa using hmark
  | cons c cs ih =>
    simp only [cut?] at h
    split at h
    · contradiction
    · next hprefix =>
      rw [List.infix_cons_iff, not_or]
      refine ⟨?_, ih (Option.map_eq_none_iff.1 h)⟩
      rintro ⟨left, hleft⟩
      rw [← hleft, isPrefixOf?_append] at hprefix
      contradiction

theorem cut?_append {mark before : List Char} (h : ¬mark <:+: before ++ mark.dropLast)
    (after : List Char) : cut? mark (before ++ (mark ++ after)) = some (before, after) := by
  induction before with
  | nil =>
    cases mark with
    | nil => exact absurd List.nil_infix h
    | cons m ms =>
      rw [List.nil_append, List.cons_append, cut?, ← List.cons_append, isPrefixOf?_append]
  | cons c cs ih =>
    rw [List.cons_append, List.infix_cons_iff, not_or] at h
    have hnone : mark.isPrefixOf? (c :: (cs ++ (mark ++ after))) = none := by
      rw [Option.eq_none_iff_forall_ne_some]
      intro rest hrest
      -- The mark would begin in the text, and all of it but the last character stands there.
      have hlong : mark <+: c :: cs ++ (mark ++ after) :=
        ⟨rest, (eq_append_of_isPrefixOf? hrest).symm⟩
      have hshort : c :: cs ++ mark.dropLast <+: c :: cs ++ (mark ++ after) :=
        (List.prefix_append_right_inj _).2 ((List.dropLast_prefix mark).trans
          (List.prefix_append mark after))
      refine h.1 (List.prefix_of_prefix_length_le hlong hshort ?_)
      simp only [List.length_append, List.length_cons, List.length_dropLast]
      omega
    rw [List.cons_append, cut?, hnone, ih h.2]
    rfl

theorem cut?_eq_none {mark s : List Char} (h : ¬mark <:+: s) : cut? mark s = none := by
  rw [Option.eq_none_iff_forall_ne_some]
  rintro ⟨before, after⟩ hcut
  exact h ⟨before, after, (eq_append_of_cut? hcut).symm⟩

theorem isChain_iff_not_isInfix {x y : Char} {s : List Char} :
    (s.IsChain fun c d => c = x → d ≠ y) ↔ ¬[x, y] <:+: s := by
  induction s with
  | nil => simp
  | cons c cs ih =>
    rw [List.isChain_cons, ih, List.infix_cons_iff, not_or]
    refine and_congr_left fun _ => ?_
    cases cs with
    | nil => simp
    | cons d ds =>
      simp only [List.head?_cons, Option.mem_some_iff, forall_eq', List.cons_prefix_cons,
        List.nil_prefix, and_true, not_and]
      exact ⟨fun h hx hy => h hx.symm hy.symm, fun h hx hy => h hx.symm hy.symm⟩

theorem getLast?_append_ne {s t : List Char} {c : Char} (hs : s.getLast? ≠ some c)
    (ht : t.getLast? ≠ some c) : (s ++ t).getLast? ≠ some c := by
  rw [List.getLast?_append]
  intro hlast
  rcases Option.or_eq_some_iff.1 hlast with hlast | ⟨-, hlast⟩
  · exact ht hlast
  · exact hs hlast

theorem getLast?_ne_of_suffix {s t : List Char} {c : Char} (hsuffix : t <:+ s)
    (h : s.getLast? ≠ some c) : t.getLast? ≠ some c := by
  obtain ⟨front, rfl⟩ := hsuffix
  cases t with
  | nil => simp
  | cons d ds => rwa [List.getLast?_append_of_ne_nil front (by simp)] at h

end ViewBundle.Text
