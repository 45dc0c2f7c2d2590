import Mathlib.Algebra.Group.Nat.Defs
import ViewBundle.Configuration.Document
import ViewBundle.Text

/-!
# Reading digits back

Hexadecimal digits that are written for a number stand for that number, as far as their width
reaches (`mapM_digitValue?_hexOfWidth`).  Main statement: the digits of a character are read back as
the character (`codePoint?_hexOfWidth`).
-/

namespace ViewBundle

namespace Text

theorem forall_mem_hexOfWidth {p : Char → Prop} (h : ∀ d : Fin 16, p (hexDigit d.val))
    (width n : Nat) : ∀ c ∈ hexOfWidth width n, p c := by
  induction width generalizing n with
  | zero => simp [hexOfWidth]
  | succ width ih =>
    have hlast : p (hexDigit (n % 16)) := h ⟨n % 16, Nat.mod_lt n (by decide)⟩
    rw [hexOfWidth, List.forall_mem_append]
    exact ⟨ih (n / 16), List.forall_mem_singleton.2 hlast⟩

end Text

namespace Document

theorem digitValue?_hexDigit {n : Nat} (h : n < 16) :
    digitValue? (Text.hexDigit n) = some n := by
  have hall : ∀ d : Fin 16, digitValue? (Text.hexDigit d.val) = some d.val := by decide
  exact hall ⟨n, h⟩

theorem mapM_digitValue?_hexOfWidth (width n : Nat) :
    ∃ digits, (Text.hexOfWidth width n).mapM digitValue? = some digits ∧
      digits.length = width ∧
      digits.foldl (fun value digit => 16 * value + digit) 0 = n % 16 ^ width := by
  induction width generalizing n with
  | zero => exact ⟨[], rfl, rfl, by simp [Nat.mod_one]⟩
  | succ width ih =>
    -- All digits but the last are those of the quotient, and the last one is the remainder.
    obtain ⟨digits, hdigits, hlength, hvalue⟩ := ih (n / 16)
    have hlast : digitValue? (Text.hexDigit (n % 16)) = some (n % 16) :=
      digitValue?_hexDigit (Nat.mod_lt n (by decide))
    refine ⟨digits ++ [n % 16], ?_, by simp [hlength], ?_⟩
    · rw [Text.hexOfWidth, List.mapM_append, hdigits]
      simp [hlast]
    · rw [List.foldl_append, hvalue, Nat.pow_succ, Nat.mul_comm (16 ^ width), Nat.mod_mul]
      simp only [List.foldl_cons, List.foldl_nil]
      omega

theorem codePoint?_hexOfWidth {c : Char} {width : Nat} (h : c.toNat < 16 ^ width)
    (rest : List Char) :
    codePoint? width (Text.hexOfWidth width c.toNat ++ rest) = some (c, rest) := by
  obtain ⟨digits, hdigits, hlength, hvalue⟩ := mapM_digitValue?_hexOfWidth width c.toNat
  have htake : (Text.hexOfWidth width c.toNat ++ rest).take width =
      Text.hexOfWidth width c.toNat := by
    rw [List.take_append_of_le_length (by simp), List.take_of_length_le (by simp)]
  have hdrop : (Text.hexOfWidth width c.toNat ++ rest).drop width = rest := by
    rw [List.drop_append_of_le_length (by simp), List.drop_of_length_le (by simp),
      List.nil_append]
  have hvalid : c.toNat.isValidChar := c.valid
  rw [Nat.mod_eq_of_lt h] at hvalue
  rw [codePoint?, htake, hdigits, hdrop]
  simp [hlength, hvalue, hvalid]

end Document

end ViewBundle
