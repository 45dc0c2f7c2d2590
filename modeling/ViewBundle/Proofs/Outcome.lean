import Mathlib.Data.List.Forall2

/-!
# Outcomes

Steps that can fail, one after the other and along a list.  Main statements: when two steps succeed
together (`bind_eq_ok_iff`) and when one of them fails (`bind_eq_error_iff`), when a list of steps
succeeds (`mapM_eq_ok_iff`) and that it fails as the first of them that fails
(`mapM_eq_error_iff`), that a list of steps only depends on what each of them answers
(`mapM_eq_ok_of_imp`), and that a change made to every answer can be made at the end
(`mapM_eq_map_of_eq_map`).
-/

namespace ViewBundle.Outcome

variable {ε α β γ : Type}

theorem bind_eq_ok_iff {x : Except ε α} {f : α → Except ε β} {b : β} :
    x >>= f = .ok b ↔ ∃ a, x = .ok a ∧ f a = .ok b := by
  cases x with
  | error e => simp [bind, Except.bind]
  | ok a => simp [bind, Except.bind]

theorem map_eq_ok_iff {x : Except ε α} {f : α → β} {b : β} :
    x.map f = .ok b ↔ ∃ a, x = .ok a ∧ f a = b := by
  cases x with
  | error e => simp [Except.map]
  | ok a => simp [Except.map]

theorem bind_eq_error_iff {x : Except ε α} {f : α → Except ε β} {e : ε} :
    x >>= f = .error e ↔ x = .error e ∨ ∃ a, x = .ok a ∧ f a = .error e := by
  cases x with
  | error e => simp [bind, Except.bind]
  | ok a => simp [bind, Except.bind]

theorem map_eq_error_iff {x : Except ε α} {f : α → β} {e : ε} :
    x.map f = .error e ↔ x = .error e := by
  cases x with
  | error e => simp [Except.map]
  | ok a => simp [Except.map]

theorem mapError_eq_ok_iff {δ : Type} {x : Except ε α} {f : ε → δ} {a : α} :
    x.mapError f = .ok a ↔ x = .ok a := by
  cases x with
  | error e => simp [Except.mapError]
  | ok a => simp [Except.mapError]

theorem mapError_eq_error_iff {δ : Type} {x : Except ε α} {f : ε → δ} {d : δ} :
    x.mapError f = .error d ↔ ∃ e, x = .error e ∧ f e = d := by
  cases x with
  | error e => simp [Except.mapError]
  | ok a => simp [Except.mapError]

/-- A change made to the answer of a step can be made by the step that follows it. -/
theorem map_bind (x : Except ε α) (g : α → β) (f : β → Except ε γ) :
    x.map g >>= f = x >>= fun a => f (g a) := by
  cases x <;> rfl

/-- A change made to the answer of two steps is made to the answer of the second one. -/
theorem bind_map (x : Except ε α) (f : α → Except ε β) (g : β → γ) :
    (x >>= f).map g = x >>= fun a => (f a).map g := by
  cases x <;> rfl

theorem map_pure (a : α) (f : α → β) : (pure a : Except ε α).map f = pure (f a) := rfl

/-- A list of steps succeeds with what each of them answers. -/
theorem mapM_eq_ok_iff {f : α → Except ε β} {xs : List α} {ys : List β} :
    xs.mapM f = .ok ys ↔ List.Forall₂ (fun x y => f x = .ok y) xs ys := by
  induction xs generalizing ys with
  | nil =>
    rw [List.mapM_nil, List.forall₂_nil_left_iff]
    exact ⟨fun h => (Except.ok.inj h).symm, fun h => congrArg Except.ok h.symm⟩
  | cons x xs ih =>
    rw [List.mapM_cons, List.forall₂_cons_left_iff, bind_eq_ok_iff]
    constructor
    · rintro ⟨y, hy, h⟩
      obtain ⟨zs, hzs, h⟩ := bind_eq_ok_iff.1 h
      exact ⟨y, zs, hy, ih.1 hzs, (Except.ok.inj h).symm⟩
    · rintro ⟨y, zs, hy, hzs, rfl⟩
      exact ⟨y, hy, bind_eq_ok_iff.2 ⟨zs, ih.2 hzs, rfl⟩⟩

theorem exists_eq_ok_of_mem {f : α → Except ε β} {xs : List α} {ys : List β}
    (h : xs.mapM f = .ok ys) {x : α} (hx : x ∈ xs) : ∃ y, f x = .ok y := by
  have hall := mapM_eq_ok_iff.1 h
  induction hall with
  | nil => simp at hx
  | @cons first y rest zs hfirst hrest ih =>
    rcases List.mem_cons.1 hx with rfl | hx
    · exact ⟨y, hfirst⟩
    · exact ih (mapM_eq_ok_iff.2 hrest) hx

/-- Every answer of a list of steps is that of one of the steps. -/
theorem exists_mem_of_mem_answers {f : α → Except ε β} {xs : List α} {ys : List β}
    (h : xs.mapM f = .ok ys) {y : β} (hy : y ∈ ys) : ∃ x ∈ xs, f x = .ok y := by
  have hall := mapM_eq_ok_iff.1 h
  clear h
  induction hall with
  | nil => simp at hy
  | @cons x first rest zs hfirst _ ih =>
    rcases List.mem_cons.1 hy with rfl | hy
    · exact ⟨x, List.mem_cons_self, hfirst⟩
    · obtain ⟨later, hlater, hanswer⟩ := ih hy
      exact ⟨later, List.mem_cons_of_mem x hlater, hanswer⟩

/-- A list of steps fails as the first of them that fails. -/
theorem mapM_eq_error_iff {f : α → Except ε β} {xs : List α} {e : ε} :
    xs.mapM f = .error e ↔ ∃ before x after, xs = before ++ x :: after ∧
      (∀ earlier ∈ before, ∃ y, f earlier = .ok y) ∧ f x = .error e := by
  induction xs with
  | nil =>
    rw [List.mapM_nil]
    constructor
    · intro h
      cases h
    · rintro ⟨before, x, after, h, -⟩
      simp at h
  | cons x xs ih =>
    rw [List.mapM_cons, bind_eq_error_iff]
    constructor
    · rintro (h | ⟨y, hy, h⟩)
      · exact ⟨[], x, xs, rfl, by simp, h⟩
      · have hxs : xs.mapM f = .error e := by
          rcases bind_eq_error_iff.1 h with h | ⟨ys, -, h⟩
          · exact h
          · cases h
        obtain ⟨before, x', after, rfl, hbefore, hx'⟩ := ih.1 hxs
        exact ⟨x :: before, x', after, rfl, List.forall_mem_cons.2 ⟨⟨y, hy⟩, hbefore⟩, hx'⟩
    · rintro ⟨before, x', after, h, hbefore, hx'⟩
      cases before with
      | nil =>
        obtain ⟨rfl, rfl⟩ : x = x' ∧ xs = after := by simpa using h
        exact .inl hx'
      | cons first before =>
        obtain ⟨rfl, rfl⟩ : x = first ∧ xs = before ++ x' :: after := by simpa using h
        obtain ⟨⟨y, hy⟩, hbefore⟩ := List.forall_mem_cons.1 hbefore
        have hxs := ih.2 ⟨before, x', after, rfl, hbefore, hx'⟩
        exact .inr ⟨y, hy, bind_eq_error_iff.2 (.inl hxs)⟩

/-- A list of steps succeeds if and only if each of them does. -/
theorem exists_mapM_eq_ok_iff {f : α → Except ε β} {xs : List α} :
    (∃ ys, xs.mapM f = .ok ys) ↔ ∀ x ∈ xs, ∃ y, f x = .ok y := by
  constructor
  · rintro ⟨ys, h⟩ x hx
    exact exists_eq_ok_of_mem h hx
  · intro h
    cases hxs : xs.mapM f with
    | ok ys => exact ⟨ys, rfl⟩
    | error e =>
      obtain ⟨before, x, after, rfl, -, hx⟩ := mapM_eq_error_iff.1 hxs
      obtain ⟨y, hy⟩ := h x (by simp)
      cases hx.symm.trans hy

/-- Where every step of a list succeeds, steps that answer the same succeed as well. -/
theorem mapM_eq_ok_of_imp {f g : α → Except ε β} {xs : List α} {ys : List β}
    (h : xs.mapM f = .ok ys) (himp : ∀ x ∈ xs, ∀ y ∈ ys, f x = .ok y → g x = .ok y) :
    xs.mapM g = .ok ys := by
  induction xs generalizing ys with
  | nil => exact h
  | cons x xs ih =>
    rw [List.mapM_cons] at h ⊢
    obtain ⟨y, hy, h⟩ := bind_eq_ok_iff.1 h
    obtain ⟨zs, hzs, h⟩ := bind_eq_ok_iff.1 h
    obtain rfl : y :: zs = ys := Except.ok.inj h
    have hhead : g x = .ok y := himp x (by simp) y (by simp) hy
    have htail : xs.mapM g = .ok zs := by
      apply ih hzs
      intro x' hx' y' hy' hok
      exact himp x' (List.mem_cons_of_mem x hx') y' (List.mem_cons_of_mem y hy') hok
    rw [hhead, htail]
    rfl

/-- Where the steps of a list differ by a change of the answer, so do the lists of their answers,
and they fail alike. -/
theorem mapM_eq_map_of_eq_map {f : α → Except ε β} {g : α → Except ε γ} {k : β → γ}
    {xs : List α} (h : ∀ x ∈ xs, g x = (f x).map k) :
    xs.mapM g = (xs.mapM f).map (List.map k) := by
  induction xs with
  | nil => rfl
  | cons x xs ih =>
    have htail : xs.mapM g = (xs.mapM f).map (List.map k) :=
      ih fun x' hx' => h x' (List.mem_cons_of_mem x hx')
    rw [List.mapM_cons, List.mapM_cons, h x (by simp), htail]
    cases f x with
    | error e => rfl
    | ok y => cases xs.mapM f <;> rfl

end ViewBundle.Outcome
