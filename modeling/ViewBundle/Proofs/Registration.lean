import Mathlib.Data.List.Induction
import ViewBundle.Settings

/-!
# Registered compilers

Compilers are registered one after the other, under extensions that are written with or without
their dot.  An extension is recognized if it has always been, or if it was registered
(`mem_extensions_addCompilers_iff`), and its compiler is the one that was registered last for it,
however it was written (`get?_addCompilers`).
-/

namespace ViewBundle

theorem toList_dotted (extension : String) :
    ∃ letters, (dotted extension).toList = '.' :: letters := by
  unfold dotted
  split
  · next h => exact List.head?_eq_some_iff.1 h
  · exact ⟨extension.toList, by rw [String.toList_append]; rfl⟩

theorem dotted_ne_empty (extension : String) : dotted extension ≠ "" := by
  obtain ⟨letters, hletters⟩ := toList_dotted extension
  intro h
  rw [h] at hletters
  contradiction

variable {κ : Type}

/-- The compiler that was registered last for an extension, if any was. -/
def lastRegistered? (registrations : List (String × κ)) (extension : String) : Option κ :=
  ((registrations.filter (dotted ·.1 = extension)).getLast?).map Prod.snd

/-- The compiler of a recognized extension: markup files are taken as they are until another
compiler is registered for them. -/
def registeredCompiler [CompilerKind κ] (registrations : List (String × κ)) (extension : String) :
    κ :=
  (lastRegistered? registrations extension).getD CompilerKind.html

namespace Settings

/-- The settings that registrations leave when they are made in order. -/
def addCompilers (settings : Settings κ) (registrations : List (String × κ)) : Settings κ :=
  registrations.foldl
    (fun settings registration => settings.addCompiler registration.1 registration.2) settings

variable {settings : Settings κ} {extension : String}

theorem addCompilers_concat (settings : Settings κ) (registrations : List (String × κ))
    (registration : String × κ) :
    settings.addCompilers (registrations ++ [registration]) =
      (settings.addCompilers registrations).addCompiler registration.1 registration.2 := by
  unfold addCompilers
  rw [List.foldl_append]
  rfl

/-- Of the compilers that are registered for an extension the last one counts. -/
theorem get?_addCompilers (settings : Settings κ) (registrations : List (String × κ))
    (extension : String) :
    (settings.addCompilers registrations).compilers.get? extension =
      (lastRegistered? registrations extension).or (settings.compilers.get? extension) := by
  induction registrations using List.reverseRecOn with
  | nil => rfl
  | append_singleton registrations registration ih =>
    have hstep :
        (settings.addCompilers (registrations ++ [registration])).compilers.get? extension =
          if extension = dotted registration.1 then some registration.2
          else (settings.addCompilers registrations).compilers.get? extension := by
      rw [addCompilers_concat]
      exact Dictionary.get?_put _ _ _ _
    rw [hstep, ih, lastRegistered?, lastRegistered?, List.filter_append]
    by_cases h : dotted registration.1 = extension
    · rw [if_pos h.symm, List.filter_cons_of_pos (by simpa using h), List.filter_nil,
        List.getLast?_concat]
      rfl
    · rw [if_neg (Ne.symm h), List.filter_cons_of_neg (by simpa using h), List.filter_nil,
        List.append_nil]

theorem mem_extensions_addCompilers_iff {registrations : List (String × κ)} :
    extension ∈ (settings.addCompilers registrations).extensions ↔
      extension ∈ settings.extensions ∨ ∃ registration ∈ registrations,
        dotted registration.1 = extension := by
  induction registrations using List.reverseRecOn with
  | nil => simp [addCompilers]
  | append_singleton registrations registration ih =>
    have hstep : extension ∈ (settings.addCompilers (registrations ++ [registration])).extensions ↔
        extension ∈ (settings.addCompilers registrations).extensions ∨
          dotted registration.1 = extension := by
      rw [addCompilers_concat, addCompiler]
      dsimp only
      split
      · next hknown =>
        constructor
        · exact .inl
        · rintro (h | rfl)
          · exact h
          · exact hknown
      · rw [List.mem_append, List.mem_singleton, eq_comm (a := extension)]
    rw [hstep, ih, or_assoc]
    simp only [List.mem_append, List.mem_singleton, or_and_right, exists_or, exists_eq_left]

/-- What was never registered is recognized only if it always is. -/
theorem eq_defaultExtension_of_lastRegistered? [CompilerKind κ]
    {registrations : List (String × κ)}
    (h : extension ∈ ((standard κ).addCompilers registrations).extensions)
    (hnone : lastRegistered? registrations extension = none) : extension = defaultExtension := by
  rcases mem_extensions_addCompilers_iff.1 h with hstandard | ⟨registration, hmem, hdotted⟩
  · exact List.mem_singleton.1 hstandard
  · have hnil : registrations.filter (dotted ·.1 = extension) = [] := by
      simpa [lastRegistered?] using hnone
    exact absurd (by simpa using hdotted) (List.filter_eq_nil_iff.1 hnil registration hmem)

/-- Every recognized extension has a compiler. -/
theorem get?_of_mem_extensions [CompilerKind κ] {registrations : List (String × κ)}
    (h : extension ∈ ((standard κ).addCompilers registrations).extensions) :
    ((standard κ).addCompilers registrations).compilers.get? extension =
      some (registeredCompiler registrations extension) := by
  rw [get?_addCompilers, registeredCompiler]
  cases hlast : lastRegistered? registrations extension with
  | some compiler => rfl
  | none =>
    rw [eq_defaultExtension_of_lastRegistered? h hlast]
    rfl

/-- No compiler is registered for files without extension. -/
theorem get?_empty_addCompilers [CompilerKind κ] (registrations : List (String × κ)) :
    ((standard κ).addCompilers registrations).compilers.get? "" = none := by
  have hnone : registrations.filter (dotted ·.1 = "") = [] :=
    List.filter_eq_nil_iff.2 fun registration _ => by simp [dotted_ne_empty]
  rw [get?_addCompilers, lastRegistered?, hnone]
  rfl

theorem dotted_of_mem_extensions [CompilerKind κ] {registrations : List (String × κ)}
    (h : extension ∈ ((standard κ).addCompilers registrations).extensions) :
    ∃ letters, extension.toList = '.' :: letters := by
  rcases mem_extensions_addCompilers_iff.1 h with hstandard | ⟨registration, -, rfl⟩
  · rw [List.mem_singleton.1 hstandard]
    exact ⟨_, rfl⟩
  · exact toList_dotted registration.1

end Settings

end ViewBundle
