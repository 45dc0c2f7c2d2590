import Mathlib.Data.List.Basic
import ViewBundle.Proofs.Path

/-!
# Paths in normal form

The components of a normal form are steps that a piece between slashes stands for, behind the root
of an absolute path (`written_normalize`).  Such components can be written and read back
(`components_ofComponents`), so the components of a normal form are those that it was written for
(`components_normalize`).  One more component is written behind a slash (`join_ofComponents`), and a
text that is added to the written path belongs to its last component (`withSuffix_ofComponents`).
-/

namespace ViewBundle

theorem Text.intercalate_concat (sep : List Char) {texts : List (List Char)} (h : texts ≠ [])
    (text : List Char) :
    sep.intercalate (texts ++ [text]) = sep.intercalate texts ++ sep ++ text := by
  induction texts with
  | nil => contradiction
  | cons first more ih =>
    cases more with
    | nil => simp [List.intercalate_cons_cons]
    | cons next more =>
      rw [List.cons_append, List.intercalate_cons_of_ne_nil (by simp), ih (by simp),
        List.intercalate_cons_cons]
      simp only [List.append_assoc]

namespace Component

/-- A component that a piece between slashes stands for. -/
structure IsPiece (component : Component) : Prop where
  slash_notMem : '/' ∉ component.text.toList
  ofPiece?_eq : ofPiece? component.text.toList = some component

/-- Components that a path in which nothing is silent is written with. -/
inductive Written : List Component → Prop
  | relative {components : List Component} (h : ∀ component ∈ components, component.IsPiece) :
    Written components
  | absolute {components : List Component} (h : ∀ component ∈ components, component.IsPiece) :
    Written (root :: components)

theorem toList_text_of_ofPiece? {piece : List Char} {component : Component}
    (h : ofPiece? piece = some component) : component.text.toList = piece := by
  unfold ofPiece? at h
  split at h
  · contradiction
  · contradiction
  · obtain rfl := Option.some.inj h
    rfl
  · obtain rfl := Option.some.inj h
    exact String.toList_ofList

theorem isPiece_of_ofPiece? {piece : List Char} {component : Component} (hslash : '/' ∉ piece)
    (h : ofPiece? piece = some component) : component.IsPiece := by
  have htext := toList_text_of_ofPiece? h
  exact ⟨htext ▸ hslash, htext ▸ h⟩

theorem isPiece_normal {name : String} (hslash : '/' ∉ name.toList) (hempty : name ≠ "")
    (hdot : name ≠ ".") (hparent : name ≠ "..") : (normal name).IsPiece := by
  refine isPiece_of_ofPiece? hslash ?_
  unfold ofPiece?
  split
  · next h => exact absurd (String.toList_eq_nil_iff.1 h) hempty
  · next h => exact absurd (String.toList_inj.1 h) hdot
  · next h => exact absurd (String.toList_inj.1 h) hparent
  · rw [String.ofList_toList]

namespace IsPiece

variable {component : Component}

theorem text_ne_empty (h : component.IsPiece) : component.text ≠ "" := by
  intro htext
  have hpiece := h.ofPiece?_eq
  rw [htext] at hpiece
  contradiction

theorem text_ne_dot (h : component.IsPiece) : component.text ≠ "." := by
  intro htext
  have hpiece := h.ofPiece?_eq
  rw [htext] at hpiece
  contradiction

theorem ne_root (h : component.IsPiece) : component ≠ root := by
  rintro rfl
  exact h.slash_notMem (by decide)

theorem toList_text_ne_nil (h : component.IsPiece) : component.text.toList ≠ [] :=
  fun hnil => h.text_ne_empty (String.toList_eq_nil_iff.1 hnil)

/-- What a piece begins is no path from the root. -/
theorem head?_text_append_ne (h : component.IsPiece) (s : List Char) :
    (component.text.toList ++ s).head? ≠ some '/' := by
  rw [List.head?_append_of_ne_nil _ h.toList_text_ne_nil]
  intro hslash
  exact h.slash_notMem (List.mem_of_head? hslash)

theorem isAbsolute_text (h : component.IsPiece) : Path.isAbsolute ⟨component.text⟩ = false := by
  have hhead := h.head?_text_append_ne []
  rw [List.append_nil] at hhead
  exact beq_false_of_ne hhead

end IsPiece

/-- A piece that goes on is a piece, since it cannot become a double dot. -/
theorem IsPiece.append {component : Component} (h : component.IsPiece) {suffix : String}
    (hslash : '/' ∉ suffix.toList) (hne : suffix ≠ "") :
    (normal (component.text ++ suffix)).IsPiece := by
  obtain ⟨c, cs, hcs⟩ := List.exists_cons_of_ne_nil h.toList_text_ne_nil
  obtain ⟨d, ds, hds⟩ :=
    List.exists_cons_of_ne_nil fun hnil => hne (String.toList_eq_nil_iff.1 hnil)
  have htext : (component.text ++ suffix).toList = c :: (cs ++ d :: ds) := by
    rw [String.toList_append, hcs, hds, List.cons_append]
  apply isPiece_normal
  · rw [String.toList_append, List.mem_append, not_or]
    exact ⟨h.slash_notMem, hslash⟩
  · intro hempty
    rw [hempty] at htext
    contradiction
  · intro hdot
    rw [hdot] at htext
    simp at htext
  · -- The first of two dots would have to be the whole piece.
    intro hparent
    rw [hparent] at htext
    obtain ⟨rfl, hdots⟩ : '.' = c ∧ ['.'] = cs ++ d :: ds := by simpa using htext
    rcases List.append_eq_singleton_iff.1 hdots.symm with ⟨rfl, -⟩ | ⟨-, hnil⟩
    · exact h.text_ne_dot (String.toList_inj.1 hcs)
    · contradiction

theorem isPiece_of_mem_filterMap {pieces : List (List Char)}
    (h : ∀ piece ∈ pieces, '/' ∉ piece) {component : Component}
    (hmem : component ∈ pieces.filterMap ofPiece?) : component.IsPiece := by
  obtain ⟨piece, hpiece, hcomponent⟩ := List.mem_filterMap.1 hmem
  exact isPiece_of_ofPiece? (h piece hpiece) hcomponent

/-! ## Normal forms -/

/-- The steps that are left when a step is taken are the ones before it and the step itself. -/
theorem mem_step {done : List Component} {next component : Component}
    (h : component ∈ step done next) : component ∈ done ∨ component = next ∧ next ≠ current := by
  unfold step at h
  split at h
  · exact .inl h
  · exact .inl (List.mem_cons_of_mem _ h)
  · exact .inl h
  · next hcurrent _ _ =>
    rcases List.mem_cons.1 h with rfl | h
    · exact .inr ⟨rfl, fun hnext => hcurrent hnext⟩
    · exact .inl h

theorem isPiece_of_mem_foldl_step {done components : List Component}
    (hdone : ∀ component ∈ done, component.IsPiece)
    (h : ∀ component ∈ components, component = current ∨ component.IsPiece) :
    ∀ component ∈ components.foldl step done, component.IsPiece := by
  induction components generalizing done with
  | nil => exact hdone
  | cons next components ih =>
    obtain ⟨hnext, hrest⟩ := List.forall_mem_cons.1 h
    refine ih ?_ hrest
    intro component hcomponent
    rcases mem_step hcomponent with hcomponent | ⟨rfl, hcurrent⟩
    · exact hdone component hcomponent
    · exact hnext.resolve_left hcurrent

/-- Steps from the root never leave it. -/
theorem foldl_step_root {done components : List Component}
    (hdone : ∀ component ∈ done, component.IsPiece)
    (h : ∀ component ∈ components, component.IsPiece) :
    ∃ left, (∀ component ∈ left, component.IsPiece) ∧
      components.foldl step (done ++ [root]) = left ++ [root] := by
  induction components generalizing done with
  | nil => exact ⟨done, hdone, rfl⟩
  | cons next components ih =>
    obtain ⟨hnext, hrest⟩ := List.forall_mem_cons.1 h
    obtain ⟨later, hlater, hstep⟩ : ∃ later, (∀ component ∈ later, component.IsPiece) ∧
        step (done ++ [root]) next = later ++ [root] := by
      unfold step
      split
      · exact ⟨done, hdone, rfl⟩
      · next heq =>
        cases done with
        | nil => cases (List.cons.inj heq).1
        | cons first done =>
          obtain ⟨-, rfl⟩ := List.cons.inj heq
          exact ⟨done, (List.forall_mem_cons.1 hdone).2, rfl⟩
      · next heq => exact ⟨done, hdone, heq.symm⟩
      · exact ⟨_ :: done, List.forall_mem_cons.2 ⟨hnext, hdone⟩, rfl⟩
    rw [List.foldl_cons, hstep]
    exact ih hlater hrest

end Component

open Component (Written)

namespace Path

theorem isPiece_of_mem_pieceComponents {s : List Char} {component : Component}
    (h : component ∈ pieceComponents s) : component.IsPiece :=
  Component.isPiece_of_mem_filterMap (fun _ hpiece => Text.notMem_of_mem_pieces hpiece) h

theorem root_notMem_pieceComponents (s : List Char) : .root ∉ pieceComponents s :=
  fun h => (isPiece_of_mem_pieceComponents h).ne_root rfl

theorem written_normalize (p : Path) : Written (Component.normalize p.components) := by
  have hpieces : ∀ component ∈ pieceComponents p.text.toList, component.IsPiece :=
    fun _ => isPiece_of_mem_pieceComponents
  have hnil : ∀ component ∈ ([] : List Component), component.IsPiece := by simp
  rw [components_eq, Component.normalize, List.foldl_append]
  unfold leading
  split
  · obtain ⟨left, hleft, heq⟩ := Component.foldl_step_root hnil hpieces
    have hfold : (pieceComponents p.text.toList).foldl Component.step
        ([Component.root].foldl Component.step []) = left ++ [.root] := heq
    rw [hfold, List.reverse_append]
    exact .absolute fun component hmem => hleft component (List.mem_reverse.1 hmem)
  · -- A dot in front of a relative path takes no step.
    have hfold : ([Component.current].foldl Component.step []) = [] := rfl
    refine .relative fun component hmem => ?_
    refine Component.isPiece_of_mem_foldl_step hnil
      (fun component hmem => .inr (hpieces component hmem)) component ?_
    rw [List.mem_reverse] at hmem
    split at hmem
    · rwa [hfold] at hmem
    · exact hmem

/-! ## Written components -/

/-- How components are written, without the slash of the root. -/
theorem toList_ofComponents_relative {components : List Component}
    (h : ∀ component ∈ components, component.IsPiece) :
    (ofComponents components).text.toList =
      ['/'].intercalate (components.map fun component => component.text.toList) := by
  have hmap : (components.map Component.text).map String.toList =
      components.map fun component => component.text.toList := List.map_map
  cases components with
  | nil => rfl
  | cons first more =>
    have hroot := (h first List.mem_cons_self).ne_root
    unfold ofComponents
    split
    · next heq => exact absurd (List.cons.inj heq).1 hroot
    · rw [String.toList_intercalate, hmap]
      rfl

theorem toList_ofComponents_absolute (components : List Component) :
    (ofComponents (.root :: components)).text.toList =
      '/' :: ['/'].intercalate (components.map fun component => component.text.toList) := by
  have hmap : (components.map Component.text).map String.toList =
      components.map fun component => component.text.toList := List.map_map
  show ("/" ++ "/".intercalate (components.map Component.text)).toList = _
  rw [String.toList_append, String.toList_intercalate, hmap]
  rfl

theorem filterMap_ofPiece?_text {components : List Component}
    (h : ∀ component ∈ components, component.IsPiece) :
    (components.map fun component => component.text.toList).filterMap Component.ofPiece? =
      components := by
  induction components with
  | nil => rfl
  | cons first more ih =>
    obtain ⟨hfirst, hmore⟩ := List.forall_mem_cons.1 h
    rw [List.map_cons, List.filterMap_cons_some hfirst.ofPiece?_eq, ih hmore]

/-- Components that can be written are read back. -/
theorem components_ofComponents {components : List Component} (h : Written components) :
    (ofComponents components).components = components := by
  have hslash {cs : List Component} (hcs : ∀ component ∈ cs, component.IsPiece) :
      ∀ text ∈ cs.map fun component => component.text.toList, '/' ∉ text := by
    intro text htext
    obtain ⟨component, hcomponent, rfl⟩ := List.mem_map.1 htext
    exact (hcs component hcomponent).slash_notMem
  rw [components_eq]
  cases h with
  | relative hpieces =>
    rw [toList_ofComponents_relative hpieces, pieceComponents_intercalate (hslash hpieces),
      filterMap_ofPiece?_text hpieces]
    cases components with
    | nil => rfl
    | cons first more =>
      -- The first piece is neither empty nor a dot, so nothing stands in front of it.
      have hfirst := hpieces first List.mem_cons_self
      have htexts := Text.pieces_intercalate (by simp) (hslash hpieces)
      have hhead : (['/'].intercalate ((first :: more).map
          fun component => component.text.toList)).head? ≠ some '/' := by
        intro hhead
        have hnil := eq_nil_of_head?_eq_slash htexts hhead
        exact hfirst.text_ne_empty (String.toList_eq_nil_iff.1 hnil)
      have hdot : first.text.toList ≠ ['.'] :=
        fun hdot => hfirst.text_ne_dot (String.toList_inj.1 hdot)
      rw [leading_of_pieces htexts hhead]
      exact congrArg (· ++ first :: more) (if_neg hdot)
  | @absolute components hpieces =>
    have hroot (s : List Char) : leading ('/' :: s) ++ pieceComponents ('/' :: s) =
        .root :: pieceComponents s :=
      congrArg (Component.root :: ·) (pieceComponents_append_slash [] s)
    rw [toList_ofComponents_absolute, hroot, pieceComponents_intercalate (hslash hpieces),
      filterMap_ofPiece?_text hpieces]

/-- The written normal form of a path has the normal form of its components. -/
theorem components_normalize (p : Path) :
    p.normalize.components = Component.normalize p.components :=
  components_ofComponents (written_normalize p)

/-! ## The last component -/

/-- One more component is written behind a slash, which the root already ends with. -/
theorem toList_ofComponents_concat {components : List Component} (h : Written components)
    {last : Component} (hlast : last.IsPiece) :
    (ofComponents (components ++ [last])).text.toList =
      (ofComponents components).text.toList ++
        (if components = [] ∨ components = [.root] then [] else ['/']) ++ last.text.toList := by
  have hmap (cs : List Component) : (cs ++ [last]).map (fun component => component.text.toList) =
      cs.map (fun component => component.text.toList) ++ [last.text.toList] := List.map_append
  have hconcat {cs : List Component} (hcs : ∀ component ∈ cs, component.IsPiece) :
      ∀ component ∈ cs ++ [last], component.IsPiece := by
    intro component hcomponent
    rcases List.mem_append.1 hcomponent with hcomponent | hcomponent
    · exact hcs component hcomponent
    · rwa [List.mem_singleton.1 hcomponent]
  cases h with
  | relative hpieces =>
    rw [toList_ofComponents_relative hpieces, toList_ofComponents_relative (hconcat hpieces), hmap]
    by_cases hnil : components = []
    · simp [hnil]
    · have hroot : components ≠ [.root] := by
        rintro rfl
        exact (hpieces .root List.mem_cons_self).ne_root rfl
      rw [if_neg (by simp [hnil, hroot]), Text.intercalate_concat _ (by simpa using hnil)]
  | @absolute components hpieces =>
    rw [List.cons_append, toList_ofComponents_absolute, toList_ofComponents_absolute, hmap]
    by_cases hnil : components = []
    · simp [hnil]
    · rw [if_neg (by simp [hnil]), Text.intercalate_concat _ (by simpa using hnil)]
      rfl

theorem ofComponents_text_ne {components : List Component} (h : Written components)
    {last : Component} (hlast : last.IsPiece) :
    (ofComponents (components ++ [last])).text ≠ "" ∧
      (ofComponents (components ++ [last])).text.toList.getLast? ≠ some '/' := by
  have htext := toList_ofComponents_concat h hlast
  have hne := hlast.toList_text_ne_nil
  constructor
  · intro hempty
    rw [hempty] at htext
    exact hne (List.append_eq_nil_iff.1 htext.symm).2
  · rw [htext, List.getLast?_append_of_ne_nil _ hne]
    intro hslash
    exact hlast.slash_notMem (List.mem_of_getLast? hslash)

end Path

/-- Components that can be written are none, the root alone, or others with a piece behind them. -/
theorem Component.Written.eq_nil_or_root_or_concat {components : List Component}
    (h : Written components) : components = [] ∨ components = [root] ∨
      ∃ front last, components = front ++ [last] ∧ Written front ∧ last.IsPiece := by
  cases h with
  | relative hpieces =>
    rcases List.eq_nil_or_concat' components with hnil | ⟨front, last, hconcat⟩
    · exact .inl hnil
    · rw [hconcat, List.forall_mem_append, List.forall_mem_singleton] at hpieces
      exact .inr (.inr ⟨front, last, hconcat, .relative hpieces.1, hpieces.2⟩)
  | @absolute components hpieces =>
    rcases List.eq_nil_or_concat' components with rfl | ⟨front, last, rfl⟩
    · exact .inr (.inl rfl)
    · rw [List.forall_mem_append, List.forall_mem_singleton] at hpieces
      exact .inr (.inr ⟨root :: front, last, rfl, .absolute hpieces.1, hpieces.2⟩)

theorem Component.Written.concat {components : List Component} (h : Written components)
    {last : Component} (hlast : last.IsPiece) : Written (components ++ [last]) := by
  cases h with
  | relative hpieces =>
    exact .relative (List.forall_mem_append.2 ⟨hpieces, List.forall_mem_singleton.2 hlast⟩)
  | absolute hpieces =>
    exact .absolute (List.forall_mem_append.2 ⟨hpieces, List.forall_mem_singleton.2 hlast⟩)

namespace Path

/-- A path is left for an entry by one more component. -/
theorem join_ofComponents {components : List Component} (h : Written components)
    {last : Component} (hlast : last.IsPiece) :
    (ofComponents components).join ⟨last.text⟩ = ofComponents (components ++ [last]) := by
  have htext : ((ofComponents components).join ⟨last.text⟩).text.toList =
      (ofComponents components).text.toList ++
        (if components = [] ∨ components = [.root] then [] else ['/']) ++ last.text.toList := by
    rw [join, if_neg (by simp [hlast.isAbsolute_text])]
    rcases h.eq_nil_or_root_or_concat with rfl | rfl | ⟨front, before, rfl, hfront, hbefore⟩
    · exact String.toList_append
    · exact String.toList_append
    · obtain ⟨hempty, hslash⟩ := ofComponents_text_ne hfront hbefore
      have hroot : front ++ [before] ≠ [.root] := by
        intro heq
        rw [List.append_eq_singleton_iff] at heq
        simp [hbefore.ne_root] at heq
      rw [if_neg (by simp [hempty, hslash]), if_neg (by simp [hroot])]
      simp
  rw [← toList_ofComponents_concat h hlast, String.toList_inj] at htext
  exact congrArg Path.mk htext

/-- A text that is added to a path belongs to its last component. -/
theorem withSuffix_ofComponents {components : List Component} (h : Written components)
    {last : Component} (hlast : last.IsPiece) {suffix : String}
    (hlonger : (Component.normal (last.text ++ suffix)).IsPiece) :
    (ofComponents (components ++ [last])).withSuffix suffix =
      ofComponents (components ++ [.normal (last.text ++ suffix)]) := by
  have htext : ((ofComponents (components ++ [last])).withSuffix suffix).text.toList =
      (ofComponents (components ++ [.normal (last.text ++ suffix)])).text.toList := by
    rw [toList_ofComponents_concat h hlonger, withSuffix, String.toList_append,
      toList_ofComponents_concat h hlast, List.append_assoc]
    exact congrArg _ String.toList_append.symm
  exact congrArg Path.mk (String.toList_inj.1 htext)

/-- A text that is added to a path without a last name is a name of its own. -/
theorem withSuffix_ofComponents_nameless {components : List Component}
    (h : components = [] ∨ components = [.root]) {suffix : String}
    (hname : (Component.normal suffix).IsPiece) :
    (ofComponents components).withSuffix suffix =
      ofComponents (components ++ [.normal suffix]) := by
  have hwritten : Written components := by
    rcases h with rfl | rfl
    · exact .relative (by simp)
    · exact .absolute (by simp)
  have htext := toList_ofComponents_concat hwritten hname
  rw [if_pos h, List.append_nil] at htext
  exact congrArg Path.mk (String.toList_inj.1 (String.toList_append.trans htext.symm))

end Path

end ViewBundle
