import ViewBundle.Proofs.Layering

/-!
# Grouping of layers

A dictionary is known from its keys and from what is found under each of them
(`Dictionary.eq_of_keys_of_get?`), and both of these are put over one another in the same way
however three layers are grouped (`Dictionary.merge_assoc`).  So layers of configurations can be
merged in any grouping, and a layer that asks for nothing can be left out.  Main statement:
`Configuration.merge_grouping`.
-/

namespace ViewBundle

namespace Dictionary

variable {α : Type}

theorem eq_of_keys_of_get? {d e : Dictionary α} (hkeys : d.keys = e.keys)
    (hvalues : ∀ key, d.get? key = e.get? key) : d = e := by
  have hentries (f : Dictionary α) : f.entries.map (fun entry => (entry.1, some entry.2)) =
      f.keys.map fun key => (key, f.get? key) := by
    rw [keys, List.map_map]
    apply List.map_congr_left
    intro entry hentry
    exact congrArg (Prod.mk entry.1) (get?_of_mem hentry).symm
  have hmap : d.entries.map (fun entry => (entry.1, some entry.2)) =
      e.entries.map fun entry => (entry.1, some entry.2) := by
    rw [hentries, hentries, hkeys]
    exact List.map_congr_left fun key _ => congrArg (Prod.mk key) (hvalues key)
  have hinjective : Function.Injective fun entry : String × α => (entry.1, some entry.2) := by
    rintro ⟨key, value⟩ ⟨other, otherValue⟩ h
    simpa using h
  obtain ⟨entries, _⟩ := d
  obtain rfl : entries = e.entries := hinjective.list_map hmap
  rfl

theorem keys_merge_assoc (a b c : Dictionary α) :
    ((a.merge b).merge c).keys = (a.merge (b.merge c)).keys := by
  rw [keys_merge, keys_merge, keys_merge, keys_merge, List.filter_append, List.append_assoc,
    List.filter_filter]
  congr 2
  apply List.filter_congr
  intro key _
  -- A key of the top layer is new if it is new to both layers below it.
  simp only [List.mem_append, List.mem_filter, decide_eq_true_eq, ← Bool.decide_and]
  apply decide_eq_decide.2
  by_cases hkey : key ∈ a.keys
  · simp [hkey]
  · simp [hkey]

theorem merge_assoc (a b c : Dictionary α) :
    (a.merge b).merge c = a.merge (b.merge c) := by
  refine eq_of_keys_of_get? (keys_merge_assoc a b c) fun key => ?_
  rw [get?_merge, get?_merge, get?_merge, get?_merge, Option.or_assoc]

theorem merge_empty (d : Dictionary α) : d.merge empty = d := rfl

theorem empty_merge (d : Dictionary α) : empty.merge d = d := by
  refine eq_of_keys_of_get? ?_ fun key => ?_
  · rw [keys_merge]
    exact List.filter_eq_self.2 fun key _ => rfl
  · rw [get?_merge]
    exact Option.or_none

end Dictionary

/-- Layers of configurations in some grouping. -/
inductive Layering where
  /-- No layer. -/
  | none
  /-- A layer by itself. -/
  | single (configuration : Configuration)
  /-- The layers of `above` over those of `below`. -/
  | stacked (below above : Layering)

namespace Layering

/-- The layers from the lowest one up. -/
def layers : Layering → List Configuration
  | none => []
  | single configuration => [configuration]
  | stacked below above => below.layers ++ above.layers

/-- The configuration that the layers make when they are merged as they are grouped. -/
def merged : Layering → Configuration
  | none => .empty
  | single configuration => configuration
  | stacked below above => below.merged.merge above.merged

end Layering

namespace Configuration

theorem merge_assoc (a b c : Configuration) :
    (a.merge b).merge c = a.merge (b.merge c) := by
  simp only [merge, Option.or_assoc, Dictionary.merge_assoc]

theorem merge_empty (a : Configuration) : a.merge empty = a := by
  simp only [merge, empty, Option.none_or, Dictionary.merge_empty]

theorem empty_merge (a : Configuration) : empty.merge a = a := by
  simp only [merge, empty, Option.or_none, Dictionary.empty_merge]

/-- The lowest layer can be merged last. -/
theorem foldl_merge (a : Configuration) (layers : List Configuration) :
    layers.foldl merge a = a.merge (layers.foldl merge empty) := by
  induction layers generalizing a with
  | nil => exact (merge_empty a).symm
  | cons next layers ih =>
    rw [List.foldl_cons, List.foldl_cons, ih (a.merge next), ih (empty.merge next), empty_merge,
      merge_assoc]

theorem merged_eq_foldl (layering : Layering) :
    layering.merged = layering.layers.foldl merge empty := by
  induction layering with
  | none => rfl
  | single configuration => exact (empty_merge configuration).symm
  | stacked below above hbelow habove =>
    rw [Layering.merged, Layering.layers, hbelow, habove, List.foldl_append, ← foldl_merge]

/-- Configurations, with the order of their compilers, are a monoid under layering.  So layers that
are grouped in any way make the configuration that they make when they are merged one by one, from
the lowest one up. -/
theorem merge_grouping :
    (∀ a b c : Configuration, (a.merge b).merge c = a.merge (b.merge c)) ∧
      (∀ a : Configuration, a.merge empty = a ∧ empty.merge a = a) ∧
      ∀ layering : Layering, layering.merged = layering.layers.foldl merge empty :=
  ⟨merge_assoc, fun a => ⟨merge_empty a, empty_merge a⟩, merged_eq_foldl⟩

end Configuration

end ViewBundle
