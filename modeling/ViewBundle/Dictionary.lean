/-!
# Dictionaries

Values under text keys, in the order in which the keys first came.  A key that comes again keeps
its place and takes the new value.  Main statements: the keys after `put` (`keys_put`), the value
that a key has after `put` (`get?_put`).
-/

namespace ViewBundle

/-- Values under pairwise different keys, in the order of the keys' first entry. -/
structure Dictionary (α : Type) where
  entries : List (String × α)
  nodup_keys : (entries.map Prod.fst).Nodup
  deriving DecidableEq

namespace Dictionary

variable {α : Type}

/-- Replaces the value of the entry with this key, or adds an entry at the end. -/
def putEntry (key : String) (value : α) : List (String × α) → List (String × α)
  | [] => [(key, value)]
  | entry :: rest =>
    if entry.1 = key then (key, value) :: rest else entry :: putEntry key value rest

theorem keys_putEntry (key : String) (value : α) (es : List (String × α)) :
    (putEntry key value es).map Prod.fst =
      if key ∈ es.map Prod.fst then es.map Prod.fst else es.map Prod.fst ++ [key] := by
  induction es with
  | nil => simp [putEntry]
  | cons e es ih =>
    by_cases he : e.1 = key
    · simp [putEntry, he]
    · have hk : key ≠ e.1 := Ne.symm he
      by_cases hm : key ∈ es.map Prod.fst
      · simp only [putEntry, he, if_false, List.map_cons, ih, hm, if_true, List.mem_cons, or_true]
      · simp only [putEntry, he, if_false, List.map_cons, ih, hm, List.mem_cons, hk, or_self,
          List.cons_append]

theorem nodup_keys_putEntry (key : String) (value : α) {es : List (String × α)}
    (h : (es.map Prod.fst).Nodup) : ((putEntry key value es).map Prod.fst).Nodup := by
  rw [keys_putEntry]
  split
  · exact h
  · next hk =>
    refine List.nodup_append.2 ⟨h, by simp, ?_⟩
    intro a ha b hb
    rcases List.mem_singleton.1 hb with rfl
    exact fun hab => hk (hab ▸ ha)

/-- The dictionary without entries. -/
def empty : Dictionary α :=
  ⟨[], by simp⟩

/-- The keys in the order of their first entry. -/
def keys (d : Dictionary α) : List String :=
  d.entries.map Prod.fst

/-- The value under a key. -/
def get? (d : Dictionary α) (key : String) : Option α :=
  d.entries.lookup key

/-- Whether a key has a value. -/
def contains (d : Dictionary α) (key : String) : Bool :=
  d.keys.contains key

/-- Gives a key its value; a key that is there keeps its place. -/
def put (d : Dictionary α) (key : String) (value : α) : Dictionary α :=
  ⟨putEntry key value d.entries, nodup_keys_putEntry key value d.nodup_keys⟩

/-- Puts every pair in order. -/
def putAll (d : Dictionary α) (pairs : List (String × α)) : Dictionary α :=
  pairs.foldl (fun d pair => d.put pair.1 pair.2) d

/-- The dictionary that the pairs leave when they are put in order. -/
def ofList (pairs : List (String × α)) : Dictionary α :=
  empty.putAll pairs

/-- The entries of `d` with those of `overrides` put over them. -/
def merge (d overrides : Dictionary α) : Dictionary α :=
  d.putAll overrides.entries

theorem keys_put (d : Dictionary α) (key : String) (value : α) :
    (d.put key value).keys = if key ∈ d.keys then d.keys else d.keys ++ [key] :=
  keys_putEntry key value d.entries

theorem lookup_putEntry (key other : String) (value : α) (es : List (String × α)) :
    (putEntry key value es).lookup other = if other = key then some value else es.lookup other := by
  induction es with
  | nil =>
    by_cases h : other = key
    · simp [putEntry, h]
    · simp [putEntry, h, List.lookup_cons, beq_false_of_ne h]
  | cons e es ih =>
    obtain ⟨k, v⟩ := e
    by_cases hk : k = key
    · subst hk
      by_cases h : other = k
      · simp [putEntry, h]
      · simp [putEntry, h, List.lookup_cons, beq_false_of_ne h]
    · by_cases h : other = k
      · subst h
        simp [putEntry, hk]
      · simp [putEntry, hk, List.lookup_cons, beq_false_of_ne h, ih]

theorem get?_put (d : Dictionary α) (key other : String) (value : α) :
    (d.put key value).get? other = if other = key then some value else d.get? other :=
  lookup_putEntry key other value d.entries

end Dictionary

end ViewBundle
