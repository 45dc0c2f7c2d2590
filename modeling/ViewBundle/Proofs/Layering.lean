import Mathlib.Data.List.Basic
import ViewBundle.Configuration
import ViewBundle.Proofs.Outcome
import ViewBundle.Proofs.Registration

/-!
# Layers of configurations

A layer keeps the extensions of the layer below at their places, gives those that it names again
its own compilers, and adds the others behind them (`keys_merge`, `get?_merge`).  Extensions are
told apart by how they are written there, and two of them can be one extension with its dot and
without it; of these the one that comes last counts in the end (`get?_settings`).  Main statement:
which layer gives an extension its compiler (`get?_settings_merge`).
-/

namespace ViewBundle

namespace Dictionary

variable {α : Type}

theorem lookup_eq_none_iff {key : String} {es : List (String × α)} :
    es.lookup key = none ↔ key ∉ es.map Prod.fst := by
  induction es with
  | nil => simp
  | cons e es ih =>
    obtain ⟨k, v⟩ := e
    rw [List.map_cons, List.mem_cons, not_or]
    by_cases h : key = k
    · simp [h]
    · rw [List.lookup_cons, beq_false_of_ne h, ih]
      simp [h]

theorem get?_eq_none_iff {d : Dictionary α} {key : String} :
    d.get? key = none ↔ key ∉ d.keys :=
  lookup_eq_none_iff

/-- Every entry is found under its key. -/
theorem get?_of_mem {d : Dictionary α} {entry : String × α} (h : entry ∈ d.entries) :
    d.get? entry.1 = some entry.2 := by
  obtain ⟨es, hnodup⟩ := d
  show es.lookup entry.1 = some entry.2
  induction es with
  | nil => contradiction
  | cons e es ih =>
    rw [List.map_cons, List.nodup_cons] at hnodup
    rcases List.mem_cons.1 h with rfl | h
    · rw [List.lookup_cons, beq_self_eq_true]
    · have hne : entry.1 ≠ e.1 :=
        fun heq => hnodup.1 (heq ▸ List.mem_map.2 ⟨entry, h, rfl⟩)
      rw [List.lookup_cons, beq_false_of_ne hne, ih hnodup.2 h]

/-! ## Entries put over others -/

/-- New keys come behind all others, in their order. -/
theorem keys_putAll {d : Dictionary α} {pairs : List (String × α)}
    (h : (pairs.map Prod.fst).Nodup) :
    (d.putAll pairs).keys = d.keys ++ (pairs.map Prod.fst).filter (· ∉ d.keys) := by
  induction pairs generalizing d with
  | nil => simp [putAll]
  | cons pair pairs ih =>
    rw [List.map_cons, List.nodup_cons] at h
    -- The key that has just been put is none of those that follow.
    have hrest : (pairs.map Prod.fst).filter (· ∉ (d.put pair.1 pair.2).keys) =
        (pairs.map Prod.fst).filter (· ∉ d.keys) := by
      apply List.filter_congr
      intro key hkey
      have hne : key ≠ pair.1 := fun heq => h.1 (heq ▸ hkey)
      rw [keys_put]
      split
      · rfl
      · simp [hne]
    show ((d.put pair.1 pair.2).putAll pairs).keys = _
    rw [ih h.2, hrest, keys_put, List.map_cons]
    by_cases hkey : pair.1 ∈ d.keys
    · rw [if_pos hkey, List.filter_cons_of_neg (by simpa using hkey)]
    · rw [if_neg hkey, List.filter_cons_of_pos (by simpa using hkey), List.append_assoc,
        List.singleton_append]

theorem get?_putAll {d : Dictionary α} {pairs : List (String × α)}
    (h : (pairs.map Prod.fst).Nodup) (key : String) :
    (d.putAll pairs).get? key = (pairs.lookup key).or (d.get? key) := by
  induction pairs generalizing d with
  | nil => rfl
  | cons pair pairs ih =>
    rw [List.map_cons, List.nodup_cons] at h
    show ((d.put pair.1 pair.2).putAll pairs).get? key = _
    rw [ih h.2, get?_put, List.lookup_cons]
    by_cases hkey : key = pair.1
    · have hnone : pairs.lookup pair.1 = none := lookup_eq_none_iff.2 h.1
      rw [hkey, hnone]
      simp
    · rw [if_neg hkey, beq_false_of_ne hkey]

theorem mem_of_mem_putAll {d : Dictionary α} {pairs : List (String × α)} {entry : String × α}
    (h : entry ∈ (d.putAll pairs).entries) : entry ∈ d.entries ∨ entry ∈ pairs := by
  have hput (key : String) (value : α) (es : List (String × α))
      (hmem : entry ∈ putEntry key value es) : entry = (key, value) ∨ entry ∈ es := by
    induction es with
    | nil => exact .inl (List.mem_singleton.1 hmem)
    | cons e es ih =>
      rw [putEntry] at hmem
      split at hmem
      · exact (List.mem_cons.1 hmem).imp_right (List.mem_cons_of_mem _)
      · rcases List.mem_cons.1 hmem with rfl | hmem
        · exact .inr List.mem_cons_self
        · exact (ih hmem).imp_right (List.mem_cons_of_mem _)
  induction pairs generalizing d with
  | nil => exact .inl h
  | cons pair pairs ih =>
    rcases ih (d := d.put pair.1 pair.2) h with h | h
    · rcases hput _ _ _ h with rfl | h
      · exact .inr List.mem_cons_self
      · exact .inl h
    · exact .inr (List.mem_cons_of_mem _ h)

theorem keys_merge (d overrides : Dictionary α) :
    (d.merge overrides).keys = d.keys ++ overrides.keys.filter (· ∉ d.keys) :=
  keys_putAll overrides.nodup_keys

theorem get?_merge (d overrides : Dictionary α) (key : String) :
    (d.merge overrides).get? key = (overrides.get? key).or (d.get? key) :=
  get?_putAll overrides.nodup_keys key

end Dictionary

namespace Configuration

/-! ## The settings of a configuration -/

theorem exists_addCompilers_eq_ok_iff {settings : Settings Compiler}
    {entries : List (String × String)} :
    (∃ left, addCompilers settings entries = .ok left) ↔
      ∀ entry ∈ entries, ∃ compiler, Compiler.ofName? entry.2 = some compiler := by
  induction entries generalizing settings with
  | nil => simp [addCompilers]
  | cons entry entries ih =>
    obtain ⟨extension, name⟩ := entry
    rw [List.forall_mem_cons]
    cases hname : Compiler.ofName? name with
    | none => simp [addCompilers, hname]
    | some compiler => simp [addCompilers, hname, ih]

/-- Of the entries for an extension the last one counts. -/
theorem get?_of_addCompilers {settings left : Settings Compiler} {entries : List (String × String)}
    (h : addCompilers settings entries = .ok left) (extension : String) :
    left.compilers.get? extension =
      ((entries.filter (dotted ·.1 = extension)).getLast?.bind (Compiler.ofName? ·.2)).or
        (settings.compilers.get? extension) := by
  induction entries generalizing settings with
  | nil =>
    obtain rfl : settings = left := Except.ok.inj h
    rfl
  | cons entry entries ih =>
    obtain ⟨written, name⟩ := entry
    have hknown := exists_addCompilers_eq_ok_iff.1 ⟨left, h⟩
    rw [List.forall_mem_cons] at hknown
    obtain ⟨⟨compiler, hcompiler⟩, hlater⟩ := hknown
    rw [addCompilers, hcompiler] at h
    have hstep : (settings.addCompiler written compiler).compilers.get? extension =
        if extension = dotted written then some compiler
        else settings.compilers.get? extension := Dictionary.get?_put _ _ _ _
    rw [ih h, hstep]
    by_cases hwritten : dotted written = extension
    · rw [if_pos hwritten.symm, List.filter_cons_of_pos (by simpa using hwritten),
        List.getLast?_cons]
      cases hlast : (entries.filter (dotted ·.1 = extension)).getLast? with
      | none => simp [hcompiler]
      | some last =>
        -- The name of a later entry is known, so this one is not asked.
        obtain ⟨other, hother⟩ := hlater last (List.mem_filter.1 (List.mem_of_getLast? hlast)).1
        simp [hother]
    · rw [if_neg (Ne.symm hwritten), List.filter_cons_of_neg (by simpa using hwritten)]

/-- How a configuration writes an extension, in the order of its entries. -/
def spellings (configuration : Configuration) (extension : String) : List String :=
  configuration.compilers.keys.filter (dotted · = extension)

/-- The name of the compiler under the last spelling of an extension. -/
def lastName? (configuration : Configuration) (extension : String) : Option String :=
  (configuration.spellings extension).getLast?.bind configuration.compilers.get?

variable {configuration a b : Configuration} {extension key : String}

theorem mem_spellings_iff :
    key ∈ configuration.spellings extension ↔
      key ∈ configuration.compilers.keys ∧ dotted key = extension := by
  simp [spellings]

theorem get?_of_mem_spellings (h : key ∈ configuration.spellings extension) :
    ∃ name, configuration.compilers.get? key = some name := by
  rw [← Option.ne_none_iff_exists']
  exact mt Dictionary.get?_eq_none_iff.1 (not_not_intro (mem_spellings_iff.1 h).1)

theorem lastName?_eq :
    configuration.lastName? extension =
      (configuration.compilers.entries.filter (dotted ·.1 = extension)).getLast?.map Prod.snd := by
  have hspellings : configuration.spellings extension =
      (configuration.compilers.entries.filter (dotted ·.1 = extension)).map Prod.fst := by
    rw [spellings, Dictionary.keys, List.filter_map]
    rfl
  rw [lastName?, hspellings, List.getLast?_map]
  cases hlast : (configuration.compilers.entries.filter (dotted ·.1 = extension)).getLast? with
  | none => rfl
  | some entry =>
    exact Dictionary.get?_of_mem (List.mem_filter.1 (List.mem_of_getLast? hlast)).1

/-- The module directories of a configuration have no part in its compilers. -/
theorem exists_addCompilers_of_settings {settings : Settings Compiler}
    (h : configuration.settings = .ok settings) :
    ∃ left, addCompilers .standard configuration.compilers.entries = .ok left ∧
      left.compilers = settings.compilers := by
  obtain ⟨left, hleft, rfl⟩ := Outcome.map_eq_ok_iff.1 h
  refine ⟨left, hleft, ?_⟩
  split
  · rfl
  · rfl

/-- The compiler of an extension is named under its last spelling. -/
theorem get?_settings {settings : Settings Compiler} (h : configuration.settings = .ok settings)
    (extension : String) :
    settings.compilers.get? extension =
      ((configuration.lastName? extension).bind Compiler.ofName?).or
        (Compilers.standard.get? extension) := by
  obtain ⟨left, hleft, hcompilers⟩ := exists_addCompilers_of_settings h
  rw [← hcompilers, get?_of_addCompilers hleft, lastName?_eq, Option.bind_map]
  rfl

theorem exists_settings_eq_ok_iff :
    (∃ settings, configuration.settings = .ok settings) ↔
      ∀ entry ∈ configuration.compilers.entries,
        ∃ compiler, Compiler.ofName? entry.2 = some compiler := by
  rw [← exists_addCompilers_eq_ok_iff]
  constructor
  · rintro ⟨settings, h⟩
    obtain ⟨left, hleft, -⟩ := exists_addCompilers_of_settings h
    exact ⟨left, hleft⟩
  · rintro ⟨left, hleft⟩
    exact ⟨_, Outcome.map_eq_ok_iff.2 ⟨left, hleft, rfl⟩⟩

theorem exists_ofName?_of_lastName? {settings : Settings Compiler} {name : String}
    (h : configuration.settings = .ok settings)
    (hname : configuration.lastName? extension = some name) :
    ∃ compiler, Compiler.ofName? name = some compiler := by
  rw [lastName?_eq, Option.map_eq_some_iff] at hname
  obtain ⟨entry, hentry, rfl⟩ := hname
  exact exists_settings_eq_ok_iff.1 ⟨settings, h⟩ entry
    (List.mem_filter.1 (List.mem_of_getLast? hentry)).1

/-! ## Two layers -/

/-- The spellings of the layer below come first, and those that are new to it behind them. -/
theorem spellings_merge (a b : Configuration) (extension : String) :
    (a.merge b).spellings extension =
      a.spellings extension ++ (b.spellings extension).filter (· ∉ a.spellings extension) := by
  show ((a.compilers.merge b.compilers).keys).filter _ = _
  rw [Dictionary.keys_merge, List.filter_append, spellings, spellings, List.filter_filter,
    List.filter_filter]
  congr 1
  apply List.filter_congr
  intro key _
  by_cases hkey : dotted key = extension
  · simp [hkey]
  · simp [hkey]

theorem exists_settings_merge {sa sb : Settings Compiler} (ha : a.settings = .ok sa)
    (hb : b.settings = .ok sb) : ∃ settings, (a.merge b).settings = .ok settings := by
  rw [exists_settings_eq_ok_iff]
  intro entry hentry
  rcases Dictionary.mem_of_mem_putAll hentry with hmem | hmem
  · exact exists_settings_eq_ok_iff.1 ⟨sa, ha⟩ entry hmem
  · exact exists_settings_eq_ok_iff.1 ⟨sb, hb⟩ entry hmem

/-- The last spelling in either layer names the compiler, and the layer above is asked first. -/
theorem lastName?_merge (h : ((a.merge b).spellings extension).getLast? = some key) :
    (a.merge b).lastName? extension = (b.compilers.get? key).or (a.compilers.get? key) := by
  rw [lastName?, h, Option.bind_some]
  exact Dictionary.get?_merge a.compilers b.compilers key

/-- An extension that only the layer below names is left to it. -/
theorem lastName?_merge_of_spellings_eq_nil (h : b.spellings extension = []) :
    (a.merge b).lastName? extension = a.lastName? extension := by
  have hspellings : (a.merge b).spellings extension = a.spellings extension := by
    rw [spellings_merge, h, List.filter_nil, List.append_nil]
  cases hlast : (a.spellings extension).getLast? with
  | none => rw [lastName?, lastName?, hspellings, hlast]; rfl
  | some key =>
    have hkey : b.compilers.get? key = none := by
      rw [Dictionary.get?_eq_none_iff]
      intro hmem
      have hspelled : key ∈ b.spellings extension := mem_spellings_iff.2
        ⟨hmem, (mem_spellings_iff.1 (List.mem_of_getLast? hlast)).2⟩
      rw [h] at hspelled
      contradiction
    rw [lastName?_merge (hspellings ▸ hlast), hkey, Option.none_or, lastName?, hlast]
    rfl

/-- The last spelling of the layer above is that of both layers if it is new to the layer below, or
if it is the last one there and nothing else is new. -/
theorem getLast?_spellings_merge (hlast : (b.spellings extension).getLast? = some key)
    (h : key ∉ a.spellings extension ∨ (a.spellings extension).getLast? = some key ∧
      ∀ other ∈ b.spellings extension, other ∈ a.spellings extension) :
    ((a.merge b).spellings extension).getLast? = some key := by
  rw [spellings_merge]
  rcases h with hnew | ⟨hbelow, hall⟩
  · obtain ⟨front, hfront⟩ := List.getLast?_eq_some_iff.1 hlast
    rw [hfront, List.filter_append, List.filter_cons_of_pos (by simpa using hnew), List.filter_nil,
      ← List.append_assoc, List.getLast?_concat]
  · have hnone : (b.spellings extension).filter (· ∉ a.spellings extension) = [] :=
      List.filter_eq_nil_iff.2 fun other hother => by simpa using hall other hother
    rw [hnone, List.append_nil, hbelow]

/-- Two layers whose compilers are known make settings.  An extension that only the layer below
names keeps the compiler that it has there.  An extension that the layer above names has the
compiler that it has there if the last spelling above is also the last one of both layers.  In any
case the last spelling of both layers counts, under which the layer above is asked first. -/
theorem get?_settings_merge {a b : Configuration} {sa sb : Settings Compiler}
    (ha : a.settings = .ok sa) (hb : b.settings = .ok sb) :
    ∃ settings, (a.merge b).settings = .ok settings ∧ ∀ extension,
      (b.spellings extension = [] →
        settings.compilers.get? extension = sa.compilers.get? extension) ∧
      (∀ key, (b.spellings extension).getLast? = some key →
        key ∉ a.spellings extension ∨ (a.spellings extension).getLast? = some key ∧
          (∀ other ∈ b.spellings extension, other ∈ a.spellings extension) →
        settings.compilers.get? extension = sb.compilers.get? extension) ∧
      ∀ key, (a.spellings extension ++
          (b.spellings extension).filter (· ∉ a.spellings extension)).getLast? = some key →
        settings.compilers.get? extension =
          ((b.compilers.get? key).or (a.compilers.get? key)).bind Compiler.ofName? := by
  obtain ⟨settings, hsettings⟩ := exists_settings_merge ha hb
  refine ⟨settings, hsettings, fun extension => ⟨?_, ?_, ?_⟩⟩
  · intro hnil
    rw [get?_settings hsettings, get?_settings ha, lastName?_merge_of_spellings_eq_nil hnil]
  · intro key hlast hkey
    obtain ⟨name, hname⟩ := get?_of_mem_spellings (List.mem_of_getLast? hlast)
    have habove : b.lastName? extension = some name := by
      rw [lastName?, hlast, Option.bind_some, hname]
    rw [get?_settings hsettings, get?_settings hb,
      lastName?_merge (getLast?_spellings_merge hlast hkey), hname, habove, Option.some_or]
  · intro key hlast
    rw [← spellings_merge] at hlast
    obtain ⟨name, hname⟩ : ∃ name, (a.merge b).lastName? extension = some name := by
      rw [lastName?, hlast, Option.bind_some]
      exact get?_of_mem_spellings (List.mem_of_getLast? hlast)
    obtain ⟨compiler, hcompiler⟩ := exists_ofName?_of_lastName? hsettings hname
    rw [get?_settings hsettings, ← lastName?_merge hlast, hname, Option.bind_some, hcompiler,
      Option.some_or]

/-- One extension, written with its dot and without it. -/
def twoSpellings : Configuration :=
  { empty with compilers := .ofList [(".tpl", "html"), ("tpl", "html")] }

/-- The same extension, written with its dot alone. -/
def dottedSpelling : Configuration :=
  { empty with compilers := .ofList [(".tpl", "view")] }

theorem settings_twoSpellings : twoSpellings.settings =
    .ok (Settings.standard.addCompilers [(".tpl", .html), ("tpl", .html)]) := by
  decide +kernel

theorem settings_dottedSpelling : dottedSpelling.settings =
    .ok (Settings.standard.addCompilers [(".tpl", .view)]) := by
  decide +kernel

/-- The compiler of a layer above counts if the layer below writes the extension as it does, or
writes no such extension, and does not count if the other spelling comes behind. -/
theorem get?_settings_merge_spellings :
    (∃ settings, (dottedSpelling.merge dottedSpelling).settings = .ok settings ∧
      settings.compilers.get? ".tpl" = some .view ∧
      settings.compilers.get? ".html" = some .html) ∧
    ∃ settings, (twoSpellings.merge dottedSpelling).settings = .ok settings ∧
      settings.compilers.get? ".tpl" = some .html := by
  constructor
  · obtain ⟨settings, hsettings, hcompilers⟩ :=
      get?_settings_merge settings_dottedSpelling settings_dottedSpelling
    obtain ⟨-, habove, -⟩ := hcompilers ".tpl"
    obtain ⟨hbelow, -, -⟩ := hcompilers ".html"
    exact ⟨settings, hsettings, habove ".tpl" (by decide) (by decide), hbelow (by decide)⟩
  · obtain ⟨settings, hsettings, hcompilers⟩ :=
      get?_settings_merge settings_twoSpellings settings_dottedSpelling
    obtain ⟨-, -, hlast⟩ := hcompilers ".tpl"
    exact ⟨settings, hsettings, hlast "tpl" (by decide)⟩

/-- A layer above need not give an extension that it names its compiler. -/
theorem not_forall_get?_settings_merge :
    ¬∀ (a b : Configuration) (sa sb settings : Settings Compiler) (extension : String),
      a.settings = .ok sa → b.settings = .ok sb → (a.merge b).settings = .ok settings →
      settings.compilers.get? extension =
        if b.spellings extension = [] then sa.compilers.get? extension
        else sb.compilers.get? extension := by
  intro h
  have hmerged : (twoSpellings.merge dottedSpelling).settings =
      .ok (Settings.standard.addCompilers [(".tpl", .view), ("tpl", .html)]) := by
    decide +kernel
  exact absurd (h _ _ _ _ _ ".tpl" settings_twoSpellings settings_dottedSpelling hmerged)
    (by decide +kernel)

end Configuration

end ViewBundle
