import ViewBundle.Text

/-!
# Reading texts back

A reader takes a value from the start of a text.  What is written in parts is read in parts: if
each part is read wherever it stands, so is the whole (`Reads.bind`).  Main statement: a list that
is written with commas and closed by a mark is read back (`reads_listTo`).
-/

namespace ViewBundle.Text

/-- A way to take a value from the start of a text; it leaves the rest of the text. -/
abbrev Reader := StateT (List Char) Option

/-- The text is read as the value, whatever follows it. -/
structure Reads {α : Type} (read : Reader α) (text : List Char) (value : α) : Prop where
  run_append : ∀ rest, read.run (text ++ rest) = some (value, rest)

/-- Nothing that begins with the text is read. -/
structure Refuses {α : Type} (read : Reader α) (text : List Char) : Prop where
  run_append : ∀ rest, read.run (text ++ rest) = none

namespace Reader

/-- Passes over a text that has to come next. -/
def mark (expected : String) : Reader Unit :=
  fun s => (expected.toList.isPrefixOf? s).map fun rest => ((), rest)

/-- At least one item and at most `most` of them, with commas between them, up to a closing
character. -/
def itemsTo {α : Type} (close : Char) (item : Reader α) : (most : Nat) → Reader (List α)
  | 0 => failure
  | most + 1 => do
    let x ← item
    (do mark (String.singleton close); return [x]) <|>
      (do mark ", "; let xs ← itemsTo close item most; return x :: xs)

/-- Items with commas between them, up to a closing character. -/
def listTo {α : Type} (close : Char) (item : Reader α) : Reader (List α) :=
  (do mark (String.singleton close); return []) <|>
    (do let s ← get; itemsTo close item s.length)

/-- The value of a text that is read to its end. -/
def value? {α : Type} (read : Reader α) (text : List Char) : Option α :=
  match read.run text with
  | some (value, []) => some value
  | _ => none

end Reader

open Reader

variable {α β : Type}

theorem Reads.value? {read : Reader α} {text : List Char} {value : α} (h : Reads read text value) :
    read.value? text = some value := by
  have hrun := h.run_append []
  rw [List.append_nil] at hrun
  rw [Reader.value?, hrun]

theorem reads_pure (value : α) : Reads (pure value) [] value :=
  ⟨fun _ => rfl⟩

theorem Reads.bind {read : Reader α} {next : α → Reader β} {s t : List Char} {a : α} {b : β}
    (hs : Reads read s a) (ht : Reads (next a) t b) : Reads (read >>= next) (s ++ t) b := by
  constructor
  intro rest
  rw [StateT.run_bind, List.append_assoc, hs.run_append (t ++ rest)]
  exact ht.run_append rest

/-- What follows a value that is read to the end is read in place of it. -/
theorem Reads.bind_pure {read : Reader α} {s : List Char} {a : α} (hs : Reads read s a)
    (f : α → β) : Reads (read >>= fun a => pure (f a)) s (f a) := by
  have h : Reads (read >>= fun a => pure (f a)) (s ++ []) (f a) := hs.bind (reads_pure (f a))
  rwa [List.append_nil] at h

theorem reads_mark (expected : String) : Reads (mark expected) expected.toList () := by
  constructor
  intro rest
  show (expected.toList.isPrefixOf? (expected.toList ++ rest)).map _ = _
  rw [isPrefixOf?_append]
  rfl

theorem refuses_mark {expected : String} {first c : Char}
    (hfirst : expected.toList.head? = some first) (hne : first ≠ c) (text : List Char) :
    Refuses (mark expected) (c :: text) := by
  constructor
  intro rest
  obtain ⟨more, hmore⟩ : ∃ more, expected.toList = first :: more :=
    List.head?_eq_some_iff.1 hfirst
  show (expected.toList.isPrefixOf? (c :: (text ++ rest))).map _ = none
  rw [hmore, isPrefixOf?_cons_cons, if_neg (by simpa using hne)]
  rfl

theorem refuses_mark_of_isPrefixOf? {expected : String} {text : List Char}
    (h : ∀ rest, expected.toList.isPrefixOf? (text ++ rest) = none) :
    Refuses (mark expected) text := by
  constructor
  intro rest
  show (expected.toList.isPrefixOf? (text ++ rest)).map _ = none
  rw [h rest]
  rfl

theorem Refuses.bind {read : Reader α} {text : List Char} (h : Refuses read text)
    (next : α → Reader β) : Refuses (read >>= next) text := by
  constructor
  intro rest
  rw [StateT.run_bind, h.run_append rest]
  rfl

theorem Reads.orElse_left {read : Reader α} {text : List Char} {value : α}
    (h : Reads read text value) (other : Reader α) : Reads (read <|> other) text value := by
  constructor
  intro rest
  show (read.run (text ++ rest)).orElse (fun _ => other.run (text ++ rest)) = _
  rw [h.run_append rest]
  rfl

theorem Reads.orElse_right {read other : Reader α} {text : List Char} {value : α}
    (h : Reads read text value) (hother : Refuses other text) :
    Reads (other <|> read) text value := by
  constructor
  intro rest
  show (other.run (text ++ rest)).orElse (fun _ => read.run (text ++ rest)) = _
  rw [hother.run_append rest]
  exact h.run_append rest

/-! ## Lists -/

theorem forall_mem_intercalate {p : Char → Prop} {sep : List Char} (hsep : ∀ c ∈ sep, p c)
    {texts : List (List Char)} (h : ∀ text ∈ texts, ∀ c ∈ text, p c) :
    ∀ c ∈ sep.intercalate texts, p c := by
  induction texts with
  | nil => simp
  | cons text texts ih =>
    obtain ⟨htext, hmore⟩ := List.forall_mem_cons.1 h
    cases texts with
    | nil => simpa using htext
    | cons next more =>
      rw [List.intercalate_cons_cons, List.forall_mem_append, List.forall_mem_append]
      exact ⟨⟨htext, hsep⟩, ih hmore⟩

theorem length_le_length_intercalate {sep : List Char} (hsep : sep ≠ [])
    (texts : List (List Char)) :
    texts.length ≤ (sep.intercalate texts).length + 1 := by
  induction texts with
  | nil => simp
  | cons text texts ih =>
    cases texts with
    | nil => simp
    | cons next more =>
      have hpos : 0 < sep.length := List.length_pos_iff.2 hsep
      rw [List.intercalate_cons_cons, List.length_append, List.length_append, List.length_cons]
      omega

theorem reads_itemsTo {close : Char} (hclose : close ≠ ',') {item : Reader α}
    {print : α → List Char} {xs : List α} (hne : xs ≠ []) {most : Nat} (hmost : xs.length ≤ most)
    (hitem : ∀ x ∈ xs, Reads item (print x) x) :
    Reads (itemsTo close item most) (", ".toList.intercalate (xs.map print) ++ [close]) xs := by
  induction xs generalizing most with
  | nil => contradiction
  | cons x xs ih =>
    cases most with
    | zero => simp at hmost
    | succ most =>
      have hx : Reads item (print x) x := hitem x (by simp)
      -- Behind the last item stands the closing character, and behind any other one a comma.
      cases xs with
      | nil =>
        have hmark := (reads_mark (String.singleton close)).bind_pure fun _ => [x]
        rw [List.map_cons, List.map_nil, List.intercalate_singleton]
        refine hx.bind (Reads.orElse_left ?_ _)
        rwa [String.toList_singleton] at hmark
      | cons y ys =>
        have hlength : (y :: ys).length ≤ most := by simpa using hmost
        have hmore := ih (by simp) hlength fun z hz => hitem z (List.mem_cons_of_mem x hz)
        have hrefuse : Refuses (mark (String.singleton close))
            (',' :: ' ' :: (", ".toList.intercalate ((y :: ys).map print) ++ [close])) :=
          refuses_mark (by simp) hclose _
        rw [List.map_cons, List.map_cons, List.intercalate_cons_cons, ← List.map_cons,
          List.append_assoc, List.append_assoc]
        refine hx.bind (Reads.orElse_right ?_ (hrefuse.bind _))
        exact (reads_mark ", ").bind (hmore.bind_pure (x :: ·))

/-- Items that are written with commas between them, and closed by a character that none of them
begins with, are read back. -/
theorem reads_listTo {close : Char} (hclose : close ≠ ',') {item : Reader α}
    {print : α → List Char} {xs : List α} (hitem : ∀ x ∈ xs, Reads item (print x) x)
    (hfirst : ∀ x ∈ xs, ∃ c text, print x = c :: text ∧ close ≠ c) :
    Reads (listTo close item) (", ".toList.intercalate (xs.map print) ++ [close]) xs := by
  cases xs with
  | nil =>
    have hmark := (reads_mark (String.singleton close)).bind_pure fun _ => ([] : List α)
    rw [String.toList_singleton] at hmark
    exact hmark.orElse_left _
  | cons x xs =>
    have hrefuse : Refuses (mark (String.singleton close))
        (", ".toList.intercalate ((x :: xs).map print) ++ [close]) := by
      obtain ⟨c, text, hprint, hne⟩ := hfirst x (by simp)
      cases xs with
      | nil =>
        rw [List.map_cons, List.map_nil, List.intercalate_singleton, hprint]
        exact refuses_mark (by simp) hne _
      | cons y ys =>
        rw [List.map_cons, List.map_cons, List.intercalate_cons_cons, hprint]
        exact refuses_mark (by simp) hne _
    refine Reads.orElse_right ⟨fun rest => ?_⟩ (hrefuse.bind _)
    -- There is a comma between any two items, so the text is at least as long as the list.
    have hcomma : ", ".toList ≠ [] := by simp
    have hlength := length_le_length_intercalate hcomma ((x :: xs).map print)
    rw [List.length_map] at hlength
    have hmost : (x :: xs).length ≤
        (", ".toList.intercalate ((x :: xs).map print) ++ [close] ++ rest).length := by
      rw [List.length_append, List.length_append, List.length_singleton]
      omega
    exact (reads_itemsTo hclose (by simp) hmost hitem).run_append rest

/-! ## Readers that read more -/

/-- Whatever one reader reads, another one reads as well, as a value that goes with the value. -/
structure Refines (read : Reader α) (other : Reader β) (f : α → β) : Prop where
  run_eq_some : ∀ s a rest, read.run s = some (a, rest) → other.run s = some (f a, rest)

theorem Refines.reads {read : Reader α} {other : Reader β} {f : α → β}
    (h : Refines read other f) {text : List Char} {a : α} (hread : Reads read text a) :
    Reads other text (f a) :=
  ⟨fun rest => h.run_eq_some _ _ _ (hread.run_append rest)⟩

theorem Refines.bind {γ δ : Type} {read : Reader α} {other : Reader β} {f : α → β}
    {next : α → Reader γ} {further : β → Reader δ} {g : γ → δ} (h : Refines read other f)
    (hnext : ∀ a, Refines (next a) (further (f a)) g) :
    Refines (read >>= next) (other >>= further) g := by
  constructor
  intro s c rest hrun
  rw [StateT.run_bind] at hrun ⊢
  obtain ⟨⟨a, left⟩, hread, hmore⟩ := Option.bind_eq_some_iff.1 hrun
  rw [h.run_eq_some s a left hread]
  exact (hnext a).run_eq_some left c rest hmore

/-- A choice is refined if the first readers succeed on the same texts. -/
theorem Refines.orElse {read later : Reader α} {other further : Reader β} {f : α → β}
    (h : ∀ s, other.run s = (read.run s).map fun (a, rest) => (f a, rest))
    (hlater : Refines later further f) : Refines (read <|> later) (other <|> further) f := by
  constructor
  intro s a rest hrun
  change (read.run s).orElse (fun _ => later.run s) = _ at hrun
  change (other.run s).orElse (fun _ => further.run s) = _
  rw [h s]
  cases hread : read.run s with
  | none =>
    rw [hread] at hrun
    exact hlater.run_eq_some s a rest hrun
  | some result =>
    rw [hread] at hrun
    obtain rfl := Option.some.inj hrun
    rfl

theorem Refines.refl (read : Reader α) : Refines read read id :=
  ⟨fun _ _ _ h => h⟩

/-- A closing character, with the same answer whenever it is read. -/
theorem run_mark_pure (expected : String) (f : α → β) (a : α) (s : List Char) :
    (do mark expected; return f a : Reader β).run s =
      ((do mark expected; return a : Reader α).run s).map fun (a, rest) => (f a, rest) := by
  rw [StateT.run_bind, StateT.run_bind]
  cases (mark expected).run s <;> rfl

theorem Refines.itemsTo {item : Reader α} {other : Reader β} {f : α → β}
    (h : Refines item other f) (close : Char) (most : Nat) :
    Refines (itemsTo close item most) (itemsTo close other most) (List.map f) := by
  induction most with
  | zero => exact ⟨fun _ _ _ hrun => by cases hrun⟩
  | succ most ih =>
    refine h.bind fun x => Refines.orElse (run_mark_pure _ (List.map f) [x]) ?_
    refine (Refines.refl (mark ", ")).bind fun _ => ih.bind fun xs => ?_
    exact ⟨fun s a rest hrun => by cases hrun; rfl⟩

theorem Refines.listTo {item : Reader α} {other : Reader β} {f : α → β}
    (h : Refines item other f) (close : Char) :
    Refines (listTo close item) (listTo close other) (List.map f) := by
  refine Refines.orElse (run_mark_pure _ (List.map f) []) ?_
  exact (Refines.refl get).bind fun s => h.itemsTo close s.length

/-! ## Lines -/

theorem pieces_append_cons {sep : Char} {piece : List Char} (h : sep ∉ piece)
    (rest : List Char) : pieces sep (piece ++ sep :: rest) = piece :: pieces sep rest := by
  induction piece with
  | nil => simp [pieces]
  | cons c cs ih =>
    have hne : c ≠ sep := fun hc => h (by simp [hc])
    have hcs : sep ∉ cs := fun hc => h (List.mem_cons_of_mem c hc)
    rw [List.cons_append, pieces, if_neg hne, ih hcs]

/-- Texts that are each ended by a separator are the pieces between the separators, and no text
follows the last one. -/
theorem pieces_flatMap {sep : Char} {texts : List (List Char)} (h : ∀ text ∈ texts, sep ∉ text) :
    pieces sep (texts.flatMap (· ++ [sep])) = texts ++ [[]] := by
  induction texts with
  | nil => rfl
  | cons text texts ih =>
    have htext : sep ∉ text := h text (by simp)
    have hmore := ih fun other hother => h other (List.mem_cons_of_mem text hother)
    rw [List.flatMap_cons, List.append_assoc, List.singleton_append, pieces_append_cons htext,
      hmore, List.cons_append]

theorem linesOfPieces_concat (ps : List (List Char)) (last : List Char) :
    linesOfPieces (ps ++ [last]) = ps.map dropReturn ++ if last = [] then [] else [last] := by
  induction ps with
  | nil => rfl
  | cons piece ps ih =>
    obtain ⟨next, more, hmore⟩ := List.exists_cons_of_ne_nil (l := ps ++ [last]) (by simp)
    rw [List.cons_append, hmore]
    show dropReturn piece :: linesOfPieces (next :: more) = _
    rw [← hmore, ih]
    rfl

theorem dropReturn_sublist (line : List Char) : (dropReturn line).Sublist line := by
  unfold dropReturn
  split
  · exact List.dropLast_sublist line
  · exact List.Sublist.refl line

theorem dropReturn_eq_self_iff (line : List Char) :
    dropReturn line = line ↔ line.getLast? ≠ some '\r' := by
  unfold dropReturn
  split
  · next hlast =>
    refine iff_of_false (fun h => ?_) (not_not_intro hlast)
    obtain ⟨front, rfl⟩ := List.getLast?_eq_some_iff.1 hlast
    simp at h
  · next hlast => exact iff_of_true rfl hlast

theorem newline_notMem_of_mem_lines {s line : List Char} (h : line ∈ lines s) : '\n' ∉ line := by
  obtain ⟨ps, last, hpieces⟩ : ∃ ps last, pieces '\n' s = ps ++ [last] :=
    ⟨_, _, (List.dropLast_concat_getLast (pieces_ne_nil '\n' s)).symm⟩
  have hfree : ∀ piece ∈ ps ++ [last], '\n' ∉ piece := fun piece hpiece =>
    notMem_of_mem_pieces (hpieces ▸ hpiece)
  rw [lines, hpieces, linesOfPieces_concat] at h
  rcases List.mem_append.1 h with hmem | hmem
  · obtain ⟨piece, hpiece, rfl⟩ := List.mem_map.1 hmem
    exact fun hnewline => hfree piece (List.mem_append_left _ hpiece)
      ((dropReturn_sublist piece).mem hnewline)
  · refine hfree line (List.mem_append_right _ ?_)
    split at hmem
    · simp at hmem
    · exact hmem

/-- Texts that are each ended by a line feed are the lines of their join if they hold no line feed,
and no carriage return that is taken for a part of their line end. -/
theorem lines_flatMap_iff (texts : List (List Char)) :
    lines (texts.flatMap (· ++ ['\n'])) = texts ↔
      ∀ text ∈ texts, '\n' ∉ text ∧ text.getLast? ≠ some '\r' := by
  have hlines (hfree : ∀ text ∈ texts, '\n' ∉ text) :
      lines (texts.flatMap (· ++ ['\n'])) = texts.map dropReturn := by
    rw [lines, pieces_flatMap hfree, linesOfPieces_concat, if_pos rfl, List.append_nil]
  constructor
  · intro h
    have hfree : ∀ text ∈ texts, '\n' ∉ text := fun text htext =>
      newline_notMem_of_mem_lines (h.symm ▸ htext)
    rw [hlines hfree] at h
    have hself := List.map_inj_left.1 (h.trans (List.map_id texts).symm)
    exact fun text htext => ⟨hfree text htext, (dropReturn_eq_self_iff text).1 (hself text htext)⟩
  · intro h
    rw [hlines fun text htext => (h text htext).1]
    have hself : ∀ text ∈ texts, dropReturn text = id text := fun text htext =>
      (dropReturn_eq_self_iff text).2 (h text htext).2
    rw [List.map_congr_left hself, List.map_id]

end ViewBundle.Text
