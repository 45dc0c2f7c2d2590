import ViewBundle.Proofs.BodyEnd
import ViewBundle.Proofs.ImportGraph

/-!
# What a view file declares

A view file can be read off its tokens.  Three tests of a tag's name have to agree on this: the one
that gives the tag an opaque body, the one that takes it for a view's tag, and the one that takes it
for an import tag.  They do, so that every tag of a view stands before its own body
(`exists_body_of_mem_starts`).  A fault of a start tag depends on that tag alone, and the first
fault ends the reading; without a fault every start tag declares one view or asks for one import.
Main statement: `ViewFile.parse_starts`.
-/

namespace ViewBundle

namespace ViewFile

open Markup (Token)

/-- A start tag, with the tokens behind it. -/
structure Start where
  source : String
  name : String
  attributes : Markup.Attributes
  after : List Token

/-- The start tags among tokens. -/
def starts : List Token → List Start
  | [] => []
  | .opening source name attributes :: more => ⟨source, name, attributes, more⟩ :: starts more
  | _ :: more => starts more

namespace Start

variable {κ σ : Type} [FileStore σ]

/-- Whether a start tag imports a file. -/
def isImport (start : Start) : Bool :=
  start.name == "import:"

/-- What is wrong with a start tag of a view file, if anything is: it is no tag of a view, or it is
an import tag without a reference or with one that stands for no file. -/
def fault? (settings : Settings κ) (store : σ) (origin : Origin) (start : Start) : Option Failure :=
  if !Markup.isViewTag start.name then some (.malformedTag start.source origin.file)
  else if start.isImport then
    match start.attributes.get? "src" with
    | none => some (.missingAttribute start.source "src" origin.file)
    | some reference =>
      match settings.resolve? store reference origin.directory with
      | none => some (.fileNotFound reference origin.directory)
      | some _ => none
  else none

/-- An import is the one that a start tag asks for: of the file that its reference stands for, under
the name that the tag gives it, or else under the base name of the reference. -/
def AsksFor (settings : Settings κ) (store : σ) (origin : Origin) (start : Start) (entry : Import) :
    Prop :=
  ∃ reference, start.attributes.get? "src" = some reference ∧
    settings.resolve? store reference origin.directory = some entry.file ∧
    entry.scope = nestedScope origin.scope
      ((start.attributes.get? "ns").getD (baseName reference entry.file.dottedExtension))

/-- A view is the one that a start tag declares: it has the tag's name without the colon, its
attributes, and the body behind it. -/
def Declares (origin : Origin) (start : Start) (view : View) : Prop :=
  ∃ stem, start.name = stem ++ ":" ∧ view.name = qualified origin.scope stem ∧
    (∃ more, start.after = .body view.source :: more) ∧ view.options = start.attributes ∧
    view.file = origin.file

end Start

/-- What start tags declare: one import for each import tag and one view for each other tag, both in
the order of the tags. -/
structure DeclaredBy {κ σ : Type} [FileStore σ] (settings : Settings κ) (store : σ)
    (origin : Origin) (tags : List Start) (contents : ViewFile) : Prop where
  imports : List.Forall₂ (Start.AsksFor settings store origin) (tags.filter (·.isImport))
    contents.imports
  views : List.Forall₂ (Start.Declares origin) (tags.filter (!·.isImport)) contents.views

/-! ## Tags and their bodies -/

/-- Tokens in which a body stands behind a start tag and nowhere else, and no start tag lacks a
body that has to have one. -/
inductive Paired (isOpaque : String → Bool) : List Token → Prop
  | nil : Paired isOpaque []
  | tagAndBody (source name : String) (attributes : Markup.Attributes) (text : String)
      {more : List Token} (hmore : Paired isOpaque more) :
      Paired isOpaque (.opening source name attributes :: .body text :: more)
  | tag (source : String) {name : String} (attributes : Markup.Attributes) {more : List Token}
      (hname : isOpaque name = false) (hmore : Paired isOpaque more) :
      Paired isOpaque (.opening source name attributes :: more)
  | other {token : Token} {more : List Token}
      (htag : ∀ source name attributes, token ≠ .opening source name attributes)
      (hbody : ∀ text, token ≠ .body text) (hmore : Paired isOpaque more) :
      Paired isOpaque (token :: more)

theorem paired_ofChars (isOpaque : String → Bool) (s : List Char) :
    Paired isOpaque (Token.ofChars isOpaque s) := by
  induction s using Token.ofChars_induction isOpaque with
  | nil => exact .nil
  | append s front rest hform ih =>
    cases hform with
    | silent => exact .other (by simp) (by simp) ih
    | closing => exact .other (by simp) (by simp) ih
    | tag attributes hs hname => exact .tag _ attributes hname ih
    | tagAndBody attributes => exact .tagAndBody _ _ attributes _ ih
    | plain => exact .other (by simp) (by simp) ih

/-- Comments and declarations stand between the pairs. -/
theorem Paired.filter_isEvent {isOpaque : String → Bool} {tokens : List Token}
    (h : Paired isOpaque tokens) : Paired isOpaque (tokens.filter Token.isEvent) := by
  induction h with
  | nil => exact .nil
  | tagAndBody source name attributes text _ ih => exact .tagAndBody source name attributes text ih
  | tag source attributes hname _ ih => exact .tag source attributes hname ih
  | @other token more htag hbody _ ih =>
    rw [List.filter_cons]
    split
    · exact .other htag hbody ih
    · exact ih

theorem Paired.head?_ne_body {isOpaque : String → Bool} {tokens : List Token}
    (h : Paired isOpaque tokens) (text : String) : tokens.head? ≠ some (.body text) := by
  cases h with
  | nil => simp
  | tagAndBody => simp
  | tag => simp
  | other _ hbody _ =>
    rw [List.head?_cons]
    exact fun heq => hbody text (Option.some.inj heq)

theorem starts_of_ne {token : Token}
    (h : ∀ source name attributes, token ≠ .opening source name attributes) (more : List Token) :
    starts (token :: more) = starts more := by
  cases token with
  | opening source name attributes => exact absurd rfl (h source name attributes)
  | _ => rfl

/-- A start tag that has to have a body stands before exactly one. -/
theorem Paired.exists_body_of_mem_starts {isOpaque : String → Bool} {tokens : List Token}
    (h : Paired isOpaque tokens) {start : Start} (hstart : start ∈ starts tokens)
    (hname : isOpaque start.name = true) :
    ∃ text more, start.after = .body text :: more ∧ ∀ text', more.head? ≠ some (.body text') := by
  induction h with
  | nil => cases hstart
  | @tagAndBody source name attributes text more hmore ih =>
    rcases List.mem_cons.1 hstart with rfl | hstart
    · exact ⟨text, more, rfl, hmore.head?_ne_body⟩
    · exact ih hstart
  | tag source attributes hnone hmore ih =>
    rcases List.mem_cons.1 hstart with rfl | hstart
    · rw [hnone] at hname
      contradiction
    · exact ih hstart
  | other htag hbody hmore ih =>
    rw [starts_of_ne htag] at hstart
    exact ih hstart

/-! ## Faults and declarations, tag by tag -/

variable {κ σ : Type} [FileStore σ] {settings : Settings κ} {store : σ} {origin : Origin}

theorem DeclaredBy.append {tags tags' : List Start} {imports imports' : List Import}
    {views views' : List View} (h : DeclaredBy settings store origin tags ⟨imports, views⟩)
    (h' : DeclaredBy settings store origin tags' ⟨imports', views'⟩) :
    DeclaredBy settings store origin (tags ++ tags') ⟨imports ++ imports', views ++ views'⟩ where
  imports := by
    rw [List.filter_append]
    exact List.rel_append h.imports h'.imports
  views := by
    rw [List.filter_append]
    exact List.rel_append h.views h'.views

variable {stem : List Char}

theorem isImport_iff_of_viewStem? {start : Start}
    (hstem : Markup.viewStem? start.name.toList = some stem) :
    start.isImport ↔ stem = importStem := by
  rw [Start.isImport, beq_iff_eq, ← viewStem?_eq_importStem_iff, hstem, Option.some_inj]

theorem isViewTag_of_viewStem? {start : Start}
    (hstem : Markup.viewStem? start.name.toList = some stem) :
    Markup.isViewTag start.name = true := by
  rw [Markup.isViewTag, hstem, Option.isSome_some]

theorem fault?_eq_malformedTag (start : Start)
    (hstem : Markup.viewStem? start.name.toList = none) :
    start.fault? settings store origin = some (.malformedTag start.source origin.file) := by
  rw [Start.fault?, Markup.isViewTag, hstem]
  rfl

/-- The import of a tag fails as the fault of the tag says, or is the one that the tag asks for. -/
theorem importOf_of_isImport (settings : Settings κ) (store : σ) (origin : Origin) {start : Start}
    (hview : Markup.isViewTag start.name = true) (himport : start.isImport = true) :
    match start.fault? settings store origin with
    | some failure =>
      importOf settings store origin start.source start.attributes = .error failure
    | none => ∃ entry,
      importOf settings store origin start.source start.attributes = .ok entry ∧
        start.AsksFor settings store origin entry := by
  rw [Start.fault?, hview, Bool.not_true, if_neg (by simp), if_pos himport, importOf]
  cases hreference : start.attributes.get? "src" with
  | none => rfl
  | some reference =>
    dsimp only
    rw [Settings.resolve]
    cases hfile : settings.resolve? store reference origin.directory with
    | none => rfl
    | some file => exact ⟨_, rfl, reference, hreference, hfile, rfl⟩

/-- A tag of a view that is no import tag has no fault. -/
theorem fault?_eq_none_of_not_isImport {start : Start}
    (hview : Markup.isViewTag start.name = true) (himport : ¬start.isImport = true) :
    start.fault? settings store origin = none := by
  rw [Start.fault?, hview, Bool.not_true, if_neg (by simp), if_neg himport]

/-- What a tag of a view asks for fails as the fault of the tag says. -/
theorem imports_eq_error_of_fault? (start : Start)
    (hstem : Markup.viewStem? start.name.toList = some stem) {failure : Failure}
    (h : start.fault? settings store origin = some failure) :
    Opened.imports settings store ⟨stem, start.attributes⟩ origin start.source =
      .error failure := by
  have hview := isViewTag_of_viewStem? hstem
  by_cases himport : start.isImport = true
  · have hentry := importOf_of_isImport settings store origin hview himport
    rw [h] at hentry
    rw [Opened.imports, if_pos ((isImport_iff_of_viewStem? hstem).1 himport), hentry]
    rfl
  · rw [fault?_eq_none_of_not_isImport hview himport] at h
    contradiction

/-- A tag of a view without a fault, and the body behind it, declare what they should. -/
theorem exists_imports_of_fault? (start : Start)
    (hstem : Markup.viewStem? start.name.toList = some stem) {text : String}
    {more : List Token} (hafter : start.after = .body text :: more)
    (h : start.fault? settings store origin = none) :
    ∃ imports,
      Opened.imports settings store ⟨stem, start.attributes⟩ origin start.source = .ok imports ∧
        DeclaredBy settings store origin [start]
          ⟨imports, Opened.views ⟨stem, start.attributes⟩ origin text⟩ := by
  have hview := isViewTag_of_viewStem? hstem
  rw [Opened.imports, Opened.views]
  by_cases himport : start.isImport = true
  · have hstem' : stem = importStem := (isImport_iff_of_viewStem? hstem).1 himport
    have hentry := importOf_of_isImport settings store origin hview himport
    rw [h] at hentry
    obtain ⟨entry, hentry, hasks⟩ := hentry
    rw [if_pos hstem', if_pos hstem', hentry]
    refine ⟨[entry], rfl, ?_, ?_⟩
    · rw [List.filter_cons_of_pos himport]
      exact .cons hasks .nil
    · rw [List.filter_cons_of_neg (by simp [himport])]
      exact .nil
  · have hstem' : stem ≠ importStem := mt (isImport_iff_of_viewStem? hstem).2 himport
    have hname : start.name = String.ofList stem ++ ":" := by
      rw [← String.toList_inj, (Markup.eq_append_of_viewStem? hstem).1, String.toList_append,
        String.toList_ofList]
      rfl
    rw [if_neg hstem', if_neg hstem']
    refine ⟨[], rfl, ?_, ?_⟩
    · rw [List.filter_cons_of_neg himport]
      exact .nil
    · rw [List.filter_cons_of_pos (by simpa using himport)]
      exact .cons ⟨_, hname, rfl, ⟨more, hafter⟩, rfl, rfl⟩ .nil

/-! ## Reading the tokens of a file -/

theorem ofTokens_opening_of_none {pending : Option Opened} {source name : String}
    (attributes : Markup.Attributes) (hstem : Markup.viewStem? name.toList = none)
    (more : List Token) :
    ofTokens settings store origin pending (.opening source name attributes :: more) =
      .error (.malformedTag source origin.file) := by
  rw [ofTokens, hstem]

/-- A tag of a view and the body behind it are read as one step. -/
theorem ofTokens_tagAndBody {pending : Option Opened} {source name : String}
    (attributes : Markup.Attributes) (hstem : Markup.viewStem? name.toList = some stem)
    (text : String) (more : List Token) :
    ofTokens settings store origin pending
        (.opening source name attributes :: .body text :: more) =
      Opened.imports settings store ⟨stem, attributes⟩ origin source >>= fun imports =>
        (ofTokens settings store origin none more).map fun later =>
          ⟨imports ++ later.imports,
            Opened.views ⟨stem, attributes⟩ origin text ++ later.views⟩ := by
  rw [ofTokens, hstem]
  dsimp only
  rw [ofTokens]
  cases Opened.imports settings store ⟨stem, attributes⟩ origin source with
  | error failure => rfl
  | ok imports =>
    cases ofTokens settings store origin none more with
    | error failure => rfl
    | ok later => rfl

theorem viewStem?_eq_none_of_isOpaqueTag {name : String}
    (h : Markup.isOpaqueTag name = false) : Markup.viewStem? name.toList = none := by
  simp only [Markup.isOpaqueTag, Markup.isViewTag, Bool.or_eq_false_iff] at h
  simpa using h.1.1

theorem ofTokens_of_ne {pending : Option Opened} {token : Token}
    (htag : ∀ source name attributes, token ≠ .opening source name attributes)
    (hbody : ∀ text, token ≠ .body text) (more : List Token) :
    ofTokens settings store origin pending (token :: more) =
      ofTokens settings store origin pending more := by
  cases token with
  | opening source name attributes => exact absurd rfl (htag source name attributes)
  | body text => exact absurd rfl (hbody text)
  | _ => rfl

/-- The first fault among the start tags is the one that the reader reports. -/
theorem ofTokens_eq_error_of_findSome? {tokens : List Token}
    (hpaired : Paired Markup.isOpaqueTag tokens) {failure : Failure}
    (h : (starts tokens).findSome? (Start.fault? settings store origin) = some failure) :
    ofTokens settings store origin none tokens = .error failure := by
  -- Between two pairs no tag waits for its body, so that the reader is where it was at first.
  induction hpaired with
  | nil => cases h
  | @tagAndBody source name attributes text more hmore ih =>
    rw [starts, starts_of_ne (by simp), List.findSome?_cons] at h
    cases hstem : Markup.viewStem? name.toList with
    | none =>
      rw [fault?_eq_malformedTag ⟨source, name, attributes, _⟩ hstem] at h
      obtain rfl := Option.some.inj h
      exact ofTokens_opening_of_none attributes hstem _
    | some stem =>
      rw [ofTokens_tagAndBody attributes hstem, Outcome.bind_eq_error_iff]
      split at h
      · next fault hfault =>
        obtain rfl := Option.some.inj h
        exact .inl (imports_eq_error_of_fault? ⟨source, name, attributes, _⟩ hstem hfault)
      · next hfault =>
        obtain ⟨imports, himports, -⟩ :=
          exists_imports_of_fault? ⟨source, name, attributes, _⟩ hstem rfl hfault
        exact .inr ⟨imports, himports, Outcome.map_eq_error_iff.2 (ih h)⟩
  | @tag source name attributes more hname hmore ih =>
    have hstem := viewStem?_eq_none_of_isOpaqueTag hname
    rw [starts, List.findSome?_cons,
      fault?_eq_malformedTag ⟨source, name, attributes, _⟩ hstem] at h
    obtain rfl := Option.some.inj h
    exact ofTokens_opening_of_none attributes hstem _
  | other htag hbody hmore ih =>
    rw [starts_of_ne htag] at h
    rw [ofTokens_of_ne htag hbody]
    exact ih h

/-- Start tags without a fault, and the bodies behind them, are what the tokens declare. -/
theorem exists_ofTokens_eq_ok {tokens : List Token} (hpaired : Paired Markup.isOpaqueTag tokens)
    (h : (starts tokens).findSome? (Start.fault? settings store origin) = none) :
    ∃ contents, ofTokens settings store origin none tokens = .ok contents ∧
      DeclaredBy settings store origin (starts tokens) contents := by
  induction hpaired with
  | nil => exact ⟨⟨[], []⟩, rfl, .nil, .nil⟩
  | @tagAndBody source name attributes text more hmore ih =>
    rw [starts, starts_of_ne (by simp), List.findSome?_cons] at h
    split at h
    · contradiction
    · next hfault =>
      cases hstem : Markup.viewStem? name.toList with
      | none =>
        rw [fault?_eq_malformedTag ⟨source, name, attributes, _⟩ hstem] at hfault
        contradiction
      | some stem =>
        obtain ⟨imports, himports, hstart⟩ :=
          exists_imports_of_fault? ⟨source, name, attributes, _⟩ hstem rfl hfault
        obtain ⟨contents, hcontents, hlater⟩ := ih h
        refine ⟨_, ?_, hstart.append hlater⟩
        rw [ofTokens_tagAndBody attributes hstem, himports, hcontents]
        rfl
  | @tag source name attributes more hname hmore ih =>
    have hstem := viewStem?_eq_none_of_isOpaqueTag hname
    rw [starts, List.findSome?_cons,
      fault?_eq_malformedTag ⟨source, name, attributes, _⟩ hstem] at h
    contradiction
  | other htag hbody hmore ih =>
    rw [starts_of_ne htag] at h ⊢
    rw [ofTokens_of_ne htag hbody]
    exact ih h

/-- Reading a file is reading its events.  Every tag of a view stands before exactly one body.  If a
start tag has a fault, the reading fails as the first such tag says; else it succeeds with one view
or one import for each start tag. -/
theorem parse_starts (settings : Settings κ) (store : σ) (scope : Option String) (markup : String)
    (file : Path) :
    let tags := starts (Markup.events Markup.isOpaqueTag (markup ++ "\n"))
    let origin : Origin := ⟨file, scope.filter (· ≠ "")⟩
    (∀ start ∈ tags, Markup.isViewTag start.name = true →
      ∃ text more, start.after = .body text :: more ∧
        ∀ text', more.head? ≠ some (.body text')) ∧
    match tags.findSome? (Start.fault? settings store origin) with
    | some failure => parse settings store scope markup file = .error failure
    | none => ∃ contents, parse settings store scope markup file = .ok contents ∧
        DeclaredBy settings store origin tags contents := by
  intro tags origin
  have hpaired : Paired Markup.isOpaqueTag
      (Markup.events Markup.isOpaqueTag (markup ++ "\n")) :=
    (paired_ofChars Markup.isOpaqueTag _).filter_isEvent
  constructor
  · intro start hstart hview
    apply hpaired.exists_body_of_mem_starts hstart
    rw [Markup.isOpaqueTag, hview]
    rfl
  · cases hfault : tags.findSome? (Start.fault? settings store origin) with
    | some failure => exact ofTokens_eq_error_of_findSome? hpaired hfault
    | none => exact exists_ofTokens_eq_ok hpaired hfault

/-- A page with an import and two views. -/
def importingPage : String :=
  "<import: src=\"./menu\" ns=\"m\"/><a: k>x</a:><b:>"

/-- The files that the page is read among. -/
def importedFiles : FileTree :=
  .ofList [(⟨"/v/menu.html"⟩, "<item:>i")]

theorem parse_starts_importingPage :
    (∀ start ∈ starts (Markup.events Markup.isOpaqueTag (importingPage ++ "\n")),
      ∃ text more, start.after = .body text :: more ∧
        ∀ text', more.head? ≠ some (.body text')) ∧
    (∃ contents,
      parse .standard importedFiles (some "app") importingPage ⟨"/v/page.html"⟩ = .ok contents ∧
        contents.imports.length = 1 ∧ contents.views.length = 2) ∧
    parse .standard FileTree.empty (some "app") importingPage ⟨"/v/page.html"⟩ =
      .error (.fileNotFound "./menu" ⟨"/v"⟩) := by
  have hscope : (some "app").filter (· ≠ "") = some "app" := by decide
  obtain ⟨hbodies, hread⟩ :=
    parse_starts .standard importedFiles (some "app") importingPage ⟨"/v/page.html"⟩
  refine ⟨?_, ?_, ?_⟩
  · intro start hstart
    apply hbodies start hstart
    have hall : (starts (Markup.events Markup.isOpaqueTag (importingPage ++ "\n"))).all
        (Markup.isViewTag ·.name) = true := by
      decide +kernel
    exact List.all_eq_true.1 hall start hstart
  · have hfault : (starts (Markup.events Markup.isOpaqueTag (importingPage ++ "\n"))).findSome?
        (Start.fault? .standard importedFiles ⟨⟨"/v/page.html"⟩, some "app"⟩) = none := by
      decide +kernel
    obtain ⟨contents, hcontents, hdeclared⟩ :
        ∃ contents, parse .standard importedFiles (some "app") importingPage ⟨"/v/page.html"⟩ =
          .ok contents ∧ DeclaredBy .standard importedFiles ⟨⟨"/v/page.html"⟩, some "app"⟩
            (starts (Markup.events Markup.isOpaqueTag (importingPage ++ "\n"))) contents := by
      simpa only [hscope, hfault] using hread
    refine ⟨contents, hcontents, ?_, ?_⟩
    · rw [← hdeclared.imports.length_eq]
      decide +kernel
    · rw [← hdeclared.views.length_eq]
      decide +kernel
  · have hfault : (starts (Markup.events Markup.isOpaqueTag (importingPage ++ "\n"))).findSome?
        (Start.fault? .standard FileTree.empty ⟨⟨"/v/page.html"⟩, some "app"⟩) =
          some (.fileNotFound "./menu" ⟨"/v"⟩) := by
      decide +kernel
    have hfailed :=
      (parse_starts .standard FileTree.empty (some "app") importingPage ⟨"/v/page.html"⟩).2
    simpa only [hscope, hfault] using hfailed

end ViewFile

end ViewBundle
