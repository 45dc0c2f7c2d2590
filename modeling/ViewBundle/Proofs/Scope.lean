import ViewBundle.FileTree
import ViewBundle.Loading
import ViewBundle.Proofs.Outcome

/-!
# Loading under a scope

The scope under which a file is loaded decides the names of views and nothing else: loading a file
under a scope fails as loading it without one does, or takes the same visits, with the scope put in
front of the name of every view.  The same holds of a scope put around another one.

A step keeps this (`nestedScope_underScope`), so the tokens of a file keep it (`ofTokens_under`),
and so does a whole load (`loadNested_under`).
-/

namespace ViewBundle

/-- A scope with another one put around it.  An empty scope is none. -/
def underScope (outer : String) (scope : Option String) : Option String :=
  match scope.filter (· ≠ "") with
  | none => some outer
  | some inner => some (outer ++ ":" ++ inner)

/-- A view with a scope put in front of its name. -/
def View.under (outer : String) (view : View) : View :=
  { view with name := outer ++ ":" ++ view.name }

/-- An import with a scope put around its own. -/
def Import.under (outer : String) (entry : Import) : Import :=
  { entry with scope := underScope outer entry.scope }

/-- What a view file declares when a scope is put around its own. -/
def ViewFile.under (outer : String) (contents : ViewFile) : ViewFile where
  imports := contents.imports.map (Import.under outer)
  views := contents.views.map (View.under outer)

/-- A visit with a scope put in front of the names of all views. -/
def Visit.under (outer : String) (visit : Visit) : Visit :=
  { visit with views := visit.views.map (View.under outer) }

/-! ## Scopes -/

theorem underScope_none (outer : String) : underScope outer none = some outer := rfl

theorem underScope_some {inner : String} (outer : String) (h : inner ≠ "") :
    underScope outer (some inner) = some (outer ++ ":" ++ inner) := by
  simp [underScope, Option.filter, h]

theorem underScope_filter (outer : String) (scope : Option String) :
    underScope outer (scope.filter (· ≠ "")) = underScope outer scope := by
  simp [underScope]

theorem append_colon_append_ne_empty (outer inner : String) : outer ++ ":" ++ inner ≠ "" := by
  intro h
  have := congrArg String.length h
  simp at this

theorem filter_underScope {outer : String} (houter : outer ≠ "") (scope : Option String) :
    (underScope outer scope).filter (· ≠ "") = underScope outer scope := by
  unfold underScope
  cases scope.filter (· ≠ "") with
  | none => simp [houter]
  | some inner => simp

theorem qualified_underScope (outer : String) {scope : Option String} (hscope : scope ≠ some "")
    (name : String) :
    qualified (underScope outer scope) name = outer ++ ":" ++ qualified scope name := by
  cases scope with
  | none => rfl
  | some inner =>
    have hinner : inner ≠ "" := fun h => hscope (h ▸ rfl)
    rw [underScope_some outer hinner]
    simp only [qualified, String.append_assoc]

theorem qualified_ne_empty (scope : Option String) {name : String} (hname : name ≠ "") :
    qualified scope name ≠ "" := by
  cases scope with
  | none => exact hname
  | some inner => exact append_colon_append_ne_empty inner name

/-- Putting a scope around another one and going into a scope within them can be exchanged. -/
theorem nestedScope_underScope (outer : String) {scope : Option String}
    (hscope : scope ≠ some "") (name : String) :
    nestedScope (underScope outer scope) name = underScope outer (nestedScope scope name) := by
  by_cases hname : name = ""
  · simp [nestedScope, hname]
  · rw [nestedScope, if_neg hname, nestedScope, if_neg hname, qualified_underScope outer hscope,
      underScope_some outer (qualified_ne_empty scope hname)]

/-! ## View files -/

namespace ViewFile

variable {κ σ : Type} [FileStore σ] (settings : Settings κ) (store : σ)

theorem importOf_under (outer : String) {origin : Origin} (hscope : origin.scope ≠ some "")
    (tag : String) (attributes : Markup.Attributes) :
    importOf settings store { origin with scope := underScope outer origin.scope } tag attributes =
      (importOf settings store origin tag attributes).map (Import.under outer) := by
  unfold importOf
  cases attributes.get? "src" with
  | none => rfl
  | some reference =>
    have hdirectory : Origin.directory { origin with scope := underScope outer origin.scope } =
        origin.directory := rfl
    simp only [hdirectory, nestedScope_underScope outer hscope, Outcome.bind_map]
    rfl

theorem imports_under (outer : String) {origin : Origin} (hscope : origin.scope ≠ some "")
    (opened : Opened) (tag : String) :
    opened.imports settings store { origin with scope := underScope outer origin.scope } tag =
      (opened.imports settings store origin tag).map (List.map (Import.under outer)) := by
  unfold Opened.imports
  split
  · rw [importOf_under settings store outer hscope]
    cases importOf settings store origin tag opened.attributes <;> rfl
  · rfl

theorem views_under (outer : String) {origin : Origin} (hscope : origin.scope ≠ some "")
    (opened : Opened) (body : String) :
    opened.views { origin with scope := underScope outer origin.scope } body =
      (opened.views origin body).map (View.under outer) := by
  unfold Opened.views
  split
  · rfl
  · simp only [qualified_underScope outer hscope, List.map_cons, List.map_nil, View.under]

theorem ofTokens_under (outer : String) {origin : Origin} (hscope : origin.scope ≠ some "")
    (pending : Option Opened) (tokens : List Markup.Token) :
    ofTokens settings store { origin with scope := underScope outer origin.scope } pending tokens =
      (ofTokens settings store origin pending tokens).map (ViewFile.under outer) := by
  induction tokens generalizing pending with
  | nil => simp [ofTokens, Except.map, ViewFile.under]
  | cons token more ih =>
    cases token with
    | opening source name attributes =>
      simp only [ofTokens]
      cases Markup.viewStem? name.toList with
      | none => rfl
      | some stem =>
        simp only [imports_under settings store outer hscope, ih, Outcome.map_bind,
          Outcome.bind_map, Outcome.map_pure, ViewFile.under, List.map_append]
    | body text =>
      -- Only a tag that waits for its body makes a view of it.
      have hviews : (pending.map (·.views { origin with
            scope := underScope outer origin.scope } text)).getD [] =
          ((pending.map (·.views origin text)).getD []).map (View.under outer) := by
        cases pending with
        | none => rfl
        | some opened => exact views_under outer hscope opened text
      simp only [ofTokens, ih, Outcome.map_bind, Outcome.bind_map, Outcome.map_pure, hviews,
        ViewFile.under, List.map_append]
    | plain text => simpa only [ofTokens] using ih pending
    | closing source name => simpa only [ofTokens] using ih pending
    | silent source => simpa only [ofTokens] using ih pending

theorem parse_under {outer : String} (houter : outer ≠ "") (scope : Option String)
    (markup : String) (file : Path) :
    parse settings store (underScope outer scope) markup file =
      (parse settings store scope markup file).map (ViewFile.under outer) := by
  unfold parse
  -- An empty scope is dropped before it meets a name, also where it stands inside another one.
  have hscope : scope.filter (· ≠ "") ≠ some "" := by
    cases scope <;> simp [Option.filter_eq_some_iff]
  rw [filter_underScope houter, ← underScope_filter outer scope]
  let origin : Origin := ⟨file, scope.filter (· ≠ "")⟩
  have horigin : origin.scope ≠ some "" := hscope
  exact ofTokens_under settings store outer horigin none _

end ViewFile

/-! ## Loads -/

namespace Settings

variable {κ σ : Type} [CompilerKind κ] [FileStore σ] (settings : Settings κ) (store : σ)

theorem readFile_under {outer : String} (houter : outer ≠ "") (file : Path)
    (scope : Option String) :
    settings.readFile store file (underScope outer scope) =
      (settings.readFile store file scope).map fun (text, contents) =>
        (text, contents.under outer) := by
  simp only [readFile, ViewFile.parse_under settings store houter, Outcome.map_bind,
    Outcome.bind_map]
  rfl

/-- A scope put around the one of a file is put around those of all files that it imports. -/
theorem loadNested_under {outer : String} (houter : outer ≠ "") (levels : Nat)
    (chain : List Path) (file : Path) (scope : Option String) :
    settings.loadNested store levels chain file (underScope outer scope) =
      (settings.loadNested store levels chain file scope).map (List.map (Visit.under outer)) := by
  induction levels generalizing chain file scope with
  | zero => rfl
  | succ levels ih =>
    simp only [loadNested]
    -- The chain of files holds no scopes, so a circle is found or missed in both loads alike.
    cases chainFrom file chain with
    | cons first circle => rfl
    | nil =>
      have himports (contents : ViewFile) :
          (contents.under outer).imports.mapM (fun entry =>
            settings.loadNested store levels (chain ++ [file]) entry.file entry.scope) =
          (contents.imports.mapM fun entry =>
            settings.loadNested store levels (chain ++ [file]) entry.file entry.scope).map
            (List.map (List.map (Visit.under outer))) := by
        rw [ViewFile.under, List.mapM_map]
        apply Outcome.mapM_eq_map_of_eq_map
        intro entry _
        exact ih (chain ++ [file]) entry.file entry.scope
      simp only [readFile_under settings store houter, himports, Outcome.map_bind,
        Outcome.bind_map, Outcome.map_pure, List.map_append, List.map_flatten]
      rfl

/-- Loading a file under a scope is loading it without one, with the scope put in front of the name
of every view; and loading it under a scope within another one is loading it under the inner scope,
with the outer one put in front of every name.  The failures are the same. -/
theorem loadFile_under_scope (file : Path) {outer inner : String} (houter : outer ≠ "")
    (hinner : inner ≠ "") :
    settings.loadFile store file (some outer) =
        (settings.loadFile store file none).map (List.map (Visit.under outer)) ∧
      settings.loadFile store file (some (outer ++ ":" ++ inner)) =
        (settings.loadFile store file (some inner)).map (List.map (Visit.under outer)) := by
  unfold loadFile
  constructor
  · rw [← underScope_none outer]
    exact loadNested_under settings store houter _ [] file none
  · rw [← underScope_some outer hinner]
    exact loadNested_under settings store houter _ [] file (some inner)

/-- A page that imports a menu under its own name, which takes in an item under no name. -/
def menuTree : FileTree :=
  .ofList
    [(⟨"/v/page.html"⟩, "<import: src=\"./menu\"><Body:>b"),
      (⟨"/v/menu.html"⟩, "<import: src=\"./item\" ns=\"\"><list:>l"),
      (⟨"/v/item.html"⟩, "<item:>i")]

theorem loadFile_under_scope_menuTree :
    "app" ≠ "" ∧ "site" ≠ "" ∧
      (standard.loadFile menuTree ⟨"/v/page.html"⟩ none).toOption.map
          (·.flatMap fun visit => visit.views.map View.name) =
        some ["menu:item", "menu:list", "Body"] ∧
      standard.loadFile menuTree ⟨"/v/page.html"⟩ (some "app") =
        (standard.loadFile menuTree ⟨"/v/page.html"⟩ none).map (List.map (Visit.under "app")) ∧
      standard.loadFile menuTree ⟨"/v/page.html"⟩ (some ("app" ++ ":" ++ "site")) =
        (standard.loadFile menuTree ⟨"/v/page.html"⟩ (some "site")).map
          (List.map (Visit.under "app")) :=
  ⟨by decide, by decide, by decide +kernel,
    loadFile_under_scope standard menuTree ⟨"/v/page.html"⟩ (by decide) (by decide)⟩

end Settings

end ViewBundle
