import Mathlib.Data.List.Forall2
import ViewBundle.Proofs.Literal
import ViewBundle.Proofs.Outcome
import ViewBundle.RegistryModule

/-!
# Reading the module of a registry back

One reader recovers from the text of a module what went into it: the module of the runtime, and
from each line that registers a view the name of that view, its source unless it was left out, its
options and its template.  Main statement: whatever the texts in a registry hold, the reader finds
them all in their order, on one line for each view (`read?_serialize`).
-/

namespace ViewBundle

open Text (Reader Reads Refuses reads_mark)

/-- What one line of a module says about a view. -/
structure RegisterCall where
  name : String
  /-- The source, unless it was left out. -/
  source : Option String
  options : List (String × String)
  template : Template
  deriving DecidableEq

/-- What the text of a module says. -/
structure ModuleContents where
  runtimeModule : String
  calls : List RegisterCall
  deriving DecidableEq

/-- A line says what is known of a view: its template is the one that is kept, or else the one that
its source is read as. -/
structure RegisterCall.Describes (minify : Bool) (view : RegisteredView) (call : RegisterCall) :
    Prop where
  name_eq : call.name = view.name
  source_eq : call.source = if minify then none else some view.source
  options_eq : call.options = view.options.entries
  template_eq : view.ensure.1 = .ok call.template

/-! ## Readers -/

/-- Reads what follows the kind of a value in its expression. -/
def Segment.valueReader (unescaped : Bool) : Reader Segment := do
  Reader.mark "new expressions.PathExpression("
  let path ← Literal.arrayReader
  Reader.mark "))"
  return .value path unescaped

/-- Reads the expression of a segment. -/
def Segment.reader : Reader Segment :=
  (do
    Reader.mark "new templates.Text("
    let content ← Literal.reader
    Reader.mark ")"
    return .text content) <|>
  (do Reader.mark "new templates.DynamicHtml("; valueReader true) <|>
  (do Reader.mark "new templates.DynamicText("; valueReader false)

/-- Reads the expression of a template. -/
def Template.reader : Reader Template := do
  Reader.mark "new templates.Template(["
  let segments ← Reader.listTo ']' Segment.reader
  Reader.mark ")"
  return ⟨segments⟩

namespace RegisterCall

/-- Reads the source of a view, or that it was left out. -/
def sourceReader : Reader (Option String) :=
  (do Reader.mark "null"; return none) <|> (do let source ← Literal.reader; return some source)

/-- Reads the options of a view, which are left out if there are none, up to the end of the
arguments. -/
def optionsReader : Reader (List (String × String)) :=
  (do Reader.mark ")"; return []) <|>
  (do
    Reader.mark ", "
    let options ← Literal.objectReader
    Reader.mark ")"
    return options)

/-- Reads a line that registers a view. -/
def reader : Reader RegisterCall := do
  Reader.mark "  views.register("
  let name ← Literal.reader
  Reader.mark ", "
  let source ← sourceReader
  let options ← optionsReader
  Reader.mark ".template = "
  let template ← Template.reader
  Reader.mark ";"
  return ⟨name, source, options, template⟩

end RegisterCall

namespace ModuleContents

/-- Reads the line that names the module of the runtime. -/
def runtimeReader : Reader String := do
  Reader.mark "  var runtime = require("
  let name ← Literal.reader
  Reader.mark ");"
  return name

/-- The lines of a module that register views. -/
def registerLines (text : String) : List (List Char) :=
  (Text.pieces '\n' text.toList).filter ("  views.register(".toList.isPrefixOf ·)

/-- What the text of a module says, read from the line that names the runtime and from those that
register views. -/
def read? (text : String) : Option ModuleContents := do
  let runtimeLine ← (Text.pieces '\n' text.toList)[1]?
  let runtimeModule ← runtimeReader.value? runtimeLine
  let calls ← (registerLines text).mapM RegisterCall.reader.value?
  return ⟨runtimeModule, calls⟩

end ModuleContents

/-! ## Templates -/

theorem Segment.toList_expression_text (content : String) :
    (Segment.text content).expression.toList =
      "new templates.Text(".toList ++ ((Literal.string content).toList ++ ")".toList) := by
  show ("new templates.Text(" ++ Literal.string content ++ ")").toList = _
  rw [String.toList_append, String.toList_append, List.append_assoc]

theorem Segment.toList_expression_value (path : List String) (unescaped : Bool) :
    (Segment.value path unescaped).expression.toList =
      (if unescaped then "new templates.DynamicHtml(" else "new templates.DynamicText(").toList ++
        ("new expressions.PathExpression(".toList ++
          ((Literal.array path).toList ++ "))".toList)) := by
  show ((if unescaped then "new templates.DynamicHtml(" else "new templates.DynamicText(") ++
    "new expressions.PathExpression(" ++ Literal.array path ++ "))").toList = _
  rw [String.toList_append, String.toList_append, String.toList_append, List.append_assoc,
    List.append_assoc]

theorem Segment.reads_value (path : List String) (unescaped : Bool) :
    Reads (valueReader unescaped) ("new expressions.PathExpression(".toList ++
      ((Literal.array path).toList ++ "))".toList)) (.value path unescaped) := by
  refine Reads.bind (reads_mark _) (Reads.bind (Literal.reads_array path) ?_)
  exact (reads_mark "))").bind_pure fun _ => Segment.value path unescaped

theorem Segment.reads_expression (segment : Segment) :
    Reads Segment.reader segment.expression.toList segment := by
  cases segment with
  | text content =>
    rw [toList_expression_text]
    refine Reads.orElse_left (Reads.bind (reads_mark _) ?_) _
    refine Reads.bind (Literal.reads_string content) ?_
    exact (reads_mark ")").bind_pure fun _ => Segment.text content
  | value path unescaped =>
    rw [toList_expression_value]
    have hvalue := reads_value path unescaped
    -- The kinds of segments part at the first letter behind the dot, or at the eighth one.
    cases unescaped with
    | true =>
      have htext (text : List Char) : Refuses (Reader.mark "new templates.Text(")
          ("new templates.DynamicHtml(".toList ++ text) :=
        Text.refuses_mark_of_isPrefixOf? fun rest => by simp
      refine Reads.orElse_right (Reads.orElse_left ?_ _) ((htext _).bind _)
      exact Reads.bind (reads_mark _) hvalue
    | false =>
      have htext (text : List Char) : Refuses (Reader.mark "new templates.Text(")
          ("new templates.DynamicText(".toList ++ text) :=
        Text.refuses_mark_of_isPrefixOf? fun rest => by simp
      have hhtml (text : List Char) : Refuses (Reader.mark "new templates.DynamicHtml(")
          ("new templates.DynamicText(".toList ++ text) :=
        Text.refuses_mark_of_isPrefixOf? fun rest => by simp
      refine Reads.orElse_right (Reads.orElse_right ?_ ((hhtml _).bind _)) ((htext _).bind _)
      exact Reads.bind (reads_mark _) hvalue

theorem Template.toList_expression (template : Template) :
    template.expression.toList = "new templates.Template([".toList ++
      ((", ".toList.intercalate (template.segments.map fun segment => segment.expression.toList) ++
        [']']) ++ ")".toList) := by
  unfold expression
  rw [String.toList_append, String.toList_append, List.append_assoc, String.toList_intercalate,
    List.map_map, List.append_assoc]
  rfl

theorem Template.reads_expression (template : Template) :
    Reads Template.reader template.expression.toList template := by
  have hsegments : Reads (Reader.listTo ']' Segment.reader)
      (", ".toList.intercalate (template.segments.map fun segment => segment.expression.toList) ++
        [']']) template.segments := by
    refine Text.reads_listTo (by decide) (fun segment _ => segment.reads_expression) ?_
    intro segment _
    cases segment with
    | text content =>
      rw [Segment.toList_expression_text]
      exact ⟨'n', _, rfl, by decide⟩
    | value path unescaped =>
      rw [Segment.toList_expression_value]
      cases unescaped with
      | true => exact ⟨'n', _, rfl, by decide⟩
      | false => exact ⟨'n', _, rfl, by decide⟩
  rw [toList_expression]
  refine Reads.bind (reads_mark _) (Reads.bind hsegments ?_)
  exact (reads_mark ")").bind_pure fun _ => template

theorem Segment.newline_notMem_expression (segment : Segment) :
    '\n' ∉ segment.expression.toList := by
  cases segment with
  | text content =>
    rw [toList_expression_text, List.mem_append, List.mem_append]
    simp [Literal.newline_notMem_string]
  | value path unescaped =>
    rw [toList_expression_value]
    cases unescaped <;> simp [Literal.newline_notMem_array]

theorem Template.newline_notMem_expression (template : Template) :
    '\n' ∉ template.expression.toList := by
  have hsegments : '\n' ∉ ", ".toList.intercalate
      (template.segments.map fun segment => segment.expression.toList) := by
    apply Literal.newline_notMem_intercalate (by decide)
    intro text htext
    obtain ⟨segment, -, rfl⟩ := List.mem_map.1 htext
    exact segment.newline_notMem_expression
  rw [toList_expression, List.mem_append, List.mem_append, List.mem_append]
  simpa using hsegments

/-! ## Lines that register views -/

namespace RegisteredView

/-- The source of a view as an argument. -/
def sourceText (view : RegisteredView) (minify : Bool) : List Char :=
  if minify then "null".toList else (Literal.string view.source).toList

/-- What follows the source of a view up to the end of the arguments. -/
def optionsText (view : RegisteredView) : List Char :=
  if view.options.entries = [] then ")".toList
  else ", ".toList ++ ((Literal.object view.options.entries).toList ++ ")".toList)

/-- The line that registers a view, part by part and without its end. -/
def lineText (view : RegisteredView) (template : Template) (minify : Bool) : List Char :=
  "  views.register(".toList ++ ((Literal.string view.name).toList ++ (", ".toList ++
    (view.sourceText minify ++ (view.optionsText ++ (".template = ".toList ++
      (template.expression.toList ++ ";".toList))))))

theorem toList_registerLine (view : RegisteredView) (template : Template) (minify : Bool) :
    (view.registerLine template minify).toList = view.lineText template minify ++ ['\n'] := by
  -- The bracket that closes the arguments is counted to the options, which may be left out.
  have harguments : (", ".intercalate (view.arguments minify)).toList ++ ")".toList =
      (Literal.string view.name).toList ++
        (", ".toList ++ (view.sourceText minify ++ view.optionsText)) := by
    rw [String.toList_intercalate]
    cases minify <;> by_cases hoptions : view.options.entries = [] <;>
      simp [arguments, sourceText, optionsText, hoptions, List.intercalate_cons_cons]
  have hclose : ").template = ".toList = ")".toList ++ ".template = ".toList := rfl
  have hend : ";\n".toList = ";".toList ++ ['\n'] := rfl
  unfold registerLine lineText
  rw [String.toList_append, String.toList_append, String.toList_append, String.toList_append,
    hclose, hend]
  have hline := congrArg (fun text => "  views.register(".toList ++ (text ++
    (".template = ".toList ++ (template.expression.toList ++ (";".toList ++ ['\n'])))))
    harguments
  simpa only [List.append_assoc] using hline

theorem newline_notMem_lineText (view : RegisteredView) (template : Template) (minify : Bool) :
    '\n' ∉ view.lineText template minify := by
  have hsource : '\n' ∉ view.sourceText minify := by
    cases minify <;> simp [sourceText, Literal.newline_notMem_string]
  have hoptions : '\n' ∉ view.optionsText := by
    unfold optionsText
    split <;> simp [Literal.newline_notMem_object]
  unfold lineText
  simp only [List.mem_append, not_or]
  exact ⟨by decide, Literal.newline_notMem_string view.name, by decide, hsource, hoptions,
    by decide, template.newline_notMem_expression, by decide⟩

end RegisteredView

namespace RegisterCall

/-- The line that registers a view, as it says it. -/
def ofView (minify : Bool) (view : RegisteredView) (template : Template) : RegisterCall :=
  ⟨view.name, if minify then none else some view.source, view.options.entries, template⟩

theorem reads_sourceText (view : RegisteredView) (minify : Bool) :
    Reads sourceReader (view.sourceText minify) (if minify then none else some view.source) := by
  cases minify with
  | true => exact ((reads_mark "null").bind_pure fun _ => none).orElse_left _
  | false =>
    obtain ⟨text, htext⟩ := Literal.string_eq_quote_append view.source
    have hsource := (Literal.reads_string view.source).bind_pure some
    show Reads _ (Literal.string view.source).toList _
    rw [htext] at hsource ⊢
    exact hsource.orElse_right ((Text.refuses_mark rfl (by decide) text).bind _)

/-- The bracket and the comma behind the source of a view tell whether options follow. -/
theorem reads_optionsText (view : RegisteredView) :
    Reads optionsReader view.optionsText view.options.entries := by
  unfold RegisteredView.optionsText
  split
  · next hnone =>
    rw [hnone]
    exact ((reads_mark ")").bind_pure fun _ => []).orElse_left _
  · have hobject := Literal.reads_object view.options.entries
    have hclose := (reads_mark ")").bind_pure fun _ => view.options.entries
    refine Reads.orElse_right ?_ ?_
    · exact Reads.bind (reads_mark ", ") (Reads.bind hobject hclose)
    · exact (Text.refuses_mark rfl (by decide) _).bind _

theorem reads_lineText (view : RegisteredView) (template : Template) (minify : Bool) :
    Reads reader (view.lineText template minify) (ofView minify view template) := by
  have hend := (reads_mark ";").bind_pure fun _ => ofView minify view template
  refine Reads.bind (reads_mark "  views.register(") ?_
  refine Reads.bind (Literal.reads_string view.name) ?_
  refine Reads.bind (reads_mark ", ") ?_
  refine Reads.bind (reads_sourceText view minify) ?_
  refine Reads.bind (reads_optionsText view) ?_
  refine Reads.bind (reads_mark ".template = ") ?_
  exact Reads.bind template.reads_expression hend

theorem mapM_value?_lineText (minify : Bool) (views : List (RegisteredView × Template)) :
    (views.map fun (view, template) => view.lineText template minify).mapM reader.value? =
      some (views.map fun (view, template) => ofView minify view template) := by
  induction views with
  | nil => rfl
  | cons pair views ih =>
    obtain ⟨view, template⟩ := pair
    rw [List.map_cons, List.mapM_cons, (reads_lineText view template minify).value?, ih]
    rfl

end RegisterCall

/-! ## Modules -/

namespace Registry

/-- The line of a module that names the runtime. -/
def runtimeLine (runtimeModule : String) : List Char :=
  "  var runtime = require(".toList ++ ((Literal.string runtimeModule).toList ++ ");".toList)

/-- The lines of a module above the views, without their ends. -/
def headLines (runtimeModule : String) : List (List Char) :=
  ["module.exports = function(views) \x7b".toList, runtimeLine runtimeModule,
    "  var expressions = runtime.expressions;".toList,
    "  var templates = runtime.templates;".toList, []]

/-- The lines of a module, without their ends. -/
def moduleLines (style : ModuleStyle) (views : List (RegisteredView × Template)) :
    List (List Char) :=
  headLines style.runtimeModule ++
    (views.map (fun (view, template) => view.lineText template style.minify) ++ ["\x7d".toList])

theorem toList_moduleHead (runtimeModule : String) :
    (moduleHead runtimeModule).toList = (headLines runtimeModule).flatMap (· ++ ['\n']) := by
  unfold moduleHead headLines runtimeLine
  simp

theorem toList_moduleText (style : ModuleStyle) (views : List (RegisteredView × Template)) :
    (moduleText style views).toList = (moduleLines style views).flatMap (· ++ ['\n']) := by
  have hviews : (String.join (views.map fun (view, template) =>
      view.registerLine template style.minify)).toList =
      (views.map fun (view, template) => view.lineText template style.minify).flatMap
        (· ++ ['\n']) := by
    induction views with
    | nil => rfl
    | cons pair views ih =>
      obtain ⟨view, template⟩ := pair
      rw [List.map_cons, List.map_cons, List.flatMap_cons, String.join_cons,
        String.toList_append, view.toList_registerLine, ih]
  unfold moduleText moduleLines
  rw [String.toList_append, String.toList_append, toList_moduleHead, hviews,
    List.flatMap_append, List.flatMap_append, List.append_assoc]
  rfl

theorem newline_notMem_of_mem_headLines {runtimeModule : String} {line : List Char}
    (h : line ∈ headLines runtimeModule) : '\n' ∉ line := by
  unfold headLines at h
  simp only [List.mem_cons, List.not_mem_nil, or_false] at h
  rcases h with rfl | rfl | rfl | rfl | rfl
  · decide
  · unfold runtimeLine
    rw [List.mem_append, List.mem_append]
    simp [Literal.newline_notMem_string]
  · decide
  · decide
  · decide

theorem newline_notMem_of_mem_moduleLines {style : ModuleStyle}
    {views : List (RegisteredView × Template)} {line : List Char}
    (h : line ∈ moduleLines style views) : '\n' ∉ line := by
  unfold moduleLines at h
  rw [List.mem_append, List.mem_append, List.mem_map] at h
  rcases h with hhead | ⟨⟨view, template⟩, -, rfl⟩ | hend
  · exact newline_notMem_of_mem_headLines hhead
  · exact view.newline_notMem_lineText template style.minify
  · rw [List.mem_singleton.1 hend]
    decide

theorem pieces_moduleText (style : ModuleStyle) (views : List (RegisteredView × Template)) :
    Text.pieces '\n' (moduleText style views).toList = moduleLines style views ++ [[]] := by
  rw [toList_moduleText]
  exact Text.pieces_flatMap fun line hline => newline_notMem_of_mem_moduleLines hline

theorem registerLines_moduleText (style : ModuleStyle)
    (views : List (RegisteredView × Template)) :
    ModuleContents.registerLines (moduleText style views) =
      views.map fun (view, template) => view.lineText template style.minify := by
  -- No line of the frame begins like one that registers a view.
  have hhead : (headLines style.runtimeModule).filter ("  views.register(".toList.isPrefixOf ·) =
      [] := rfl
  have hend : ["\x7d".toList, []].filter ("  views.register(".toList.isPrefixOf ·) = [] := rfl
  have hviews : ∀ line ∈ views.map fun (view, template) => view.lineText template style.minify,
      "  views.register(".toList.isPrefixOf line := by
    intro line hline
    obtain ⟨⟨view, template⟩, -, rfl⟩ := List.mem_map.1 hline
    exact List.isPrefixOf_iff_prefix.2 (List.prefix_append _ _)
  unfold ModuleContents.registerLines
  rw [pieces_moduleText]
  unfold moduleLines
  rw [List.append_assoc, List.append_assoc, List.singleton_append, List.filter_append,
    List.filter_append, hhead, hend, List.filter_eq_self.2 hviews, List.nil_append,
    List.append_nil]

/-- A module is read back as the runtime and the views that it was written for. -/
theorem read?_moduleText (style : ModuleStyle) (views : List (RegisteredView × Template)) :
    ModuleContents.read? (moduleText style views) = some ⟨style.runtimeModule,
      views.map fun (view, template) => .ofView style.minify view template⟩ := by
  have hline : (Text.pieces '\n' (moduleText style views).toList)[1]? =
      some (runtimeLine style.runtimeModule) := by
    rw [pieces_moduleText]
    rfl
  have hruntime : ModuleContents.runtimeReader.value? (runtimeLine style.runtimeModule) =
      some style.runtimeModule := by
    apply Reads.value?
    refine Reads.bind (reads_mark _) (Reads.bind (Literal.reads_string _) ?_)
    exact (reads_mark ");").bind_pure fun _ => style.runtimeModule
  have hcalls : (ModuleContents.registerLines (moduleText style views)).mapM
      RegisterCall.reader.value? =
      some (views.map fun (view, template) => .ofView style.minify view template) := by
    rw [registerLines_moduleText]
    exact RegisterCall.mapM_value?_lineText style.minify views
  unfold ModuleContents.read?
  rw [hline, hcalls]
  simp [hruntime]

/-- The templates of all views are those that each of them keeps or is read as. -/
theorem forall₂_of_compileViews {views : List RegisteredView}
    {compiled : List (RegisteredView × Template)} (h : (compileViews views).1 = .ok compiled) :
    List.Forall₂ (fun view pair => pair.1 = view ∧ view.ensure.1 = .ok pair.2) views
      compiled := by
  induction views generalizing compiled with
  | nil =>
    obtain rfl : [] = compiled := Except.ok.inj h
    exact .nil
  | cons view more ih =>
    rw [compileViews] at h
    split at h
    · contradiction
    · next template readings hensure =>
      obtain ⟨rest, hrest, rfl⟩ := Outcome.map_eq_ok_iff.1 h
      exact .cons ⟨rfl, by rw [hensure]⟩ (ih hrest)

theorem describes_of_compileViews (minify : Bool) {views : List RegisteredView}
    {compiled : List (RegisteredView × Template)} (h : (compileViews views).1 = .ok compiled) :
    List.Forall₂ (RegisterCall.Describes minify) views
      (compiled.map fun (view, template) => .ofView minify view template) := by
  rw [List.forall₂_map_right_iff]
  apply (forall₂_of_compileViews h).imp
  rintro view ⟨_, template⟩ ⟨rfl, htemplate⟩
  exact ⟨rfl, rfl, rfl, htemplate⟩

/-- Lines that say the same of the views of two registries, with their sources, tell those views
apart by nothing but what their templates are. -/
theorem map_eq_map_of_describes {views views' : List RegisteredView} {calls : List RegisterCall}
    (h : List.Forall₂ (RegisterCall.Describes false) views calls)
    (h' : List.Forall₂ (RegisterCall.Describes false) views' calls) :
    views.map (fun view => (view.name, view.source, view.options)) =
      views'.map fun view => (view.name, view.source, view.options) := by
  -- The same line says what each of two views is, one after the other.
  induction h generalizing views' with
  | nil =>
    cases h'
    rfl
  | @cons view call views calls hcall _ ih =>
    cases h' with
    | @cons view' _ views' _ hcall' hcalls' =>
      have hname : view.name = view'.name := hcall.name_eq.symm.trans hcall'.name_eq
      have hsource : view.source = view'.source :=
        Option.some.inj (hcall.source_eq.symm.trans hcall'.source_eq)
      have hentries : view.options.entries = view'.options.entries :=
        hcall.options_eq.symm.trans hcall'.options_eq
      have hoptions : view.options = view'.options := by
        cases hview : view.options
        cases hview' : view'.options
        simpa [hview, hview'] using hentries
      rw [List.map_cons, List.map_cons, hname, hsource, hoptions, ih hcalls']

theorem serialize_eq_ok {registry : Registry} {style : ModuleStyle} {text : String}
    (h : (registry.serialize style).answer = .ok text) :
    ∃ calls, ModuleContents.read? text = some ⟨style.runtimeModule, calls⟩ ∧
      List.Forall₂ (RegisterCall.Describes style.minify) registry.views calls ∧
      (ModuleContents.registerLines text).length = registry.views.length := by
  obtain ⟨compiled, hcompiled, rfl⟩ := Outcome.map_eq_ok_iff.1 h
  have hdescribes := describes_of_compileViews style.minify hcompiled
  refine ⟨_, read?_moduleText style compiled, hdescribes, ?_⟩
  have hlength := hdescribes.length_eq
  rw [registerLines_moduleText, List.length_map, hlength, List.length_map]

/-- One reader finds in the module of any registry the runtime and, on one line for each view and
in their order, what is known of the views.  Modules that keep the sources are the same text only
if they have the same runtime and the same views with the same sources and options, in the same
order. -/
theorem read?_serialize :
    (∀ (registry : Registry) (style : ModuleStyle) (text : String),
      (registry.serialize style).answer = .ok text →
      ∃ calls, ModuleContents.read? text = some ⟨style.runtimeModule, calls⟩ ∧
        List.Forall₂ (RegisterCall.Describes style.minify) registry.views calls ∧
        (ModuleContents.registerLines text).length = registry.views.length) ∧
    ∀ (registry registry' : Registry) (runtimeModule runtimeModule' text : String),
      (registry.serialize ⟨false, runtimeModule⟩).answer = .ok text →
      (registry'.serialize ⟨false, runtimeModule'⟩).answer = .ok text →
      runtimeModule = runtimeModule' ∧
        registry.views.map (fun view => (view.name, view.source, view.options)) =
          registry'.views.map fun view => (view.name, view.source, view.options) := by
  constructor
  · intro registry style text h
    exact serialize_eq_ok h
  · intro registry registry' runtimeModule runtimeModule' text h h'
    obtain ⟨calls, hread, hdescribes, -⟩ := serialize_eq_ok h
    obtain ⟨calls', hread', hdescribes', -⟩ := serialize_eq_ok h'
    obtain ⟨hruntime, hcalls⟩ : runtimeModule = runtimeModule' ∧ calls = calls' := by
      simpa using hread.symm.trans hread'
    subst hcalls
    exact ⟨hruntime, map_eq_map_of_describes hdescribes hdescribes'⟩

/-- Views whose texts look like parts of a module. -/
def quotedViews : Registry :=
  (empty.register "say \"hi\"\n  views.register(" "</p>\x7b\x7buser.name\x7d\x7d\\"
    (Dictionary.empty.put "as\", \x7b" "\\\x01\u2028")).register "null" "" Dictionary.empty

/-- The module of the views whose texts look like parts of one. -/
def quotedModule : String :=
  "module.exports = function(views) \x7b\n  var runtime = require(\"rt\\n\");\n" ++
  "  var expressions = runtime.expressions;\n  var templates = runtime.templates;\n\n" ++
  "  views.register(\"say \\\"hi\\\"\\n  views.register(\", " ++
  "\"<\\/p>\x7b\x7buser.name\x7d\x7d\\\\\", " ++
  "\x7b\"as\\\", \x7b\": \"\\\\\\u0001\\u2028\"\x7d).template = " ++
  "new templates.Template([new templates.Text(\"<\\/p>\"), " ++
  "new templates.DynamicText(new expressions.PathExpression([\"user\", \"name\"])), " ++
  "new templates.Text(\"\\\\\")]);\n" ++
  "  views.register(\"null\", \"\").template = new templates.Template([]);\n\x7d\n"

theorem serialize_quotedViews :
    (quotedViews.serialize ⟨false, "rt\n"⟩).answer = .ok quotedModule := by
  decide +kernel

theorem serialize_compile_quotedViews :
    (quotedViews.compile.registry.serialize ⟨false, "rt\n"⟩).answer = .ok quotedModule := by
  decide +kernel

/-- The module of the quoted views is read back, and is also that of the same views with their
templates kept. -/
theorem read?_serialize_quotedViews :
    (∃ calls, ModuleContents.read? quotedModule = some ⟨"rt\n", calls⟩ ∧
      List.Forall₂ (RegisterCall.Describes false) quotedViews.views calls ∧
      (ModuleContents.registerLines quotedModule).length = 2) ∧
    quotedViews.views.map (fun view => (view.name, view.source, view.options)) =
      quotedViews.compile.registry.views.map
        fun view => (view.name, view.source, view.options) :=
  ⟨read?_serialize.1 quotedViews ⟨false, "rt\n"⟩ quotedModule serialize_quotedViews,
    (read?_serialize.2 quotedViews quotedViews.compile.registry "rt\n" "rt\n" quotedModule
      serialize_quotedViews serialize_compile_quotedViews).2⟩

end Registry

end ViewBundle
