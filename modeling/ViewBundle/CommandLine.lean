import ViewBundle.Configuration

/-!
# The command line

Arguments are read from left to right.  A switch is written in its long form or, if it has one, as
a letter behind a dash; letters can share a dash.  A switch that takes a value finds it in the
rest of its argument or in the next argument.  Behind `--` every argument is an entry.
-/

namespace ViewBundle

/-- What a run is asked for on the command line. -/
structure Invocation where
  /-- The entries, as they are written. -/
  entries : List Path
  /-- Where the output is written; to the standard output if nothing is said. -/
  output : Option Path
  /-- The settings file; it is looked for if nothing is said. -/
  configuration : Option Path
  /-- Where the manifest is written. -/
  manifest : Option Path
  /-- Whether the output is the module of the registry, without a bundle around it. -/
  sourceOnly : Bool
  /-- How much is logged. -/
  verbosity : Nat
  /-- Whether only errors are logged. -/
  quiet : Bool
  /-- The settings that are given on the command line. -/
  overrides : Configuration
  deriving DecidableEq

/-- What a command line amounts to. -/
inductive CommandLine where
  /-- A run. -/
  | run (invocation : Invocation)
  /-- The version is asked for. -/
  | version
  /-- Help is asked for. -/
  | help
  /-- The arguments make no sense. -/
  | invalid
  deriving DecidableEq

/-- What takes a value on the command line. -/
inductive ValueSwitch where
  | output
  | moduleName
  | compiler
  | runtimeModule
  | configuration
  | manifest
  deriving DecidableEq, Repr

/-- What is said on the command line without a value. -/
inductive Switch where
  | minify
  | sourceOnly
  | verbose
  | quiet
  | version
  | help
  /-- Something that takes a value. -/
  | valued (switch : ValueSwitch)
  deriving DecidableEq, Repr

namespace Switch

/-- The switch of a long name. -/
def ofName? (name : String) : Option Switch :=
  match name with
  | "output" => some (.valued .output)
  | "module-name" => some (.valued .moduleName)
  | "minify" => some .minify
  | "compiler" => some (.valued .compiler)
  | "runtime-module" => some (.valued .runtimeModule)
  | "config" => some (.valued .configuration)
  | "emit-deps" => some (.valued .manifest)
  | "source-only" => some .sourceOnly
  | "verbose" => some .verbose
  | "quiet" => some .quiet
  | "version" => some .version
  | "help" => some .help
  | _ => none

/-- The switch of a letter. -/
def ofLetter? : Char → Option Switch
  | 'o' => some (.valued .output)
  | 'v' => some .verbose
  | 'q' => some .quiet
  | 'V' => some .version
  | 'h' => some .help
  | _ => none

end Switch

namespace Invocation

/-- The invocation that asks for nothing. -/
def empty : Invocation :=
  ⟨[], none, none, none, false, 0, false, .empty⟩

/-- The two sides of the first equals sign in a text, if neither is empty. -/
def assignment? (text : String) : Option (String × String) :=
  match Text.cut? ['='] text.toList with
  | some (c :: cs, d :: ds) => some (String.ofList (c :: cs), String.ofList (d :: ds))
  | _ => none

/-- A path that is given once and is not empty. -/
def onlyPath? (earlier : Option Path) (value : String) : Option Path :=
  if earlier.isSome || value = "" then none else some ⟨value⟩

/-- A text that is given once. -/
def onlyText? (earlier : Option String) (value : String) : Option String :=
  if earlier.isSome then none else some value

/-- The invocation with a value given to a switch, if it can have that value. -/
def give (invocation : Invocation) (switch : ValueSwitch) (value : String) :
    Option Invocation :=
  let overrides := invocation.overrides
  match switch with
  | .output =>
    (onlyPath? invocation.output value).map fun path => { invocation with output := some path }
  | .configuration =>
    (onlyPath? invocation.configuration value).map fun path =>
      { invocation with configuration := some path }
  | .manifest =>
    (onlyPath? invocation.manifest value).map fun path =>
      { invocation with manifest := some path }
  | .moduleName =>
    (onlyText? overrides.moduleName value).map fun name =>
      { invocation with overrides := { overrides with moduleName := some name } }
  | .runtimeModule =>
    (onlyText? overrides.runtimeModule value).map fun name =>
      { invocation with overrides := { overrides with runtimeModule := some name } }
  | .compiler =>
    (assignment? value).map fun (extension, name) =>
      { invocation with
        overrides := { overrides with compilers := overrides.compilers.put extension name } }

/-- The invocation with one more entry, which is not empty. -/
def addEntry (invocation : Invocation) (entry : String) : Option Invocation :=
  if entry = "" then none
  else some { invocation with entries := invocation.entries ++ [⟨entry⟩] }

/-- What is left to do behind a switch. -/
inductive Progress where
  /-- The switch is dealt with. -/
  | more (invocation : Invocation)
  /-- The switch has yet to be given its value. -/
  | wants (invocation : Invocation) (switch : ValueSwitch)
  /-- The rest of the command line does not count. -/
  | stop (result : CommandLine)

/-- Goes on with an invocation that makes sense. -/
def Progress.ofOption : Option Invocation → Progress
  | some invocation => .more invocation
  | none => .stop .invalid

/-- What a switch without its value makes of an invocation. -/
def meet (invocation : Invocation) : Switch → Progress
  | .version => .stop .version
  | .help => .stop .help
  | .valued switch => .wants invocation switch
  | .minify =>
    if invocation.overrides.minify.isSome then .stop .invalid
    else .more { invocation with
      overrides := { invocation.overrides with minify := some true } }
  | .sourceOnly =>
    if invocation.sourceOnly then .stop .invalid else .more { invocation with sourceOnly := true }
  | .verbose => .more { invocation with verbosity := invocation.verbosity + 1 }
  | .quiet => if invocation.quiet then .stop .invalid else .more { invocation with quiet := true }

/-- What letters that share a dash make of an invocation; the value of a switch is what follows its
letter, an equals sign in front of it aside. -/
def meetLetters (invocation : Invocation) : List Char → Progress
  | [] => .more invocation
  | letter :: letters =>
    match Switch.ofLetter? letter with
    | none => .stop .invalid
    | some switch =>
      match invocation.meet switch with
      | .stop result => .stop result
      | .more invocation => invocation.meetLetters letters
      | .wants invocation switch =>
        match letters with
        | [] => .wants invocation switch
        | '=' :: value => .ofOption (invocation.give switch (String.ofList value))
        | value => .ofOption (invocation.give switch (String.ofList value))

/-- What a switch in its long form, perhaps with an equals sign and its value, makes of an
invocation. -/
def meetLong (invocation : Invocation) (text : List Char) : Progress :=
  match Text.cut? ['='] text with
  | some (name, value) =>
    match Switch.ofName? (String.ofList name) with
    | some (.valued switch) => .ofOption (invocation.give switch (String.ofList value))
    | _ => .stop .invalid
  | none =>
    match Switch.ofName? (String.ofList text) with
    | some switch => invocation.meet switch
    | none => .stop .invalid

/-- What one argument makes of an invocation. -/
def meetArgument (invocation : Invocation) (argument : String) : Progress :=
  match argument.toList with
  | '-' :: '-' :: text => invocation.meetLong text
  | '-' :: letter :: letters => invocation.meetLetters (letter :: letters)
  | _ => .ofOption (invocation.addEntry argument)

/-- Whether an argument can be the value of the switch before it. -/
def canBeValue (argument : String) : Bool :=
  argument.toList.head? ≠ some '-' || argument = "-"

/-- What a finished invocation amounts to: it has entries, and is not both quiet and verbose. -/
def finish (invocation : Invocation) : CommandLine :=
  if invocation.entries = [] || (invocation.quiet && invocation.verbosity > 0) then .invalid
  else .run invocation

/-- What arguments that are all entries make of an invocation. -/
def addEntries (invocation : Invocation) (entries : List String) : CommandLine :=
  match entries.foldlM addEntry invocation with
  | some invocation => invocation.finish
  | none => .invalid

/-- What arguments make of an invocation. -/
def meetAll (invocation : Invocation) : List String → CommandLine
  | [] => invocation.finish
  | argument :: more =>
    if argument = "--" then invocation.addEntries more
    else match invocation.meetArgument argument with
      | .stop result => result
      | .more invocation => invocation.meetAll more
      | .wants invocation switch =>
        match more with
        | [] => .invalid
        | value :: more =>
          if canBeValue value then
            match invocation.give switch value with
            | some invocation => invocation.meetAll more
            | none => .invalid
          else .invalid

end Invocation

/-- What arguments amount to. -/
def CommandLine.ofArguments (arguments : List String) : CommandLine :=
  Invocation.empty.meetAll arguments

end ViewBundle
