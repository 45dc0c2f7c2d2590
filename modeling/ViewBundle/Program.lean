import ViewBundle.CommandLine
import ViewBundle.Disk

/-!
# The program

A run reads its settings, compiles the entries and writes the output.  All that can go wrong before
anything is written goes wrong while the run is planned, and a plan writes the manifest before the
output; so a run that fails leaves no output, and at most the manifest.

The order of writing is kept apart from what writes (`writeBy`, `executeBy`, `runBy`).
-/

namespace ViewBundle

/-- Why the program fails. -/
inductive RunFailure where
  /-- A settings file cannot be read; `notText` tells whether it could be opened. -/
  | settingsUnreadable (file : Path) (notText : Bool)
  /-- A settings file is not valid. -/
  | settingsInvalid (file : Path)
  /-- The compilation fails. -/
  | compilation (cause : Failure)
  /-- A directory cannot be made. -/
  | directoryNotMade (directory : Path)
  /-- A file cannot be written. -/
  | notWritten (file : Path)
  deriving DecidableEq

/-- The wording of a failure with its cause; what the operating system adds is left out. -/
def RunFailure.message : RunFailure → String
  | settingsUnreadable file notText =>
    "Failed to read config file " ++ file.text ++
      if notText then ": " ++ ReadFailure.notText.message else ""
  | settingsInvalid file => "Failed to parse config file " ++ file.text
  | compilation (.unreadable file cause) =>
    (Failure.unreadable file cause).message ++ ": " ++ cause.message
  | compilation cause => cause.message
  | directoryNotMade directory => "Failed to create directory " ++ directory.text
  | notWritten file => "Failed to write " ++ file.text

/-- What a run writes. -/
structure Plan where
  /-- The manifest and where it is written. -/
  manifest : Option (Path × String)
  /-- Where the output is written; to the standard output if nothing is said. -/
  output : Option Path
  /-- The output. -/
  text : String
  deriving DecidableEq

/-- What a run leaves. -/
structure Outcome where
  /-- The disk behind the run. -/
  disk : Disk
  /-- What has been written to the standard output. -/
  stdout : String
  /-- Why the run failed, if it did. -/
  failure : Option RunFailure

/-- A way to write a text to a file: the disk that it leaves, and why it fails, if it does. -/
abbrev Writer := Disk → Path → String → Disk × Option RunFailure

namespace Program

/-- The name of settings files. -/
def settingsName : Path := ⟨"viewpack.toml"⟩

/-- The configuration in a settings file. -/
def loadConfiguration (disk : Disk) (file : Path) : Except RunFailure Configuration :=
  match disk.read file with
  | .error cause => .error (.settingsUnreadable file (cause = .notText))
  | .ok text =>
    match Configuration.ofText? text with
    | some configuration => .ok configuration
    | none => .error (.settingsInvalid file)

/-- The settings file of a directory, or else that of the user, and its configuration. -/
def discoverConfiguration (disk : Disk) (base : Path) (userFile : Option Path) :
    Except RunFailure (Option (Path × Configuration)) :=
  match (base.join settingsName :: userFile.toList).find? disk.isFile with
  | some file => (loadConfiguration disk file).map fun configuration => some (file, configuration)
  | none => .ok none

/-- The configuration in the settings file that a run is asked to use, or that is found. -/
def fileConfiguration (disk : Disk) (base : Path) (userFile : Option Path)
    (invocation : Invocation) : Except RunFailure Configuration :=
  match invocation.configuration with
  | some file => loadConfiguration disk file
  | none =>
    (discoverConfiguration disk base userFile).map fun found =>
      (found.map Prod.snd).getD .empty

/-- The configuration of a run: the command line over a settings file. -/
def configuration (disk : Disk) (base : Path) (userFile : Option Path)
    (invocation : Invocation) : Except RunFailure Configuration :=
  (fileConfiguration disk base userFile invocation).map (·.merge invocation.overrides)

/-- What a run writes. -/
def plan (disk : Disk) (userFile : Option Path) (invocation : Invocation) :
    Except RunFailure Plan := do
  let base := Disk.pathOf disk.workingDirectory
  let configuration ← configuration disk base userFile invocation
  let settings ← configuration.settings.mapError .compilation
  let compilation ← (settings.compile disk invocation.entries base
    configuration.outputOptions).mapError .compilation
  return {
    manifest := invocation.manifest.map fun file => (file, compilation.manifest)
    output := invocation.output
    text := if invocation.sourceOnly then compilation.source else compilation.artifact }

/-! ## The order of writing

What is written first, and what ends a run, is the same whether an operating system writes the files
or the disk of the model does.  So it is said once, for actions of any kind.
-/

section Order

variable {m : Type → Type} [Monad m]

/-- Writes a file, and makes the directories around it; they stay if the file cannot be written.
Both actions tell whether they succeed. -/
def writeBy (makeDirectories : Path → m Bool) (store : Path → String → m Bool) (file : Path)
    (text : String) : ExceptT RunFailure m Unit := do
  match file.parent?.filter (·.text ≠ "") with
  | some directory =>
    unless ← makeDirectories directory do throw (.directoryNotMade directory)
  | none => pure ()
  unless ← store file text do throw (.notWritten file)

/-- Carries a plan out: the manifest is written first, and the output behind it. -/
def executeBy (write : Path → String → ExceptT RunFailure m Unit) (print : String → m Unit)
    (plan : Plan) : ExceptT RunFailure m Unit := do
  match plan.manifest with
  | some (file, text) => write file text
  | none => pure ()
  match plan.output with
  | some file => write file plan.text
  | none => print plan.text

/-- Carries out what has been planned, if it could be planned. -/
def runBy (write : Path → String → ExceptT RunFailure m Unit) (print : String → m Unit)
    (planned : Except RunFailure Plan) : ExceptT RunFailure m Unit := do
  executeBy write print (← ExceptT.mk (pure planned))

end Order

/-! ## Runs on the disk of the model -/

/-- Why something has failed, if it has. -/
def failure? : Except RunFailure Unit → Option RunFailure
  | .error failure => some failure
  | .ok () => none

/-- Makes directories, and tells whether they have been made. -/
def makeDirectories (directory : Path) : StateM Disk Bool := fun disk =>
  match disk.makeDirectories directory with
  | some disk => (true, disk)
  | none => (false, disk)

/-- Stores a text in a file, and tells whether it has been stored. -/
def store (file : Path) (text : String) : StateM Disk Bool := fun disk =>
  match disk.write file text with
  | some disk => (true, disk)
  | none => (false, disk)

/-- Writes a file, and makes the directories around it. -/
def writeFile : Writer := fun disk file text =>
  match (writeBy makeDirectories store file text).run.run disk with
  | (result, disk) => (disk, failure? result)

/-- An action on a disk and on what has been printed. -/
abbrev Action := StateM (Disk × String)

/-- Writes a file in a given way. -/
def writing (write : Writer) (file : Path) (text : String) : ExceptT RunFailure Action Unit :=
  fun (disk, printed) =>
    match write disk file text with
    | (disk, some failure) => (.error failure, disk, printed)
    | (disk, none) => (.ok (), disk, printed)

/-- Prints a text behind what has been printed. -/
def printing (text : String) : Action Unit :=
  modify fun (disk, printed) => (disk, printed ++ text)

/-- What an action leaves when nothing has been printed yet. -/
def outcome (action : ExceptT RunFailure Action Unit) (disk : Disk) : Outcome :=
  match action.run.run (disk, "") with
  | (result, disk, printed) => ⟨disk, printed, failure? result⟩

/-- Carries a plan out on a file system that writes files in its own way. -/
def execute (write : Writer) (disk : Disk) (plan : Plan) : Outcome :=
  outcome (executeBy (writing write) printing plan) disk

/-- A run of the program on a file system that writes files in its own way. -/
def runWith (write : Writer) (disk : Disk) (userFile : Option Path) (invocation : Invocation) :
    Outcome :=
  outcome (runBy (writing write) printing (plan disk userFile invocation)) disk

/-- A run of the program. -/
def run (disk : Disk) (userFile : Option Path) (invocation : Invocation) : Outcome :=
  runWith writeFile disk userFile invocation

/-- What is printed when the version is asked for. -/
def versionText : String := "viewpack 0.1.0\n"

end Program

end ViewBundle
