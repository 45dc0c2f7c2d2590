import ViewBundle.Program

/-!
# The program on a file system

The files that a run can ask for are read first: settings files, and all that entries and the
references in files read so far can stand for.  The run is then planned on what has been read, and
its plan carried out.
-/

namespace ViewBundle.Main

/-- The references in the import tags of a markup text. -/
def references (markup : String) : List String :=
  (Markup.events Markup.isOpaqueTag markup).filterMap fun
    | .opening _ name attributes =>
      if Markup.viewStem? name.toList = some ViewFile.importStem then attributes.get? "src"
      else none
    | _ => none

/-- The files that the references in a file can stand for. -/
def candidatesIn (settings : Settings Compiler) (disk : Disk) (file : Path) : List Path :=
  match disk.read file with
  | .error _ => []
  | .ok text =>
    match settings.compilers.compile file.dottedExtension text file with
    | .error _ => []
    | .ok markup =>
      (references markup).flatMap fun reference =>
        settings.candidates reference (ViewFile.Origin.directory ⟨file, none⟩)

/-- The disk with the file of a path as the file system has it, if it can be read. -/
def readInto (disk : Disk) (file : Path) : IO Disk := do
  match ← (IO.FS.readBinFile file.text).toBaseIO with
  | .ok bytes => return disk.addFile file bytes
  | .error _ => return disk

/-- The disk with all files that a run can ask for, beginning with those that wait. -/
partial def gather (settings : Settings Compiler) (disk : Disk) (asked : List Path) :
    (waiting : List Path) → IO Disk
  | [] => return disk
  | file :: waiting => do
    if file ∈ asked then gather settings disk asked waiting
    else
      let disk ← readInto disk file
      gather settings disk (file :: asked) (candidatesIn settings disk file ++ waiting)

/-- The settings file of the user. -/
def userFile : IO (Option Path) := do
  let below (directory : String) : Path := (Path.mk directory).join ⟨"viewpack/viewpack.toml"⟩
  match ← IO.getEnv "XDG_CONFIG_HOME" with
  | some directory => if (Path.mk directory).isAbsolute then return some (below directory)
  | none => pure ()
  return (← IO.getEnv "HOME").map fun home => below (home ++ "/.config")

/-- Whether an action succeeds. -/
def succeeds (action : IO Unit) : IO Bool := do
  match ← action.toBaseIO with
  | .ok _ => return true
  | .error _ => return false

/-- Writes a file, and makes the directories around it. -/
def writeFile : Path → String → ExceptT RunFailure IO Unit :=
  Program.writeBy (fun directory => succeeds (IO.FS.createDirAll directory.text))
    (fun file text => succeeds (IO.FS.writeFile file.text text))

/-- Says why the program failed. -/
def report (failure : RunFailure) : IO UInt32 := do
  IO.eprintln failure.message
  return 1

/-- Runs the program. -/
def run (invocation : Invocation) : IO UInt32 := do
  let base : Path := ⟨(← IO.currentDir).toString⟩
  let user ← userFile
  let empty := Disk.empty (base.components.filterMap Component.name?)
  let settingsFiles := invocation.configuration.toList ++ base.join Program.settingsName ::
    user.toList
  let disk ← settingsFiles.foldlM readInto empty
  let settings := (Program.configuration disk base user invocation).toOption.bind
    (·.settings.toOption)
  let disk ←
    match settings with
    | some settings =>
      gather settings disk [] (invocation.entries.flatMap (settings.entryCandidates · base))
    | none => pure disk
  match ← (Program.runBy writeFile (IO.print ·) (Program.plan disk user invocation)).run with
  | .ok _ => return 0
  | .error failure => report failure

end ViewBundle.Main

/-- The entry point: the exit code is 1 for a failure and 2 for arguments that make no sense. -/
def main (arguments : List String) : IO UInt32 := do
  match ViewBundle.CommandLine.ofArguments arguments with
  | .run invocation => ViewBundle.Main.run invocation
  | .version =>
    IO.print ViewBundle.Program.versionText
    return 0
  | .help =>
    IO.println "usage: viewpack [OPTIONS] <FILES>..."
    return 0
  | .invalid =>
    IO.eprintln "usage: viewpack [OPTIONS] <FILES>..."
    return 2
