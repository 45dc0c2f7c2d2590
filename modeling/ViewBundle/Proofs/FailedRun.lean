import ViewBundle.Proofs.DiskWriting
import ViewBundle.Proofs.Outcome

/-!
# Runs that fail

A run is planned before it writes anything, and it is planned only if the entries compile
(`plan_eq_ok_iff`); what keeps it from being planned is no fault of writing
(`isOfWriting_eq_false_of_plan`).  A plan writes the manifest, and then the output.  So a run that
fails prints nothing and writes no output, whatever stops it, and leaves the manifest behind only if
it fails at the output.  Main statement: `runWith_failure`.

The order of writing is said for any monad (`run_writeBy`); on the disk of the model, and with any
writer, it comes to `writeFile_eq` and `execute_eq`.  Of the writer it is only asked that a text is
written as a whole or not at all (`Writer.Faithful`), which the disk itself keeps to
(`faithful_writeFile`).
-/

namespace ViewBundle

/-- Whether a run fails for want of something to be written or made. -/
def RunFailure.isOfWriting : RunFailure → Bool
  | directoryNotMade _ | notWritten _ => true
  | _ => false

/-- A text is written as a whole, or no file is touched; directories may be made in any case. -/
structure Writer.Faithful (write : Writer) : Prop where
  stores : ∀ {disk later file text}, write disk file text = (later, none) →
    disk.Stores file text later
  onlyDirectories : ∀ {disk later file text failure}, write disk file text = (later, some failure) →
    disk.OnlyDirectories later
  isOfWriting : ∀ {disk later file text failure}, write disk file text = (later, some failure) →
    failure.isOfWriting = true

namespace Program

/-! ## Writing a file -/

section Order

variable {m : Type → Type} [Monad m] [LawfulMonad m]

/-- A file is stored when the directories around it have been made. -/
theorem run_writeBy (makeDirectories : Path → m Bool) (store : Path → String → m Bool)
    (file : Path) (text : String) :
    (writeBy makeDirectories store file text).run =
      let stored : m (Except RunFailure Unit) := do
        if ← store file text then return .ok () else return .error (.notWritten file)
      match file.parent?.filter (·.text ≠ "") with
      | some directory => do
        if ← makeDirectories directory then stored else return .error (.directoryNotMade directory)
      | none => stored := by
  unfold writeBy
  cases file.parent?.filter (·.text ≠ "") <;>
    simp [liftM, monadLift, MonadLift.monadLift, apply_ite ExceptT.run]

end Order

/-! ## The file system of the model -/

/-- Stores a text in a file whose directories are there. -/
def storeIn (disk : Disk) (file : Path) (text : String) : Disk × Option RunFailure :=
  match disk.write file text with
  | some later => (later, none)
  | none => (disk, some (.notWritten file))

theorem run_store (disk : Disk) (file : Path) (text : String) :
    (store file text).run disk =
      match disk.write file text with
      | some later => (true, later)
      | none => (false, disk) := rfl

theorem run_makeDirectories (disk : Disk) (directory : Path) :
    (makeDirectories directory).run disk =
      match disk.makeDirectories directory with
      | some later => (true, later)
      | none => (false, disk) := rfl

theorem writeFile_eq (disk : Disk) (file : Path) (text : String) :
    writeFile disk file text =
      match file.parent?.filter (·.text ≠ "") with
      | some directory =>
        match disk.makeDirectories directory with
        | some room => storeIn room file text
        | none => (disk, some (.directoryNotMade directory))
      | none => storeIn disk file text := by
  let stored : StateM Disk (Except RunFailure Unit) := do
    if ← store file text then return .ok () else return .error (.notWritten file)
  have hstore (room : Disk) :
      ((stored.run room).2, failure? (stored.run room).1) = storeIn room file text := by
    rw [StateT.run_bind, run_store, storeIn]
    cases room.write file text <;> rfl
  unfold writeFile
  rw [run_writeBy]
  cases file.parent?.filter (·.text ≠ "") with
  | none => exact hstore disk
  | some directory =>
    dsimp only
    rw [StateT.run_bind, run_makeDirectories]
    cases disk.makeDirectories directory with
    | none => rfl
    | some room => exact hstore room

theorem storeIn_cases {room later : Disk} {file : Path} {text : String}
    {stopped : Option RunFailure} (h : storeIn room file text = (later, stopped)) :
    (room.write file text = some later ∧ stopped = none) ∨
      ∃ failure, failure.isOfWriting = true ∧ later = room ∧ stopped = some failure := by
  unfold storeIn at h
  split at h
  · next hwritten =>
    cases h
    exact .inl ⟨hwritten, rfl⟩
  · cases h
    exact .inr ⟨_, rfl, rfl, rfl⟩

/-- What writing a file comes to: the directories that are made for it stay in any case. -/
theorem writeFile_cases {disk later : Disk} {file : Path} {text : String}
    {stopped : Option RunFailure} (h : writeFile disk file text = (later, stopped)) :
    ∃ room, disk.OnlyDirectories room ∧
      ((room.write file text = some later ∧ stopped = none) ∨
        ∃ failure, failure.isOfWriting = true ∧ later = room ∧ stopped = some failure) := by
  rw [writeFile_eq] at h
  split at h
  · split at h
    · next room hmade =>
      exact ⟨room, Disk.onlyDirectories_makeDirectories hmade, storeIn_cases h⟩
    · cases h
      exact ⟨disk, .refl disk, .inr ⟨_, rfl, rfl, rfl⟩⟩
  · exact ⟨disk, .refl disk, storeIn_cases h⟩

theorem faithful_writeFile : Writer.Faithful writeFile where
  stores := by
    intro disk later file text h
    obtain ⟨room, hroom, ⟨hwritten, -⟩ | ⟨failure, -, -, hnone⟩⟩ := writeFile_cases h
    · exact hroom.stores (Disk.stores_of_write hwritten)
    · cases hnone
  onlyDirectories := by
    intro disk later file text failure h
    obtain ⟨room, hroom, ⟨-, hnone⟩ | ⟨-, -, rfl, -⟩⟩ := writeFile_cases h
    · cases hnone
    · exact hroom
  isOfWriting := by
    intro disk later file text failure h
    obtain ⟨room, -, ⟨-, hnone⟩ | ⟨_, hwriting, -, hsome⟩⟩ := writeFile_cases h
    · cases hnone
    · rwa [Option.some.inj hsome]

/-! ## Planning -/

/-- The entries of an invocation compile, under the settings that hold for it, from the working
directory. -/
def Compiles (disk : Disk) (userFile : Option Path) (invocation : Invocation)
    (compilation : Compilation) : Prop :=
  ∃ combined settings,
    configuration disk (Disk.pathOf disk.workingDirectory) userFile invocation = .ok combined ∧
    combined.settings = .ok settings ∧
    settings.compile disk invocation.entries (Disk.pathOf disk.workingDirectory)
      combined.outputOptions = .ok compilation

/-- The output that an invocation asks for. -/
def outputText (invocation : Invocation) (compilation : Compilation) : String :=
  if invocation.sourceOnly then compilation.source else compilation.artifact

theorem plan_eq_ok_iff {disk : Disk} {userFile : Option Path} {invocation : Invocation}
    {planned : Plan} :
    plan disk userFile invocation = .ok planned ↔
      ∃ compilation, Compiles disk userFile invocation compilation ∧
        planned = ⟨invocation.manifest.map fun file => (file, compilation.manifest),
          invocation.output, outputText invocation compilation⟩ := by
  unfold plan Compiles
  simp only [Outcome.bind_eq_ok_iff, Outcome.mapError_eq_ok_iff]
  constructor
  · rintro ⟨combined, hcombined, settings, hsettings, compilation, hcompile, hplanned⟩
    exact ⟨compilation, ⟨combined, settings, hcombined, hsettings, hcompile⟩,
      (Except.ok.inj hplanned).symm⟩
  · rintro ⟨compilation, ⟨combined, settings, hcombined, hsettings, hcompile⟩, rfl⟩
    exact ⟨combined, hcombined, settings, hsettings, compilation, hcompile, rfl⟩

theorem isOfWriting_eq_false_of_loadConfiguration {disk : Disk} {file : Path}
    {failure : RunFailure} (h : loadConfiguration disk file = .error failure) :
    failure.isOfWriting = false := by
  unfold loadConfiguration at h
  split at h
  · obtain rfl := Except.error.inj h
    rfl
  · split at h
    · cases h
    · obtain rfl := Except.error.inj h
      rfl

theorem isOfWriting_eq_false_of_discoverConfiguration {disk : Disk} {base : Path}
    {userFile : Option Path} {failure : RunFailure}
    (h : discoverConfiguration disk base userFile = .error failure) :
    failure.isOfWriting = false := by
  unfold discoverConfiguration at h
  split at h
  · exact isOfWriting_eq_false_of_loadConfiguration (Outcome.map_eq_error_iff.1 h)
  · cases h

theorem isOfWriting_eq_false_of_configuration {disk : Disk} {base : Path} {userFile : Option Path}
    {invocation : Invocation} {failure : RunFailure}
    (h : configuration disk base userFile invocation = .error failure) :
    failure.isOfWriting = false := by
  rw [configuration, Outcome.map_eq_error_iff, fileConfiguration] at h
  split at h
  · exact isOfWriting_eq_false_of_loadConfiguration h
  · exact isOfWriting_eq_false_of_discoverConfiguration (Outcome.map_eq_error_iff.1 h)

theorem isOfWriting_eq_false_of_plan {disk : Disk} {userFile : Option Path}
    {invocation : Invocation} {failure : RunFailure}
    (h : plan disk userFile invocation = .error failure) : failure.isOfWriting = false := by
  unfold plan at h
  simp only [Outcome.bind_eq_error_iff, Outcome.mapError_eq_error_iff] at h
  rcases h with h | ⟨combined, -, ⟨cause, -, rfl⟩ | ⟨settings, -, ⟨cause, -, rfl⟩ | h⟩⟩
  · exact isOfWriting_eq_false_of_configuration h
  · rfl
  · rfl
  · obtain ⟨compilation, -, hpure⟩ := h
    cases hpure

/-! ## Carrying a plan out -/

theorem run_writing (write : Writer) (disk : Disk) (file : Path) (text printed : String) :
    (writing write file text).run.run (disk, printed) =
      match write disk file text with
      | (later, some failure) => (.error failure, later, printed)
      | (later, none) => (.ok (), later, printed) := rfl

/-- What is left when the manifest has been written, if there is one to write. -/
def writeManifest (write : Writer) (disk : Disk) (planned : Plan) : Disk × Option RunFailure :=
  match planned.manifest with
  | some (file, text) => write disk file text
  | none => (disk, none)

theorem outcome_writing (write : Writer) (disk : Disk) (file : Path) (text : String) :
    outcome (writing write file text) disk =
      ⟨(write disk file text).1, "", (write disk file text).2⟩ := by
  unfold outcome
  rw [run_writing]
  rcases write disk file text with ⟨later, _ | failure⟩ <;> rfl

/-- The manifest is written first, and the output behind it if nothing has gone wrong. -/
theorem execute_eq (write : Writer) (disk : Disk) (planned : Plan) :
    execute write disk planned =
      match writeManifest write disk planned with
      | (later, some failure) => ⟨later, "", some failure⟩
      | (between, none) =>
        match planned.output with
        | some file =>
          ⟨(write between file planned.text).1, "", (write between file planned.text).2⟩
        | none => ⟨between, planned.text, none⟩ := by
  have hprint (between : Disk) (text : String) :
      outcome (liftM (printing text)) between = ⟨between, text, none⟩ := by
    show Outcome.mk between ("" ++ text) none = _
    rw [String.empty_append]
  rcases planned with ⟨_ | ⟨file, text⟩, output, printed⟩
  · cases output with
    | none => exact hprint disk printed
    | some file => exact outcome_writing write disk file printed
  · unfold execute outcome executeBy
    dsimp only
    rw [ExceptT.run_bind, StateT.run_bind, run_writing, writeManifest]
    dsimp only
    rcases write disk file text with ⟨between, _ | failure⟩
    · cases output with
      | none => exact hprint between printed
      | some file => exact outcome_writing write between file printed
    · rfl

/-- Behind a manifest that could be written, all depends on the output. -/
theorem execute_of_writeManifest {write : Writer} {disk between later : Disk} {planned : Plan}
    {output : Path} {stopped : Option RunFailure}
    (hfirst : writeManifest write disk planned = (between, none))
    (houtput : planned.output = some output)
    (hsecond : write between output planned.text = (later, stopped)) :
    execute write disk planned = ⟨later, "", stopped⟩ := by
  simp only [execute_eq, hfirst, houtput, hsecond]

theorem execute_failure {write : Writer} (hwrite : write.Faithful) {disk : Disk} {planned : Plan}
    {failure : RunFailure} (h : (execute write disk planned).failure = some failure) :
    (execute write disk planned).stdout = "" ∧ failure.isOfWriting = true ∧
      (disk.OnlyDirectories (execute write disk planned).disk ∨
        ∃ file text output between, planned.manifest = some (file, text) ∧
          planned.output = some output ∧ write disk file text = (between, none) ∧
          write between output planned.text =
            ((execute write disk planned).disk, some failure)) := by
  rcases hfirst : writeManifest write disk planned with ⟨between, _ | cause⟩
  · cases houtput : planned.output with
    | none => simp [execute_eq, hfirst, houtput] at h
    | some output =>
      rcases hsecond : write between output planned.text with ⟨later, stopped⟩
      rw [execute_of_writeManifest hfirst houtput hsecond] at h ⊢
      obtain rfl : stopped = some failure := h
      refine ⟨rfl, hwrite.isOfWriting hsecond, ?_⟩
      unfold writeManifest at hfirst
      split at hfirst
      · next file text hmanifest =>
        exact .inr ⟨file, text, output, between, hmanifest, rfl, hfirst, hsecond⟩
      · cases hfirst
        exact .inl (hwrite.onlyDirectories hsecond)
  · have hrun : execute write disk planned = ⟨between, "", some cause⟩ := by
      simp only [execute_eq, hfirst]
    rw [hrun] at h ⊢
    obtain rfl := Option.some.inj h
    unfold writeManifest at hfirst
    split at hfirst
    · exact ⟨rfl, hwrite.isOfWriting hfirst, .inl (hwrite.onlyDirectories hfirst)⟩
    · cases hfirst

theorem execute_success {write : Writer} (hwrite : write.Faithful) {disk : Disk} {planned : Plan}
    (h : (execute write disk planned).failure = none) :
    match planned.output with
    | none => (execute write disk planned).stdout = planned.text
    | some output => (execute write disk planned).disk.read output = .ok planned.text := by
  rcases hfirst : writeManifest write disk planned with ⟨between, _ | cause⟩
  · cases houtput : planned.output with
    | none => simp only [execute_eq, hfirst, houtput]
    | some output =>
      rcases hsecond : write between output planned.text with ⟨later, stopped⟩
      rw [execute_of_writeManifest hfirst houtput hsecond] at h ⊢
      obtain rfl : stopped = none := h
      exact (hwrite.stores hsecond).read_eq
  · simp [execute_eq, hfirst] at h

theorem runWith_of_plan_eq_error {disk : Disk} {userFile : Option Path} {invocation : Invocation}
    {failure : RunFailure} (write : Writer)
    (h : plan disk userFile invocation = .error failure) :
    runWith write disk userFile invocation = ⟨disk, "", some failure⟩ := by
  rw [runWith, h]
  rfl

theorem runWith_of_plan_eq_ok {disk : Disk} {userFile : Option Path} {invocation : Invocation}
    {planned : Plan} (write : Writer) (h : plan disk userFile invocation = .ok planned) :
    runWith write disk userFile invocation = execute write disk planned := by
  rw [runWith, h]
  rfl

/-- A run that fails prints nothing.  If it fails before anything is to be written, it leaves the
disk as it was.  If it fails in writing, its entries have compiled, and either it leaves no more
than directories, or it has stored the whole manifest, touched no other file, and failed at the
output. -/
theorem runWith_failure {write : Writer} (hwrite : write.Faithful) (disk : Disk)
    (userFile : Option Path) (invocation : Invocation) (failure : RunFailure)
    (hfailure : (runWith write disk userFile invocation).failure = some failure) :
    (runWith write disk userFile invocation).stdout = "" ∧
      (failure.isOfWriting = false → (runWith write disk userFile invocation).disk = disk) ∧
      (failure.isOfWriting = true → ∃ compilation,
        Compiles disk userFile invocation compilation ∧
        (disk.OnlyDirectories (runWith write disk userFile invocation).disk ∨
          ∃ file output between, invocation.manifest = some file ∧
            invocation.output = some output ∧
            disk.Stores file compilation.manifest
              (runWith write disk userFile invocation).disk ∧
            write disk file compilation.manifest = (between, none) ∧
            write between output (outputText invocation compilation) =
              ((runWith write disk userFile invocation).disk, some failure))) := by
  cases hplan : plan disk userFile invocation with
  | error cause =>
    rw [runWith_of_plan_eq_error write hplan] at hfailure ⊢
    obtain rfl := Option.some.inj hfailure
    refine ⟨rfl, fun _ => rfl, fun hwriting => ?_⟩
    cases (isOfWriting_eq_false_of_plan hplan).symm.trans hwriting
  | ok planned =>
    rw [runWith_of_plan_eq_ok write hplan] at hfailure ⊢
    obtain ⟨hstdout, hwriting, hleft⟩ := execute_failure hwrite hfailure
    obtain ⟨compilation, hcompiles, rfl⟩ := plan_eq_ok_iff.1 hplan
    refine ⟨hstdout, fun hbefore => ?_, fun _ => ⟨compilation, hcompiles, ?_⟩⟩
    · cases hwriting.symm.trans hbefore
    rcases hleft with hmade | ⟨file, text, output, between, hmanifest, houtput, hfirst, hsecond⟩
    · exact .inl hmade
    · obtain ⟨asked, hasked, hpair⟩ := Option.map_eq_some_iff.1 hmanifest
      obtain ⟨rfl, rfl⟩ := Prod.mk.inj hpair
      exact .inr ⟨asked, output, between, hasked, houtput,
        (hwrite.stores hfirst).onlyDirectories (hwrite.onlyDirectories hsecond), hfirst, hsecond⟩

/-- A project with a page, and with a file where the output is to have a directory. -/
def blockedDisk : Disk :=
  ((Disk.empty ["p"]).addFile ⟨"/p/a.html"⟩ "<Body:>b".toUTF8).addFile ⟨"/p/out"⟩ "".toUTF8

/-- A manifest is asked for, and an output below that file. -/
def blockedInvocation : Invocation :=
  { Invocation.empty with
    entries := [⟨"a.html"⟩], output := some ⟨"out/a.js"⟩, manifest := some ⟨"a.deps"⟩ }

/-- The output cannot be written, and the manifest is all that is left. -/
theorem runWith_failure_blocked :
    (run blockedDisk none blockedInvocation).failure = some (.directoryNotMade ⟨"out"⟩) ∧
      (run blockedDisk none blockedInvocation).stdout = "" ∧
      ∃ compilation, Compiles blockedDisk none blockedInvocation compilation ∧
        blockedDisk.Stores ⟨"a.deps"⟩ compilation.manifest
          (run blockedDisk none blockedInvocation).disk := by
  have hfailure : (run blockedDisk none blockedInvocation).failure =
      some (.directoryNotMade ⟨"out"⟩) := by decide +kernel
  obtain ⟨hstdout, -, hleft⟩ :=
    runWith_failure faithful_writeFile blockedDisk none blockedInvocation _ hfailure
  obtain ⟨compilation, hcompiles, hmade | ⟨_, _, _, hmanifest, -, hstores, -⟩⟩ := hleft rfl
  · -- the manifest stands where nothing was, so that more than directories has been made
    have hnew : blockedDisk.node? ["p", "a.deps"] = none ∧
        (run blockedDisk none blockedInvocation).disk.node? ["p", "a.deps"] ≠ none ∧
        (run blockedDisk none blockedInvocation).disk.node? ["p", "a.deps"] ≠
          some .directory := by decide +kernel
    rcases hmade.node?_eq ["p", "a.deps"] with heq | ⟨-, hdirectory⟩
    · exact absurd (heq.trans hnew.1) hnew.2.1
    · exact absurd hdirectory hnew.2.2
  · obtain rfl := Option.some.inj hmanifest
    exact ⟨hfailure, hstdout, compilation, hcompiles, hstores⟩

/-- A run that succeeds has compiled its entries, and the output is printed or stored as a whole. -/
theorem runWith_success {write : Writer} (hwrite : write.Faithful) {disk : Disk}
    {userFile : Option Path} {invocation : Invocation}
    (hsuccess : (runWith write disk userFile invocation).failure = none) :
    ∃ compilation, Compiles disk userFile invocation compilation ∧
      match invocation.output with
      | none => (runWith write disk userFile invocation).stdout = outputText invocation compilation
      | some output => (runWith write disk userFile invocation).disk.read output =
          .ok (outputText invocation compilation) := by
  cases hplan : plan disk userFile invocation with
  | error cause => simp [runWith_of_plan_eq_error write hplan] at hsuccess
  | ok planned =>
    rw [runWith_of_plan_eq_ok write hplan] at hsuccess ⊢
    obtain ⟨compilation, hcompiles, rfl⟩ := plan_eq_ok_iff.1 hplan
    exact ⟨compilation, hcompiles, execute_success hwrite hsuccess⟩

end Program

end ViewBundle
