import WatLink.Command.Run
import WatLink.Proofs.DiskWrites

/-!
# Output of the command

A run writes at its very end and only what is complete: the linked module as text,
pretty printed or in binary.  It goes to the standard output or to one file.  A run
that ends in any other way writes nothing: the disk is as it was found, or as the
encoder left it.

Nothing is assumed of the reader of configuration files and of the programs.  They
may give anything and break, and programs may change any file.
-/

namespace WatLink

/-- The disk behind a run: the one that the encoder left, with the file that the run
wrote. -/
def Outcome.diskAfter (outcome : Outcome) (disk : Disk) : Disk :=
  match outcome.written with
  | none => outcome.encoderDisk.getD disk
  | some (path, bytes) =>
      ((outcome.encoderDisk.getD disk).write path bytes).toOption.getD
        (outcome.encoderDisk.getD disk)

/-- How a run on a disk ends, what it writes, and the disk that it writes to. -/
def Outcome.effects (outcome : Outcome) (disk : Disk) :
    Ending × Bytes × Disk × Option (Path × Bytes) :=
  (outcome.ending, outcome.output, outcome.encoderDisk.getD disk, outcome.written)

namespace Run

/-- What becomes of the encoder of a linked module, and the disk that it leaves. -/
def encoding (surroundings : Surroundings) (settings : Settings) (module : Tree) :
    ProcessResult × Disk :=
  surroundings.programs surroundings.disk (settings.encoder.command surroundings.encoderFiles.input
    surroundings.encoderFiles.output settings.encoderFlags) module.print

/-- The disk that the output for a linked module is written to. -/
def outputDisk (surroundings : Surroundings) (settings : Settings) (module : Tree) : Disk :=
  if settings.emitBinary then (encoding surroundings settings module).2 else surroundings.disk

/-- The complete output for a linked module: its text and a newline, its pretty print,
or the bytes that the encoder makes of its text. -/
inductive Complete (surroundings : Surroundings) (settings : Settings) (module : Tree) :
    Bytes → Prop
  | text : settings.emitBinary = false → settings.pretty = false →
      Complete surroundings settings module (Text.encodeUtf8 (module.print ++ "\n"))
  | pretty : settings.emitBinary = false → settings.pretty = true →
      Complete surroundings settings module (Text.encodeUtf8 (module.prettyPrint 2))
  | binary {bytes : Bytes} : settings.emitBinary = true →
      (encoding surroundings settings module).1 = .succeeded (some bytes) →
        Complete surroundings settings module bytes

/-- Whether a run has settings that go together and links its input into a module. -/
structure Links (surroundings : Surroundings) (arguments : Arguments) (settings : Settings)
    (module : Tree) : Prop where
  loads : (fileSettings surroundings.reader surroundings.disk arguments).1.bind
    (override arguments) = .ok settings
  allowed : settings.encoderFlags = [] ∨ settings.emitBinary = true
  links : (linkInput surroundings settings arguments.input).1 = .ok module

theorem Complete.unique {surroundings : Surroundings} {settings : Settings} {module : Tree}
    {bytes bytes' : Bytes} (complete : Complete surroundings settings module bytes)
    (complete' : Complete surroundings settings module bytes') : bytes = bytes' := by
  cases complete with
  | text notBinary notPretty => cases complete' <;> simp_all
  | pretty notBinary isPretty => cases complete' <;> simp_all
  | binary isBinary encodes => cases complete' <;> simp_all

theorem Links.unique {surroundings : Surroundings} {arguments : Arguments}
    {settings settings' : Settings} {module module' : Tree}
    (links : Links surroundings arguments settings module)
    (links' : Links surroundings arguments settings' module') :
    settings = settings' ∧ module = module' := by
  cases links.loads.symm.trans links'.loads
  cases links.links.symm.trans links'.links
  exact ⟨rfl, rfl⟩

/-! ## Failures -/

/-- A run that fails and writes nothing. -/
def Silent (outcome : Outcome) : Prop :=
  outcome.ending ≠ .exit 0 ∧ outcome.output = [] ∧ outcome.written = none

theorem Silent.diskAfter {outcome : Outcome} (silent : Silent outcome) (disk : Disk) :
    outcome.diskAfter disk = outcome.encoderDisk.getD disk := by
  simp only [Outcome.diskAfter, silent.2.2]

/-- A run that fails, writes nothing and runs no encoder. -/
def Idle (outcome : Outcome) : Prop :=
  Silent outcome ∧ outcome.encoderDisk = none

theorem Idle.diskAfter {outcome : Outcome} (idle : Idle outcome) (disk : Disk) :
    outcome.diskAfter disk = disk := by
  rw [idle.1.diskAfter, idle.2, Option.getD_none]

theorem idle_reported (message : String) : Idle (reported message) := by
  simp [Idle, Silent, reported]

theorem idle_refused (error : UsageError) : Idle (refused error) := by
  simp [Idle, Silent, refused]

theorem idle_broken (error : RunError) : Idle { ending := .broken error } := by
  simp [Idle, Silent]

theorem idle_readFailure (input : String) (fault : DiskFault) (error : RunError) :
    Idle (readFailure input fault error) := by
  unfold readFailure
  split
  · exact idle_reported _
  · exact idle_broken error

theorem idle_inputFailure (input : String) (error : InputError) :
    Idle (inputFailure input error) := by
  unfold inputFailure
  split
  · exact idle_readFailure _ _ _
  · exact idle_reported _
  · exact idle_readFailure _ _ _
  · split
    · exact idle_broken _
    · exact idle_reported _

/-! ## The course of a run -/

/-- The ways that a run can take. -/
inductive Course (surroundings : Surroundings) (arguments : Arguments) (outcome : Outcome) : Prop
  /-- There is a complete output, and the run delivers it. -/
  | delivers {settings : Settings} {module : Tree} {bytes : Bytes} :
      Links surroundings arguments settings module → Complete surroundings settings module bytes →
        outcome.effects surroundings.disk =
          (deliver (outputDisk surroundings settings module) arguments.output bytes).effects
            (outputDisk surroundings settings module) →
          Course surroundings arguments outcome
  /-- The encoder makes no output of the module. -/
  | unencoded {settings : Settings} {module : Tree} :
      Links surroundings arguments settings module → settings.emitBinary = true →
        (∀ bytes, ¬ Complete surroundings settings module bytes) → Silent outcome →
          outcome.encoderDisk.getD surroundings.disk = (encoding surroundings settings module).2 →
            Course surroundings arguments outcome
  /-- There is no linked module. -/
  | unlinked : (∀ settings module, ¬ Links surroundings arguments settings module) →
      Idle outcome → Course surroundings arguments outcome

/-- The course of a run depends on nothing else that it reports. -/
theorem Course.of_report {surroundings : Surroundings} {arguments : Arguments} {outcome : Outcome}
    (course : Course surroundings arguments outcome) (journal : List Event) (errorOutput : String) :
    Course surroundings arguments { outcome with journal, errorOutput } := by
  cases course with
  | delivers links complete effects => exact .delivers links complete effects
  | unencoded links isBinary noOutput silent leaves =>
      exact .unencoded links isBinary noOutput silent leaves
  | unlinked noModule idle => exact .unlinked noModule idle

theorem effects_deliver (disk left : Disk) (output : String) (bytes : Bytes) :
    Outcome.effects { deliver left output bytes with encoderDisk := some left } disk =
      (deliver left output bytes).effects left := by
  have noEncoder : (deliver left output bytes).encoderDisk = none := by
    simp only [deliver]
    repeat' split
    all_goals rfl
  simp only [Outcome.effects, noEncoder, Option.getD_some, Option.getD_none]

theorem encode_result_eq_ok_iff {programs : Programs} {files : EncoderFiles} {disk : Disk}
    {encoder : Encoder} {flags : List String} {text : String} {bytes : Bytes} :
    (encode programs files disk encoder flags text).result = .ok bytes ↔
      (programs disk (encoder.command files.input files.output flags) text).1 =
        .succeeded (some bytes) := by
  simp only [encode]
  split <;> simp_all

theorem complete_iff_of_binary {surroundings : Surroundings} {settings : Settings} {module : Tree}
    {bytes : Bytes} (isBinary : settings.emitBinary = true) :
    Complete surroundings settings module bytes ↔
      (encoding surroundings settings module).1 = .succeeded (some bytes) := by
  refine ⟨?_, .binary isBinary⟩
  rintro (⟨notBinary, -⟩ | ⟨notBinary, -⟩ | ⟨-, encodes⟩)
  · simp [isBinary] at notBinary
  · simp [isBinary] at notBinary
  · exact encodes

theorem course_finish {surroundings : Surroundings} {arguments : Arguments} {settings : Settings}
    {module : Tree} (links : Links surroundings arguments settings module) :
    Course surroundings arguments (finish surroundings settings arguments.output module).1 := by
  unfold finish
  cases isBinary : settings.emitBinary with
  | false =>
      have sameDisk : outputDisk surroundings settings module = surroundings.disk := by
        simp [outputDisk, isBinary]
      cases isPretty : settings.pretty with
      | false => exact .delivers links (.text isBinary isPretty) (sameDisk ▸ rfl)
      | true => exact .delivers links (.pretty isBinary isPretty) (sameDisk ▸ rfl)
  | true =>
      have leaves : outputDisk surroundings settings module =
          (encoding surroundings settings module).2 := by
        simp [outputDisk, isBinary]
      have encodes : ∀ bytes, Complete surroundings settings module bytes ↔
          (encode surroundings.programs surroundings.encoderFiles surroundings.disk
            settings.encoder settings.encoderFlags module.print).result = .ok bytes :=
        fun bytes => (complete_iff_of_binary isBinary).trans encode_result_eq_ok_iff.symm
      simp only [if_true]
      cases result : (encode surroundings.programs surroundings.encoderFiles surroundings.disk
        settings.encoder settings.encoderFlags module.print).result with
      | error error =>
          refine .unencoded links isBinary (by simp [encodes, result]) ?_ rfl
          cases error <;> simp [Silent, reported]
      | ok bytes =>
          refine .delivers links ((encodes bytes).mpr result) ?_
          rw [leaves]
          exact effects_deliver _ _ _ _

theorem course_withSettings {surroundings : Surroundings} {arguments : Arguments}
    {settings : Settings} (loaded : (fileSettings surroundings.reader surroundings.disk
      arguments).1.bind (override arguments) = .ok settings) :
    Course surroundings arguments (withSettings surroundings arguments settings) := by
  have only : ∀ {settings' module}, Links surroundings arguments settings' module →
      settings' = settings := by
    intro settings' module links
    cases loaded.symm.trans links.loads
    rfl
  unfold withSettings
  split
  · rename_i conflict
    simp only [Bool.and_eq_true, Bool.not_eq_true'] at conflict
    refine .unlinked (fun settings' module links => ?_) (idle_refused _)
    obtain rfl := only links
    rcases links.allowed with noFlags | isBinary
    · simp [noFlags] at conflict
    · simp [isBinary] at conflict
  · rename_i noConflict
    have allowed : settings.encoderFlags = [] ∨ settings.emitBinary = true := by
      by_contra conflict
      simp_all
    dsimp only
    cases linked : (linkInput surroundings settings arguments.input).1 with
    | error error =>
        refine Course.of_report (.unlinked (fun settings' module links => ?_)
          (idle_inputFailure arguments.input error)) _ _
        obtain rfl := only links
        cases linked.symm.trans links.links
    | ok module => exact (course_finish ⟨loaded, allowed, linked⟩).of_report _ _

theorem course_withArguments (surroundings : Surroundings) (arguments : Arguments) :
    Course surroundings arguments (withArguments surroundings arguments) := by
  unfold withArguments
  dsimp only
  cases loaded : (fileSettings surroundings.reader surroundings.disk arguments).1.bind
    (override arguments) with
  | error error =>
      refine Course.of_report (.unlinked (fun settings module links => ?_) ?_) _ _
      · cases loaded.symm.trans links.loads
      · dsimp only
        split
        · exact idle_reported error.message
        · exact idle_broken (.settings error)
  | ok settings => exact (course_withSettings loaded).of_report _ _

/-! ## Delivering -/

/-- Where some bytes went: to the standard output, or to the file at a path, with
every other file as it was. -/
inductive Delivered (before after : Disk) (output : String) (bytes printed : Bytes) : Prop
  | standard : output = "-" → printed = bytes → after = before →
      Delivered before after output bytes printed
  | file {parts : List String} : output ≠ "-" → printed = [] →
      before.locate (Path.ofText output) = .ok parts →
      (∀ other, after.file? other = if other = parts then some bytes else before.file? other) →
      after.read (Path.ofText output) = .ok bytes →
        Delivered before after output bytes printed

/-- Whether something can be written to an output. -/
def Accepts (disk : Disk) (output : String) (bytes : Bytes) : Prop :=
  output = "-" ∨ ∃ disk', disk.write (Path.ofText output) bytes = .ok disk'

/-- Delivering succeeds if the output takes the bytes, and else writes nothing. -/
theorem deliver_cases {disk left : Disk} {output : String} {bytes : Bytes} {outcome : Outcome}
    (delivers : outcome.effects disk = (deliver left output bytes).effects left) :
    Accepts left output bytes ∧ outcome.ending = .exit 0 ∧
        Delivered left (outcome.diskAfter disk) output bytes outcome.output ∨
      ¬ Accepts left output bytes ∧ Silent outcome ∧ outcome.diskAfter disk = left := by
  unfold deliver at delivers
  split at delivers
  · rename_i isStandard
    simp only [Outcome.effects, Prod.mk.injEq, Option.getD_none] at delivers
    obtain ⟨ends, outputs, leaves, writes⟩ := delivers
    refine .inl ⟨.inl isStandard, ends, .standard isStandard outputs ?_⟩
    simp [Outcome.diskAfter, writes, leaves]
  · rename_i notStandard
    dsimp only at delivers
    split at delivers
    · rename_i fault refused
      simp only [Outcome.effects, Prod.mk.injEq, Option.getD_none] at delivers
      obtain ⟨ends, outputs, leaves, writes⟩ := delivers
      have silent : Silent outcome := ⟨by simp [ends], outputs, writes⟩
      refine .inr ⟨?_, silent, (silent.diskAfter disk).trans leaves⟩
      rintro (isStandard | ⟨disk', written⟩)
      · exact notStandard isStandard
      · cases refused.symm.trans written
    · rename_i disk' written
      simp only [Outcome.effects, Prod.mk.injEq, Option.getD_none] at delivers
      obtain ⟨ends, outputs, leaves, writes⟩ := delivers
      have after : outcome.diskAfter disk = disk' := by
        simp [Outcome.diskAfter, writes, leaves, written, Except.toOption]
      obtain ⟨parts, leads, -⟩ := Disk.write_eq_ok_iff.mp written
      refine .inl ⟨.inr ⟨disk', written⟩, ends, .file notStandard outputs leads ?_ ?_⟩
      · rw [after]
        exact Disk.file?_write leads written
      · rw [after]
        exact Disk.read_write written

/-- Whether a disk is as a run found it, or as the encoder of its linked module left
it. -/
def Untouched (surroundings : Surroundings) (words : List String) (disk : Disk) : Prop :=
  disk = surroundings.disk ∨
    ∃ arguments settings module, Arguments.read words = .ok arguments ∧
      Links surroundings arguments settings module ∧ settings.emitBinary = true ∧
        disk = (encoding surroundings settings module).2

theorem Untouched.of_outputDisk {surroundings : Surroundings} {words : List String}
    {arguments : Arguments} {settings : Settings} {module : Tree}
    (reads : Arguments.read words = .ok arguments)
    (links : Links surroundings arguments settings module) :
    Untouched surroundings words (outputDisk surroundings settings module) := by
  unfold outputDisk
  split
  · rename_i isBinary
    exact .inr ⟨arguments, settings, module, reads, links, isBinary, rfl⟩
  · exact .inl rfl

/-- Whether no program changes the file at a place. -/
def Spared (surroundings : Surroundings) (parts : List String) : Prop :=
  ∀ command text, (surroundings.programs surroundings.disk command text).2.file? parts =
    surroundings.disk.file? parts

theorem Untouched.file?_eq {surroundings : Surroundings} {words : List String} {disk : Disk}
    {parts : List String} (untouched : Untouched surroundings words disk)
    (spared : Spared surroundings parts) : disk.file? parts = surroundings.disk.file? parts := by
  rcases untouched with rfl | ⟨_, _, _, -, -, -, rfl⟩
  · rfl
  · exact spared _ _

/-- A run with arguments succeeds, with its complete output delivered, or there is none
that the output would take and it fails. -/
theorem Course.succeeds_or_fails {surroundings : Surroundings} {words : List String}
    {arguments : Arguments} {outcome : Outcome} (reads : Arguments.read words = .ok arguments)
    (course : Course surroundings arguments outcome) :
    (∃ settings module bytes, Links surroundings arguments settings module ∧
        Complete surroundings settings module bytes ∧
        Accepts (outputDisk surroundings settings module) arguments.output bytes ∧
        outcome.ending = .exit 0 ∧
        Delivered (outputDisk surroundings settings module) (outcome.diskAfter surroundings.disk)
          arguments.output bytes outcome.output) ∨
      (∀ settings module bytes, Links surroundings arguments settings module →
        Complete surroundings settings module bytes →
          ¬ Accepts (outputDisk surroundings settings module) arguments.output bytes) ∧
        Silent outcome ∧ Untouched surroundings words (outcome.diskAfter surroundings.disk) := by
  cases course with
  | @delivers settings module bytes links complete effects =>
      rcases deliver_cases effects with ⟨accepts, ends, delivered⟩ | ⟨refuses, silent, leaves⟩
      · exact .inl ⟨settings, module, bytes, links, complete, accepts, ends, delivered⟩
      · refine .inr ⟨fun settings' module' bytes' links' complete' => ?_, silent,
          leaves ▸ .of_outputDisk reads links⟩
        obtain ⟨rfl, rfl⟩ := links.unique links'
        exact complete.unique complete' ▸ refuses
  | @unencoded settings module links isBinary noOutput silent leaves =>
      have left := (silent.diskAfter surroundings.disk).trans leaves
      refine .inr ⟨fun settings' module' bytes links' complete => ?_, silent,
        .inr ⟨arguments, settings, module, reads, links, isBinary, left⟩⟩
      obtain ⟨rfl, rfl⟩ := links.unique links'
      exact absurd complete (noOutput bytes)
  | unlinked noModule idle =>
      exact .inr ⟨fun settings module _ links => absurd links (noModule settings module), idle.1,
        .inl (idle.diskAfter surroundings.disk)⟩

/-- A run that does not end well prints nothing and touches no file, wherever its output
was to go.  With arguments that can be read it ends well if there is a complete output
and a place for it, and writes it there. -/
theorem command_writes_all_or_nothing (surroundings : Surroundings) (words : List String) :
    ((command surroundings words).ending ≠ .exit 0 →
      (command surroundings words).output = [] ∧ (command surroundings words).written = none ∧
        Untouched surroundings words
          ((command surroundings words).diskAfter surroundings.disk) ∧
        ∀ parts, Spared surroundings parts →
          ((command surroundings words).diskAfter surroundings.disk).file? parts =
            surroundings.disk.file? parts) ∧
    ∀ arguments, Arguments.read words = .ok arguments →
      ((command surroundings words).ending = .exit 0 ↔
        ∃ settings module bytes, Links surroundings arguments settings module ∧
          Complete surroundings settings module bytes ∧
          Accepts (outputDisk surroundings settings module) arguments.output bytes) ∧
      ∀ settings module bytes, Links surroundings arguments settings module →
        Complete surroundings settings module bytes →
          (command surroundings words).ending = .exit 0 →
            Delivered (outputDisk surroundings settings module)
              ((command surroundings words).diskAfter surroundings.disk) arguments.output bytes
              (command surroundings words).output := by
  have silently : ∀ outcome : Outcome, Silent outcome →
      Untouched surroundings words (outcome.diskAfter surroundings.disk) →
        outcome.output = [] ∧ outcome.written = none ∧
          Untouched surroundings words (outcome.diskAfter surroundings.disk) ∧
          ∀ parts, Spared surroundings parts →
            (outcome.diskAfter surroundings.disk).file? parts = surroundings.disk.file? parts :=
    fun outcome silent untouched =>
      ⟨silent.2.1, silent.2.2, untouched, fun _ => untouched.file?_eq⟩
  unfold command
  cases reads : Arguments.read words with
  | error stop =>
      refine ⟨fun fails => ?_, by simp⟩
      cases stop with
      | helpRequested => exact absurd rfl fails
      | refused error =>
          exact silently _ (idle_refused error).1 (.inl ((idle_refused error).diskAfter _))
  | ok arguments =>
      dsimp only
      rcases (course_withArguments surroundings arguments).succeeds_or_fails reads with
        ⟨settings, module, bytes, links, complete, accepts, ends, delivered⟩ |
          ⟨noOutput, silent, untouched⟩
      · refine ⟨fun fails => absurd ends fails, ?_⟩
        rintro _ ⟨⟩
        refine ⟨iff_of_true ends ⟨settings, module, bytes, links, complete, accepts⟩, ?_⟩
        intro settings' module' bytes' links' complete' _
        obtain ⟨rfl, rfl⟩ := links.unique links'
        exact complete.unique complete' ▸ delivered
      · refine ⟨fun _ => silently _ silent untouched, ?_⟩
        rintro _ ⟨⟩
        refine ⟨iff_of_false silent.1 ?_, fun _ _ _ _ _ ends => absurd ends silent.1⟩
        rintro ⟨settings, module, bytes, links, complete, accepts⟩
        exact noOutput settings module bytes links complete accepts

/-- Surroundings with one file to link, one directory, a configuration file that the
reader takes for a choice of passes, and programs that leave a log. -/
def draft : Surroundings where
  disk :=
    { workingDirectory := ⟨"/", []⟩
      files := [(["in.wat"], Text.encodeUtf8 "(module (elem 0x2))"),
        (["swl.yaml"], Text.encodeUtf8 "transforms: numerals")]
      directories := [["out"]] }
  input := []
  reader := fun _ => .data (.mapping [(.text "transforms", .text "numerals")])
  programs := fun disk _ _ =>
    (.succeeded (some [0, 97, 115, 109]), { disk with files := (["log"], []) :: disk.files })
  encoderFiles := ⟨⟨"/", ["module.wat"]⟩, ⟨"/", ["module.wasm"]⟩⟩

theorem linkInput_draft (settings : Settings) (passes : settings.passes = [.decimalNumerals])
    (noRoot : settings.root = none) :
    (linkInput draft settings "in.wat").1 = .ok (.form "module" [.form "elem" [.atom "2"]]) := by
  have bytes : draft.disk.readResolved (Path.ofText "in.wat") =
      .ok (Text.encodeUtf8 "(module (elem 0x2))") := rfl
  have decodes : Text.decodeLines (Text.encodeUtf8 "(module (elem 0x2))") =
      .ok "(module (elem 0x2))" := by
    cbv
  have origin : originOf draft.disk.workingDirectory ⟨"/", []⟩ "in.wat" = "in.wat" := rfl
  have reads : readInput draft ⟨"/", []⟩ "in.wat" = .ok ("(module (elem 0x2))", some "in.wat") := by
    simp only [readInput, bytes, decodes, origin]
    rfl
  have parses : Tree.parse "(module (elem 0x2))" =
      .ok (.form "module" [.form "elem" [.atom "0x2"]]) := by
    cbv
  have succeeds : (Link.link [.decimalNumerals] (some "in.wat")
      ⟨.directory ⟨"/", []⟩ draft.disk [], #[]⟩
        (.form "module" [.form "elem" [.atom "0x2"]])).failure = none := by
    decide +kernel
  have links : (Link.link [.decimalNumerals] (some "in.wat")
      ⟨.directory ⟨"/", []⟩ draft.disk [], #[]⟩
        (.form "module" [.form "elem" [.atom "0x2"]])).tree =
          .form "module" [.form "elem" [.atom "2"]] := by
    decide +kernel
  have root : settings.root.getD draft.disk.workingDirectory = ⟨"/", []⟩ := by rw [noRoot]; rfl
  simp only [linkInput, root, reads, passes, Link.linkSource, parses, succeeds, links]

theorem links_draft (output : String) (emitBinary : Bool) :
    Links draft { input := "in.wat", output, emitBinary }
      { passes := [.decimalNumerals], emitBinary } (.form "module" [.form "elem" [.atom "2"]]) := by
  have find : settingsFile draft.disk { input := "in.wat", output, emitBinary } =
      .ok (some ⟨"/", ["swl.yaml"]⟩) := rfl
  have entries : Settings.entriesOfFile draft.reader draft.disk ⟨"/", ["swl.yaml"]⟩ =
      .ok [(.text "transforms", .text "numerals")] := rfl
  have settings : Settings.ofEntries ⟨"/", []⟩ [(.text "transforms", .text "numerals")] =
      .ok { passes := [.decimalNumerals] } := rfl
  have parent : (Path.mk "/" ["swl.yaml"]).parent = ⟨"/", []⟩ := rfl
  refine ⟨?_, .inl rfl, linkInput_draft _ rfl rfl⟩
  simp only [fileSettings, find, Settings.load, entries, parent, settings]
  cases emitBinary <;> rfl

/-- The draft is linked into a new file.  As a binary it does not go where a directory
stands; then there is the log of the encoder, and the input is as it was. -/
theorem command_draft :
    (command draft ["in.wat", "-o", "out.wat"]).ending = .exit 0 ∧
      Delivered draft.disk ((command draft ["in.wat", "-o", "out.wat"]).diskAfter draft.disk)
        "out.wat" (Text.encodeUtf8 "(module (elem 2))\n")
        (command draft ["in.wat", "-o", "out.wat"]).output ∧
      (command draft ["in.wat", "-c", "-o", "out"]).ending ≠ .exit 0 ∧
      (command draft ["in.wat", "-c", "-o", "out"]).output = [] ∧
      ((command draft ["in.wat", "-c", "-o", "out"]).diskAfter draft.disk).file? ["in.wat"] =
        some (Text.encodeUtf8 "(module (elem 0x2))") := by
  have prints : (Tree.form "module" [.form "elem" [.atom "2"]]).print ++ "\n" =
      "(module (elem 2))\n" := by
    decide +kernel
  have complete : Complete draft { passes := [.decimalNumerals] }
      (.form "module" [.form "elem" [.atom "2"]]) (Text.encodeUtf8 "(module (elem 2))\n") :=
    prints ▸ .text rfl rfl
  have newFile : Accepts draft.disk "out.wat" (Text.encodeUtf8 "(module (elem 2))\n") :=
    .inr ⟨_, Disk.write_eq_ok_iff.mpr ⟨["out.wat"], rfl, rfl, rfl, rfl⟩⟩
  obtain ⟨-, withFile⟩ := command_writes_all_or_nothing draft ["in.wat", "-o", "out.wat"]
  obtain ⟨ends, delivers⟩ := withFile _ rfl
  have succeeds := ends.mpr ⟨_, _, _, links_draft "out.wat" false, complete, newFile⟩
  obtain ⟨fails, withDirectory⟩ :=
    command_writes_all_or_nothing draft ["in.wat", "-c", "-o", "out"]
  have refuses : (command draft ["in.wat", "-c", "-o", "out"]).ending ≠ .exit 0 := by
    intro ends
    obtain ⟨settings, module, bytes, links, -, accepts⟩ := (withDirectory _ rfl).1.mp ends
    obtain ⟨rfl, rfl⟩ := links.unique (links_draft "out" true)
    rcases accepts with isStandard | ⟨disk', written⟩
    · exact absurd isStandard (by decide)
    · obtain ⟨parts, leads, notDirectory, -⟩ := Disk.write_eq_ok_iff.mp written
      cases leads
      cases notDirectory
  have spared : Spared draft ["in.wat"] := fun _ _ => rfl
  obtain ⟨prints, -, -, unchanged⟩ := fails refuses
  exact ⟨succeeds, delivers _ _ _ (links_draft "out.wat" false) complete succeeds, refuses, prints,
    unchanged _ spared⟩

end Run

end WatLink
