/-
What a run of the program comes to. The words of the command line are looked at first, then the
input format, and then the file is converted. The first of these to fail decides how the program
exits, and whatever fails, no file is touched; a run that goes through writes one file. Dates that
are left alone make no difference to that.
-/
import Redate.Program
import Redate.Proofs.Store.Conversion

namespace Redate

/-! ## Formats that do not compile -/

theorem InputFormat.compile_eq_error {text : String} {e : Error} (h : compile text = .error e) :
    e = .invalidInputFormat text (.tooLarge sizeLimit) := by
  unfold compile at h
  split at h
  · cases h
  · cases h
    rfl

theorem Converter.compile_of_error {input output : String} {e : Error}
    (h : InputFormat.compile input = .error e) : compile input output = .error e := by
  rw [compile, h]
  rfl

/-- The converter of a command line, with its input format compiled. -/
def Arguments.converter (args : Arguments) (f : InputFormat) : Converter :=
  ⟨f, .compile args.outputFormat⟩

theorem Arguments.compile_of_ok {args : Arguments} {f : InputFormat}
    (h : InputFormat.compile args.inputFormat = .ok f) :
    Converter.compile args.inputFormat args.outputFormat = .ok (args.converter f) := by
  rw [Converter.compile, h]
  rfl

/-! ## Help and version -/

/-- The words of the command line ask for a text instead of a conversion. -/
def ArgumentError.isRequest : ArgumentError → Bool
  | help | version => true
  | emptyValue _ | unexpected .. | missing _ => false

/-- A request succeeds and has an output; any other words are wrong usage and have none. -/
theorem ArgumentError.result_spec (e : ArgumentError) :
    e.result.exitCode = (if e.isRequest then 0 else 2) ∧ (e.result.output ≠ "" ↔ e.isRequest) := by
  cases e with
  | help | version => exact ⟨rfl, iff_of_true (by decide) rfl⟩
  | emptyValue | unexpected | missing =>
    exact ⟨rfl, iff_of_false (fun h => h rfl) Bool.false_ne_true⟩

/-! ## Runs -/

namespace Store

section Stages

variable {s : Store} {words : List String}

theorem run_of_not_arguments {e : ArgumentError} (h : Arguments.ofWords words = .error e) :
    s.run words = (e.result, s) := by
  unfold run runProgram
  rw [h]
  rfl

variable {args : Arguments} (ha : Arguments.ofWords words = .ok args)
include ha

theorem run_of_not_format {e : Error} (hf : InputFormat.compile args.inputFormat = .error e) :
    s.run words = (e.result [], s) := by
  unfold run runProgram
  rw [ha]
  simp only [Converter.compile_of_error hf]
  rfl

variable {f : InputFormat} (hf : InputFormat.compile args.inputFormat = .ok f)
include hf

theorem run_of_failure {cause : FileError} {s' : Store}
    (hs : (args.converter f).convertStored s args.inputFile args.outputFile = (.error cause, s')) :
    s.run words = ((Error.file cause).result [f.record], s') := by
  unfold run runProgram
  rw [ha]
  simp only [Arguments.compile_of_ok hf, bind, StateT.bind, Converter.convertFile_eq, hs]
  rfl

theorem run_of_success {report : Report} {s' : Store}
    (hs : (args.converter f).convertStored s args.inputFile args.outputFile = (.ok report, s')) :
    s.run words =
      (⟨0, "", f.record :: (report.log ++ [report.writtenRecord args.outputFile]), ""⟩, s') := by
  unfold run runProgram
  rw [ha]
  simp only [Arguments.compile_of_ok hf, bind, StateT.bind, Converter.convertFile_eq, hs]
  rfl

end Stages

end Store

/-! ## Commands -/

theorem Store.command_of_run {s s' : Store} {setting : Option String} {words : List String}
    {result : RunResult} (h : s.run words = (result, s')) :
    s.command setting words =
      (⟨result.exitCode, result.output, result.errorOutput (.ofSetting setting)⟩, s') := by
  rw [command, h]

/-- A text whose only date is left alone, since no month has this day. -/
theorem report_february_thirtieth :
    let c : Converter := ⟨⟨"m2/d2", by decide⟩, .compile "y4"⟩
    c.report ['0', '2', '/', '3', '0'] =
      ⟨['0', '2', '/', '3', '0'], 0,
        [⟨⟨0, 5⟩, ['0', '2', '/', '3', '0'], .noSuchDay ⟨0, 2, 30⟩⟩]⟩ := by
  intro c
  have hd : firstDecomposition c.input.tokens ['0', '2', '/', '3', '0'] =
      some ⟨[⟨.tag .paddedMonth, some ['0', '2']⟩, ⟨.literal '/', some ['/']⟩,
        ⟨.tag .paddedDay, some ['3', '0']⟩], []⟩ := by
    rw [firstDecomposition_eq]; decide
  rw [Converter.report, Converter.outcomes, scan_of_text_ne_nil hd (by decide), scan_nil]
  decide

/-- How a command exits and what it changes, whatever its log shows. Words that are no arguments
decide first, then an input format that does not compile, whatever the files are, and then a
conversion that fails; none of these changes a file. All else is a success and writes the converted
text to one file, no matter how many of its dates are left alone. Only help and the version have an
output. -/
theorem command_exits (s : Store) (setting : Option String) (words : List String) :
    let (seen, s') := s.command setting words
    (∀ e, Arguments.ofWords words = .error e →
      seen.exitCode = (if e.isRequest then 0 else 2) ∧ s' = s ∧
        (seen.output ≠ "" ↔ e.isRequest)) ∧
    ∀ args, Arguments.ofWords words = .ok args →
      seen.output = "" ∧
      (∀ e, InputFormat.compile args.inputFormat = .error e → seen.exitCode = 3 ∧ s' = s) ∧
      ∀ f, InputFormat.compile args.inputFormat = .ok f →
        (∀ cause,
          ((args.converter f).convertStored s args.inputFile args.outputFile).1 = .error cause →
          seen.exitCode = 1 ∧ s' = s) ∧
        (∀ report,
          ((args.converter f).convertStored s args.inputFile args.outputFile).1 = .ok report →
          seen.exitCode = 0 ∧ ∃ text p, s.read args.inputFile = .ok (encodeText text) ∧
            s.creatable args.outputFile = .ok p ∧ report = (args.converter f).report text ∧
            s.Wrote s' p (encodeText report.text)) ∧
        ∀ text p, s.read args.inputFile = .ok (encodeText text) →
          s.creatable args.outputFile = .ok p →
          seen.exitCode = 0 ∧ s.Wrote s' p (encodeText ((args.converter f).report text).text) := by
  rcases hc : s.command setting words with ⟨seen, s'⟩
  rcases ha : Arguments.ofWords words with e | args
  · cases (Store.command_of_run (Store.run_of_not_arguments ha)).symm.trans hc
    refine ⟨?_, nofun⟩
    rintro _ ⟨⟩
    exact ⟨e.result_spec.1, rfl, e.result_spec.2⟩
  refine ⟨nofun, ?_⟩
  rintro _ ⟨⟩
  rcases hf : InputFormat.compile args.inputFormat with e | f
  · cases (Store.command_of_run (Store.run_of_not_format ha hf)).symm.trans hc
    refine ⟨rfl, fun _ _ => ⟨?_, rfl⟩, nofun⟩
    rw [InputFormat.compile_eq_error hf]
    rfl
  have ho := (args.converter f).outcome_convertStored s args.inputFile args.outputFile
  rcases hs : (args.converter f).convertStored s args.inputFile args.outputFile
    with ⟨cause | report, s'⟩
  · cases (Store.command_of_run (Store.run_of_failure ha hf hs)).symm.trans hc
    rw [hs] at ho
    refine ⟨rfl, nofun, ?_⟩
    rintro _ ⟨⟩
    rw [hs]
    refine ⟨fun _ _ => ⟨rfl, ho.store_eq_of_error⟩, nofun, fun text p hr hp => ?_⟩
    -- with a text to read and an output to create, the conversion would not have failed
    rw [Converter.convertStored_of_ok hr hp] at hs
    cases hs
  · cases (Store.command_of_run (Store.run_of_success ha hf hs)).symm.trans hc
    rw [hs] at ho
    refine ⟨rfl, nofun, ?_⟩
    rintro _ ⟨⟩
    rw [hs]
    refine ⟨nofun, ?_, fun text p hr hp => ?_⟩
    · rintro _ ⟨⟩
      cases ho with
      | written read create wrote _ _ => exact ⟨rfl, _, _, read, create, rfl, wrote⟩
    · rw [Converter.convertStored_of_ok hr hp] at hs
      cases hs
      exact ⟨rfl, s.wrote_put hp _⟩

/-- A run whose only match is left alone succeeds and copies the text. -/
theorem command_exits_nothing_replaced :
    let text := ['0', '2', '/', '3', '0']
    let s : Store := ⟨[], [(["in"], encodeText text)]⟩
    let (seen, s') := s.command none ["in", "m2/d2", "out", "y4"]
    seen.exitCode = 0 ∧ s.Wrote s' ["out"] (encodeText text) := by
  intro text s
  have h := (((command_exits s none ["in", "m2/d2", "out", "y4"]).2
    ⟨"in", "m2/d2", "out", "y4"⟩ rfl).2.2 ⟨"m2/d2", by decide⟩ rfl).2.2 text ["out"] rfl rfl
  rw [Arguments.converter, report_february_thirtieth] at h
  exact h

end Redate
