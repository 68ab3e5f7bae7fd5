/-
The log of a run. A setting decides which records of it are shown and nothing else: runs that
differ in the setting exit alike, have the same output and leave the same files, and the records
that one of them shows are among those that a more verbose one shows. The warnings of a run are of
the matches that its conversion leaves alone, one of each in their order.
-/
import Redate.Proofs.Conversion.Splice
import Redate.Proofs.Program.Outcome

namespace Redate

/-! ## Settings and levels -/

/-- The level that a plain setting is for. -/
inductive SetsLevel : Option String → Level → Prop
  | unset : SetsLevel none .warn
  | empty : SetsLevel (some "") .error
  | named {word : String} {l : Level} (h : word.toLower = l.name) : SetsLevel (some word) l

theorem SetsLevel.ofSetting_eq {setting : Option String} {l : Level} (h : SetsLevel setting l) :
    Verbosity.ofSetting setting = .upTo l := by
  cases h with
  | unset | empty => rfl
  | @named word l h =>
    have hne : word ≠ "" := by
      rintro rfl
      rw [show "".toLower = "" by simp [String.toLower]] at h
      cases l <;> exact absurd h (by decide)
    rw [Verbosity.ofSetting, h]
    · cases l <;> rfl
    · exact hne

/-! ## Warnings -/

theorem filter_level_shown (l l' : Level) (log : List Record) :
    (shown (.upTo l) log).filter (·.level = l') =
      if l'.rank ≤ l.rank then log.filter (·.level = l') else [] := by
  unfold shown
  rw [List.filter_filter]
  split
  next h =>
    refine List.filter_congr fun r _ => ?_
    by_cases hr : r.level = l' <;> simp [hr, h, Verbosity.rank]
  next h =>
    refine List.filter_eq_nil_iff.2 fun r _ => ?_
    by_cases hr : r.level = l' <;> simp [hr, h, Verbosity.rank]

/-- The warnings of a report are of its skipped matches. -/
theorem Report.filter_warn_log (r : Report) :
    r.log.filter (·.level = .warn) = r.skipped.map Skipped.record := by
  have h : (r.skipped.map Skipped.record).filter (·.level = .warn) =
      r.skipped.map Skipped.record :=
    List.filter_eq_self.2 fun x hx => by
      obtain ⟨s, -, rfl⟩ := List.mem_map.1 hx
      rfl
  rw [Report.log, List.filter_append, h]
  exact List.append_nil _

theorem isShown_of_mem_heading (l : Level) (o : Origin) :
    ∀ c ∈ s!"[{l.label} {o.name}] ".toList, isShown c := by
  simp only [← List.all_eq_true, String.toList_append, List.all_append, Bool.and_eq_true]
  refine ⟨⟨⟨⟨rfl, ?_⟩, rfl⟩, ?_⟩, rfl⟩
  · cases l <;> rfl
  · cases o <;> rfl

/-- A record is written in full, if all of its message can be shown. -/
theorem Record.line_eq_text {r : Record} (h : ∀ c ∈ r.message.toList, isShown c) :
    r.line = r.text := by
  apply visible_eq_self
  intro c hc
  rw [Record.text, String.toList_append, String.toList_append, String.toList_ofList,
    List.mem_append, List.mem_append] at hc
  rcases hc with (hc | hc) | hc
  · exact isShown_of_mem_heading r.level r.origin c hc
  · obtain ⟨d, hd, hc⟩ := List.mem_flatMap.1 hc
    split at hc
    · exact (by simp [isShown, isGraphic, isSpacing] : ∀ c ∈ "\n    ".toList, isShown c) c hc
    · rw [List.mem_singleton.1 hc]
      exact h d hd
  · exact (by simp [isShown, isSpacing] : ∀ c ∈ "\n".toList, isShown c) c hc

/-! ## Shown records -/

namespace Store

/-- The log records that a command shows. -/
def records (s : Store) (setting : Option String) (words : List String) : List Record :=
  shown (.ofSetting setting) (s.run words).1.log

variable {s : Store} {words : List String}

theorem records_eq_filter {quiet loud : Option String} {l l' : Level} (hq : SetsLevel quiet l)
    (hl : SetsLevel loud l') (h : l.rank ≤ l'.rank) :
    s.records quiet words = (s.records loud words).filter (·.level.rank ≤ l.rank) := by
  have hr : (Verbosity.upTo l).rank ≤ (Verbosity.upTo l').rank := h
  unfold records
  rw [hq.ofSetting_eq, hl.ofSetting_eq]
  exact (shown_shown hr _).symm

theorem filter_warn_records {setting : Option String} {l : Level} {args : Arguments}
    {f : InputFormat} {text : List Char} {p : Path} (hl : SetsLevel setting l)
    (ha : Arguments.ofWords words = .ok args) (hf : InputFormat.compile args.inputFormat = .ok f)
    (hr : s.read args.inputFile = .ok (encodeText text))
    (hp : s.creatable args.outputFile = .ok p) :
    (s.records setting words).filter (·.level = .warn) =
      if l = .error then [] else ((args.converter f).report text).skipped.map Skipped.record := by
  have hlog : (s.run words).1.log.filter (·.level = .warn) =
      ((args.converter f).report text).skipped.map Skipped.record := by
    -- behind the warnings and before them are records of other levels
    rw [run_of_success ha hf (Converter.convertStored_of_ok hr hp), ← Report.filter_warn_log]
    exact (List.filter_append ..).trans (List.append_nil _)
  rw [records, hl.ofSetting_eq, filter_level_shown, hlog]
  cases l <;> rfl

end Store

/-- A setting decides which records a command shows, and nothing else it does: the exit code, the
output, the files and the message behind the records are the same for any two settings, and the less
verbose one shows the records of the other up to its own level. Whenever a text is converted, the
warnings are of the matches left alone, one of each in their order, unless only errors are shown;
all other matches are replaced. -/
theorem log_only_observes (s : Store) (words : List String) :
    (∀ quiet loud l l', SetsLevel quiet l → SetsLevel loud l' → l.rank ≤ l'.rank →
      let (seen, after) := s.command quiet words
      let (seen', after') := s.command loud words
      seen.exitCode = seen'.exitCode ∧ seen.output = seen'.output ∧ after = after' ∧
      ∃ message,
        seen.errorOutput = String.join ((s.records quiet words).map Record.line) ++ message ∧
        seen'.errorOutput = String.join ((s.records loud words).map Record.line) ++ message ∧
        s.records quiet words = (s.records loud words).filter (·.level.rank ≤ l.rank)) ∧
    ∀ setting l args f text p, SetsLevel setting l → Arguments.ofWords words = .ok args →
      InputFormat.compile args.inputFormat = .ok f →
      s.read args.inputFile = .ok (encodeText text) → s.creatable args.outputFile = .ok p →
      let c := args.converter f
      let report := c.report text
      (s.records setting words).filter (·.level = .warn) =
        (if l = .error then [] else report.skipped.map Skipped.record) ∧
      report.replaced + report.skipped.length = (c.find text).length ∧
      ∀ x ∈ report.skipped,
        x.record.message = "Could not parse date '" ++ String.ofList x.text ++
          "', leaving alone: " ++ x.reason.message ∧
        ((∀ c ∈ x.record.message.toList, isShown c) → x.record.line = x.record.text) := by
  refine ⟨fun quiet loud l l' hq hl hle => ?_, fun setting l args f text p hl ha hf hr hp => ?_⟩
  · exact ⟨rfl, rfl, rfl, (s.run words).1.message, rfl, rfl, Store.records_eq_filter hq hl hle⟩
  · refine ⟨Store.filter_warn_records hl ha hf hr hp, ?_, fun x _ => ⟨rfl, Record.line_eq_text⟩⟩
    rw [report_replaced_eq, report_skipped_eq, Converter.length_skipped]

/-- A date that is left alone is warned of once, with the default setting and with all records. -/
theorem log_only_observes_nothing_replaced :
    let s : Store := ⟨[], [(["in"], encodeText ['0', '2', '/', '3', '0'])]⟩
    let words := ["in", "m2/d2", "out", "y4"]
    let warning : Record := ⟨.warn, .converter,
      "Could not parse date '02/30', leaving alone: 0000-02-30 is not a valid calendar date"⟩
    s.records none words = (s.records (some "TRACE") words).filter (·.level.rank ≤ 2) ∧
      (s.records none words).filter (·.level = .warn) = [warning] ∧
      (s.records (some "TRACE") words).filter (·.level = .warn) = [warning] := by
  intro s words warning
  obtain ⟨hruns, hwarn⟩ := log_only_observes s words
  have hl : SetsLevel (some "TRACE") .trace :=
    .named (by rw [← String.toList_inj, String.toLower, String.toList_map]; rfl)
  obtain ⟨-, -, -, -, -, -, hfilter⟩ := hruns none (some "TRACE") .warn .trace .unset hl (by decide)
  refine ⟨hfilter, ?_, ?_⟩
  · have h := (hwarn none .warn ⟨"in", "m2/d2", "out", "y4"⟩ ⟨"m2/d2", by decide⟩ _ ["out"] .unset
      rfl rfl rfl rfl).1
    rw [h, Arguments.converter, report_february_thirtieth]
    rfl
  · have h := (hwarn (some "TRACE") .trace ⟨"in", "m2/d2", "out", "y4"⟩ ⟨"m2/d2", by decide⟩ _
      ["out"] hl rfl rfl rfl rfl).1
    rw [h, Arguments.converter, report_february_thirtieth]
    rfl

end Redate
