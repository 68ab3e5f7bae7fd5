/-
What the conversion of a file leaves behind. The input is read and decoded before the output is
created, and creating is all that can fail after that; so a conversion that fails leaves its store
as it was, and one that does not has written one file, with what the input held before the run.
Both names may be of one file, and the same holds at every step of a run of conversions; so all
that a run has changed are outputs of its conversions.
-/
import Redate.Proofs.Store.Writing
import Redate.Proofs.Stream

namespace Redate

/-! ## One file written -/

/-- The stores agree but for one file, which holds these bytes afterwards. -/
structure Store.Wrote (s s' : Store) (p : Path) (bytes : ByteArray) : Prop where
  directories : s'.directories = s.directories
  written : s'.get? p = some (.file bytes)
  others : ∀ q ≠ p, s'.get? q = s.get? q

theorem Store.wrote_put {s : Store} {path : String} {p : Path} (h : s.creatable path = .ok p)
    (bytes : ByteArray) : s.Wrote (s.put p bytes) p bytes where
  directories := rfl
  written := (read_put h bytes).1
  others _ hq := get?_put_of_ne hq

namespace Converter

/-- A conversion reads and decodes its input, then creates its output, and writes it last. -/
theorem convertFile_fileSystem (c : Converter) (s : Store) (source target : String) :
    c.convertFile Store.fileSystem source target s =
      match s.read source with
      | .error cause => ((.error cause, []), s)
      | .ok bytes =>
        match decodeText bytes with
        | .error cause => ((.error cause, []), s)
        | .ok text =>
          match s.creatable target with
          | .error cause => ((.error cause, []), s)
          | .ok p =>
            let report := c.report text
            ((.ok report, report.log ++ [report.writtenRecord target]),
              s.put p (encodeText report.text)) := by
  unfold convertFile transfer FileSystem.endpoints Store.fileSystem
  cases hr : s.read source with
  | error cause => simp [bind, StateT.bind, pure, StateT.pure, hr]
  | ok bytes =>
    cases ht : decodeText bytes with
    | error cause => simp [bind, StateT.bind, pure, StateT.pure, hr, ht]
    | ok text =>
      cases hc : s.creatable target with
      | error cause => simp [bind, StateT.bind, pure, StateT.pure, hr, ht, hc]
      | ok p => simp [bind, StateT.bind, pure, StateT.pure, hr, ht, hc, Store.put_put]

theorem convertStored_eq (c : Converter) (s : Store) (source target : String) :
    c.convertStored s source target =
      match s.read source with
      | .error cause => (.error cause, s)
      | .ok bytes =>
        match decodeText bytes with
        | .error cause => (.error cause, s)
        | .ok text =>
          match s.creatable target with
          | .error cause => (.error cause, s)
          | .ok p => (.ok (c.report text), s.put p (encodeText (c.report text).text)) := by
  rw [convertStored, convertFile_fileSystem]
  cases s.read source with
  | error cause => rfl
  | ok bytes =>
    cases hd : decodeText bytes with
    | error cause => simp only [hd]
    | ok text =>
      cases s.creatable target with
      | error cause => simp only [hd]
      | ok p => simp only [hd]

/-- Text that can be read is converted, if its output can be created. -/
theorem convertStored_of_ok {c : Converter} {s : Store} {source target : String}
    {text : List Char} {p : Path} (hr : s.read source = .ok (encodeText text))
    (hc : s.creatable target = .ok p) :
    c.convertStored s source target =
      (.ok (c.report text), s.put p (encodeText (c.report text).text)) := by
  rw [convertStored_eq, hr]
  simp only [decodeText_encodeText, hc]

/-- What the conversion of a file logs, by its result: the report, and after it the file that was
written. -/
def fileLog (target : String) : Except FileError Report → List Record
  | .error _ => []
  | .ok report => report.log ++ [report.writtenRecord target]

theorem convertFile_eq (c : Converter) (s : Store) (source target : String) :
    c.convertFile Store.fileSystem source target s =
      let (result, s') := c.convertStored s source target
      ((result, fileLog target result), s') := by
  rw [convertStored_eq, convertFile_fileSystem]
  cases s.read source with
  | error cause => rfl
  | ok bytes =>
    cases hd : decodeText bytes with
    | error cause => simp only [hd, fileLog]
    | ok text =>
      cases s.creatable target with
      | error cause => simp only [hd, fileLog]
      | ok p => simp only [hd, fileLog]

/-! ## The outcome of a conversion -/

/-- What the conversion of a file comes to, by the store before it. -/
inductive Outcome (c : Converter) (s : Store) (source target : String) :
    Except FileError Report → Store → Prop
  /-- The input cannot be opened or read. -/
  | unreadable {cause : FileError} (read : s.read source = .error cause) :
    Outcome c s source target (.error cause) s
  /-- The input holds no text. -/
  | notText {bytes : ByteArray} (read : s.read source = .ok bytes) (invalid : ¬ bytes.IsValidUTF8) :
    Outcome c s source target (.error .notText) s
  /-- The input holds a text, and the output cannot be created. -/
  | uncreatable {text : List Char} {cause : FileError}
    (read : s.read source = .ok (encodeText text)) (create : s.creatable target = .error cause) :
    Outcome c s source target (.error cause) s
  /-- The output is written, and reads as a stream of the input is converted. -/
  | written {text : List Char} {p : Path} {s' : Store}
    (read : s.read source = .ok (encodeText text)) (create : s.creatable target = .ok p)
    (wrote : s.Wrote s' p (encodeText (c.report text).text))
    (reads : s'.read target = .ok (encodeText (c.report text).text))
    (stream : ∀ before, c.convertStream ⟨encodeText text, none⟩ ⟨before, none⟩ =
      (.ok (c.report text), ⟨before ++ encodeText (c.report text).text, none⟩)) :
    Outcome c s source target (.ok (c.report text)) s'

theorem outcome_convertStored (c : Converter) (s : Store) (source target : String) :
    c.Outcome s source target (c.convertStored s source target).1
      (c.convertStored s source target).2 := by
  rw [convertStored_eq]
  cases hr : s.read source with
  | error cause => exact .unreadable hr
  | ok bytes =>
    simp only
    cases ht : decodeText bytes with
    | error cause =>
      obtain ⟨hv, rfl⟩ := decodeText_eq_error ht
      exact .notText hr hv
    | ok text =>
      rw [← encodeText_of_decodeText ht] at hr
      simp only
      cases hc : s.creatable target with
      | error cause => exact .uncreatable hr hc
      | ok p =>
        exact .written hr hc (Store.wrote_put hc _) (Store.read_put hc _).2
          (c.convertStream_unlimited text)

/-- A conversion that fails leaves the store as it was. -/
theorem Outcome.store_eq_of_error {c : Converter} {s s' : Store} {source target : String}
    {cause : FileError} (h : c.Outcome s source target (.error cause) s') : s' = s := by
  cases h <;> rfl

/-- A conversion changes no entry but its output. -/
theorem Outcome.creatable_of_get?_ne {c : Converter} {s s' : Store} {source target : String}
    {result : Except FileError Report} {q : Path} (h : c.Outcome s source target result s')
    (hq : s'.get? q ≠ s.get? q) : s.creatable target = .ok q := by
  cases h with
  | unreadable | notText | uncreatable => exact absurd rfl hq
  | @written text p _ _ create wrote _ _ =>
    have hp : q = p := by_contra fun hne => hq (wrote.others q hne)
    rw [hp, create]

end Converter

/-! ## Runs of conversions -/

namespace Store

theorem afterTasks_concat (s : Store) (tasks : List FileTask) (t : FileTask) :
    s.afterTasks (tasks ++ [t]) =
      (t.converter.convertStored (s.afterTasks tasks) t.source t.target).2 :=
  List.foldl_concat ..

theorem getElem?_convertTasks (s : Store) (before : List FileTask) (t : FileTask)
    (rest : List FileTask) :
    (s.convertTasks (before ++ t :: rest))[before.length]? =
      some (t.converter.convertStored (s.afterTasks before) t.source t.target).1 := by
  induction before generalizing s with
  | nil => rfl
  | cons t' before ih => exact ih _

/-- An entry that a run of conversions has changed is the output of one of them. -/
theorem exists_target_of_get?_afterTasks_ne {s : Store} {q : Path} {tasks : List FileTask}
    (h : (s.afterTasks tasks).get? q ≠ s.get? q) :
    ∃ before t rest, tasks = before ++ t :: rest ∧
      (s.afterTasks before).creatable t.target = .ok q := by
  induction tasks generalizing s with
  | nil => exact absurd rfl h
  | cons t tasks ih =>
    by_cases hq : (t.converter.convertStored s t.source t.target).2.get? q = s.get? q
    · -- the first conversion leaves the entry alone, so a later one has changed it
      rw [← hq] at h
      obtain ⟨before, t', rest, rfl, hc⟩ := ih h
      exact ⟨t :: before, t', rest, rfl, hc⟩
    · have ho := t.converter.outcome_convertStored s t.source t.target
      exact ⟨[], t, tasks, rfl, ho.creatable_of_get?_ne hq⟩

end Store

/-- The conversion of a file either fails and leaves its store as it was, or has written its output
and nothing else. So does each conversion of a run, on the store that the ones before it have left;
its input is what stands there, whether or not one of them has written it. -/
theorem conversion_all_or_nothing :
    (∀ (c : Converter) (s : Store) (source target : String),
      c.Outcome s source target (c.convertStored s source target).1
        (c.convertStored s source target).2) ∧
    ∀ (s : Store) (before : List FileTask) (t : FileTask) (rest : List FileTask),
      ∃ result, (s.convertTasks (before ++ t :: rest))[before.length]? = some result ∧
        t.converter.Outcome (s.afterTasks before) t.source t.target result
          (s.afterTasks (before ++ [t])) := by
  refine ⟨fun c s source target => c.outcome_convertStored s source target, ?_⟩
  intro s before t rest
  refine ⟨_, s.getElem?_convertTasks before t rest, ?_⟩
  rw [Store.afterTasks_concat]
  exact t.converter.outcome_convertStored _ _ _

end Redate
