/-
What the conversion of a stream comes to. The source is read to its end and decoded before anything
is written, so nothing is written of a source that fails or holds no text. What a sink takes is the
front of the converted text, and the conversion succeeds exactly when the sink takes all of it.
-/
import Redate.Proofs.Matching.Search
import Redate.Stream

namespace Redate

/-! ## Bytes of a text -/

theorem decodeText_eq_error {bytes : ByteArray} {cause : FileError}
    (h : decodeText bytes = .error cause) : ¬ bytes.IsValidUTF8 ∧ cause = .notText := by
  unfold decodeText String.fromUTF8? at h
  by_cases hv : bytes.IsValidUTF8
  · rw [dif_pos hv] at h
    cases h
  · rw [dif_neg hv] at h
    cases h
    exact ⟨hv, rfl⟩

theorem encodeText_injective {a b : List Char} (h : encodeText a = encodeText b) : a = b := by
  have h := congrArg decodeText h
  rw [decodeText_encodeText, decodeText_encodeText] at h
  exact Except.ok.inj h

/-! ## Sources and sinks -/

/-- A source is read to its end if it fails, when at all, behind its last byte only. -/
def Source.Delivers (s : Source) : Prop :=
  ∀ n ∈ s.failsAfter, s.data.size < n

instance (s : Source) : Decidable s.Delivers :=
  inferInstanceAs (Decidable (∀ n ∈ s.failsAfter, _))

theorem Source.readAll_of_delivers {s : Source} (h : s.Delivers) : s.readAll = .ok s.data := by
  obtain ⟨data, failsAfter⟩ := s
  cases failsAfter with
  | none => rfl
  | some n => exact if_neg (not_le.2 (h n rfl))

theorem Source.readAll_of_not_delivers {s : Source} (h : ¬ s.Delivers) :
    s.readAll = .error (.other "read failed") := by
  obtain ⟨data, failsAfter⟩ := s
  cases failsAfter with
  | none => exact absurd (fun n hn => by cases hn) h
  | some n =>
    refine if_pos (not_lt.1 fun hn => h ?_)
    rintro _ ⟨⟩
    exact hn

/-- A sink that holds nothing yet takes bytes up to its limit. -/
theorem Sink.writeAll_empty (bytes : ByteArray) (limit : Option Nat) :
    Sink.writeAll bytes ⟨.empty, limit⟩ =
      if ∀ n ∈ limit, bytes.size ≤ n then (.ok (), ⟨bytes, limit⟩)
      else (.error .writerFull, ⟨bytes.extract 0 (limit.getD 0), limit⟩) := by
  unfold Sink.writeAll
  cases limit with
  | none => simp [Sink.room]
  | some n =>
    by_cases h : bytes.size ≤ n
    · simp [Sink.room, h]
    · have hn : n ≤ bytes.size := by omega
      simp [Sink.room, h, hn]

/-! ## The outcome of a conversion -/

namespace Converter

/-- A conversion reads and decodes its source, and writes what the text is converted to last. -/
theorem convertStream_eq (c : Converter) (source : Source) (sink : Sink) :
    c.convertStream source sink =
      match source.readAll with
      | .error cause => (.error cause, sink)
      | .ok bytes =>
        match decodeText bytes with
        | .error cause => (.error cause, sink)
        | .ok text =>
          match Sink.writeAll (encodeText (c.report text).text) sink with
          | (.error cause, sink) => (.error cause, sink)
          | (.ok (), sink) => (.ok (c.report text), sink) := by
  unfold convertStream transfer Source.endpoints
  cases hr : source.readAll with
  | error cause => simp [bind, StateT.bind, pure, StateT.pure]
  | ok bytes =>
    cases ht : decodeText bytes with
    | error cause => simp [bind, StateT.bind, pure, StateT.pure, ht]
    | ok text =>
      rcases hw : Sink.writeAll (encodeText (c.report text).text) sink with ⟨_ | _, sink'⟩ <;>
        simp [bind, StateT.bind, pure, StateT.pure, ht, hw]

/-- A stream that does not fail is converted whole into a sink without a limit. -/
theorem convertStream_unlimited (c : Converter) (text : List Char) (before : ByteArray) :
    c.convertStream ⟨encodeText text, none⟩ ⟨before, none⟩ =
      (.ok (c.report text), ⟨before ++ encodeText (c.report text).text, none⟩) := by
  rw [convertStream_eq]
  simp [Source.readAll, decodeText_encodeText, Sink.writeAll, Sink.room]

/-- What the conversion of a stream into a sink comes to that holds nothing yet, by the bytes to be
read, where reading fails, and the limit of the sink: its result, and the bytes that the sink holds
afterwards. -/
inductive StreamOutcome (c : Converter) (data : ByteArray) (failsAfter limit : Option Nat) :
    Except FileError Report → ByteArray → Prop
  /-- Reading fails, whether or not the bytes before are a text. -/
  | unread {n : Nat} (fails : failsAfter = some n) (reached : n ≤ data.size) :
    StreamOutcome c data failsAfter limit (.error (.other "read failed")) .empty
  /-- The bytes are read and hold no text. -/
  | notText (read : ∀ n ∈ failsAfter, data.size < n) (invalid : ¬ data.IsValidUTF8) :
    StreamOutcome c data failsAfter limit (.error .notText) .empty
  /-- The sink is full before the converted text is written. -/
  | cutOff {text : List Char} {n : Nat} (read : ∀ n ∈ failsAfter, data.size < n)
    (text_eq : data = encodeText text) (limited : limit = some n)
    (exceeded : n < (encodeText (c.report text).text).size) :
    StreamOutcome c data failsAfter limit (.error .writerFull)
      ((encodeText (c.report text).text).extract 0 n)
  /-- The converted text is written. -/
  | written {text : List Char} (read : ∀ n ∈ failsAfter, data.size < n)
    (text_eq : data = encodeText text)
    (kept : ∀ n ∈ limit, (encodeText (c.report text).text).size ≤ n) :
    StreamOutcome c data failsAfter limit (.ok (c.report text))
      (encodeText (c.report text).text)

theorem outcome_convertStream (c : Converter) (data : ByteArray) (failsAfter limit : Option Nat) :
    c.StreamOutcome data failsAfter limit
      (c.convertStream ⟨data, failsAfter⟩ ⟨.empty, limit⟩).1
      (c.convertStream ⟨data, failsAfter⟩ ⟨.empty, limit⟩).2.written := by
  rw [convertStream_eq]
  by_cases hd : Source.Delivers ⟨data, failsAfter⟩
  · rw [Source.readAll_of_delivers hd]
    simp only
    cases ht : decodeText data with
    | error cause =>
      obtain ⟨hv, rfl⟩ := decodeText_eq_error ht
      exact .notText hd hv
    | ok text =>
      have ht := (encodeText_of_decodeText ht).symm
      simp only [Sink.writeAll_empty]
      by_cases hl : ∀ n ∈ limit, (encodeText (c.report text).text).size ≤ n
      · rw [if_pos hl]
        exact .written hd ht hl
      · rw [if_neg hl]
        obtain ⟨n, rfl, hn⟩ : ∃ n, limit = some n ∧ _ := by simpa using hl
        exact .cutOff hd ht rfl hn
  · rw [Source.readAll_of_not_delivers hd]
    obtain ⟨n, rfl, hn⟩ : ∃ n, failsAfter = some n ∧ n ≤ data.size := by
      simpa [Source.Delivers] using hd
    exact .unread rfl hn

end Converter

/-- The conversion of a stream. Reading fails first, then decoding, and of neither anything is
written; a sink with a limit takes no more than that of the converted text. So what is written of a
text is always the front of what it is converted to, and the conversion succeeds exactly when the
text is read and all of that is written. -/
theorem stream_written_in_front (c : Converter) (data : ByteArray) (failsAfter limit : Option Nat) :
    let (result, sink) := c.convertStream ⟨data, failsAfter⟩ ⟨.empty, limit⟩
    c.StreamOutcome data failsAfter limit result sink.written ∧
      ∀ text, data = encodeText text →
        (∃ rest, sink.written ++ rest = encodeText (c.report text).text) ∧
          ((∃ report, result = .ok report) ↔
            (∀ n ∈ failsAfter, data.size < n) ∧
              sink.written = encodeText (c.report text).text) := by
  have h := c.outcome_convertStream data failsAfter limit
  generalize c.convertStream ⟨data, failsAfter⟩ ⟨.empty, limit⟩ = outcome at h ⊢
  obtain ⟨result, written, _⟩ := outcome
  refine ⟨h, ?_⟩
  rintro text rfl
  simp only at h ⊢
  cases h with
  | @unread n fails reached =>
    refine ⟨⟨_, ByteArray.empty_append⟩, iff_of_false nofun fun h => ?_⟩
    exact absurd (h.1 n fails) (not_lt.2 reached)
  | notText _ invalid => exact absurd (String.ofList text).isValidUTF8 invalid
  | @cutOff text' n _ text_eq _ exceeded =>
    obtain rfl := encodeText_injective text_eq
    generalize encodeText (c.report text).text = out at exceeded ⊢
    refine ⟨⟨out.extract n out.size, ?_⟩, iff_of_false nofun fun h => ?_⟩
    · rw [ByteArray.extract_append_extract, min_eq_left (Nat.zero_le n), max_eq_right exceeded.le,
        ByteArray.extract_zero_size]
    · -- the front is shorter than the whole
      have hs := congrArg ByteArray.size h.2
      rw [ByteArray.size_extract] at hs
      omega
  | @written text' read text_eq _ =>
    obtain rfl := encodeText_injective text_eq
    exact ⟨⟨.empty, ByteArray.append_empty⟩, fun _ => ⟨read, rfl⟩, fun _ => ⟨_, rfl⟩⟩

/-- A sink may be full in the middle of a character. -/
theorem stream_written_in_front_accent :
    let c : Converter := ⟨⟨"y4", by decide⟩, .compile "d1"⟩
    let written : ByteArray := ⟨#[0xc3]⟩
    c.convertStream ⟨encodeText ['é'], some 3⟩ ⟨.empty, some 1⟩ =
        (.error .writerFull, ⟨written, some 1⟩) ∧
      (∀ n ∈ some 3, (encodeText ['é']).size < n) ∧
      (∃ rest, written ++ rest = encodeText (c.report ['é']).text) ∧
      written ≠ encodeText (c.report ['é']).text := by
  intro c written
  have hnone : firstDecomposition c.input.tokens ['é'] = none := by
    rw [firstDecomposition_eq]; decide
  have hreport : c.report ['é'] = ⟨['é'], 0, []⟩ := by
    unfold Converter.report Converter.outcomes
    rw [scan_of_not_isDecomposition (firstDecomposition_eq_none_iff.1 hnone), scan_nil]
    rfl
  have hsize : ∀ n ∈ some 3, (encodeText ['é']).size < n := by decide
  have hread : Source.Delivers ⟨encodeText ['é'], some 3⟩ := hsize
  have hc : c.convertStream ⟨encodeText ['é'], some 3⟩ ⟨.empty, some 1⟩ =
      (.error .writerFull, ⟨written, some 1⟩) := by
    rw [Converter.convertStream_eq, Source.readAll_of_delivers hread]
    simp only [decodeText_encodeText, hreport]
    rfl
  have h := stream_written_in_front c (encodeText ['é']) (some 3) (some 1)
  rw [hc] at h
  obtain ⟨hfront, hok⟩ := h.2 ['é'] rfl
  exact ⟨hc, hsize, hfront, fun he => absurd (hok.2 ⟨hsize, he⟩) nofun⟩

end Redate
