/-
The formats of a session. Each request answers for itself whether it set a format, and the
converter after any requests is the one that is made afresh from the formats set last. So no
request that fails leaves a trace, and none is carried out in part.
-/
import Redate.Proofs.Conversion.Ordinals
import Redate.Session

namespace Redate

/-! ## Formats in force -/

/-- The input format that a request has set, as its answer tells. -/
def inputSet? : Request × Answer → Option String
  | (.configure input _, .done) | (.setInput input, .done) => some input
  | _ => none

/-- The output format that a request has set, as its answer tells. -/
def outputSet? : Request × Answer → Option String
  | (.configure _ output, .done) | (.setOutput output, .done) => some output
  | _ => none

/-- The last format that was set in the course of some requests, or the one at their start. -/
def lastSet (set? : Request × Answer → Option String) (first : String)
    (transcript : List (Request × Answer)) : String :=
  (transcript.filterMap set?).getLast?.getD first

theorem lastSet_cons (set? : Request × Answer → Option String) (first : String)
    (x : Request × Answer) (transcript : List (Request × Answer)) :
    lastSet set? first (x :: transcript) = lastSet set? ((set? x).getD first) transcript := by
  unfold lastSet
  rw [List.filterMap_cons]
  cases set? x with
  | none => rfl
  | some format => rw [List.getLast?_cons]; rfl

namespace Converter

/-- The requests of a session with their answers. -/
def transcript (c : Converter) (rs : List Request) : List (Request × Answer) :=
  rs.zip ((c.session rs).map Prod.fst)

/-- The converter in force after some requests. -/
def after (c : Converter) (rs : List Request) : Converter :=
  rs.foldl (fun c r => (c.answer r).2) c

theorem transcript_cons (c : Converter) (r : Request) (rs : List Request) :
    c.transcript (r :: rs) = (r, (c.answer r).1) :: (c.answer r).2.transcript rs := rfl

/-! ## One request -/

/-- A request sets the formats that its answer tells, and no others. -/
theorem answer_formats (c : Converter) (r : Request) :
    (c.answer r).2.input.text = (inputSet? (r, (c.answer r).1)).getD c.input.text ∧
      (c.answer r).2.output.text = (outputSet? (r, (c.answer r).1)).getD c.output.text := by
  cases r with
  | configure input output =>
    cases h : compile input output with
    | ok c' =>
      obtain ⟨hi, ho⟩ := compile_eq_ok_iff.1 h
      simpa [answer, h, replaceBy, inputSet?, outputSet?] using ⟨hi, ho⟩
    | error e => simp [answer, h, replaceBy, inputSet?, outputSet?]
  | setInput input =>
    cases h : InputFormat.compile input with
    | ok f =>
      have hi := InputFormat.compile_eq_ok_iff.1 h
      simpa [answer, withInput, h, Except.map, replaceBy, inputSet?, outputSet?] using hi
    | error e => simp [answer, withInput, h, Except.map, replaceBy, inputSet?, outputSet?]
  | setOutput output => exact ⟨rfl, rfl⟩
  | render | find | convert | report => exact ⟨rfl, rfl⟩

/-- A request that does not report success changes nothing. -/
theorem answer_eq_self {c : Converter} {r : Request} (h : (c.answer r).1 ≠ .done) :
    (c.answer r).2 = c := by
  have hr : ∀ x : Except Error Converter, (c.replaceBy x).1 ≠ .done → (c.replaceBy x).2 = c := by
    rintro (e | c') hx
    · rfl
    · exact absurd rfl hx
  cases r with
  | configure | setInput => exact hr _ h
  | setOutput => exact absurd rfl h
  | render | find | convert | report => rfl

/-- An input format that compiles is set, and one that does not fails the whole request. -/
theorem answer_of_compile (c : Converter) (input : String) :
    (∀ f, InputFormat.compile input = .ok f →
      (c.answer (.setInput input)).1 = .done ∧
        ∀ output, (c.answer (.configure input output)).1 = .done) ∧
    ∀ e, InputFormat.compile input = .error e →
      c.answer (.setInput input) = (.failed e, c) ∧
        ∀ output, c.answer (.configure input output) = (.failed e, c) := by
  constructor <;> intro x h <;> simp [answer, withInput, compile, h, Except.map, replaceBy]

/-! ## A run of requests -/

theorem session_append (c : Converter) (rs more : List Request) :
    c.session (rs ++ more) = c.session rs ++ (c.after rs).session more := by
  induction rs generalizing c with
  | nil => rfl
  | cons r rs ih => exact congrArg (c.answer r :: ·) (ih _)

theorem getLast?_session (c : Converter) (rs : List Request) :
    ∀ step ∈ (c.session rs).getLast?, step.2 = c.after rs := by
  rcases List.eq_nil_or_concat rs with rfl | ⟨rs, r, rfl⟩
  · rintro step ⟨⟩
  · have hs := c.session_append rs [r]
    have ha : c.after (rs ++ [r]) = ((c.after rs).answer r).2 := List.foldl_concat ..
    rw [List.concat_eq_append, hs, ha]
    show ∀ step ∈ (c.session rs ++ [(c.after rs).answer r]).getLast?, _
    rw [List.getLast?_concat]
    rintro step ⟨⟩
    rfl

/-- After a run of requests the formats in force are those that were set last. -/
theorem after_formats (c : Converter) (rs : List Request) :
    (c.after rs).input.text = lastSet inputSet? c.input.text (c.transcript rs) ∧
      (c.after rs).output.text = lastSet outputSet? c.output.text (c.transcript rs) := by
  induction rs generalizing c with
  | nil => exact ⟨rfl, rfl⟩
  | cons r rs ih =>
    obtain ⟨hi, ho⟩ := c.answer_formats r
    have ih := ih (c.answer r).2
    rw [hi, ho] at ih
    rw [transcript_cons, lastSet_cons, lastSet_cons]
    exact ih

end Converter

/-- Sessions remember nothing but their formats. After any requests to a converter the one in force
is the one made afresh from the input format and the output format that were set last, and whatever
is asked next is answered as by that one. A request that does not report success changes nothing.
An output format is always set; an input format is set if it compiles, and if it does not, nothing
of the request is carried out. -/
theorem session_remembers_formats {input output : String} {c₀ : Converter}
    (h : Converter.compile input output = .ok c₀) (rs : List Request) :
    let input' := lastSet inputSet? input (c₀.transcript rs)
    let output' := lastSet outputSet? output (c₀.transcript rs)
    ∃ c, Converter.compile input' output' = .ok c ∧
      (c.input.text = input' ∧ c.output.text = output') ∧
      (∀ step ∈ (c₀.session rs).getLast?, step.2 = c) ∧
      (∀ more, c₀.session (rs ++ more) = c₀.session rs ++ c.session more) ∧
      (∀ r, (c.answer r).1 ≠ .done → (c.answer r).2 = c) ∧
      (∀ format, (c.answer (.setOutput format)).1 = .done) ∧
      ∀ format,
        (∀ f, InputFormat.compile format = .ok f →
          (c.answer (.setInput format)).1 = .done ∧
            ∀ other, (c.answer (.configure format other)).1 = .done) ∧
        ∀ e, InputFormat.compile format = .error e →
          c.answer (.setInput format) = (.failed e, c) ∧
            ∀ other, c.answer (.configure format other) = (.failed e, c) := by
  intro input' output'
  obtain ⟨rfl, rfl⟩ := Converter.compile_eq_ok_iff.1 h
  have hf := c₀.after_formats rs
  exact ⟨c₀.after rs, Converter.compile_eq_ok_iff.2 hf, hf, c₀.getLast?_session rs,
    c₀.session_append rs, fun _ => Converter.answer_eq_self, fun _ => rfl,
    fun format => Converter.answer_of_compile _ format⟩

/-- A request for two formats of which the first is too large, between requests that succeed. -/
theorem session_remembers_formats_failure :
    let large := optionalOrdinals 20000
    let rs := [.setOutput "d1", .configure large "m1", .setInput "y2"]
    ∃ c₀, Converter.compile "m2/d2/y4" "y4" = .ok c₀ ∧
      lastSet inputSet? "m2/d2/y4" (c₀.transcript rs) = "y2" ∧
      lastSet outputSet? "y4" (c₀.transcript rs) = "d1" ∧
      ∃ c, Converter.compile "y2" "d1" = .ok c ∧
        (∀ more, c₀.session (rs ++ more) = c₀.session rs ++ c.session more) ∧
        ∃ e, c.answer (.configure large "m1") = (.failed e, c) := by
  intro large rs
  obtain ⟨c₀, h⟩ : ∃ c₀, Converter.compile "m2/d2/y4" "y4" = .ok c₀ :=
    ⟨⟨⟨"m2/d2/y4", by decide⟩, .compile "y4"⟩, Converter.compile_eq_ok_iff.2 ⟨rfl, rfl⟩⟩
  obtain ⟨e, hlarge⟩ : ∃ e, InputFormat.compile large = .error e :=
    ⟨_, compile_optionalOrdinals (by decide)⟩
  have hfail := fun c : Converter => ((c.answer_of_compile large).2 e hlarge).2 "m1"
  have hdone := fun c : Converter =>
    ((c.answer_of_compile "y2").1 ⟨"y2", by decide⟩ (InputFormat.compile_eq_ok_iff.2 rfl)).1
  have ht : c₀.transcript rs = [(.setOutput "d1", .done), (.configure large "m1", .failed e),
      (.setInput "y2", .done)] := by
    simp only [rs, Converter.transcript_cons, hfail, hdone]
    rfl
  obtain ⟨c, hc, -, -, hmore, -, -, hformat⟩ := session_remembers_formats h rs
  have hi : lastSet inputSet? "m2/d2/y4" (c₀.transcript rs) = "y2" := by rw [ht]; rfl
  have ho : lastSet outputSet? "y4" (c₀.transcript rs) = "d1" := by rw [ht]; rfl
  rw [hi, ho] at hc
  exact ⟨c₀, h, hi, ho, c, hc, hmore, e, ((hformat large).2 e hlarge).2 "m1"⟩

end Redate
