/-
The steps of an output format. They are its tokens, with the literal characters that stand
together gathered into runs: no run is empty and no two runs are neighbours. The main statement
says that there is one such list of steps for every format, that nothing of the format is lost in
it, and that a date is written by the steps as it is by the tokens. The steps also come out of a
loop over the tokens that holds literal characters back until their run is over.
-/
import Mathlib
import Redate.Format.Input
import Redate.Format.Output

namespace Redate
namespace Step

/-- The tokens that the step was made of. -/
def tokens : Step → List Token
  | literal text => text.map Token.literal
  | tag t => [.tag t]

/-- The part of the format that the step was made of. -/
def text : Step → List Char
  | literal text => text
  | tag t => t.key

/-- The tag of a step, if it is one. -/
def tag? : Step → Option Tag
  | literal _ => none
  | tag t => some t

/-- No run of literal characters is empty, and of two neighbours at least one is a tag. -/
structure Merged (steps : List Step) : Prop where
  notMem : literal [] ∉ steps
  apart : steps.IsChain fun s t => s.tag?.isSome ∨ t.tag?.isSome

/-! ## Nothing is lost -/

theorem flatMap_tokens_push (t : Token) (steps : List Step) :
    (push t steps).flatMap tokens = t :: steps.flatMap tokens := by
  fun_cases push t steps <;> rfl

theorem flatMap_tokens_ofTokens (ts : List Token) : (ofTokens ts).flatMap tokens = ts := by
  unfold ofTokens
  induction ts with
  | nil => rfl
  | cons t ts ih => rw [List.foldr_cons, flatMap_tokens_push, ih]

theorem flatMap_text_eq (steps : List Step) :
    steps.flatMap text = (steps.flatMap tokens).flatMap Token.text := by
  rw [List.flatMap_assoc]
  congr 1
  funext s
  cases s with
  | literal text => simp [Step.text, tokens, List.flatMap_map, Token.text]
  | tag t => simp [text, tokens, Token.text]

theorem filterMap_tag?_eq (steps : List Step) :
    steps.filterMap tag? = (steps.flatMap tokens).filterMap Token.tag? := by
  induction steps with
  | nil => rfl
  | cons s steps ih =>
    rw [List.flatMap_cons, List.filterMap_append, ← ih, List.filterMap_cons]
    cases s with
    | literal text => simp [tag?, tokens, List.filterMap_map, Token.tag?, Function.comp_def]
    | tag t => rfl

/-! ## The one merged form -/

theorem merged_nil : Merged [] :=
  ⟨List.not_mem_nil, .nil⟩

theorem Merged.append {a b : List Step} (ha : Merged a) (hb : Merged b)
    (h : ∀ s ∈ a.getLast?, ∀ t ∈ b.head?, s.tag?.isSome ∨ t.tag?.isSome) : Merged (a ++ b) :=
  ⟨by simp [ha.notMem, hb.notMem], List.isChain_append.2 ⟨ha.apart, hb.apart, h⟩⟩

theorem merged_singleton {s : Step} (h : s ≠ literal []) : Merged [s] :=
  ⟨by simpa using h.symm, .singleton s⟩

theorem Merged.cons {s : Step} {steps : List Step} (h : Merged steps) (hs : s ≠ literal [])
    (ht : ∀ t ∈ steps.head?, s.tag?.isSome ∨ t.tag?.isSome) : Merged (s :: steps) :=
  (merged_singleton hs).append h (by simpa using ht)

theorem Merged.tail {s : Step} {steps : List Step} (h : Merged (s :: steps)) : Merged steps :=
  ⟨fun hm => h.notMem (List.mem_cons_of_mem s hm), h.apart.tail⟩

/-- Only a tag follows a run of literal characters. -/
theorem Merged.isSome_of_head? {text : List Char} {steps : List Step}
    (h : Merged (literal text :: steps)) : ∀ s ∈ steps.head?, s.tag?.isSome := by
  intro s hs
  exact ((List.isChain_cons.1 h.apart).1 s hs).resolve_left Bool.false_ne_true

theorem Merged.push {steps : List Step} (h : Merged steps) (t : Token) : Merged (push t steps) := by
  fun_cases Step.push t steps with
  | case1 c text steps => exact h.tail.cons (by simp) fun s hs => .inr (h.isSome_of_head? s hs)
  | case2 c steps hn =>
    refine h.cons (by simp) fun s hs => .inr ?_
    cases s with
    | tag t => rfl
    | literal text =>
      obtain ⟨more, rfl⟩ := List.head?_eq_some_iff.1 hs
      exact absurd rfl (hn text more)
  | case3 t => exact h.cons (by simp) fun s _ => .inl rfl

theorem merged_ofTokens (ts : List Token) : Merged (ofTokens ts) := by
  unfold ofTokens
  induction ts with
  | nil => exact merged_nil
  | cons t ts ih => exact ih.push t

theorem push_literal {steps : List Step} (h : ∀ s ∈ steps.head?, s.tag?.isSome) (c : Char) :
    push (.literal c) steps = literal [c] :: steps := by
  cases steps with
  | nil => rfl
  | cons s steps =>
    cases s with
    | tag t => rfl
    | literal text => exact absurd (h _ rfl) Bool.false_ne_true

/-- Literal characters in front of a tag are gathered into one run. -/
theorem foldr_push_literal {text : List Char} {steps : List Step} (ht : text ≠ [])
    (h : ∀ s ∈ steps.head?, s.tag?.isSome) :
    (text.map Token.literal).foldr push steps = literal text :: steps := by
  induction text with
  | nil => exact absurd rfl ht
  | cons c text ih =>
    rw [List.map_cons, List.foldr_cons]
    cases text with
    | nil => exact push_literal h c
    | cons d text => rw [ih (List.cons_ne_nil d text)]; rfl

theorem ofTokens_flatMap_tokens {steps : List Step} (h : Merged steps) :
    ofTokens (steps.flatMap tokens) = steps := by
  induction steps with
  | nil => rfl
  | cons s steps ih =>
    have ih := ih h.tail
    unfold ofTokens at ih ⊢
    rw [List.flatMap_cons, List.foldr_append, ih]
    cases s with
    | tag t => rfl
    | literal text =>
      have ht : text ≠ [] := by
        rintro rfl
        exact h.notMem List.mem_cons_self
      exact foldr_push_literal ht h.isSome_of_head?

/-- Steps are determined by the tokens that they are made of. -/
theorem ofTokens_eq_iff {ts : List Token} {steps : List Step} :
    ofTokens ts = steps ↔ Merged steps ∧ steps.flatMap tokens = ts := by
  constructor
  · rintro rfl
    exact ⟨merged_ofTokens ts, flatMap_tokens_ofTokens ts⟩
  · rintro ⟨h, rfl⟩
    exact ofTokens_flatMap_tokens h

end Step

/-! ## Steps one after the other -/

namespace StepBuilder

/-- The builder has taken these tokens: they are in its steps, which are merged and end with a tag,
but for the literals among them that are pending. -/
structure Holds (b : StepBuilder) (ts : List Token) : Prop where
  tokens_eq : b.steps.flatMap Step.tokens ++ b.pending.map Token.literal = ts
  merged : Step.Merged b.steps
  closed : ∀ s ∈ b.steps.getLast?, s.tag?.isSome

theorem Holds.flush {b : StepBuilder} {ts : List Token} (h : b.Holds ts) :
    Step.Merged b.flush ∧ b.flush.flatMap Step.tokens = ts := by
  unfold StepBuilder.flush
  rw [← h.tokens_eq]
  split
  · next hp => simp [hp, h.merged]
  · next hp =>
    refine ⟨h.merged.append (Step.merged_singleton (by simpa using hp)) ?_, ?_⟩
    · exact fun s hs _ _ => .inl (h.closed s hs)
    · rw [List.flatMap_append, List.flatMap_singleton]
      rfl

theorem Holds.take {b : StepBuilder} {ts : List Token} (h : b.Holds ts) (t : Token) :
    (b.take t).Holds (ts ++ [t]) := by
  cases t with
  | literal c =>
    refine ⟨?_, h.merged, h.closed⟩
    rw [← h.tokens_eq, List.append_assoc]
    simp [StepBuilder.take]
  | tag t =>
    obtain ⟨hm, ht⟩ := h.flush
    refine ⟨?_, hm.append (Step.merged_singleton (by simp)) ?_, ?_⟩
    · simp [StepBuilder.take, ht, Step.tokens]
    · rintro s - _ ⟨⟩
      exact .inr rfl
    · simp [StepBuilder.take, Step.tag?]

theorem holds_foldl_take (ts : List Token) : (ts.foldl take ⟨[], []⟩).Holds ts := by
  -- the loop goes from left to right, so the induction takes the last token off
  induction ts using List.reverseRecOn with
  | nil => exact ⟨rfl, Step.merged_nil, by simp⟩
  | append_singleton ts t ih =>
    rw [List.foldl_concat]
    exact ih.take t

theorem build_eq (ts : List Token) : build ts = Step.ofTokens ts :=
  (Step.ofTokens_eq_iff.2 (holds_foldl_take ts).flush).symm

end StepBuilder

namespace OutputFormat

/-- The tags of the format, as they stand among its steps. -/
def tags (f : OutputFormat) : List Tag :=
  f.steps.filterMap Step.tag?

theorem flatMap_tokens_compile (format : String) :
    (compile format).steps.flatMap Step.tokens = tokenize format.toList :=
  Step.flatMap_tokens_ofTokens _

theorem tags_compile (format : String) :
    (compile format).tags = (tokenize format.toList).filterMap Token.tag? := by
  rw [tags, Step.filterMap_tag?_eq, flatMap_tokens_compile]

/-- The steps of a format are the one list that is made of its tokens and merged, and the loop over
the tokens builds it. The steps spell the format. Their tags are those of its tokens, and, if it
compiles as an input format, those that the groups and the slots of this are for, one by one. A date
is written as the tokens write it: each literal as itself, each tag as its part of the date. -/
theorem compile_steps_merge (format : String) :
    (∀ steps, (compile format).steps = steps ↔
      Step.Merged steps ∧ steps.flatMap Step.tokens = tokenize format.toList) ∧
    StepBuilder.build (tokenize format.toList) = (compile format).steps ∧
    (compile format).steps.flatMap Step.text = format.toList ∧
    (compile format).tags = (tokenize format.toList).filterMap Token.tag? ∧
    (∀ f, InputFormat.compile format = .ok f →
      f.tags = (compile format).tags ∧ f.slots = (compile format).tags.map Tag.slot?) ∧
    ∀ d, (compile format).render d = (tokenize format.toList).flatMap (Token.render d) := by
  refine ⟨fun _ => Step.ofTokens_eq_iff, StepBuilder.build_eq _, ?_, tags_compile format,
    fun f hf => ?_, render_eq (compile format)⟩
  · rw [Step.flatMap_text_eq, flatMap_tokens_compile, flatMap_text_tokenize]
  · obtain rfl := InputFormat.compile_eq_ok_iff.1 hf
    have ht : f.tags = (compile f.text).tags := (tags_compile f.text).symm
    exact ⟨ht, congrArg (List.map Tag.slot?) ht⟩

/-- Runs of literal characters at the start, between two tags and at the end of a format. -/
theorem compile_steps_merge_runs :
    let format := "the d2 of mly"
    let steps : List Step := [.literal ['t', 'h', 'e', ' '], .tag .paddedDay,
      .literal [' ', 'o', 'f', ' '], .tag .monthName, .literal ['y']]
    let f : InputFormat := ⟨format, by decide⟩
    Step.Merged steps ∧ steps.flatMap Step.tokens = tokenize format.toList ∧
      (compile format).steps = steps ∧
      InputFormat.compile format = .ok f ∧ f.tags = [.paddedDay, .monthName] ∧
        f.slots = [some .paddedDay, some .monthName] := by
  intro format steps f
  have hm : Step.Merged steps := ⟨by decide, by decide⟩
  have ht : steps.flatMap Step.tokens = tokenize format.toList := by decide
  have hf : InputFormat.compile format = .ok f := InputFormat.compile_eq_ok_iff.2 rfl
  obtain ⟨hsteps, -, -, -, hcompile, -⟩ := compile_steps_merge format
  have hs := (hsteps steps).2 ⟨hm, ht⟩
  obtain ⟨htags, hslots⟩ := hcompile f hf
  rw [tags, hs] at htags hslots
  exact ⟨hm, ht, hs, hf, htags, hslots⟩

end OutputFormat
end Redate
